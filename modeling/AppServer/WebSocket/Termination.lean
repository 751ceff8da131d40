import AppServer.WebSocket.Notes
import Mathlib.Data.Prod.Lex
import Mathlib.Data.Finset.Lattice.Fold

/-!
# The loop of `h2o_websocket_proceed` ends

Sending sets `handled`, and receiving refills the send queue from inside the
callback, where another activation runs. What comes down is read from the
outside in: first the input that can still be read, then the messages wslay
may still deliver for what it has read, and then, both staying as they are, a
weight of the stack. There an activation in `wslay_event_recv` weighs little
until some input has gone since it called, and only then as much as one more
round of its loop.
-/

namespace AppServer

namespace WebSocket

open Lib

variable {slots : ℕ} {sends : State → Msg → ℕ} {most : ℕ → ℕ}
variable {s s' : State} {a : Action} {ws : List Watch} {wt : Watch}
variable {k : Socket} {w : WsCtx} {f : Frame} {st : List Frame}

/-! ## The rank -/

/-- What can still be read, and one more where wslay wants to read. -/
def State.readable (s : State) : ℕ := s.unread + if s.wantsRead then 1 else 0

/-- `wslay_event_send` is to be called at the head of the loop. -/
def State.sendDue (s : State) : Bool :=
  !s.sock.any Socket.writing && s.wsCtx.any WsCtx.wantWrite

/-- What is left to do in a call under way, with `r` readable: where some
input has gone since the call, there is another round of the loop. -/
def callWeight (slots r : ℕ) : Watch → ℕ
  | .proceed unread refused =>
    (if r ≤ unread then 13 + slots else 1) + if refused then 0 else 1
  | .receive left => 1 + left * (11 + slots)

/-- What is left to do in the calls under way. -/
def callsWeight (slots r : ℕ) : List Watch → ℕ
  | [] => 0
  | wt :: ws => callWeight slots r wt + callsWeight slots r ws

/-- What is left to do in the innermost activation. Once round the loop with
nothing to send is 7; with something to send, there is the call of
`wslay_event_send` and the room it can fill, and then one round more. -/
def pcWeight (slots : ℕ) (s : State) (wt : Watch) : ProceedPc → ℕ
  | .recvTest true => if s.sendDue then 12 + slots else 7
  | .again true => if s.sendDue then 11 + slots else 6
  | .sendTest => if s.sendDue then 10 + slots else 5
  | .sending => 8 + (slots - s.writeBuf.length) + if refused [wt] then 0 else 1
  | .receiving => callWeight slots s.readable wt
  | .recvTest false => 4
  | .again false => 3
  | .write => 2
  | .arm => 1

/-- What is left to do in the innermost call. -/
def topWeight (slots : ℕ) (s : State) (wt : Watch) : Frame → ℕ
  | .proceed pc => pcWeight slots s wt pc
  | .receive _ _ => callWeight slots s.readable wt

/-- What is left to do, as long as nothing more is read or delivered. -/
def weight (slots : ℕ) (x : State × List Watch) : ℕ :=
  match x.1.stack, x.2 with
  | f :: _, wt :: ws => topWeight slots x.1 wt f + callsWeight slots x.1.readable ws
  | _, _ => 0

/-- **The rank**: the input, the messages, and the weight of the stack. -/
def rank (slots : ℕ) (most : ℕ → ℕ) (x : State × List Watch) : ℕ ×ₗ ℕ ×ₗ ℕ :=
  toLex (x.1.readable, toLex (most x.1.unread - x.1.received.length, weight slots x))

theorem callWeight_pos {r : ℕ} : 0 < callWeight slots r wt := by
  cases wt with
  | proceed unread refused =>
    rw [callWeight]
    split <;> omega
  | receive left => exact Nat.add_pos_left Nat.one_pos _

theorem topWeight_pos : 0 < topWeight slots s wt f := by
  cases f with
  | receive => exact callWeight_pos
  | proceed pc =>
    rw [topWeight]
    unfold pcWeight
    split
    case h_5 => exact callWeight_pos
    all_goals first | omega | (split <;> omega)

/-- The readable comes down, or nothing was read and wslay still reads. -/
theorem readable_lt_or_eq (hu : s'.unread ≤ s.unread)
    (hr : s'.wantsRead = true → s.wantsRead = true) :
    s'.readable < s.readable ∨ s'.readable = s.readable ∧ s'.unread = s.unread := by
  unfold State.readable
  cases hs' : s'.wantsRead with
  | false =>
    rw [if_neg Bool.false_ne_true]
    split <;> omega
  | true =>
    rw [hr hs', if_pos rfl]
    omega

/-- **The rank comes down** with the weight where nothing is read and no
message delivered, and in any case where a message is. -/
theorem rank_lt {ws' : List Watch} (hu : s'.unread ≤ s.unread)
    (hr : s'.wantsRead = true → s.wantsRead = true)
    (hlt : s'.readable = s.readable → s'.unread = s.unread →
      s.received.length < s'.received.length ∧ s.received.length < most s.unread ∨
      s'.received = s.received ∧ weight slots (s', ws') < weight slots (s, ws)) :
    rank slots most (s', ws') < rank slots most (s, ws) := by
  rw [rank, rank, Prod.Lex.toLex_lt_toLex]
  rcases readable_lt_or_eq hu hr with hread | ⟨hread, hun⟩
  · exact Or.inl hread
  · refine Or.inr ⟨hread, Prod.Lex.toLex_lt_toLex.2 ?_⟩
    rcases hlt hread hun with ⟨hrec, hmost⟩ | ⟨hrec, hw⟩
    · -- one message fewer may come
      left
      show most s'.unread - s'.received.length < most s.unread - s.received.length
      rw [hun]
      omega
    · right
      exact ⟨by rw [hun, hrec], hw⟩

/-! ## What each step does to the weight -/

theorem weight_of_cons (hst : s.stack = f :: st) : weight slots (s, wt :: ws) =
    topWeight slots s wt f + callsWeight slots s.readable ws := by
  rw [weight, hst]

/-- After a return, what is left is what is left in the calls under way. -/
theorem weight_of_return (hst : StackOk (f :: s.stack))
    (hn : List.Forall₂ (Noted s.unread) s.stack ws) :
    weight slots (s, ws) = callsWeight slots s.readable ws := by
  generalize hst' : s.stack = st at hst hn
  cases hst with
  | event =>
    cases hn
    rw [weight, hst']
    rfl
  | handler | nested =>
    cases hn with
    | cons hf hn => exact weight_of_cons hst'

/-- The innermost call returns. -/
theorem weight_lt_of_return (hc : InCall slots s ws) (hst : s.stack = f :: st)
    (hst' : s'.stack = st) (hr : s'.readable = s.readable) (hu : s'.unread = s.unread) :
    weight slots (s', ws.tail) < weight slots (s, ws) := by
  have hn := hst ▸ hc.noted
  cases hn with
  | @cons _ wt _ ws _ hn =>
    have hstk := hst ▸ hc.stack
    rw [List.tail_cons, weight_of_return (f := f) (hst' ▸ hstk) (hst' ▸ hu ▸ hn), hr,
      weight_of_cons hst]
    exact Nat.lt_add_of_pos_left topWeight_pos

/-- The innermost activation moves on. -/
theorem weight_lt_of_replace {pc pc' : ProceedPc} {wt' : Watch} (hst : s.stack = .proceed pc :: st)
    (hst' : s'.stack = .proceed pc' :: st) (hr : s'.readable = s.readable)
    (htop : pcWeight slots s' wt' pc' < pcWeight slots s wt pc) :
    weight slots (s', wt' :: ws) < weight slots (s, wt :: ws) := by
  rw [weight_of_cons hst, weight_of_cons hst', hr]
  exact Nat.add_lt_add_right htop _

/-- A handler calls `send_websocket_message`: each call it is still to make
pays for the activation that comes of it. -/
theorem weight_lt_of_send {arg : Msg} {calls : ℕ} (hc : InCall slots s ws)
    (hst : s.stack = .receive arg calls :: st) (hleft : 0 < callsLeft ws)
    (hst' : s'.stack = .proceed .sendTest :: countCall s.stack) (hr : s'.readable = s.readable) :
    weight slots (s', .proceed s.unread false :: noteCall ws) < weight slots (s, ws) := by
  obtain ⟨left, ws, rfl⟩ := hc.receive hst
  obtain ⟨n, rfl⟩ := Nat.exists_eq_add_of_lt hleft
  have htop : pcWeight slots s' (.proceed s.unread false) .sendTest ≤ 10 + slots := by
    rw [pcWeight]
    split <;> omega
  rw [weight_of_cons hst', weight_of_cons hst, hr]
  simp only [topWeight, noteCall, callsWeight, callWeight, Nat.zero_add, Nat.add_sub_cancel,
    Nat.succ_mul]
  omega

/-- `wslay_event_send` returns 0: with room left in the buffer there is
nothing more to send, or a write is in flight. -/
theorem weight_lt_of_sendReturn (hc : InCall slots s ws) (hst : s.stack = .proceed .sending :: st)
    (hrefused : w.wantWrite = true → refused ws = true) (hsock : s'.sock = s.sock)
    (hw : s'.wsCtx = some w)
    (hst' : s'.stack = .proceed (.recvTest (s.writeBuf.length < slots)) :: st)
    (hr : s'.readable = s.readable) : weight slots (s', ws) < weight slots (s, ws) := by
  obtain ⟨unread, r, ws, rfl, -⟩ := hc.proceed hst
  refine weight_lt_of_replace hst hst' hr ?_
  by_cases hlen : s.writeBuf.length < slots
  · have hdue : s'.sendDue = false := by
      cases hww : w.wantWrite with
      | false => simp [State.sendDue, hw, hww]
      | true =>
        have hfull := hc.refused (by rw [hst]; rfl) (hrefused hww)
        have hwriting : s.sock.any Socket.writing = true := by
          simpa [State.full, Nat.ne_of_lt hlen] using hfull
        simp [State.sendDue, hsock, hwriting]
    rw [decide_eq_true hlen, pcWeight, pcWeight, hdue, if_neg Bool.false_ne_true]
    omega
  · rw [decide_eq_false hlen, pcWeight, pcWeight]
    omega

/-- `wslay_event_recv` returns 0: some input has gone since its call, or it
reads no more. -/
theorem weight_lt_of_recvReturn (hc : InCall slots s ws)
    (hst : s.stack = .proceed .receiving :: st)
    (hgone : s.unread < unreadAtCall ws ∨ w.wantRead = false) (hw : s'.wsCtx = some w)
    (hst' : s'.stack = .proceed (.again true) :: st) (hr : s'.readable = s.readable)
    (hu : s'.unread = s.unread) : weight slots (s', ws) < weight slots (s, ws) := by
  obtain ⟨unread, r, ws, rfl, hun⟩ := hc.proceed hst
  refine weight_lt_of_replace hst hst' hr ?_
  have hle : s.readable ≤ unread := by
    rcases hgone with hlt | hstop
    · have hlt' : s.unread < unread := hlt
      rw [State.readable]
      split <;> omega
    · have hwants : s'.wantsRead = false := by rw [State.wantsRead, hw]; exact hstop
      rw [← hr, State.readable, hu, hwants]
      exact hun
  rw [pcWeight, pcWeight, callWeight, if_pos hle]
  split <;> omega

/-- `wslay_event_recv` is called: until some input has gone, little is left
to do in it. -/
theorem pcWeight_of_call (hu : s'.unread = s.unread) (hread : s'.wantsRead = true) :
    pcWeight slots s' (.proceed s.unread false) .receiving = 2 := by
  have hr : s'.readable = s.unread + 1 := by rw [State.readable, hu, hread, if_pos rfl]
  rw [pcWeight, hr, callWeight, if_neg (Nat.not_succ_le_self _)]
  rfl

/-! ## What each step does to the rank -/

/-- The innermost activation performs a statement and goes on. -/
theorem rank_lt_of_proceed {pc pc' : ProceedPc} (hc : InCall slots s ws)
    (hst : s.stack = .proceed pc :: st) (hst' : s'.stack = .proceed pc' :: st) (hpc : pc ≠ .arm)
    (hctx : s'.wsCtx = s.wsCtx) (hu : s'.unread = s.unread) (hrec : s'.received = s.received)
    (htop : ∀ wt, pcWeight slots s' (.proceed s.unread false) pc' < pcWeight slots s wt pc) :
    rank slots most (s', note slots sends s ws .proceed) < rank slots most (s, ws) := by
  have hread : s'.wantsRead = s.wantsRead := by rw [State.wantsRead, hctx, State.wantsRead]
  obtain ⟨unread, refused, ws', rfl, -⟩ := hc.proceed hst
  rw [note_proceed hst hpc]
  refine rank_lt hu.le hread.le fun hr _ => Or.inr ⟨hrec, ?_⟩
  exact weight_lt_of_replace hst hst' hr (htop _)

/-- **One statement of `h2o_websocket_proceed`.** -/
theorem rank_step_proceed (h : Step slots s .proceed s') (hc : InCall slots s ws) :
    rank slots most (s', note slots sends s ws .proceed) < rank slots most (s, ws) := by
  cases h with
  | startSend hst hk hw hwr hww =>
    have hdue : s.sendDue = true := by simp [State.sendDue, hk, hw, hwr, hww]
    refine rank_lt_of_proceed hc hst rfl (by simp) rfl rfl rfl fun wt => ?_
    rw [pcWeight, pcWeight, hdue, if_pos rfl]
    show 8 + (slots - s.writeBuf.length) + 1 < 10 + slots
    omega
  | skipSend hst hk hw hor =>
    refine rank_lt_of_proceed hc hst rfl (by simp) rfl rfl rfl fun wt => ?_
    rw [pcWeight, pcWeight]
    split <;> omega
  | @startRecv k w handled st hst hk hw hnil hread =>
    -- the rounds to come are paid for by the input that is to go first
    have hwants : s.wantsRead = true := by simp [State.wantsRead, hw, hread]
    refine rank_lt_of_proceed hc hst rfl (by simp) rfl rfl rfl fun wt => ?_
    refine lt_of_eq_of_lt (pcWeight_of_call rfl hwants) ?_
    cases handled with
    | false => exact (by decide : 2 < 4)
    | true =>
      rw [pcWeight]
      split <;> omega
  | @skipRecv k w handled st hst hk hw hor =>
    refine rank_lt_of_proceed hc hst rfl (by simp) rfl rfl rfl fun wt => ?_
    cases handled with
    | false => exact (by decide : 3 < 4)
    | true =>
      show (if s.sendDue then 11 + slots else 6) < if s.sendDue then 12 + slots else 7
      split <;> omega
  | loop hst =>
    refine rank_lt_of_proceed hc hst rfl (by simp) rfl rfl rfl fun wt => ?_
    show (if s.sendDue then 10 + slots else 5) < if s.sendDue then 11 + slots else 6
    split <;> omega
  | leave hst =>
    exact rank_lt_of_proceed hc hst rfl (by simp) rfl rfl rfl fun wt => (by decide : 2 < 3)
  | submit hst hk =>
    refine rank_lt_of_proceed hc hst rfl (by simp) rfl ?_ rfl fun wt => (by decide : 1 < 2)
    rw [unread_of_sock hk, unread_of_sock rfl]
  | noSubmit hst =>
    exact rank_lt_of_proceed hc hst rfl (by simp) rfl rfl rfl fun wt => (by decide : 1 < 2)
  | armRead hst hk | armStop hst hk =>
    rw [note_arm hst]
    refine rank_lt ?_ id fun hr hu => Or.inr ⟨rfl, weight_lt_of_return hc hst rfl hr hu⟩
    rw [unread_of_sock hk, unread_of_sock rfl]
  | armClose hst =>
    rw [note_arm hst]
    refine rank_lt unread_close.le id fun hr hu => Or.inr ⟨rfl, ?_⟩
    exact weight_lt_of_return hc hst rfl hr hu

/-- **One step of a call.** -/
theorem rank_step (h : Step slots s a s') (hok : ReliedOn most (s, ws) a) (hne : s.stack ≠ [])
    (hc : InCall slots s ws) :
    rank slots most (s', note slots sends s ws a) < rank slots most (s, ws) := by
  by_cases ha : a = .proceed
  · subst ha
    exact rank_step_proceed h hc
  have hle := unread_step h hne
  cases h with
  | generator _ hst | contextInit _ hst | startUpgrade _ hst | completeNull _ hst
    | complete _ hst | recvErr _ hst | recv _ hst | writtenErr _ hst | written _ hst =>
    exact absurd hst hne
  | sendIgnored _ hw => exact absurd hw (Option.isSome_iff_ne_none.1 hc.ctx)
  | send hcall =>
    obtain ⟨-, ⟨hnil, -⟩ | ⟨arg, calls, st, hst⟩⟩ := callable_cases hcall
    · exact absurd hnil hne
    · refine rank_lt hle hok.2 fun hr _ => Or.inr ⟨rfl, ?_⟩
      exact weight_lt_of_send hc hst hok.1 rfl hr
  | closeWebsocket => exact hok.elim
  -- returns take their own weight off the stack
  | handlerReturn hst =>
    refine rank_lt hle id fun hr hu => Or.inr ⟨rfl, ?_⟩
    exact weight_lt_of_return hc hst rfl hr hu
  | sendRefused hst hk hfull =>
    have hs : s.full slots = true := by simpa [State.full, hk] using hfull
    obtain ⟨unread, r, ws', rfl, -⟩ := hc.proceed hst
    obtain rfl : r = false := hok
    rw [note, if_pos hs]
    refine rank_lt hle id fun _ _ => Or.inr ⟨rfl, weight_lt_of_replace hst hst rfl ?_⟩
    exact Nat.lt_succ_self _
  | sendAccepted hst hk hw hlen =>
    have hroom := hc.room
    obtain ⟨unread, r, ws', rfl, -⟩ := hc.proceed hst
    rw [note, full_eq_false hk hw hlen, if_neg Bool.false_ne_true]
    refine rank_lt hle id fun hr _ => Or.inr ⟨rfl, weight_lt_of_replace hst hst hr ?_⟩
    simp only [pcWeight, List.length_append, List.length_singleton]
    omega
  | sendFail hst hrv | recvFail hst hrv =>
    refine rank_lt hle hok.2 fun hr hu => Or.inr ⟨rfl, ?_⟩
    rw [note, if_neg hrv]
    exact weight_lt_of_return hc hst rfl hr hu
  | sendReturn hst =>
    refine rank_lt hle hok.2 fun hr _ => Or.inr ⟨rfl, ?_⟩
    exact weight_lt_of_sendReturn hc hst (hok.1 rfl) rfl rfl rfl hr
  | recvBlocked hst hk hnil =>
    have hu : s.unread = 0 := by rw [unread_of_sock hk, hnil, List.length_nil]
    obtain ⟨unread, r, ws', rfl, -⟩ := hc.proceed hst
    obtain rfl : r = false := hok.2
    rw [note, if_pos hu]
    refine rank_lt hle id fun _ _ => Or.inr ⟨rfl, weight_lt_of_replace hst hst rfl ?_⟩
    exact Nat.lt_succ_self _
  | recvTaken hst hk hnil =>
    -- the input comes down, whatever the weight does
    refine rank_lt hle id fun _ hu => ?_
    have hpos := List.length_pos_iff.2 hnil
    have hlen := hok.1
    rw [unread_of_sock hk, unread_of_sock rfl, List.length_drop] at hu
    omega
  | onMsg =>
    -- and here the messages that may still come
    refine rank_lt hle hok.2 fun _ _ => Or.inl ⟨?_, hok.1⟩
    rw [List.length_append, List.length_singleton]
    exact Nat.lt_succ_self _
  | recvReturn hst =>
    refine rank_lt hle hok.2 fun hr hu => Or.inr ⟨rfl, ?_⟩
    exact weight_lt_of_recvReturn hc hst (hok.1 rfl) rfl rfl hr hu
  | startSend | skipSend | startRecv | skipRecv | loop | leave | submit | noSubmit | armRead
    | armStop | armClose => exact absurd rfl ha

/-! ## Going on -/

/-- An activation that is not in wslay performs its next statement. -/
theorem advance_isSome {pc : ProceedPc} (hs : pc ≠ .sending) (hr : pc ≠ .receiving) :
    (advance s k w st pc).isSome := by
  cases pc with
  | sending => exact absurd rfl hs
  | receiving => exact absurd rfl hr
  | again handled => cases handled <;> rfl
  | sendTest | recvTest | write =>
    rw [advance]
    split <;> rfl
  | arm =>
    rw [advance]
    split
    · rfl
    · split <;> rfl

/-- Until it returns, a call can go on in a way that is relied on. -/
theorem goes_on (most : ℕ → ℕ) (hc : InCall slots s ws) (hne : s.stack ≠ []) :
    ∃ a, ReliedOn most (s, ws) a ∧ (step slots s a).isSome := by
  obtain ⟨k, hk⟩ := Option.isSome_iff_exists.1 hc.sock
  obtain ⟨w, hw⟩ := Option.isSome_iff_exists.1 hc.ctx
  have hkeep : KeepsReading s w := fun hread => by simp [State.wantsRead, hw, hread]
  have hfail : (-1 : ℤ) ≠ 0 := by decide
  obtain ⟨f, st, hst⟩ := List.exists_cons_of_ne_nil hne
  cases f with
  | receive arg calls =>
    refine ⟨.handlerReturn, trivial, ?_⟩
    rw [step, hst]
    rfl
  | proceed pc =>
    by_cases hsend : pc = .sending
    · subst hsend
      refine ⟨.sendReturn (-1) w, ⟨fun h => absurd h hfail, hkeep⟩, ?_⟩
      rw [step, hst]
      rfl
    · by_cases hrecv : pc = .receiving
      · subst hrecv
        refine ⟨.recvReturn (-1) w, ⟨fun h => absurd h hfail, hkeep⟩, ?_⟩
        rw [step, hst]
        rfl
      · refine ⟨.proceed, trivial, ?_⟩
        rw [step, hst, hk, hw]
        exact advance_isSome hsend hrecv

/-! ## How deep it gets -/

/-- The frame is a handler's. -/
def Frame.isReceive : Frame → Bool
  | .receive _ _ => true
  | .proceed _ => false

/-- The handlers on the stack. -/
def handlers (st : List Frame) : ℕ := st.countP Frame.isReceive

@[simp] theorem handlers_nil : handlers [] = 0 := rfl

@[simp] theorem handlers_proceed {pc : ProceedPc} :
    handlers (.proceed pc :: st) = handlers st :=
  List.countP_cons_of_neg (by simp [Frame.isReceive])

@[simp] theorem handlers_receive {arg : Msg} {calls : ℕ} :
    handlers (.receive arg calls :: st) = handlers st + 1 :=
  List.countP_cons_of_pos rfl

/-- Activations and handlers alternate, so that the handlers are half of the
stack. -/
theorem StackOk.length_le (h : StackOk st) :
    st.length + handlers (st.take 1) ≤ 2 * handlers st + 1 := by
  induction h with
  | nil => decide
  | event => simp
  | handler _ ih => simp at ih ⊢; omega
  | nested _ ih => simp at ih ⊢; omega

@[simp] theorem handlers_countCall : handlers (countCall st) = handlers st := by
  cases st with
  | nil => rfl
  | cons f st => cases f <;> simp [countCall]

/-- Each handler on the stack is of a message of its own. -/
theorem handlers_step (h : Step slots s a s') (hle : handlers s.stack ≤ s.received.length) :
    handlers s'.stack ≤ s'.received.length := by
  cases h with
  | sendIgnored | complete | recv | written | send => simpa using hle
  | onMsg =>
    rw [handlers_receive, List.length_append, List.length_singleton]
    exact Nat.succ_le_succ hle
  | handlerReturn hst =>
    rw [hst, handlers_receive] at hle
    exact (Nat.le_succ _).trans hle
  | sendFail hst | recvFail hst | armRead hst | armStop hst | armClose hst =>
    rw [hst, handlers_proceed] at hle
    exact hle
  | sendReturn hst | recvReturn hst | startSend hst | skipSend hst | startRecv hst
    | skipRecv hst | loop hst | leave hst | submit hst | noSubmit hst =>
    rw [hst, handlers_proceed] at hle
    rw [handlers_proceed]
    exact hle
  | _ => exact hle

/-- No more messages are delivered than may be. -/
theorem received_step {b : ℕ} (h : Step slots s a s') (hok : ReliedOn most (s, ws) a)
    (hmost : most s.unread ≤ b) (hle : s.received.length ≤ b) : s'.received.length ≤ b := by
  cases h with
  | onMsg =>
    rw [List.length_append, List.length_singleton]
    exact (Nat.succ_le_of_lt hok.1).trans hmost
  | _ => exact hle

/-! ## The loop ends -/

/-- **`h2o_websocket_proceed` terminates.** Called with any input, event
context and write buffer, it comes to its end whatever wslay and the handlers
do that they are relied on for, through all the activations this causes; and
these do not nest deeper than a bound that is there from the start. -/
theorem proceed_terminates (sends : State → Msg → ℕ) (most : ℕ → ℕ)
    (hst : s.stack = [.proceed .sendTest]) (hk : s.sock.isSome) (hw : s.wsCtx.isSome)
    (hbuf : s.writeBuf.length ≤ slots) :
    Inevitable (guarded (monitored (step slots) (note slots sends)) (ReliedOn most))
      (fun x => x.1.stack = []) (s, [.proceed s.unread false]) ∧
    ∃ depth, ∀ as x, Run (monitored (step slots) (note slots sends))
      (fun x a => x.1.stack ≠ [] ∧ ReliedOn most x a) (s, [.proceed s.unread false]) as x →
        x.1.stack.length ≤ depth := by
  have hstart := inCall_start hst hk hw hbuf
  constructor
  · refine Inevitable.of_rank (I := fun x => InCall slots x.1 x.2) (r := rank slots most) hstart
      ?_ ?_
    · rintro ⟨s, ws⟩ hc hne
      obtain ⟨a, hok, hs⟩ := goes_on most hc hne
      obtain ⟨s', hs⟩ := Option.isSome_iff_exists.1 hs
      exact ⟨a, (s', note slots sends s ws a),
        guarded_eq_some.2 ⟨hok, monitored_eq_some.2 ⟨hs, rfl⟩⟩⟩
    · rintro ⟨s, ws⟩ a ⟨s', ws'⟩ hc hne hs
      obtain ⟨hok, hs⟩ := guarded_eq_some.1 hs
      obtain ⟨hs, hws : ws' = _⟩ := monitored_eq_some.1 hs
      subst hws
      have hstep := step_cases hs
      exact ⟨inCall_step hstep hne hc, rank_step hstep hok hne hc⟩
  · obtain ⟨b, hb⟩ : ∃ b, s.received.length ≤ b ∧ ∀ n ≤ s.unread, most n ≤ b := by
      refine ⟨max s.received.length ((Finset.range (s.unread + 1)).sup most), le_max_left _ _, ?_⟩
      intro n hn
      exact (Finset.le_sup (Finset.mem_range.2 (Nat.lt_succ_of_le hn))).trans (le_max_right _ _)
    refine ⟨2 * b + 1, fun as x hrun => ?_⟩
    have hI := hrun.invariant (I := fun x => StackOk x.1.stack ∧ x.1.unread ≤ s.unread ∧
      handlers x.1.stack ≤ x.1.received.length ∧ x.1.received.length ≤ b)
      ⟨hstart.stack, le_refl _, by rw [hst]; exact Nat.zero_le _, hb.1⟩ ?_
    · obtain ⟨hstk, -, hhandlers, hreceived⟩ := hI
      have hlen := hstk.length_le
      omega
    · rintro ⟨s₁, ws₁⟩ a ⟨s₂, ws₂⟩ ⟨hstk, hun, hhandlers, hreceived⟩ ⟨hne, hok⟩ hs
      have hstep := step_cases (monitored_eq_some.1 hs).1
      exact ⟨stackOk_step hstep hstk, (unread_step hstep hne).trans hun,
        handlers_step hstep hhandlers, received_step hstep hok (hb.2 _ hun) hreceived⟩

/-- A connection whose first read brought a ping and half a frame. -/
theorem proceed_terminates_sample : ∃ s,
    exec (step 4) State.initial (handshake [137, 128, 0, 0, 0, 0, 129]) = some s ∧
    Inevitable (guarded (monitored (step 4) (note 4 fun _ _ => 1)) (ReliedOn fun n => 7 - n))
      (fun x => x.1.stack = []) (s, [.proceed s.unread false]) ∧
    ∃ depth, ∀ as x, Run (monitored (step 4) (note 4 fun _ _ => 1))
      (fun x a => x.1.stack ≠ [] ∧ ReliedOn (fun n => 7 - n) x a)
      (s, [.proceed s.unread false]) as x → x.1.stack.length ≤ depth :=
  ⟨_, rfl, proceed_terminates (fun _ _ => 1) (fun n => 7 - n) rfl rfl rfl (by decide)⟩

end WebSocket

end AppServer
