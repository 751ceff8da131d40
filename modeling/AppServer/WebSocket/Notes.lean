import AppServer.Lib.Ranking
import AppServer.WebSocket.Activation

/-!
# What a call of `h2o_websocket_proceed` relies on

What wslay and the handlers are relied on for refers to how a call began, so
it is said of a run with notes taken on it (`note`): for each activation how
much input was unread at its last test and whether a callback has refused
since, for each handler how many calls of `send_websocket_message` it is
still to make. The notes restrict a run in nothing (`run_noted_iff`).
-/

namespace AppServer

namespace WebSocket

open Lib

/-! ## What is noted -/

/-- The note on an activation, or on a handler. -/
inductive Watch where
  | proceed (unread : ℕ) (refused : Bool)
  | receive (left : ℕ)
  deriving DecidableEq, Repr

/-- How much of the input is unread. -/
def State.unread (s : State) : ℕ := (s.sock.map fun k => k.input.length).getD 0

/-- wslay wants to read. -/
def State.wantsRead (s : State) : Bool := s.wsCtx.any WsCtx.wantRead

/-- `send_callback` would refuse. -/
def State.full (slots : ℕ) (s : State) : Bool :=
  s.sock.any Socket.writing || s.writeBuf.length = slots

/-- A callback has refused. -/
def noteRefusal : List Watch → List Watch
  | .proceed unread _ :: ws => .proceed unread true :: ws
  | ws => ws

/-- A handler has made a call. -/
def noteCall : List Watch → List Watch
  | .receive left :: ws => .receive (left - 1) :: ws
  | ws => ws

/-- The notes after an action. `sends` says how many calls of
`send_websocket_message` the handler is to make for a message. -/
def note (slots : ℕ) (sends : State → Msg → ℕ) (s : State) (ws : List Watch) :
    Action → List Watch
  | .proceed => if s.stack.head? = some (.proceed .arm) then ws.tail
    else .proceed s.unread false :: ws.tail
  | .sendCallback _ => if s.full slots then noteRefusal ws else ws
  | .recvCallback _ => if s.unread = 0 then noteRefusal ws else ws
  | .sendReturn rv _ | .recvReturn rv _ => if rv = 0 then ws else ws.tail
  | .onMsgCallback arg _ => .receive (sends s arg) :: ws
  | .sendWebsocketMessage _ _ => .proceed s.unread false :: noteCall ws
  | .handlerReturn => ws.tail
  | _ => ws

/-- What the note on the innermost activation says. -/
def refused : List Watch → Bool
  | .proceed _ refused :: _ => refused
  | _ => false

/-- How much input there was when it called `wslay_event_recv`. -/
def unreadAtCall : List Watch → ℕ
  | .proceed unread _ :: _ => unread
  | _ => 0

/-- The calls the innermost handler is still to make. -/
def callsLeft : List Watch → ℕ
  | .receive left :: _ => left
  | _ => 0

/-! ## What is relied on -/

/-- Reading that wslay has disabled stays disabled. -/
def KeepsReading (s : State) (w : WsCtx) : Prop := w.wantRead = true → s.wantsRead = true

/-- **What wslay and the handlers are relied on for.** A handler makes the
calls it is to make and does not close the connection. `wslay_event_send`
stops where `send_callback` refuses, and does not return 0 before, but with
its queue empty. `wslay_event_recv` stops where `recv_callback` refuses, does
not return 0 before some input has gone or reading is disabled, and has
delivered at most `most n` messages while `n` bytes are unread. -/
def ReliedOn (most : ℕ → ℕ) (x : State × List Watch) : Action → Prop
  | .sendWebsocketMessage _ w => 0 < callsLeft x.2 ∧ KeepsReading x.1 w
  | .closeWebsocket => False
  | .sendCallback _ => refused x.2 = false
  | .sendReturn rv w => (rv = 0 → w.wantWrite = true → refused x.2 = true) ∧ KeepsReading x.1 w
  | .recvCallback len => 0 < len ∧ refused x.2 = false
  | .recvReturn rv w =>
    (rv = 0 → x.1.unread < unreadAtCall x.2 ∨ w.wantRead = false) ∧ KeepsReading x.1 w
  | .onMsgCallback _ w => x.1.received.length < most x.1.unread ∧ KeepsReading x.1 w
  | _ => True

instance (s : State) (w : WsCtx) : Decidable (KeepsReading s w) :=
  inferInstanceAs (Decidable (_ → _))

instance (most : ℕ → ℕ) (x : State × List Watch) (a : Action) :
    Decidable (ReliedOn most x a) := by
  cases a <;> unfold ReliedOn <;> infer_instance

variable {slots : ℕ} {sends : State → Msg → ℕ} {most : ℕ → ℕ}
variable {s s' : State} {a : Action} {ws : List Watch} {wt : Watch}
variable {k : Socket} {w : WsCtx} {f : Frame} {st : List Frame}

/-! ## The notes and the stack -/

/-- The note on a frame, with `n` bytes unread. -/
inductive Noted (n : ℕ) : Frame → Watch → Prop
  | proceed {pc : ProceedPc} {unread : ℕ} {refused : Bool} :
      n ≤ unread → Noted n (.proceed pc) (.proceed unread refused)
  | receive {arg : Msg} {calls left : ℕ} : Noted n (.receive arg calls) (.receive left)

/-- **During a call** of `h2o_websocket_proceed` from the event loop. -/
structure InCall (slots : ℕ) (s : State) (ws : List Watch) : Prop where
  stack : StackOk s.stack
  sock : s.sock.isSome
  ctx : s.wsCtx.isSome
  room : s.writeBuf.length ≤ slots
  noted : List.Forall₂ (Noted s.unread) s.stack ws
  /-- Where `send_callback` has refused in this call, it would again. -/
  refused : s.stack.head? = some (.proceed .sending) → refused ws = true → s.full slots = true

/-- The note on the innermost activation. -/
theorem InCall.proceed {pc : ProceedPc} (hc : InCall slots s ws)
    (hst : s.stack = .proceed pc :: st) :
    ∃ unread refused ws', ws = .proceed unread refused :: ws' ∧ s.unread ≤ unread := by
  have hn := hst ▸ hc.noted
  cases hn with
  | cons hf _ =>
    cases hf with
    | proceed hle => exact ⟨_, _, _, rfl, hle⟩

/-- The note on the innermost handler. -/
theorem InCall.receive {arg : Msg} {calls : ℕ} (hc : InCall slots s ws)
    (hst : s.stack = .receive arg calls :: st) : ∃ left ws', ws = .receive left :: ws' := by
  have hn := hst ▸ hc.noted
  cases hn with
  | cons hf _ =>
    cases hf with
    | receive => exact ⟨_, _, rfl⟩

theorem Noted.mono {n m : ℕ} (h : Noted n f wt) (hnm : m ≤ n) : Noted m f wt := by
  cases h with
  | proceed hle => exact .proceed (hnm.trans hle)
  | receive => exact .receive

theorem unread_of_sock (hk : s.sock = some k) : s.unread = k.input.length := by
  rw [State.unread, hk]
  rfl

theorem unread_close : (onClose s).unread = s.unread := by
  rw [State.unread, State.unread, onClose_sock]
  cases s.sock <;> rfl

theorem noted_mono {n m : ℕ} (h : List.Forall₂ (Noted n) st ws) (hnm : m ≤ n) :
    List.Forall₂ (Noted m) st ws := h.imp fun _ _ hn => hn.mono hnm

/-- A step leaves no more unread than there was, for as long as the call
lasts. -/
theorem unread_step (h : Step slots s a s') (hne : s.stack ≠ []) : s'.unread ≤ s.unread := by
  cases h with
  | complete _ hst | recv _ hst | written _ hst | recvErr _ hst | writtenErr _ hst
    | completeNull _ hst => exact absurd hst hne
  | sendFail | recvFail | armClose => exact le_of_eq unread_close
  | closeWebsocket =>
    refine le_of_eq ?_
    show ((s.sock.map _).map _).getD 0 = _
    rw [Option.map_map]
    rfl
  | recvTaken _ hk =>
    rw [unread_of_sock hk, unread_of_sock rfl, List.length_drop]
    exact Nat.sub_le _ _
  | submit _ hk | armRead _ hk | armStop _ hk => rw [unread_of_sock hk, unread_of_sock rfl]
  | _ => exact le_refl _

section Noted

variable {n m : ℕ} {pc pc' : ProceedPc}

theorem noted_tail (h : List.Forall₂ (Noted n) (f :: st) ws) :
    List.Forall₂ (Noted n) st ws.tail := by
  cases h with
  | cons _ h => exact h

/-- An activation moves on. -/
theorem noted_replace (h : List.Forall₂ (Noted n) (.proceed pc :: st) ws) :
    List.Forall₂ (Noted n) (.proceed pc' :: st) ws := by
  cases h with
  | cons hf h =>
    cases hf with
    | proceed hle => exact .cons (.proceed hle) h

/-- It starts afresh. -/
theorem noted_restart (h : List.Forall₂ (Noted n) (.proceed pc :: st) ws) (hle : n ≤ m) :
    List.Forall₂ (Noted n) (.proceed pc' :: st) (.proceed m false :: ws.tail) :=
  .cons (.proceed hle) (noted_tail h)

theorem noted_refusal (h : List.Forall₂ (Noted n) st ws) :
    List.Forall₂ (Noted n) st (noteRefusal ws) := by
  cases h with
  | nil => exact .nil
  | cons hf h =>
    cases hf with
    | proceed hle => exact .cons (.proceed hle) h
    | receive => exact .cons .receive h

theorem noted_call (h : List.Forall₂ (Noted n) st ws) :
    List.Forall₂ (Noted n) (countCall st) (noteCall ws) := by
  cases h with
  | nil => exact .nil
  | cons hf h =>
    cases hf with
    | proceed hle => exact .cons (.proceed hle) h
    | receive => exact .cons .receive h

end Noted

theorem note_proceed {pc : ProceedPc} (hst : s.stack = .proceed pc :: st) (hpc : pc ≠ .arm) :
    note slots sends s ws .proceed = .proceed s.unread false :: ws.tail := by
  rw [note, hst, List.head?_cons, if_neg (by simpa using hpc)]

theorem note_arm (hst : s.stack = .proceed .arm :: st) :
    note slots sends s ws .proceed = ws.tail := by
  rw [note, hst, List.head?_cons, if_pos rfl]

/-- The notes keep to the stack. -/
theorem noted_step (h : Step slots s a s') (hne : s.stack ≠ []) (hc : InCall slots s ws) :
    List.Forall₂ (Noted s'.unread) s'.stack (note slots sends s ws a) := by
  have hle := unread_step h hne
  have hn := noted_mono hc.noted hle
  cases h with
  | generator _ hst | contextInit _ hst | startUpgrade _ hst | completeNull _ hst
    | complete _ hst | recvErr _ hst | recv _ hst | writtenErr _ hst | written _ hst =>
    exact absurd hst hne
  | sendIgnored _ hw => exact absurd hw (Option.isSome_iff_ne_none.1 hc.ctx)
  | send => exact .cons (.proceed hle) (noted_call hn)
  | closeWebsocket => exact hn
  | handlerReturn hst => exact noted_tail (hst ▸ hn)
  | sendRefused | sendAccepted | recvBlocked | recvTaken =>
    rw [note]
    split
    · exact noted_refusal hn
    · exact hn
  | sendFail hst hrv | recvFail hst hrv =>
    rw [note, if_neg hrv]
    exact noted_tail (hst ▸ hn)
  | sendReturn hst | recvReturn hst => exact noted_replace (hst ▸ hn)
  | onMsg => exact .cons .receive hn
  | startSend hst | skipSend hst | startRecv hst | skipRecv hst | loop hst | leave hst
    | submit hst | noSubmit hst =>
    rw [note_proceed hst (by simp)]
    exact noted_restart (hst ▸ hn) hle
  | armRead hst | armStop hst | armClose hst =>
    rw [note_arm hst]
    exact noted_tail (hst ▸ hn)

/-- What an activation or a handler returns to is no call of
`wslay_event_send`. -/
theorem StackOk.head_tail_ne (h : StackOk (f :: st)) : st.head? ≠ some (.proceed .sending) := by
  cases h <;> simp

theorem full_eq_false (hk : s.sock = some k) (hw : k.writing = false)
    (hlen : s.writeBuf.length ≠ slots) : s.full slots = false := by
  simp [State.full, hk, hw, hlen]

/-- A note of a refusal is right for as long as `wslay_event_send` is
running. -/
theorem refused_step (h : Step slots s a s') (hne : s.stack ≠ []) (hc : InCall slots s ws)
    (hst' : s'.stack.head? = some (.proceed .sending))
    (hr : refused (note slots sends s ws a) = true) : s'.full slots = true := by
  have hstk := hc.stack
  cases h with
  | sendRefused hst hk =>
    rw [note] at hr
    split at hr
    · assumption
    · exact hc.refused hst' hr
  | sendAccepted hst hk hw hlen =>
    -- it has not refused, so no refusal had been noted
    have hfull := full_eq_false hk hw hlen
    rw [note, hfull, if_neg Bool.false_ne_true] at hr
    have hfull' := hc.refused hst' hr
    rw [hfull] at hfull'
    cases hfull'
  | startSend hst =>
    -- a call begins without one
    rw [note_proceed hst (by simp)] at hr
    cases hr
  | handlerReturn hst | sendFail hst | recvFail hst | armRead hst | armStop hst | armClose hst =>
    rw [hst] at hstk
    exact absurd hst' hstk.head_tail_ne
  | recvBlocked hst | recvTaken hst =>
    have hhead : s.stack.head? = some (.proceed .sending) := hst'
    rw [hst] at hhead
    cases hhead
  | generator _ hst | contextInit _ hst | startUpgrade _ hst | completeNull _ hst
    | recvErr _ hst | writtenErr _ hst => exact absurd hst hne
  | sendIgnored _ hw => exact absurd hw (Option.isSome_iff_ne_none.1 hc.ctx)
  | closeWebsocket hcall =>
    have hhead : s.stack.head? = some (.proceed .sending) := hst'
    obtain ⟨-, ⟨hnil, -⟩ | ⟨arg, calls, st, hst⟩⟩ := callable_cases hcall
    · exact absurd hnil hne
    · rw [hst] at hhead
      cases hhead
  | _ => cases hst'

/-- **One step of a call.** -/
theorem inCall_step (h : Step slots s a s') (hne : s.stack ≠ [])
    (hc : InCall slots s ws) : InCall slots s' (note slots sends s ws a) where
  stack := stackOk_step h hc.stack
  sock := sock_isSome_step h hc.sock
  ctx := by
    cases h with
    | contextInit | send | sendReturn | recvReturn | onMsg | sendFail | recvFail => rfl
    | _ => exact hc.ctx
  room := by
    cases h with
    | sendAccepted _ _ _ hlen =>
      have hle := hc.room
      rw [List.length_append, List.length_singleton]
      omega
    | written _ hst => exact absurd hst hne
    | _ => exact hc.room
  noted := noted_step h hne hc
  refused hst' hr := refused_step h hne hc hst' hr

/-- A call as the event loop makes it. -/
theorem inCall_start (hst : s.stack = [.proceed .sendTest]) (hk : s.sock.isSome)
    (hw : s.wsCtx.isSome) (hbuf : s.writeBuf.length ≤ slots) :
    InCall slots s [.proceed s.unread false] where
  stack := hst ▸ .event
  sock := hk
  ctx := hw
  room := hbuf
  noted := hst ▸ .cons (.proceed (le_refl _)) .nil
  refused _ hr := by cases hr

/-- The notes on a run restrict it in nothing. -/
theorem run_noted_iff {as : List Action} :
    (∃ ws', Run (monitored (step slots) (note slots sends)) anyStep (s, ws) as (s', ws')) ↔
      Run (step slots) anyStep s as s' :=
  ⟨fun ⟨_, h⟩ => h.of_monitored, fun h => h.exists_monitored ws⟩

end WebSocket

end AppServer
