import AppServer.WebSocket.WriteBuffer

/-!
# A connection does not stall

When `h2o_websocket_proceed` returns to the event loop, everything there is
to do is under way: bytes to send are in flight, input that is wanted has
been taken, and h2o has been asked for the event that goes on from there
(`Settled`).

The loop ends with `handled` false, which says something only about the last
round of the innermost activation: what it says at each point of that round
is `AtPoint`. The activations below it need say nothing, because they go
another round after whatever ran on top of them.
-/

namespace AppServer

namespace WebSocket

open Lib

variable {slots : ℕ} {s s' : State} {a : Action}

/-- **Nothing is left to do** on the socket `k` with the context `w` and the
write buffer `buf`. -/
structure Settled (k : Socket) (w : WsCtx) (buf : List IoVec) : Prop where
  /-- What is to be sent is in flight, or waits for what is. -/
  flushing : buf ≠ [] ∨ w.wantWrite = true → k.writing = true
  /-- Reading is armed where wslay wants to read, -/
  reading : k.reading = w.wantRead
  /-- which has then been given all there was. -/
  drained : w.wantRead = true → k.input = []
  /-- Some event is to come. -/
  armed : k.reading = true ∨ k.writing = true

/-- What the last round of the loop has established at each of its points. -/
def AtPoint (slots : ℕ) (k : Socket) (w : WsCtx) (buf : List IoVec) : ProceedPc → Prop
  | .recvTest false => w.wantWrite = true → k.writing = true ∨ slots ≤ buf.length
  | .again false | .write =>
    (w.wantWrite = true → k.writing = true ∨ slots ≤ buf.length) ∧
      (w.wantRead = true → k.input = [])
  | .arm =>
    (buf ≠ [] ∨ w.wantWrite = true → k.writing = true) ∧ (w.wantRead = true → k.input = [])
  | _ => True

/-- The innermost activation is on course, and where there is none the
connection is settled or closed. -/
def OnCourse (slots : ℕ) (s : State) (k : Socket) (w : WsCtx) : Prop :=
  match s.stack with
  | [] => s.closes = 0 → Settled k w s.writeBuf
  | .proceed pc :: _ => AtPoint slots k w s.writeBuf pc
  | .receive _ _ :: _ => True

/-- An activation returns, having left the connection settled, or closed. -/
theorem onCourse_return {k : Socket} {w : WsCtx} {pc : ProceedPc} {st : List Frame}
    (hs : StackOk (.proceed pc :: st)) (hst : s.stack = st)
    (h : s.closes = 0 → Settled k w s.writeBuf) : OnCourse slots s k w := by
  rcases hs.inv_proceed with hnil | ⟨arg, calls, st', hcons⟩
  · simp only [OnCourse, hst, hnil]
    exact h
  · simp only [OnCourse, hst, hcons]

/-- **One step stays on course.** -/
theorem onCourse_step (hslots : 0 < slots) (h : Step slots s a s') (hw : Wired s)
    (hI : ∀ k w, s.sock = some k → s.wsCtx = some w → OnCourse slots s k w)
    {k : Socket} {w : WsCtx} (hk : s'.sock = some k) (hc : s'.wsCtx = some w) :
    OnCourse slots s' k w := by
  have hstack := hw.stack
  -- before the handshake is complete there is no socket
  have hearly : s.stage ≠ .completed → s.sock ≠ some k := fun hstage hsock =>
    hstage (hw.completed (by simp [hsock]))
  have hclosed : ∀ {n : ℕ} {p : Prop}, n + 1 = 0 → p := fun h => absurd h (Nat.succ_ne_zero _)
  cases h with
  | generator hstage | contextInit hstage | startUpgrade hstage =>
    exact absurd hk (hearly (by simp [hstage]))
  | completeNull _ hst | recvErr _ hst | writtenErr _ hst =>
    simp only [OnCourse, onClose_stack, hst]
    exact hclosed
  | closeWebsocket hcall =>
    obtain ⟨-, ⟨hst, -⟩ | ⟨arg, calls, st, hst⟩⟩ := callable_cases hcall
    · simp only [OnCourse, h2oWebsocketClose_stack, hst]
      exact hclosed
    · simp only [OnCourse, h2oWebsocketClose_stack, hst]
  | sendIgnored _ hnone => simp [hnone] at hc
  | complete | recv | written | send | onMsg | loop | startSend | startRecv | recvReturn =>
    trivial
  | handlerReturn hst =>
    rw [hst] at hstack
    obtain ⟨st', rfl, -⟩ := hstack.inv_receive
    trivial
  | sendRefused hst | sendAccepted hst | recvBlocked hst | recvTaken hst =>
    simp only [OnCourse, hst, AtPoint]
  | sendFail hst | recvFail hst | armClose hst =>
    exact onCourse_return (hst ▸ hstack) rfl hclosed
  | sendReturn hst =>
    show AtPoint slots k w s.writeBuf (.recvTest _)
    by_cases hroom : s.writeBuf.length < slots
    · simp [hroom, AtPoint]
    · simp only [hroom, decide_false, AtPoint]
      exact fun _ => Or.inr (Nat.not_lt.1 hroom)
  | skipSend hst hk' hc' hno =>
    obtain rfl : _ = k := Option.some.inj (hk'.symm.trans hk)
    obtain rfl : _ = w := Option.some.inj (hc'.symm.trans hc)
    intro hwant
    exact Or.inl (hno.resolve_right (by simp [hwant]))
  | @skipRecv k' w' handled st hst hk' hc' hno =>
    obtain rfl : k' = k := Option.some.inj (hk'.symm.trans hk)
    obtain rfl : w' = w := Option.some.inj (hc'.symm.trans hc)
    cases handled with
    | true => trivial
    | false =>
      have hat := hI _ _ hk' hc'
      simp only [OnCourse, hst, AtPoint] at hat
      refine ⟨hat, fun hwant => ?_⟩
      exact hno.resolve_right (by simp [hwant])
  | leave hst hk' hc' =>
    obtain rfl : _ = k := Option.some.inj (hk'.symm.trans hk)
    obtain rfl : _ = w := Option.some.inj (hc'.symm.trans hc)
    have hat := hI _ _ hk' hc'
    simp only [OnCourse, hst, AtPoint] at hat
    exact hat
  | @submit k' w' st hst hk' hc' hidle hlen =>
    obtain rfl : _ = w := Option.some.inj (hc'.symm.trans hc)
    have hat := hI _ _ hk' hc'
    simp only [OnCourse, hst, AtPoint] at hat
    cases hk
    exact ⟨fun _ => rfl, hat.2⟩
  | @noSubmit k' w' st hst hk' hc' hno =>
    obtain rfl : k' = k := Option.some.inj (hk'.symm.trans hk)
    obtain rfl : w' = w := Option.some.inj (hc'.symm.trans hc)
    have hat := hI _ _ hk' hc'
    simp only [OnCourse, hst, AtPoint] at hat
    refine ⟨fun hdue => ?_, hat.2⟩
    rcases hno with hbusy | hnil
    · exact hbusy
    · -- an empty buffer has room, so it is not for want of it that nothing was sent
      have hwant := hdue.resolve_left (by simp [hnil])
      rcases hat.1 hwant with hbusy | hfull
      · exact hbusy
      · rw [hnil, List.length_nil] at hfull
        omega
  | @armRead k' w' st hst hk' hc' hwant =>
    obtain rfl : w' = w := Option.some.inj (hc'.symm.trans hc)
    have hat := hI _ _ hk' hc'
    simp only [OnCourse, hst, AtPoint] at hat
    cases hk
    exact onCourse_return (hst ▸ hstack) rfl
      fun _ => ⟨hat.1, hwant.symm, hat.2, Or.inl rfl⟩
  | @armStop k' w' st hst hk' hc' hwant hdue =>
    obtain rfl : w' = w := Option.some.inj (hc'.symm.trans hc)
    have hat := hI _ _ hk' hc'
    simp only [OnCourse, hst, AtPoint] at hat
    cases hk
    refine onCourse_return (hst ▸ hstack) rfl fun _ => ⟨hat.1, hwant.symm, hat.2, Or.inr ?_⟩
    exact hdue.elim id fun hwrite => hat.1 (Or.inr hwrite)

theorem onCourse (hslots : 0 < slots) (h : Reachable slots s) {k : Socket} {w : WsCtx}
    (hk : s.sock = some k) (hc : s.wsCtx = some w) : OnCourse slots s k w := by
  refine (h.invariant (I := fun s => Wired s ∧
    ∀ k w, s.sock = some k → s.wsCtx = some w → OnCourse slots s k w)
    ⟨wired_initial, fun k w hk => by cases hk⟩ ?_).2 k w hk hc
  intro s a s' hI hs
  have hstep := step_cases hs
  exact ⟨wired_step hstep hI.1, fun k w hk hc => onCourse_step hslots hstep hI.1 hI.2 hk hc⟩

/-! ## The events to come -/

/-- The socket of a connection that is not closed is open. -/
theorem sock_open_step (h : Step slots s a s')
    (hI : s.closes = 0 → ∀ k, s.sock = some k → k.closed = false) (hopen : s'.closes = 0)
    {k : Socket} (hk : s'.sock = some k) : k.closed = false := by
  cases h with
  | completeNull | recvErr | writtenErr | sendFail | recvFail | armClose | closeWebsocket =>
    exact absurd hopen (Nat.succ_ne_zero _)
  | complete _ _ _ hclosed =>
    cases hk
    exact hclosed
  | recv hk' | written hk' | recvTaken _ hk' | submit _ hk' | armRead _ hk' | armStop _ hk' =>
    have hold := hI hopen _ hk'
    cases hk
    exact hold
  | _ => exact hI hopen k hk

theorem sock_open (h : Reachable slots s) (hopen : s.closes = 0) {k : Socket}
    (hk : s.sock = some k) : k.closed = false := by
  refine h.invariant (I := fun s => s.closes = 0 → ∀ k, s.sock = some k → k.closed = false)
    (fun _ k hk => by cases hk) ?_ hopen k hk
  exact fun s a s' hI hs hopen k hk => sock_open_step (step_cases hs) hI hopen hk

/-- **A connection does not stall.** Whenever control is back in the event
loop and the connection is established and not closed, it is settled; and h2o
can go on, by completing the write or with whatever it reads next. -/
theorem never_stalls (hslots : 0 < slots) (h : Reachable slots s) (hst : s.stack = [])
    (hopen : s.closes = 0) {k : Socket} (hk : s.sock = some k) :
    ∃ w, s.wsCtx = some w ∧ Settled k w s.writeBuf ∧
      ((step slots s (.onWriteComplete false)).isSome ∨
        ∀ data, (step slots s (.onRecv false data)).isSome) := by
  have hw := wired h
  obtain ⟨w, hc⟩ := Option.isSome_iff_exists.1 (hw.ctx_isSome (by simp [hk]))
  have hon := onCourse hslots h hk hc
  simp only [OnCourse, hst] at hon
  have hsettled := hon hopen
  have hclosed := sock_open h hopen hk
  refine ⟨w, hc, hsettled, ?_⟩
  rcases hsettled.armed with hreading | hwriting
  · exact Or.inr fun data => by simp [step, hk, hst, hreading, hclosed]
  · have hne : s.writeBuf ≠ [] :=
      (outbox_sound h hopen).filled ((isWriting_of_sock hk).trans hwriting)
    refine Or.inl ?_
    simp [step, hk, hst, hwriting, hclosed, onWriteComplete, List.length_pos_iff.2 hne]

/-- After a message was sent from the event loop, with its frame in flight. -/
theorem never_stalls_sample : ∃ s k w, exec (step 4) State.initial sendRun = some s ∧
    s.sock = some k ∧ s.wsCtx = some w ∧ Settled k w s.writeBuf ∧ k.writing = true ∧
    s.writeBuf ≠ [] := by
  have hexec : (exec (step 4) State.initial sendRun).isSome := by decide
  obtain ⟨s, hs⟩ := Option.isSome_iff_exists.1 hexec
  have hreach : Reachable 4 s := Reachable.of_exec hs
  obtain rfl := Option.some.inj hs
  obtain ⟨w, hw, hsettled, -⟩ := never_stalls (by decide) hreach rfl rfl rfl
  exact ⟨_, _, w, hs, rfl, hw, hsettled, rfl, by decide⟩

end WebSocket

end AppServer
