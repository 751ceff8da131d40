import AppServer.WebSocket.Activation

/-!
# What the echo endpoint sends

`AppServerEchoWebSocket::receive_websocket_message` sends whatever message it
is given. `on_websocket_message` gives it control messages too: the test
`!wslay_is_ctrl_frame(arg->opcode)` is only there in what is commented out.
So what the endpoint has queued is what it has received, in order, up to the
message whose handler is yet to send; and that is the data messages alone
exactly where no other was delivered.
-/

namespace AppServer

namespace WebSocket

open Lib

variable {slots : ℕ} {s s' : State} {a : Action} {as : List Action}

/-- The message is a text or a binary one. -/
def Msg.isData (m : Msg) : Bool := m.opcode = 1 || m.opcode = 2

/-- The message of a handler that has not sent yet. -/
def Frame.unanswered : Frame → List Msg
  | .receive arg 0 => [arg]
  | _ => []

/-- What was received and is still to be answered. -/
def State.unanswered (s : State) : List Msg := s.stack.flatMap Frame.unanswered

/-- What was received before that. -/
def State.answered (s : State) : List Msg :=
  s.received.take (s.received.length - s.unanswered.length)

/-- **The echo contract**: with the data messages still to be answered, the
messages queued by the endpoint are the data messages received. -/
def EchoesData (s : State) : Prop :=
  s.queued ++ s.unanswered.filter Msg.isData = s.received.filter Msg.isData

instance (s : State) : Decidable (EchoesData s) :=
  inferInstanceAs (Decidable (_ = _))

/-! ## What it queues -/

/-- What was queued is what was received, up to the handler on top. -/
structure Echoing (s : State) : Prop where
  below : ∀ f ∈ s.stack.tail, f.unanswered = []
  queued : s.queued ++ s.unanswered = s.received

@[simp] theorem unanswered_proceed {pc : ProceedPc} : Frame.unanswered (.proceed pc) = [] := rfl

/-- With an activation on top, everything is answered. -/
theorem Echoing.unanswered_eq_nil {pc : ProceedPc} {st : List Frame} (h : Echoing s)
    (hst : s.stack = .proceed pc :: st) : s.unanswered = [] := by
  have hbelow := h.below
  rw [hst, List.tail_cons] at hbelow
  simpa [State.unanswered, hst] using hbelow

/-- A step that queues and receives nothing. -/
theorem Echoing.congr (h : Echoing s) (hbelow : ∀ f ∈ s'.stack.tail, f.unanswered = [])
    (hun : s'.unanswered = s.unanswered) (hq : s'.queued = s.queued)
    (hr : s'.received = s.received) : Echoing s' :=
  ⟨hbelow, by rw [hun, hq, hr]; exact h.queued⟩

/-- One that leaves the stack alone. -/
theorem Echoing.of_stack (h : Echoing s) (hst : s'.stack = s.stack) (hq : s'.queued = s.queued)
    (hr : s'.received = s.received) : Echoing s' := by
  refine h.congr ?_ ?_ hq hr
  · rw [hst]
    exact h.below
  · rw [State.unanswered, hst]
    rfl

/-- One that calls an activation from the event loop. -/
theorem Echoing.of_event {pc : ProceedPc} (h : Echoing s) (hst : s.stack = [])
    (hst' : s'.stack = .proceed pc :: s.stack) (hq : s'.queued = s.queued)
    (hr : s'.received = s.received) : Echoing s' := by
  refine h.congr ?_ ?_ hq hr
  · rw [hst', hst]
    simp
  · rw [State.unanswered, hst', hst, State.unanswered, hst]
    rfl

/-- One that moves the innermost activation. -/
theorem Echoing.of_replace {pc pc' : ProceedPc} {st : List Frame} (h : Echoing s)
    (hst : s.stack = .proceed pc :: st) (hst' : s'.stack = .proceed pc' :: st)
    (hq : s'.queued = s.queued) (hr : s'.received = s.received) : Echoing s' := by
  have hbelow := h.below
  rw [hst] at hbelow
  refine h.congr ?_ ?_ hq hr
  · rw [hst']
    exact hbelow
  · rw [State.unanswered, hst', State.unanswered, hst]
    rfl

/-- One that returns from a call with nothing left to answer. -/
theorem Echoing.of_pop {f : Frame} {st : List Frame} (h : Echoing s) (hst : s.stack = f :: st)
    (hf : f.unanswered = []) (hst' : s'.stack = st) (hq : s'.queued = s.queued)
    (hr : s'.received = s.received) : Echoing s' := by
  have hbelow := h.below
  rw [hst] at hbelow
  refine h.congr ?_ ?_ hq hr
  · rw [hst']
    exact fun g hg => hbelow g (List.mem_of_mem_tail hg)
  · rw [State.unanswered, hst', State.unanswered, hst, List.flatMap_cons, hf]
    rfl

/-- **One step of the echo endpoint.** -/
theorem echoing_step (h : Step slots s a s') (hok : echoHandler s a = true) (hw : Wired s)
    (hI : Echoing s) : Echoing s' := by
  cases h with
  | generator | contextInit | startUpgrade | completeNull | recvErr | writtenErr | sendRefused
    | sendAccepted | recvBlocked | recvTaken => exact hI.of_stack rfl rfl rfl
  | complete _ hst | recv _ hst | written _ hst => exact hI.of_event hst rfl rfl rfl
  | sendFail hst | recvFail hst | armRead hst | armStop hst | armClose hst =>
    exact hI.of_pop hst rfl rfl rfl rfl
  | sendReturn hst | recvReturn hst | startSend hst | skipSend hst | startRecv hst | skipRecv hst
    | loop hst | leave hst | submit hst | noSubmit hst => exact hI.of_replace hst rfl rfl rfl
  | closeWebsocket => cases hok
  | sendIgnored hcall hnone =>
    -- a handler only runs with the event context in place
    have hhead : s.stack.head? = _ := of_decide_eq_true hok
    have hsome := hw.entered fun hnil => by simp [hnil] at hhead
    rw [hnone] at hsome
    cases hsome
  | @send msg _ _ hcall =>
    have hhead : s.stack.head? = _ := of_decide_eq_true hok
    obtain ⟨st, hst⟩ := List.head?_eq_some_iff.1 hhead
    have hbelow := hI.below
    have hqueued := hI.queued
    rw [hst, List.tail_cons] at hbelow
    have hnil : st.flatMap Frame.unanswered = [] := by simpa using hbelow
    rw [State.unanswered, hst, List.flatMap_cons, hnil] at hqueued
    refine ⟨?_, ?_⟩
    · rw [hst]
      intro f hf
      rcases List.mem_cons.1 hf with rfl | hf
      · rfl
      · exact hbelow f hf
    · rw [State.unanswered, hst]
      simpa [countCall, Frame.unanswered, hnil] using hqueued
  | handlerReturn hst =>
    simp only [echoHandler, hst, decide_eq_true_eq] at hok
    subst hok
    exact hI.of_pop hst rfl rfl rfl rfl
  | @onMsg arg _ _ hst =>
    have hun := hI.unanswered_eq_nil hst
    have hqueued := hI.queued
    rw [hun, List.append_nil] at hqueued
    have hall : ∀ f ∈ s.stack, f.unanswered = [] := by
      simpa [State.unanswered] using hun
    refine ⟨hall, ?_⟩
    show s.queued ++ (Frame.unanswered (.receive arg 0) ++ s.unanswered) = _
    rw [hun, hqueued]
    rfl

theorem echoing (h : Run (step slots) (fun s a => echoHandler s a = true) State.initial as s) :
    Echoing s := by
  refine (h.invariant (I := fun s => Wired s ∧ Echoing s) ⟨wired_initial, ?_, rfl⟩ ?_).2
  · intro f hf
    cases hf
  · exact fun s a s' hI hok hs =>
      ⟨wired_step (step_cases hs) hI.1, echoing_step (step_cases hs) hok hI.1 hI.2⟩

/-! ## When that is the data messages -/

/-- What was queued is what was answered. -/
theorem Echoing.answered_eq (h : Echoing s) : s.answered = s.queued := by
  rw [State.answered, ← h.queued, List.length_append, Nat.add_sub_cancel, List.take_left]

/-- **When the endpoint keeps the echo contract.** Whatever the client sends
and however its input and the writes come, the endpoint queues exactly the
data messages it receives, in order, if and only if every message it has
answered is one. -/
theorem echo_contract_iff
    (h : Run (step slots) (fun s a => echoHandler s a = true) State.initial as s) :
    EchoesData s ↔ ∀ m ∈ s.answered, m.isData = true := by
  have hI := echoing h
  rw [hI.answered_eq, EchoesData, ← hI.queued, List.filter_append, List.append_cancel_right_eq,
    eq_comm, List.filter_eq_self]

/-- A text message comes in two pieces, and is answered. -/
def textRun : List Action :=
  handshake [129, 130, 0, 0] ++ [.proceed, .proceed, .recvCallback 8, .recvReturn 0 ⟨true, false⟩]
    ++ List.replicate 6 .proceed ++ [.onRecv false [0, 0, 104, 105], .proceed, .proceed,
      .recvCallback 8, .onMsgCallback ⟨1, [104, 105]⟩ ⟨true, false⟩,
      .sendWebsocketMessage ⟨1, [104, 105]⟩ ⟨true, true⟩]

theorem echo_contract_sample : ∃ s,
    Run (step 4) (fun s a => echoHandler s a = true) State.initial textRun s ∧
    (s.answered = [⟨1, [104, 105]⟩] ∧ s.unanswered = []) ∧
    (EchoesData s ↔ ∀ m ∈ s.answered, m.isData = true) := by
  obtain ⟨s, hrun, hs⟩ : ∃ s,
      Run (step 4) (fun s a => echoHandler s a = true) State.initial textRun s ∧
      s.answered = [⟨1, [104, 105]⟩] ∧ s.unanswered = [] :=
    Run.exists_of_exec (by decide)
  exact ⟨s, hrun, hs, echo_contract_iff hrun⟩

/-- The endpoint gets a ping and sends one back, which wslay, with its pong,
has been answering itself. -/
theorem echo_answers_ping : ∃ s,
    Run (step 4) (fun s a => echoHandler s a = true) State.initial
      (handshake [137, 128, 0, 0, 0, 0] ++ [.proceed, .proceed, .recvCallback 6,
        .onMsgCallback ⟨9, []⟩ ⟨true, true⟩, .sendWebsocketMessage ⟨9, []⟩ ⟨true, true⟩]) s ∧
    s.received = [⟨9, []⟩] ∧ s.queued = [⟨9, []⟩] ∧ s.unanswered = [] ∧ ¬ EchoesData s :=
  Run.exists_of_exec (by decide)

end WebSocket

end AppServer
