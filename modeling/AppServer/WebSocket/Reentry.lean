import AppServer.WebSocket.Activation

/-!
# Calls of wslay inside calls of wslay

A handler runs inside `wslay_event_recv`, and `send_websocket_message` in it
does not only queue the message: it calls `h2o_websocket_proceed`, which goes
on to call `wslay_event_send` or `wslay_event_recv` on the same context as
soon as there is something to send and no write in flight, or input left. So
wslay is left in peace exactly where a handler only ever sends when, with its
message queued, neither is the case (`Deferred`).
-/

namespace AppServer

namespace WebSocket

open Lib

variable {slots : ℕ} {s s' : State} {a : Action} {as : List Action}

/-- The activation is in a call of wslay's event functions. -/
def Frame.inWslay : Frame → Bool
  | .proceed .sending | .proceed .receiving => true
  | _ => false

/-- At most one call of `wslay_event_send` and `wslay_event_recv` is active. -/
def WslayOnce (s : State) : Prop := s.stack.countP Frame.inWslay ≤ 1

/-- `h2o_websocket_proceed` has nothing to call wslay for. -/
def NothingToDo (k : Socket) (w : WsCtx) : Prop :=
  (k.writing = true ∨ w.wantWrite = false) ∧ (k.input = [] ∨ w.wantRead = false)

/-- A handler sends only where, its message queued, `h2o_websocket_proceed`
has nothing to call wslay for. -/
def Deferred (s : State) : Action → Prop
  | .sendWebsocketMessage _ w => s.stack ≠ [] → ∀ k ∈ s.sock, NothingToDo k w
  | _ => True

/-! ## Where handlers only send when there is nothing to do -/

/-- A point on the way of an activation that does not call wslay. -/
def ProceedPc.passing : ProceedPc → Bool
  | .sendTest | .recvTest false | .again false | .write | .arm => true
  | _ => false

/-- **The stacks where wslay is left in peace**: an activation called from a
handler, which has nothing to do, is on its way to its end. -/
inductive FlatStack (idle : Prop) : List Frame → Prop
  | nil : FlatStack idle []
  | event {pc : ProceedPc} : FlatStack idle [.proceed pc]
  | handler {arg : Msg} {calls : ℕ} : FlatStack idle [.receive arg calls, .proceed .receiving]
  | nested {pc : ProceedPc} {arg : Msg} {calls : ℕ} : idle → pc.passing = true →
      FlatStack idle [.proceed pc, .receive arg calls, .proceed .receiving]

namespace FlatStack

variable {idle : Prop} {pc : ProceedPc} {arg : Msg} {calls : ℕ} {st : List Frame}

theorem inv_receive (h : FlatStack idle (.receive arg calls :: st)) :
    st = [.proceed .receiving] := by
  cases h
  rfl

theorem inv_proceed (h : FlatStack idle (.proceed pc :: st)) :
    st = [] ∨ (idle ∧ pc.passing = true ∧
      ∃ arg calls, st = [.receive arg calls, .proceed .receiving]) := by
  cases h with
  | event => exact Or.inl rfl
  | nested hidle hpass => exact Or.inr ⟨hidle, hpass, _, _, rfl⟩

/-- An activation in a call of wslay was called from the event loop. -/
theorem nil_of_inWslay (h : FlatStack idle (.proceed pc :: st))
    (hpc : pc.passing = false) : st = [] := by
  rcases h.inv_proceed with hnil | ⟨-, hpass, -⟩
  · exact hnil
  · rw [hpc] at hpass
    cases hpass

/-- The innermost activation goes on. -/
theorem replace {idle' : Prop} {pc' : ProceedPc} (h : FlatStack idle (.proceed pc :: st))
    (hidle : idle → pc.passing = true → idle' ∧ pc'.passing = true) :
    FlatStack idle' (.proceed pc' :: st) := by
  rcases h.inv_proceed with rfl | ⟨hi, hpass, arg, calls, rfl⟩
  · exact .event
  · exact .nested (hidle hi hpass).1 (hidle hi hpass).2

/-- It returns. -/
theorem tail {idle' : Prop} (h : FlatStack idle (.proceed pc :: st)) : FlatStack idle' st := by
  rcases h.inv_proceed with rfl | ⟨-, -, arg, calls, rfl⟩
  · exact .nil
  · exact .handler

theorem countP_le (h : FlatStack idle st) : st.countP Frame.inWslay ≤ 1 := by
  cases h with
  | nil => exact Nat.zero_le 1
  | event => exact List.countP_le_length
  | handler => exact Nat.le_refl 1
  | @nested pc _ _ _ hpass =>
    have hpc : ¬ Frame.inWslay (.proceed pc) = true := by
      cases pc <;> first | exact Bool.false_ne_true | cases hpass
    rw [List.countP_cons_of_neg hpc]
    exact Nat.le_refl 1

end FlatStack

/-- The socket and the context have nothing to do for. -/
def Idle (s : State) : Prop := ∀ k w, s.sock = some k → s.wsCtx = some w → NothingToDo k w

theorem idle_of {k : Socket} {w : WsCtx} (hk : s.sock = some k) (hc : s.wsCtx = some w)
    (h : NothingToDo k w) : Idle s := by
  intro k' w' hk' hc'
  cases hk.symm.trans hk'
  cases hc.symm.trans hc'
  exact h

/-- Where the application may call, the stack is flat whatever there is to
do. -/
theorem flat_of_callable {idle idle' : Prop} (hcall : s.callable = true)
    (hf : FlatStack idle s.stack) :
    FlatStack idle' s.stack ∧ FlatStack idle' (countCall s.stack) := by
  obtain ⟨-, ⟨hst, -⟩ | ⟨arg, calls, st, hst⟩⟩ := callable_cases hcall
  · rw [hst]
    exact ⟨.nil, .nil⟩
  · rw [hst] at hf ⊢
    obtain rfl := hf.inv_receive
    exact ⟨.handler, .handler⟩

/-- An activation called where the application may call, by a handler only
where there is nothing to do. -/
theorem flat_send {idle idle' : Prop} (hcall : s.callable = true) (hf : FlatStack idle s.stack)
    (hidle : s.stack ≠ [] → idle') : FlatStack idle' (.proceed .sendTest :: countCall s.stack) := by
  obtain ⟨-, ⟨hst, -⟩ | ⟨arg, calls, st, hst⟩⟩ := callable_cases hcall
  · rw [hst]
    exact .event
  · have hi := hidle (by simp [hst])
    rw [hst] at hf ⊢
    obtain rfl := hf.inv_receive
    exact .nested hi rfl

/-- **One step of a run whose handlers defer.** -/
theorem flat_step (h : Step slots s a s') (hok : Deferred s a)
    (hf : FlatStack (Idle s) s.stack) : FlatStack (Idle s') s'.stack := by
  cases h with
  | generator _ hst | contextInit _ hst | startUpgrade _ hst | completeNull _ hst
    | recvErr _ hst | writtenErr _ hst =>
    show FlatStack _ s.stack
    rw [hst]
    exact .nil
  | complete _ hst | recv _ hst | written _ hst =>
    rw [hst]
    exact .event
  | closeWebsocket hcall => exact (flat_of_callable hcall hf).1
  | sendIgnored hcall => exact (flat_of_callable hcall hf).2
  | send hcall hc =>
    refine flat_send hcall hf fun hne k w hk hw => ?_
    cases hw
    exact hok hne k hk
  | handlerReturn hst =>
    rw [hst] at hf
    obtain rfl := hf.inv_receive
    exact .event
  | onMsg hst =>
    rw [hst] at hf ⊢
    obtain rfl := hf.nil_of_inWslay rfl
    exact .handler
  | sendRefused | recvBlocked => exact hf
  | sendAccepted hst | recvTaken hst =>
    show FlatStack _ s.stack
    rw [hst] at hf ⊢
    obtain rfl := hf.nil_of_inWslay rfl
    exact .event
  | sendFail hst | recvFail hst | armRead hst | armStop hst | armClose hst =>
    exact (hst ▸ hf).tail
  | sendReturn hst | recvReturn hst =>
    rw [hst] at hf
    obtain rfl := hf.nil_of_inWslay rfl
    exact .event
  | startSend hst hk hc hidle hwant =>
    -- nested, it has nothing to send
    refine (hst ▸ hf).replace fun hi _ => ?_
    have hno := (hi _ _ hk hc).1
    simp [hidle, hwant] at hno
  | startRecv hst hk hc hinput hwant =>
    -- and nothing to receive
    refine (hst ▸ hf).replace fun hi _ => ?_
    have hno := (hi _ _ hk hc).2
    simp [hinput, hwant] at hno
  | skipSend hst | leave hst | noSubmit hst => exact (hst ▸ hf).replace fun hi _ => ⟨hi, rfl⟩
  | @skipRecv _ _ handled _ hst =>
    refine (hst ▸ hf).replace fun hi hpass => ⟨hi, ?_⟩
    cases handled
    · rfl
    · cases hpass
  | loop hst =>
    refine (hst ▸ hf).replace fun _ hpass => ?_
    cases hpass
  | submit hst hk hc =>
    refine (hst ▸ hf).replace fun hi _ => ⟨?_, rfl⟩
    exact idle_of rfl hc ⟨Or.inl rfl, (hi _ _ hk hc).2⟩

/-- In a run whose handlers defer, wslay is left in peace. -/
theorem wslayOnce_of_deferred (h : Run (step slots) Deferred State.initial as s) : WslayOnce s := by
  have hflat := h.invariant (I := fun s => FlatStack (Idle s) s.stack) .nil
    fun s a s' hI hok hs => flat_step (step_cases hs) hok hI
  exact hflat.countP_le

/-! ## Where one does not -/

/-- With an activation on top that is not in a call, nothing happens but its
next statement. -/
theorem only_proceed {pc : ProceedPc} {st : List Frame} (hst : s.stack = .proceed pc :: st)
    (hpc : Frame.inWslay (.proceed pc) = false) (hs : step slots s a = some s') :
    a = .proceed := by
  have hevent : s.stack ≠ [] := by simp [hst]
  have happ : s.callable ≠ true := by simp [State.callable, hst]
  cases step_cases hs with
  | generator _ h | contextInit _ h | startUpgrade _ h | completeNull _ h | complete _ h
    | recvErr _ h | recv _ h | writtenErr _ h | written _ h => exact absurd h hevent
  | sendIgnored h | send h | closeWebsocket h => exact absurd h happ
  | handlerReturn h => cases hst.symm.trans h
  | sendRefused h | sendAccepted h | sendFail h | sendReturn h | recvBlocked h | recvTaken h
    | onMsg h | recvFail h | recvReturn h =>
    cases hst.symm.trans h
    cases hpc
  | _ => rfl

theorem not_wslayOnce {pc : ProceedPc} {st : List Frame} (hst : s.stack = .proceed pc :: st)
    (hpc : Frame.inWslay (.proceed pc) = true) (hst' : 0 < st.countP Frame.inWslay) :
    ¬ WslayOnce s := by
  unfold WslayOnce
  rw [hst, List.countP_cons_of_pos hpc]
  omega

/-- **An activation with something to do**, called inside a call of wslay,
calls wslay. -/
theorem reenters {k : Socket} {w : WsCtx} {st : List Frame}
    (hst : s.stack = .proceed .sendTest :: st) (hk : s.sock = some k) (hc : s.wsCtx = some w)
    (hin : 0 < st.countP Frame.inWslay) (hdo : ¬ NothingToDo k w) :
    Inevitable (step slots) (fun s => ¬ WslayOnce s) s := by
  by_cases hsend : k.writing = false ∧ w.wantWrite = true
  · have hs : step slots s .proceed = some { s with stack := .proceed .sending :: st } := by
      simp [step, hst, hk, hc, advance, hsend]
    exact .of_only hs (fun b s'' => only_proceed hst rfl) (.now (not_wslayOnce rfl rfl hin))
  · have hs : step slots s .proceed =
        some { s with stack := .proceed (.recvTest false) :: st } := by
      simp [step, hst, hk, hc, advance, hsend]
    have hrecv : k.input ≠ [] ∧ w.wantRead = true := by
      by_contra hno
      rw [not_and_or] at hsend hno
      exact hdo ⟨by simpa using hsend, by simpa using hno⟩
    have hs' : step slots { s with stack := .proceed (.recvTest false) :: st } .proceed =
        some { s with stack := .proceed .receiving :: st } := by
      simp [step, hk, hc, advance, hrecv]
    refine .of_only hs (fun b s'' => only_proceed hst rfl) ?_
    exact .of_only hs' (fun b s'' => only_proceed rfl rfl) (.now (not_wslayOnce rfl rfl hin))

/-- A handler that sends with something left to do makes wslay re-entered. -/
theorem reenters_of_not_deferred (h : Reachable slots s) (hs : step slots s a = some s')
    (hno : ¬ Deferred s a) : Inevitable (step slots) (fun s => ¬ WslayOnce s) s' := by
  cases a with
  | sendWebsocketMessage msg w =>
    have hw := wired h
    simp only [Deferred, not_forall] at hno
    obtain ⟨hne, k, hk, hdo⟩ := hno
    cases step_cases hs with
    | sendIgnored _ hnone =>
      have hsome := hw.entered hne
      rw [hnone] at hsome
      cases hsome
    | send hcall =>
      obtain ⟨-, ⟨hst, -⟩ | ⟨arg, calls, st, hst⟩⟩ := callable_cases hcall
      · exact absurd hst hne
      · have hstack := hw.stack
        rw [hst] at hstack
        obtain ⟨st', rfl, -⟩ := hstack.inv_receive
        refine reenters rfl hk rfl ?_ hdo
        rw [hst, countCall, List.countP_cons_of_neg (by simp [Frame.inWslay]),
          List.countP_cons_of_pos rfl]
        omega
  | _ => exact absurd trivial hno

/-- **When wslay is not re-entered.** In a run whose handlers send only where
`h2o_websocket_proceed` then has nothing to call wslay for, there is at every
time at most one call of `wslay_event_send` and `wslay_event_recv`; and a
handler that sends anywhere else has wslay re-entered before anything else
can happen. -/
theorem wslay_reentry :
    (∀ as s, Run (step slots) Deferred State.initial as s → WslayOnce s) ∧
    ∀ s a s', Reachable slots s → step slots s a = some s' → ¬ Deferred s a →
      Inevitable (step slots) (fun s => ¬ WslayOnce s) s' :=
  ⟨fun _ _ h => wslayOnce_of_deferred h, fun _ _ _ h hs hno => reenters_of_not_deferred h hs hno⟩

/-- The echo endpoint gets a message of two bytes and answers it: wslay is
called to send while it is receiving. -/
def echoRun : List Action :=
  handshake [129, 130, 0, 0, 0, 0, 104, 105] ++ [.proceed, .proceed, .recvCallback 8,
    .onMsgCallback ⟨1, [104, 105]⟩ ⟨true, false⟩,
    .sendWebsocketMessage ⟨1, [104, 105]⟩ ⟨true, true⟩, .proceed]

theorem echo_reenters_wslay : ∃ s,
    Run (step 4) (fun s a => echoHandler s a = true) State.initial echoRun s ∧
    s.stack = [.proceed .sending, .receive ⟨1, [104, 105]⟩ 1, .proceed .receiving] ∧
    ¬ WslayOnce s := by
  obtain ⟨s, hrun, hst⟩ : ∃ s,
      Run (step 4) (fun s a => echoHandler s a = true) State.initial echoRun s ∧
      s.stack = [.proceed .sending, .receive ⟨1, [104, 105]⟩ 1, .proceed .receiving] :=
    Run.exists_of_exec (by decide)
  exact ⟨s, hrun, hst, not_wslayOnce hst rfl (by decide)⟩

end WebSocket

end AppServer
