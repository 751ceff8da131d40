import AppServer.WebSocket.Activation

/-!
# Sending before the handshake is complete

`send_websocket_message` asks whether the event context is there, and then
calls `h2o_websocket_proceed`, which reads the socket. The context is there
from `wslay_event_context_server_init` on, the socket only from
`on_websocket_complete` on. No other caller of `proceed` comes before the
socket does, so a connection is safe from this exactly where nothing is sent
between the two.
-/

namespace AppServer

namespace WebSocket

open Lib

variable {slots : ℕ} {s s' : State} {a : Action} {as : List Action}

/-- Every activation of `h2o_websocket_proceed` is of a connection whose
socket is set. -/
def SockSet (s : State) : Prop := ∀ pc, Frame.proceed pc ∈ s.stack → s.sock.isSome

/-- A message is sent before the event context is there, or once the socket
is. -/
def SendReady (s : State) : Action → Prop
  | .sendWebsocketMessage _ _ => s.wsCtx.isSome → s.sock.isSome
  | _ => True

/-- An activation is on the stack where it was, or is being called. -/
theorem mem_proceed_step {pc : ProceedPc} (h : Step slots s a s')
    (hf : Frame.proceed pc ∈ s'.stack) :
    (∃ pc', Frame.proceed pc' ∈ s.stack) ∨ s'.sock.isSome ∨
      ∃ msg w, a = .sendWebsocketMessage msg w ∧ s.wsCtx.isSome := by
  have hcount : Frame.proceed pc ∈ countCall s.stack → ∃ pc', Frame.proceed pc' ∈ s.stack := by
    intro hmem
    cases hst : s.stack with
    | nil => simp [hst, countCall] at hmem
    | cons f st =>
      cases f with
      | proceed pc' => exact ⟨pc', List.mem_cons_self⟩
      | receive arg calls =>
        rw [hst, countCall, List.mem_cons] at hmem
        exact ⟨pc, List.mem_cons_of_mem _ (hmem.resolve_left (by simp))⟩
  cases h with
  | complete | recv | written | recvTaken | submit | armRead | armStop => exact Or.inr (Or.inl rfl)
  | send _ hw => exact Or.inr (Or.inr ⟨_, _, rfl, by simp [hw]⟩)
  | sendIgnored => exact Or.inl (hcount hf)
  | handlerReturn hst | sendFail hst | recvFail hst | armClose hst =>
    exact Or.inl ⟨pc, hst ▸ List.mem_cons_of_mem _ hf⟩
  | sendReturn hst | recvReturn hst | onMsg hst | startSend hst | skipSend hst | startRecv hst
    | skipRecv hst | loop hst | leave hst | noSubmit hst =>
    exact Or.inl ⟨_, hst ▸ List.mem_cons_self⟩
  | _ => exact Or.inl ⟨pc, hf⟩

/-- **A step is safe exactly where the message it may send is.** -/
theorem sockSet_step_iff (h : step slots s a = some s') (hs : SockSet s) :
    SendReady s a ↔ SockSet s' := by
  have hstep := step_cases h
  constructor
  · intro hready pc hf
    rcases mem_proceed_step hstep hf with ⟨pc', hf'⟩ | hsock | ⟨msg, w, rfl, hctx⟩
    · exact sock_isSome_step hstep (hs pc' hf')
    · exact hsock
    · exact sock_isSome_step hstep (hready hctx)
  · intro hs'
    cases hstep with
    | sendIgnored _ hw => exact fun hctx => by simp [hw] at hctx
    | send => exact fun _ => hs' .sendTest List.mem_cons_self
    | _ => exact trivial

/-- **Where sending is safe.** In a run of a connection `proceed` is only ever
entered with the socket set if and only if no message is sent between the
setting up of the event context and `on_websocket_complete`. -/
theorem proceed_has_socket_iff :
    Run (step slots) SendReady State.initial as s ↔
      Run (step slots) (Lands (step slots) SockSet) State.initial as s := by
  refine Run.lands_iff (J := fun _ => True) trivial (fun pc hf => by cases hf)
    (fun _ _ _ _ _ => trivial) ?_
  exact fun s a s' _ hP hs => sockSet_step_iff hs hP

/-- A message sent while the 101 response is on its way: `proceed` runs
without a socket. -/
theorem proceed_without_socket : ∃ s, exec (step 4) State.initial
    [.generator, .contextInit ⟨true, false⟩, .startUpgrade,
      .sendWebsocketMessage ⟨1, [104, 105]⟩ ⟨true, true⟩] = some s ∧
    Frame.proceed .sendTest ∈ s.stack ∧ s.sock = none :=
  ⟨_, rfl, List.mem_cons_self, rfl⟩

end WebSocket

end AppServer
