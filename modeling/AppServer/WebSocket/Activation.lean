import AppServer.WebSocket.Step

/-!
# How activations nest

On the stack, handlers and activations of `h2o_websocket_proceed` alternate:
a handler runs inside the `wslay_event_recv` of the activation under it, and
an activation inside the handler under it, or directly in the event loop
(`StackOk`). Around it, what is known of a connection from how far its
upgrade has come (`Wired`).
-/

namespace AppServer

namespace WebSocket

open Lib

variable {slots : ℕ} {s s' : State} {a : Action}

/-! ## The stack -/

/-- **The stacks of a connection.** -/
inductive StackOk : List Frame → Prop
  /-- The event loop. -/
  | nil : StackOk []
  /-- An activation called from the event loop. -/
  | event {pc : ProceedPc} : StackOk [.proceed pc]
  /-- A handler called from the activation under it. -/
  | handler {arg : Msg} {calls : ℕ} {st : List Frame} :
      StackOk (.proceed .receiving :: st) →
      StackOk (.receive arg calls :: .proceed .receiving :: st)
  /-- An activation called from the handler under it. -/
  | nested {pc : ProceedPc} {arg : Msg} {calls : ℕ} {st : List Frame} :
      StackOk (.receive arg calls :: st) → StackOk (.proceed pc :: .receive arg calls :: st)

namespace StackOk

variable {st : List Frame} {pc pc' : ProceedPc} {arg : Msg} {calls : ℕ}

theorem inv_receive (h : StackOk (.receive arg calls :: st)) :
    ∃ st', st = .proceed .receiving :: st' ∧ StackOk st := by
  cases h with
  | handler h => exact ⟨_, rfl, h⟩

theorem inv_proceed (h : StackOk (.proceed pc :: st)) :
    st = [] ∨ ∃ arg calls st', st = .receive arg calls :: st' := by
  cases h with
  | event => exact Or.inl rfl
  | nested => exact Or.inr ⟨_, _, _, rfl⟩

theorem tail {f : Frame} (h : StackOk (f :: st)) : StackOk st := by
  cases h with
  | event => exact .nil
  | handler h => exact h
  | nested h => exact h

/-- The innermost activation may be at any point. -/
theorem replace (h : StackOk (.proceed pc :: st)) : StackOk (.proceed pc' :: st) := by
  cases h with
  | event => exact .event
  | nested h => exact .nested h

theorem countCall (h : StackOk st) : StackOk (countCall st) := by
  cases h with
  | nil => exact .nil
  | event => exact .event
  | handler h => exact .handler h
  | nested h => exact .nested h

end StackOk

/-- Where the application may call the object. -/
theorem callable_cases (h : s.callable = true) : s.closing = false ∧
    ((s.stack = [] ∧ s.stage ≠ .requested ∧ s.closes = 0) ∨
      ∃ arg calls st, s.stack = .receive arg calls :: st) := by
  unfold State.callable at h
  split at h <;> rename_i hst
  · simp only [Bool.and_eq_true, Bool.not_eq_true', decide_eq_true_eq] at h
    exact ⟨h.1, Or.inl ⟨hst, by simpa using h.2.1, h.2.2⟩⟩
  · simp only [Bool.and_true, Bool.not_eq_true'] at h
    exact ⟨h, Or.inr ⟨_, _, _, hst⟩⟩
  · simp at h

/-- An activation called where the application may call. -/
theorem stackOk_push {pc : ProceedPc} (h : s.callable = true) (hs : StackOk s.stack) :
    StackOk (.proceed pc :: countCall s.stack) := by
  obtain ⟨-, ⟨hst, -⟩ | ⟨arg, calls, st, hst⟩⟩ := callable_cases h
  · rw [hst]
    exact .event
  · rw [hst] at hs ⊢
    obtain ⟨st', rfl, hs⟩ := hs.inv_receive
    exact .nested (.handler hs)

theorem stackOk_step (h : Step slots s a s') (hs : StackOk s.stack) : StackOk s'.stack := by
  cases h with
  | generator | contextInit | startUpgrade | completeNull | recvErr | writtenErr | closeWebsocket
    | sendRefused | sendAccepted | recvBlocked | recvTaken => exact hs
  | complete _ hst | recv _ hst | written _ hst =>
    rw [hst]
    exact .event
  | sendIgnored => exact hs.countCall
  | send hcall => exact stackOk_push hcall hs
  | onMsg hst =>
    rw [hst] at hs ⊢
    exact .handler hs
  | handlerReturn hst | sendFail hst | recvFail hst | armRead hst | armStop hst | armClose hst =>
    exact (hst ▸ hs).tail
  | sendReturn hst | recvReturn hst | startSend hst | skipSend hst | startRecv hst | skipRecv hst
    | loop hst | leave hst | submit hst | noSubmit hst => exact (hst ▸ hs).replace

/-! ## What the upgrade has set up -/

/-- What is known of a connection from how far it has come. -/
structure Wired (s : State) : Prop where
  stack : StackOk s.stack
  /-- The event context is there once `wslay_event_context_server_init` has
  returned, the socket once `on_websocket_complete` was called. -/
  ctx : s.wsCtx = none → s.stage = .requested ∨ s.stage = .generated
  completed : s.sock.isSome → s.stage = .completed
  /-- Activations are of connections with an event context, and past their
  first test only of connections with a socket. -/
  entered : s.stack ≠ [] → s.wsCtx.isSome
  started : ∀ f ∈ s.stack, f ≠ .proceed .sendTest → s.sock.isSome

theorem wired_initial : Wired State.initial where
  stack := .nil
  ctx _ := Or.inl rfl
  completed h := by cases h
  entered h := absurd rfl h
  started f hf := by cases hf

theorem Wired.ctx_isSome (h : Wired s) (hs : s.sock.isSome) : s.wsCtx.isSome := by
  rw [Option.isSome_iff_ne_none]
  intro hnone
  rcases h.ctx hnone with hstage | hstage <;> simp [h.completed hs] at hstage

/-- The socket stays. -/
theorem sock_isSome_step (h : Step slots s a s') (hs : s.sock.isSome) : s'.sock.isSome := by
  cases h with
  | completeNull | recvErr | sendFail | recvFail | armClose | closeWebsocket =>
    simpa [h2oWebsocketClose] using hs
  | writtenErr => simp
  | complete | recv | written | recvTaken | submit | armRead | armStop => rfl
  | _ => exact hs

/-- What is on the stack after a step: new activations stand at their first
test, and the rest was past it, or goes past it with the socket in hand. -/
theorem mem_stack_step {f : Frame} (h : Step slots s a s') (hf : f ∈ s'.stack) :
    f = .proceed .sendTest ∨ s.sock.isSome ∨ ∃ g ∈ s.stack, g ≠ .proceed .sendTest := by
  have hold : f ∈ s.stack → f = .proceed .sendTest ∨ s.sock.isSome ∨
      ∃ g ∈ s.stack, g ≠ .proceed .sendTest := by
    intro hmem
    by_cases heq : f = .proceed .sendTest
    · exact Or.inl heq
    · exact Or.inr (Or.inr ⟨f, hmem, heq⟩)
  have hcount : s.callable = true → f ∈ countCall s.stack → f = .proceed .sendTest ∨
      s.sock.isSome ∨ ∃ g ∈ s.stack, g ≠ .proceed .sendTest := by
    intro hcall hmem
    obtain ⟨-, ⟨hst, -⟩ | ⟨arg, calls, st, hst⟩⟩ := callable_cases hcall
    · rw [hst] at hmem
      cases hmem
    · exact Or.inr (Or.inr ⟨.receive arg calls, hst ▸ List.mem_cons_self, by simp⟩)
  cases h with
  | startSend _ hk | skipSend _ hk | startRecv _ hk | skipRecv _ hk | loop _ hk | leave _ hk
    | submit _ hk | noSubmit _ hk | armRead _ hk | armStop _ hk | armClose _ hk =>
    exact Or.inr (Or.inl (by simp [hk]))
  | handlerReturn hst | sendReturn hst | recvReturn hst | onMsg hst | sendFail hst | recvFail hst =>
    exact Or.inr (Or.inr ⟨_, hst ▸ List.mem_cons_self, by simp⟩)
  | complete | recv | written =>
    rcases List.mem_cons.1 hf with rfl | hf
    · exact Or.inl rfl
    · exact hold hf
  | send hcall =>
    rcases List.mem_cons.1 hf with rfl | hf
    · exact Or.inl rfl
    · exact hcount hcall hf
  | sendIgnored hcall => exact hcount hcall hf
  | _ => exact hold hf

theorem wired_step (h : Step slots s a s') (hw : Wired s) : Wired s' where
  stack := stackOk_step h hw.stack
  ctx := by
    cases h with
    | generator => exact fun _ => Or.inr rfl
    | startUpgrade hstage | completeNull hstage | complete hstage =>
      intro hnone
      rcases hw.ctx hnone with heq | heq <;> rw [hstage] at heq <;> cases heq
    | contextInit | send | sendReturn | recvReturn | onMsg | sendFail | recvFail =>
      intro hnone
      cases hnone
    | _ => exact hw.ctx
  completed := by
    cases h with
    | generator hstage | contextInit hstage | startUpgrade hstage =>
      intro hsock
      have := hw.completed hsock
      rw [hstage] at this
      cases this
    | completeNull | complete => exact fun _ => rfl
    | recvErr | sendFail | recvFail | armClose | closeWebsocket =>
      intro hsock
      exact hw.completed (by simpa [h2oWebsocketClose] using hsock)
    | recv hk | written hk | writtenErr hk | recvTaken _ hk | submit _ hk | armRead _ hk
      | armStop _ hk =>
      exact fun _ => hw.completed (by simp [hk])
    | _ => exact hw.completed
  entered := by
    -- where there is a socket, the context was initialised
    have hsome : ∀ {k}, s.sock = some k → s.wsCtx.isSome := fun hk =>
      hw.ctx_isSome (by simp [hk])
    cases h with
    | contextInit | send | sendReturn | recvReturn | onMsg => exact fun _ => rfl
    | complete hstage =>
      intro _
      rw [Option.isSome_iff_ne_none]
      intro hnone
      rcases hw.ctx hnone with heq | heq <;> rw [hstage] at heq <;> cases heq
    | recv hk | written hk | recvTaken _ hk | submit _ hk | armRead _ hk | armStop _ hk =>
      exact fun _ => hsome hk
    | handlerReturn hst => exact fun _ => hw.entered (by rw [hst]; simp)
    | startSend _ _ hc | skipSend _ _ hc | startRecv _ _ hc | skipRecv _ _ hc | loop _ _ hc
      | leave _ _ hc | noSubmit _ _ hc | armClose _ _ hc =>
      exact fun _ => by simp [hc]
    | sendIgnored hcall =>
      intro hne
      refine hw.entered fun hnil => hne ?_
      simp [hnil, countCall]
    | sendFail | recvFail => exact fun _ => rfl
    | _ => exact hw.entered
  started := by
    intro f hf hne
    rcases mem_stack_step h hf with heq | hsock | ⟨g, hg, hg'⟩
    · exact absurd heq hne
    · exact sock_isSome_step h hsock
    · exact sock_isSome_step h (hw.started g hg hg')

theorem wired (h : Reachable slots s) : Wired s :=
  h.invariant wired_initial fun _ _ _ hw hs => wired_step (step_cases hs) hw

end WebSocket

end AppServer
