import AppServer.WebSocket.Activation

/-!
# Closing a connection

A connection is closed by the failures the event loop reports, by the `goto
Close`s of `h2o_websocket_proceed`, and by `close_websocket`. All but the
last go through `on_websocket_message`, which deletes the object too; and
none of them tells the activations that are still on the stack. So all is
well exactly where `close_websocket` is never called and `proceed` only goes
to `Close` when it was called from the event loop (`CloseAlone`).
-/

namespace AppServer

namespace WebSocket

open Lib

variable {slots : ℕ} {s s' : State} {a : Action} {as : List Action}

/-- `h2o_websocket_proceed` has come to "nothing is going on". -/
def State.atClose (s : State) : Bool :=
  match s.stack, s.sock, s.wsCtx with
  | .proceed .arm :: _, some k, some w => !w.wantRead && !k.writing && !w.wantWrite
  | _, _, _ => false

/-- The application does not call `close_websocket`, and where an activation
of `h2o_websocket_proceed` goes to `Close` it is the only one. -/
def CloseAlone (s : State) : Action → Prop
  | .closeWebsocket => False
  | .sendReturn rv _ | .recvReturn rv _ => rv ≠ 0 → s.stack.length = 1
  | .proceed => s.atClose = true → s.stack.length = 1
  | _ => True

/-- **The connection is closed at most once**, the object is deleted with it,
and then nothing can happen any more. -/
structure ClosedOnce (slots : ℕ) (s : State) : Prop where
  once : s.closes ≤ 1
  deleted : s.deletes = s.closes
  silent : s.closes ≠ 0 → ∀ a, step slots s a = none

/-- Until the connection is closed the object is not deleted. -/
def Alive (s : State) : Prop := s.closes = 0 → s.deletes = 0

theorem alive_step (h : Step slots s a s') (hI : Alive s) : Alive s' := by
  cases h with
  | completeNull | recvErr | writtenErr | sendFail | recvFail | armClose | closeWebsocket =>
    exact fun hopen => absurd hopen (Nat.succ_ne_zero _)
  | _ => exact hI

/-- A closed connection with nothing on the stack. -/
theorem step_eq_none (hst : s.stack = []) (hstage : s.stage = .completed) (hclosed : s.closes ≠ 0)
    (hsock : ∀ k ∈ s.sock, k.closed = true) : step slots s a = none := by
  rw [Option.eq_none_iff_forall_ne_some]
  intro s' hs
  cases step_cases hs with
  | generator h | contextInit h | startUpgrade h | completeNull h | complete h =>
    rw [hstage] at h
    cases h
  | recvErr hk _ _ hopen | recv hk _ _ hopen | writtenErr hk _ _ hopen | written hk _ _ hopen =>
    rw [hsock _ hk] at hopen
    cases hopen
  | sendIgnored h | send h | closeWebsocket h =>
    obtain ⟨-, ⟨-, -, hopen⟩ | ⟨arg, calls, st, hst'⟩⟩ := callable_cases h
    · exact hclosed hopen
    · rw [hst] at hst'
      cases hst'
  | handlerReturn h | sendRefused h | sendAccepted h | sendFail h | sendReturn h | recvBlocked h
    | recvTaken h | onMsg h | recvFail h | recvReturn h | startSend h | skipSend h | startRecv h
    | skipRecv h | loop h | leave h | submit h | noSubmit h | armRead h | armStop h | armClose h =>
    rw [hst] at h
    cases h

/-- `on_close` with nothing left on the stack closes the connection as it
should be closed. -/
theorem closedOnce_onClose (hstage : s.stage = .completed) (hopen : s.closes = 0)
    (hdel : s.deletes = 0) (hst : s.stack = []) : ClosedOnce slots (onClose s) where
  once := by simp [hopen]
  deleted := by simp [hopen, hdel]
  silent _ a := by
    refine step_eq_none hst hstage (Nat.succ_ne_zero _) fun k hk => ?_
    rw [onClose_sock, Option.mem_def, Option.map_eq_some_iff] at hk
    obtain ⟨k', -, rfl⟩ := hk
    rfl

/-- With a handler left on the stack, something is still to happen. -/
theorem not_closedOnce_of_receive {arg : Msg} {calls : ℕ} {st : List Frame}
    (hst : s.stack = .receive arg calls :: st) (hclosed : s.closes ≠ 0) : ¬ ClosedOnce slots s := by
  intro h
  have hnone := h.silent hclosed .handlerReturn
  simp [step, hst] at hnone

/-- An activation goes to `Close`: all is well exactly where it is the only
one. -/
theorem closedOnce_close_iff {pc : ProceedPc} {st : List Frame} (hw : Wired s)
    (hopen : s.closes = 0) (hdel : s.deletes = 0) (hst : s.stack = .proceed pc :: st)
    (hsock : s.sock.isSome) (w : Option WsCtx) :
    s.stack.length = 1 ↔ ClosedOnce slots (onClose { s with wsCtx := w, stack := st }) := by
  rw [hst, List.length_cons, Nat.add_eq_right, List.length_eq_zero_iff]
  constructor
  · exact fun hnil => closedOnce_onClose (hw.completed hsock) hopen hdel hnil
  · intro hclosed
    have hstack := hw.stack
    rw [hst] at hstack
    rcases hstack.inv_proceed with hnil | ⟨arg, calls, st', rfl⟩
    · exact hnil
    · exact absurd hclosed (not_closedOnce_of_receive rfl (Nat.succ_ne_zero _))

/-- **One step.** -/
theorem closeAlone_iff (hs : step slots s a = some s') (hw : Wired s) (hal : Alive s)
    (hP : ClosedOnce slots s) : CloseAlone s a ↔ ClosedOnce slots s' := by
  -- a connection that was closed does nothing more
  have hopen : s.closes = 0 := by
    by_contra hclosed
    rw [hP.silent hclosed a] at hs
    cases hs
  have hdel := hal hopen
  have hstill : s'.closes = s.closes → s'.deletes = s.deletes → ClosedOnce slots s' := by
    intro hc hd
    refine ⟨?_, ?_, ?_⟩
    · rw [hc, hopen]
      exact Nat.zero_le 1
    · rw [hc, hd, hopen, hdel]
    · rw [hc]
      exact fun hne => absurd hopen hne
  have hgo : s'.closes = s.closes → s'.deletes = s.deletes → ∀ {p : Prop}, p →
      (p ↔ ClosedOnce slots s') := fun hc hd _ hp => ⟨fun _ => hstill hc hd, fun _ => hp⟩
  have hsock : ∀ {f st}, s.stack = f :: st → f ≠ .proceed .sendTest → s.sock.isSome :=
    fun hst hne => hw.started _ (hst ▸ List.mem_cons_self) hne
  cases step_cases hs with
  | closeWebsocket =>
    -- it closes and does not delete the `AppServerWebSocket`
    refine ⟨False.elim, fun hP' => ?_⟩
    have hdel' : s.deletes = s.closes + 1 := hP'.deleted
    omega
  | completeNull _ hst =>
    exact ⟨fun _ => closedOnce_onClose rfl hopen hdel hst, fun _ => trivial⟩
  | recvErr hk hst =>
    have hstage := hw.completed (by simp [hk])
    exact ⟨fun _ => closedOnce_onClose hstage hopen hdel hst, fun _ => trivial⟩
  | writtenErr hk hst =>
    have hstage := hw.completed (by simp [hk])
    exact ⟨fun _ => closedOnce_onClose hstage hopen hdel hst, fun _ => trivial⟩
  | sendFail hst hrv | recvFail hst hrv =>
    exact (forall_prop_of_true hrv).trans
      (closedOnce_close_iff hw hopen hdel hst (hsock hst (by simp)) _)
  | armClose hst hk hc hread hidle hwrite =>
    have hat : s.atClose = true := by simp [State.atClose, hst, hk, hc, hread, hidle, hwrite]
    exact (forall_prop_of_true hat).trans
      (closedOnce_close_iff hw hopen hdel hst (hsock hst (by simp)) s.wsCtx)
  | sendReturn | recvReturn => exact hgo rfl rfl fun hrv => absurd rfl hrv
  | startSend hst | skipSend hst | startRecv hst | skipRecv hst | loop hst | leave hst
    | submit hst | noSubmit hst =>
    exact hgo rfl rfl fun hat => by simp [State.atClose, hst] at hat
  | armRead hst hk hc hwant =>
    exact hgo rfl rfl fun hat => by simp [State.atClose, hst, hk, hc, hwant] at hat
  | armStop hst hk hc _ hdue =>
    refine hgo rfl rfl fun hat => ?_
    simp only [State.atClose, hst, hk, hc, Bool.and_eq_true, Bool.not_eq_true'] at hat
    simp [hat.1.2, hat.2] at hdue
  | _ => exact hgo rfl rfl trivial

/-- **When a connection is closed properly.** In a run of a connection it is
closed at most once, the object is deleted with it, and nothing happens
afterwards, in every state, if and only if `close_websocket` is never called
and an activation of `h2o_websocket_proceed` only ever goes to `Close` where
it is the only one. -/
theorem closed_once_iff :
    Run (step slots) CloseAlone State.initial as s ↔
      Run (step slots) (Lands (step slots) (ClosedOnce slots)) State.initial as s := by
  refine Run.lands_iff (J := fun s => Wired s ∧ Alive s) ⟨wired_initial, fun _ => rfl⟩
    ⟨Nat.zero_le 1, rfl, fun h => absurd rfl h⟩ ?_ ?_
  · intro s a s' hJ hs
    exact ⟨wired_step (step_cases hs) hJ.1, alive_step (step_cases hs) hJ.2⟩
  · exact fun s a s' hJ hP hs => closeAlone_iff hs hJ.1 hJ.2 hP

/-- A handler calls `close_websocket` and returns: the object is not deleted,
and the `proceed` that was receiving goes on, to close the connection a
second time. -/
theorem closed_twice : ∃ s s', exec (step 4) State.initial
      (handshake [136, 128, 0, 0, 0, 0] ++ [.proceed, .proceed, .recvCallback 6,
        .onMsgCallback ⟨8, []⟩ ⟨true, false⟩, .closeWebsocket]) = some s ∧
    s.closes = 1 ∧ s.deletes = 0 ∧ s.stack = [.receive ⟨8, []⟩ 0, .proceed .receiving] ∧
    exec (step 4) s (.handlerReturn :: .recvReturn 0 ⟨false, false⟩ :: List.replicate 6 .proceed) =
      some s' ∧
    s'.closes = 2 ∧ s'.deletes = 1 :=
  ⟨_, _, rfl, rfl, rfl, rfl, rfl, rfl, rfl⟩

end WebSocket

end AppServer
