import AppServer.Webserver.Model

/-!
# What a step of a server can do to its handles

Each function of the source that makes a handle allocates it, initialises it
and maybe tries more on it, so that what it leaves is the handles there were
with one more at the end. The step relation is in these terms, and
`step_cases` says that the step function does nothing else.
-/

namespace AppServer

namespace Webserver

open Lib

variable {ip4 : String → Option UInt32} {s s' : State} {a : Action}

/-! ## Reading the handles after a change -/

section Handles

variable {k i : ℕ} {h : Handle} {f : Handle → Handle}

theorem getElem?_update : (s.update k f).handles[i]? =
    if k = i then s.handles[i]?.map f else s.handles[i]? := by
  show (s.handles.modify k f)[i]? = _
  rw [List.getElem?_modify]
  split <;> simp

theorem getElem?_allocate : (s.allocate h).handles[i]? =
    if i = s.handles.length then some h else s.handles[i]? := by
  show (s.handles ++ [h])[i]? = _
  split
  · subst i
    simp
  · rename_i hi
    rcases Nat.lt_or_ge i s.handles.length with hlt | hge
    · exact List.getElem?_append_left hlt
    · rw [List.getElem?_eq_none hge, List.getElem?_eq_none]
      rw [List.length_append, List.length_singleton]
      omega

/-- A handle is changed twice. -/
theorem update_update {g : Handle → Handle} :
    (s.update k f).update k g = s.update k (g ∘ f) := by
  rw [State.update, State.update, List.modify_modify_eq]
  rfl

/-- What was just allocated is changed. -/
theorem update_allocate : (s.allocate h).update s.handles.length f = s.allocate (f h) := by
  have hlast : (s.handles ++ [h]).modify s.handles.length f = s.handles ++ [f h] :=
    List.modifyTailIdx_add (List.modifyHead f) 0 s.handles [h]
  rw [State.update, State.allocate, hlast]
  rfl

end Handles

/-! ## What the functions allocate -/

/-- What was just initialised is there; the rest is as it was. -/
theorem newConsumer_eq : newConsumer s =
    s.allocate ⟨.timer false, .member, some s.handles.length, none, [.init]⟩ :=
  update_allocate

theorem onAccept_eq {status acceptRv : ℤ} : onAccept s status acceptRv =
    if status ≠ 0 then s
    else if acceptRv ≠ 0 then
      s.allocate ⟨.connection, .malloc, none, some .closeConnection, [.init, .uvClose]⟩
    else s.allocate ⟨.connection, .malloc, none, none, [.init]⟩ := by
  have hinit : uvInit (newConnectionRecord s) s.handles.length =
      s.allocate ⟨.connection, .malloc, none, none, [.init]⟩ := update_allocate
  rw [onAccept]
  simp only [hinit, uvClose, update_allocate]
  rfl

/-- The listener `create_listener` leaves. -/
def createdListener (addr : SockaddrIn) (env : ListenerEnv) : Kind :=
  if env.bindRv ≠ 0 then .listener none false
  else .listener (some addr) (env.listenRv = 0)

/-- What `create_listener` returns. -/
def createdRv (env : ListenerEnv) : ℤ := if env.bindRv ≠ 0 then env.bindRv else env.listenRv

theorem createdRv_eq_zero_iff {env : ListenerEnv} :
    createdRv env = 0 ↔ env.bindRv = 0 ∧ env.listenRv = 0 := by
  rw [createdRv]
  by_cases hbind : env.bindRv = 0 <;> simp [hbind]

theorem createListener_eq {addr : SockaddrIn} {env : ListenerEnv} : createListener s addr env =
    (s.allocate ⟨createdListener addr env, .new, some s.handles.length, none, [.init]⟩,
      createdRv env, if createdRv env = 0 then none else some .stackSlot) := by
  have hinit : uvInit (newListenerRecord s) s.handles.length =
      s.allocate ⟨.listener none false, .new, some s.handles.length, none, [.init]⟩ :=
    update_allocate
  simp only [createListener, hinit, uvTcpBind, uvListen, uvClose, update_allocate,
    createdListener, createdRv]
  by_cases hb : env.bindRv = 0
  · by_cases hl : env.listenRv = 0 <;> simp [hb, hl]
  · simp [hb]

/-- What `create_ip4_listener` asks `uv_tcp_bind` for. -/
def askedAddr (ip4 : String → Option UInt32) (ip : String) (port : UInt16) (env : ListenerEnv) :
    SockaddrIn :=
  match ip4 ip with
  | some a => ⟨a, port⟩
  | none => env.leftover

theorem createIp4Listener_eq {ip : String} {port : UInt16} {env : ListenerEnv} :
    createIp4Listener ip4 s ip port env =
      { s.allocate ⟨createdListener (askedAddr ip4 ip port env) env, .new,
          some s.handles.length, none, [.init]⟩ with
        calls := s.calls ++ [⟨ip, port, createdRv env, s.handles.length,
          if createdRv env = 0 then none else some .stackSlot⟩] } := by
  simp only [createIp4Listener, createListener_eq]
  rfl

/-! ## The step relation -/

/-- **The steps.** -/
inductive Step (ip4 : String → Option UInt32) (s : State) : Action → State → Prop
  /-- `create_ip4_listener` is called. -/
  | create {ip : String} {port : UInt16} {env : ListenerEnv} :
      Step ip4 s (.createIp4Listener ip port env)
        { s.allocate ⟨createdListener (askedAddr ip4 ip port env) env, .new,
            some s.handles.length, none, [.init]⟩ with
          calls := s.calls ++ [⟨ip, port, createdRv env, s.handles.length,
            if createdRv env = 0 then none else some .stackSlot⟩] }
  /-- `on_accept` is called with an error. -/
  | noConnection {k : ℕ} {status acceptRv : ℤ} :
      status ≠ 0 → Step ip4 s (.onAccept k status acceptRv) s
  /-- `uv_accept` fails, and the connection is closed. -/
  | acceptFails {k : ℕ} {acceptRv : ℤ} : acceptRv ≠ 0 → Step ip4 s (.onAccept k 0 acceptRv)
      (s.allocate ⟨.connection, .malloc, none, some .closeConnection, [.init, .uvClose]⟩)
  /-- It succeeds. -/
  | accept {k : ℕ} : Step ip4 s (.onAccept k 0 0)
      (s.allocate ⟨.connection, .malloc, none, none, [.init]⟩)
  /-- h2o closes the socket of a connection. -/
  | socketClose {k : ℕ} {h : Handle} :
      s.handles[k]? = some h → h.socketOpen = true → Step ip4 s (.socketClose k)
        (s.update k fun h => { h.happen .uvClose with closeCb := some .closeConnection })
  /-- The listener that was closed is released. -/
  | closeListener {k : ℕ} {h : Handle} :
      s.handles[k]? = some h → h.pending = some .closeListener →
      Step ip4 s (.closeCallback k)
        (Webserver.closeListener (s.update k (Handle.happen .closeCallback)) k)
  /-- The connection that was closed is released, by `delete`. -/
  | closeConnection {k : ℕ} {h : Handle} :
      s.handles[k]? = some h → h.pending = some .closeConnection →
      Step ip4 s (.closeCallback k)
        (s.update k (Handle.happen (.release .delete) ∘ Handle.happen .closeCallback))
  /-- A `UvLogConsumer` is constructed. -/
  | newConsumer : Step ip4 s .newConsumer
      (s.allocate ⟨.timer false, .member, some s.handles.length, none, [.init]⟩)
  /-- Its timer is started. -/
  | start {k : ℕ} {h : Handle} :
      s.handles[k]? = some h → h.consumer = true →
      Step ip4 s (.start k) (setActive s k true)
  /-- Its timer is stopped. -/
  | stop {k : ℕ} {h : Handle} :
      s.handles[k]? = some h → h.consumer = true →
      Step ip4 s (.stop k) (setActive s k false)
  /-- It is destroyed, its timer not closed. -/
  | deleteConsumer {k : ℕ} {h : Handle} :
      s.handles[k]? = some h → h.consumer = true →
      Step ip4 s (.deleteConsumer k)
        (s.update k fun h => { h.happen (.release .destructor) with kind := .timer false })

/-- **The step function takes only such steps.** -/
theorem step_cases (h : step ip4 s a = some s') : Step ip4 s a s' := by
  cases a with
  | createIp4Listener ip port env =>
    rw [step, createIp4Listener_eq] at h
    cases h
    exact .create
  | onAccept k status acceptRv =>
    -- the three ways out of `on_accept`
    simp only [step, Option.ite_none_right_eq_some, onAccept_eq, Option.some.injEq] at h
    obtain ⟨-, rfl⟩ := h
    by_cases hst : status = 0
    · subst hst
      by_cases hrv : acceptRv = 0
      · subst hrv
        exact .accept
      · rw [if_neg (by simp), if_pos hrv]
        exact .acceptFails hrv
    · rw [if_pos hst]
      exact .noConnection hst
  | socketClose k =>
    simp only [step, Option.ite_none_right_eq_some, Option.some.injEq, Option.any_eq_true] at h
    obtain ⟨⟨h, hk, hopen⟩, rfl⟩ := h
    exact .socketClose hk hopen
  | closeCallback k =>
    rw [step] at h
    split at h
    · rename_i hcb
      obtain ⟨h₀, hk, hp⟩ := Option.bind_eq_some_iff.1 hcb
      cases h
      exact .closeListener hk hp
    · rename_i hcb
      obtain ⟨h₀, hk, hp⟩ := Option.bind_eq_some_iff.1 hcb
      rw [closeConnection, update_update] at h
      cases h
      exact .closeConnection hk hp
    · cases h
  | newConsumer =>
    rw [step, newConsumer_eq] at h
    cases h
    exact .newConsumer
  | start k =>
    simp only [step, Option.ite_none_right_eq_some, Option.some.injEq, Option.any_eq_true] at h
    obtain ⟨⟨h, hk, hc⟩, rfl⟩ := h
    exact .start hk hc
  | stop k =>
    simp only [step, Option.ite_none_right_eq_some, Option.some.injEq, Option.any_eq_true] at h
    obtain ⟨⟨h, hk, hc⟩, rfl⟩ := h
    exact .stop hk hc
  | deleteConsumer k =>
    simp only [step, Option.ite_none_right_eq_some, Option.some.injEq, Option.any_eq_true] at h
    obtain ⟨⟨h, hk, hc⟩, rfl⟩ := h
    rw [deleteConsumer, setActive, update_update]
    exact .deleteConsumer hk hc

end Webserver

end AppServer
