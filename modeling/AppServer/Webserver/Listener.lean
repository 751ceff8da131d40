import AppServer.Webserver.Handles

/-!
# Listeners

What `create_ip4_listener` leaves of each of its calls. It does not look at
the result of `uv_ip4_addr`, and what it passes to `uv_close` after a
failure is the address of its own variable `listener`. So it is all or
nothing exactly where it never meets a failure; the listeners of other calls
are left as they were in any case.
-/

namespace AppServer

namespace Webserver

open Lib

variable {ip4 : String → Option UInt32} {s s' : State} {a : Action} {as : List Action}
variable {c : Call} {k : ℕ} {h : Handle}

/-- A call that returned 0: its listener listens on what was asked for. -/
def Call.Listens (ip4 : String → Option UInt32) (s : State) (c : Call) : Prop :=
  ∃ addr, ip4 c.ip = some addr ∧ s.handles[c.listener]? =
    some ⟨.listener (some ⟨addr, c.port⟩) true, .new, some c.listener, none, [.init]⟩

/-- A call that failed: the handle it allocated went to `uv_close`, and is
waiting for `close_listener` or was released by it. -/
def Call.Undone (s : State) (c : Call) : Prop :=
  c.closed = some (.handle c.listener) ∧ ∃ h bound, s.handles[c.listener]? = some h ∧
    h.kind = .listener bound false ∧
    (h.events = [.init, .uvClose] ∧ h.pending = some .closeListener ∨
      h.events = [.init, .uvClose, .closeCallback, .release .delete])

/-- **All or nothing**: each call that returned 0 has its listener, each
other call undid what it did, and nothing else listens. -/
structure AllOrNothing (ip4 : String → Option UInt32) (s : State) : Prop where
  all : ∀ c ∈ s.calls, c.rv = 0 → c.Listens ip4 s
  nothing : ∀ c ∈ s.calls, c.rv ≠ 0 → c.Undone s
  only : ∀ k h, s.handles[k]? = some h → h.listening = true →
    ∃ c ∈ s.calls, c.rv = 0 ∧ c.listener = k
  once : (s.calls.map Call.listener).Nodup

/-- What a call leaves: one handle more, recorded with the call, and every
other as it was. -/
structure Creates (s s' : State) (ip : String) (port : UInt16) : Prop where
  call : ∃ rv closed, s'.calls = s.calls ++ [⟨ip, port, rv, s.handles.length, closed⟩]
  one : s'.handles.length = s.handles.length + 1
  others : ∀ k < s.handles.length, s'.handles[k]? = s.handles[k]?

/-- The step keeps to all or nothing. -/
def CreatesAllOrNothing (ip4 : String → Option UInt32) (s : State) (a : Action) : Prop :=
  ∀ s', step ip4 s a = some s' → AllOrNothing ip4 s' ∧
    ∀ ip port env, a = .createIp4Listener ip port env → Creates s s' ip port

/-- The string is an address, and libuv binds and listens. -/
def NothingFails (ip4 : String → Option UInt32) : State → Action → Prop
  | _, .createIp4Listener ip _ env => (ip4 ip).isSome ∧ env.bindRv = 0 ∧ env.listenRv = 0
  | _, _ => True

instance : Decidable (NothingFails ip4 s a) := by
  cases a <;> unfold NothingFails <;> infer_instance

/-! ## A call and the listeners of others -/

/-- The handle is of a listener. -/
def Handle.isListener (h : Handle) : Bool :=
  match h.kind with
  | .listener _ _ => true
  | _ => false

theorem creates {ip : String} {port : UInt16} {env : ListenerEnv}
    (h : Step ip4 s (.createIp4Listener ip port env) s') : Creates s s' ip port := by
  cases h with
  | create =>
    refine ⟨⟨_, _, rfl⟩, List.length_append .., fun k hk => ?_⟩
    show (State.allocate s _).handles[k]? = _
    rw [getElem?_allocate, if_neg (Nat.ne_of_lt hk)]

/-- What is no listener may be updated. -/
theorem listener_update_iff {f : Handle → Handle} {i : ℕ} {h' : Handle}
    (hi : s.handles[i]? = some h') (hh' : h'.isListener = false)
    (hf : (f h').isListener = false) (hh : h.isListener = true) :
    (s.update i f).handles[k]? = some h ↔ s.handles[k]? = some h := by
  rw [getElem?_update]
  split
  · rename_i hik
    subst hik
    rw [hi]
    constructor
    · rintro ⟨⟩
      rw [hf] at hh
      cases hh
    · rintro ⟨⟩
      rw [hh'] at hh
      cases hh
  · rfl

/-- What is no listener may be allocated. -/
theorem listener_allocate_iff {h' : Handle} (hh' : h'.isListener = false)
    (hh : h.isListener = true) :
    (s.allocate h').handles[k]? = some h ↔ s.handles[k]? = some h := by
  rw [getElem?_allocate]
  split
  · rename_i hk
    subst hk
    rw [List.getElem?_eq_none (Nat.le_refl _)]
    constructor
    · rintro ⟨⟩
      rw [hh'] at hh
      cases hh
    · rintro ⟨⟩
  · rfl

/-- A step that is no call changes no listener. -/
theorem listener_iff (hst : Step ip4 s a s') (hs : Each Handle.Lives s)
    (ha : ∀ ip port env, a ≠ .createIp4Listener ip port env) (hh : h.isListener = true) :
    s'.handles[k]? = some h ↔ s.handles[k]? = some h := by
  cases hst with
  | create => exact absurd rfl (ha _ _ _)
  | noConnection => rfl
  | acceptFails | accept | newConsumer => exact listener_allocate_iff rfl hh
  | socketClose hk ho =>
    cases (hs _ _ hk).socketOpen_eq ho
    exact listener_update_iff hk rfl rfl hh
  | closeListener hk hp =>
    rw [(hs _ _ hk).pending_eq hp] at hp
    cases hp
  | closeConnection hk hp =>
    cases (hs _ _ hk).pending_eq hp
    exact listener_update_iff hk rfl rfl hh
  | start hk hc | stop hk hc | deleteConsumer hk hc =>
    obtain ⟨active, rfl⟩ := (hs _ _ hk).consumer_eq hc
    exact listener_update_iff hk rfl rfl hh

theorem calls_of_step (hst : Step ip4 s a s') (hs : Each Handle.Lives s)
    (ha : ∀ ip port env, a ≠ .createIp4Listener ip port env) : s'.calls = s.calls := by
  cases hst with
  | create => exact absurd rfl (ha _ _ _)
  | closeListener hk hp =>
    rw [(hs _ _ hk).pending_eq hp] at hp
    cases hp
  | _ => rfl

/-! ## All or nothing -/

/-- As handles live, no call has undone what it did. -/
theorem not_undone (hs : Each Handle.Lives s) : ¬ c.Undone s := by
  rintro ⟨-, h, bound, hk, hkind, hevents⟩
  cases hs _ _ hk with
  | listener => rcases hevents with ⟨hev, -⟩ | hev <;> cases hev
  | _ => cases hkind

/-- So each call returned 0, and has its listener. -/
theorem AllOrNothing.listens (h : AllOrNothing ip4 s) (hs : Each Handle.Lives s)
    (hc : c ∈ s.calls) : c.rv = 0 ∧ c.Listens ip4 s := by
  have hrv : c.rv = 0 := by
    by_contra hne
    exact not_undone hs (h.nothing c hc hne)
  exact ⟨hrv, h.all c hc hrv⟩

/-- A step that is no call keeps to all or nothing. -/
theorem AllOrNothing.of_others (h : AllOrNothing ip4 s) (hs : Each Handle.Lives s)
    (hst : Step ip4 s a s') (ha : ∀ ip port env, a ≠ .createIp4Listener ip port env) :
    AllOrNothing ip4 s' := by
  have hcalls := calls_of_step hst hs ha
  refine ⟨fun c hc _ => ?_, fun c hc hrv => ?_, fun k h' hk hl => ?_, hcalls ▸ h.once⟩
  · rw [hcalls] at hc
    obtain ⟨-, addr, hip, hget⟩ := h.listens hs hc
    exact ⟨addr, hip, (listener_iff hst hs ha rfl).2 hget⟩
  · -- no call has failed before
    rw [hcalls] at hc
    exact absurd (h.listens hs hc).1 hrv
  · have hlis : h'.isListener = true := by
      revert hl
      rw [Handle.listening, Handle.isListener]
      cases h'.kind <;> simp
    rw [hcalls]
    exact h.only k h' ((listener_iff hst hs ha hlis).1 hk) hl

/-- **A call that meets no failure.** -/
theorem AllOrNothing.create {ip : String} {port : UInt16} {env : ListenerEnv}
    (h : AllOrNothing ip4 s) (hs : Each Handle.Lives s)
    (hst : Step ip4 s (.createIp4Listener ip port env) s')
    (hok : NothingFails ip4 s (.createIp4Listener ip port env)) : AllOrNothing ip4 s' := by
  obtain ⟨hip, hbind, hlisten⟩ := hok
  obtain ⟨addr, hip⟩ := Option.isSome_iff_exists.1 hip
  have hrv : createdRv env = 0 := createdRv_eq_zero_iff.2 ⟨hbind, hlisten⟩
  have hkind : createdListener (askedAddr ip4 ip port env) env =
      .listener (some ⟨addr, port⟩) true := by
    simp [createdListener, askedAddr, hip, hbind, hlisten]
  have hothers := (creates hst).others
  -- the handles of earlier calls are there, so that the new one is not theirs
  have hlt : ∀ c ∈ s.calls, c.listener < s.handles.length := by
    intro c hc
    obtain ⟨-, addr, -, hget⟩ := h.listens hs hc
    exact (List.getElem?_eq_some_iff.1 hget).1
  cases hst with
  | create =>
    simp only [hrv, hkind, if_true] at hothers ⊢
    have hnew : (s.allocate ⟨.listener (some ⟨addr, port⟩) true, .new, some s.handles.length,
        none, [.init]⟩).handles[s.handles.length]? = some ⟨.listener (some ⟨addr, port⟩) true,
          .new, some s.handles.length, none, [.init]⟩ := by
      rw [getElem?_allocate, if_pos rfl]
    constructor
    · intro c hc _
      rcases List.mem_append.1 hc with hc | hc
      · obtain ⟨-, addr, hip, hget⟩ := h.listens hs hc
        exact ⟨addr, hip, (hothers _ (hlt c hc)).trans hget⟩
      · obtain rfl := List.mem_singleton.1 hc
        exact ⟨addr, hip, hnew⟩
    · intro c hc hne
      rcases List.mem_append.1 hc with hc | hc
      · exact absurd (h.listens hs hc).1 hne
      · obtain rfl := List.mem_singleton.1 hc
        exact absurd rfl hne
    · intro k h' hk hl
      by_cases hlast : k = s.handles.length
      · exact ⟨_, List.mem_append_right _ (List.mem_singleton_self _), rfl, hlast.symm⟩
      · have hk' : s.handles[k]? = some h' := by
          rw [← hk]
          exact (getElem?_allocate.trans (if_neg hlast)).symm
        obtain ⟨c, hc, hrv, hcl⟩ := h.only k h' hk' hl
        exact ⟨c, List.mem_append_left _ hc, hrv, hcl⟩
    · show ((s.calls ++ [_]).map Call.listener).Nodup
      rw [List.map_append, List.nodup_append]
      refine ⟨h.once, by simp, ?_⟩
      intro i hi j hj
      obtain ⟨c, hc, rfl⟩ := List.mem_map.1 hi
      obtain rfl : j = s.handles.length := by simpa using hj
      exact Nat.ne_of_lt (hlt c hc)

/-- **A call that meets one.** -/
theorem not_allOrNothing_create {ip : String} {port : UInt16} {env : ListenerEnv}
    (hs : Each Handle.Lives s') (hst : Step ip4 s (.createIp4Listener ip port env) s')
    (hno : ¬ NothingFails ip4 s (.createIp4Listener ip port env)) : ¬ AllOrNothing ip4 s' := by
  intro h
  cases hst with
  | create =>
    obtain ⟨hrv, addr, hip, -⟩ := h.listens hs
      (List.mem_append_right _ (List.mem_singleton_self _))
    exact hno ⟨Option.isSome_iff_exists.2 ⟨addr, hip⟩, createdRv_eq_zero_iff.1 hrv⟩

/-- **One step**: from a state that keeps to all or nothing it goes to
another exactly where it meets no failure. -/
theorem allOrNothing_step_iff (hst : Step ip4 s a s') (hs : Each Handle.Lives s)
    (h : AllOrNothing ip4 s) : NothingFails ip4 s a ↔ AllOrNothing ip4 s' := by
  constructor
  · intro hok
    cases a with
    | createIp4Listener ip port env => exact h.create hs hst hok
    | _ => exact h.of_others hs hst (by simp)
  · intro h'
    cases a with
    | createIp4Listener ip port env =>
      by_contra hno
      exact not_allOrNothing_create (lives_step hst hs) hst hno h'
    | _ => trivial

/-- **Listener creation is all or nothing exactly as long as no call meets a
failure**: each string is an IPv4 address, and each `uv_tcp_bind` and
`uv_listen` returns 0. -/
theorem listeners_all_or_nothing_iff :
    Run (step ip4) (NothingFails ip4) State.initial as s ↔
      Run (step ip4) (CreatesAllOrNothing ip4) State.initial as s := by
  refine Run.congr (I := fun s => Each Handle.Lives s ∧ AllOrNothing ip4 s) ?_ ?_ ?_
  · refine ⟨by rintro k h ⟨⟩, ?_, ?_, by rintro k h ⟨⟩, List.nodup_nil⟩ <;> rintro c ⟨⟩
  · intro s a s' hI hok hs
    have hst := step_cases hs
    exact ⟨lives_step hst hI.1, (allOrNothing_step_iff hst hI.1 hI.2).1 hok⟩
  · intro s a s' hI hs
    rw [allOrNothing_step_iff (step_cases hs) hI.1 hI.2]
    constructor
    · intro h' s'' hs''
      rw [hs] at hs''
      cases hs''
      refine ⟨h', ?_⟩
      rintro ip port env rfl
      exact creates (step_cases hs)
    · exact fun h' => (h' s' hs).1

/-- What `uv_ip4_addr` makes of one address, and of what is none. -/
def sampleIp4 (ip : String) : Option UInt32 := if ip = "127.0.0.1" then some 0x7f000001 else none

/-- A call with a host name, for which `uv_ip4_addr` leaves `0.0.0.0`. -/
def hostNameCall : Action := .createIp4Listener "localhost" 7890 ⟨⟨0, 7890⟩, 0, 0⟩

/-- A call with a port that is in use: `EADDRINUSE`. -/
def portTakenCall : Action := .createIp4Listener "127.0.0.1" 7890 ⟨⟨0, 0⟩, 0, -98⟩

/-- The first returns 0 and listens on every interface. The second passes
the stack to `uv_close`. -/
theorem malformed_address_listens :
    (∃ s, Run (step sampleIp4) anyStep State.initial [hostNameCall] s ∧
      ¬ AllOrNothing sampleIp4 s ∧ s.calls.map Call.rv = [0] ∧
      s.handles.map Handle.kind = [.listener (some ⟨0, 7890⟩) true]) ∧
    ∃ s, Run (step sampleIp4) anyStep State.initial [portTakenCall] s ∧
      ¬ AllOrNothing sampleIp4 s ∧ s.calls.map Call.rv = [-98] ∧
      s.calls.map Call.closed = [some .stackSlot] ∧
      s.handles.map Handle.events = [[.init]] := by
  have hnot : ∀ ip port env s, step sampleIp4 State.initial (.createIp4Listener ip port env) =
      some s → ¬ NothingFails sampleIp4 State.initial (.createIp4Listener ip port env) →
      ¬ AllOrNothing sampleIp4 s := by
    intro ip port env s hs hno
    exact not_allOrNothing_create
      (lives_step (step_cases hs) (by rintro k h ⟨⟩)) (step_cases hs) hno
  exact ⟨⟨_, Run.single trivial rfl, hnot _ _ _ _ rfl (by decide +kernel), rfl, rfl⟩,
    ⟨_, Run.single trivial rfl, hnot _ _ _ _ rfl (by decide +kernel), rfl, rfl, rfl⟩⟩

end Webserver

end AppServer
