import AppServer.Webserver.Step

/-!
# The life of a handle

A handle is initialised, given to `uv_close`, handed back to its close
callback, and released by what pairs with its allocator: in that order, each
at most once. A listener and an open connection keep to it. A connection is
allocated with `malloc` and `close_connection` releases it with `delete`,
`release_connection_record` being there and never called; and the timer of a
`UvLogConsumer` goes with the consumer, stopped and never closed.
-/

namespace AppServer

namespace Webserver

open Lib

variable {ip4 : String → Option UInt32} {s s' : State} {a : Action} {as : List Action}
variable {k i : ℕ} {h h' : Handle} {f : Handle → Handle} {p : ℕ → Handle → Prop}

/-- The life of a handle with this allocator. -/
def Allocator.life (al : Allocator) : List Event :=
  [.init, .uvClose, .closeCallback, .release al.pair]

/-- **The handle law**: a handle is somewhere along its life, and a
connection whose close callback has run has been released. -/
structure Handle.Orderly (h : Handle) : Prop where
  along : h.events <+: h.allocator.life
  released : h.kind = .connection → .closeCallback ∈ h.events →
    .release h.allocator.pair ∈ h.events

instance (h : Handle) : Decidable h.Orderly :=
  decidable_of_iff (h.events <+: h.allocator.life ∧ (h.kind = .connection →
      .closeCallback ∈ h.events → .release h.allocator.pair ∈ h.events))
    ⟨fun ho => ⟨ho.1, ho.2⟩, fun ho => ⟨ho.1, ho.2⟩⟩

/-- Every handle keeps to it. -/
def Orderly (s : State) : Prop := ∀ h ∈ s.handles, h.Orderly

instance (s : State) : Decidable (Orderly s) :=
  inferInstanceAs (Decidable (∀ h ∈ s.handles, h.Orderly))

/-- No close callback of a connection runs, and no log consumer is
destroyed. -/
def NothingEnds (s : State) : Action → Prop
  | .closeCallback k => ∀ h, s.handles[k]? = some h → h.kind ≠ .connection
  | .deleteConsumer _ => False
  | _ => True

/-- Of every handle, and where it is in the list. -/
def Each (p : ℕ → Handle → Prop) (s : State) : Prop := ∀ k h, s.handles[k]? = some h → p k h

theorem Each.update (hs : Each p s) (hk : s.handles[k]? = some h) (hf : p k (f h)) :
    Each p (s.update k f) := by
  intro i h' hi
  rw [getElem?_update] at hi
  split at hi
  · rename_i hki
    subst hki
    rw [hk] at hi
    cases hi
    exact hf
  · exact hs i h' hi

theorem Each.allocate (hs : Each p s) (hh : p s.handles.length h) : Each p (s.allocate h) := by
  intro i h' hi
  rw [getElem?_allocate] at hi
  split at hi
  · rename_i hlen
    cases hi
    exact hlen ▸ hh
  · exact hs i h' hi

theorem orderly_iff_each : Orderly s ↔ Each (fun _ h => h.Orderly) s := by
  constructor
  · exact fun ho k h hk => ho h (List.mem_of_getElem? hk)
  · intro he h hh
    obtain ⟨k, hk⟩ := List.mem_iff_getElem?.1 hh
    exact he k h hk

/-! ## How the handles live -/

/-- What becomes of a handle, wherever it is from. -/
inductive Handle.Lives (k : ℕ) : Handle → Prop
  /-- A listener is never closed. -/
  | listener {bound : Option SockaddrIn} {listening : Bool} :
      Lives k ⟨.listener bound listening, .new, some k, none, [.init]⟩
  /-- A connection with a socket. -/
  | accepted : Lives k ⟨.connection, .malloc, none, none, [.init]⟩
  /-- A connection that waits for its close callback. -/
  | closing : Lives k ⟨.connection, .malloc, none, some .closeConnection, [.init, .uvClose]⟩
  /-- A connection after it. -/
  | closed : Lives k ⟨.connection, .malloc, none, some .closeConnection,
      [.init, .uvClose, .closeCallback, .release .delete]⟩
  /-- The timer of a consumer. -/
  | timer {active : Bool} : Lives k ⟨.timer active, .member, some k, none, [.init]⟩
  /-- The timer of a consumer that is gone. -/
  | gone : Lives k ⟨.timer false, .member, some k, none, [.init, .release .destructor]⟩

namespace Handle.Lives

/-- Only a connection that is closing has a close callback to come. -/
theorem pending_eq {cb : CloseCb} (hl : h.Lives k) (hp : h.pending = some cb) :
    h = ⟨.connection, .malloc, none, some .closeConnection, [.init, .uvClose]⟩ := by
  cases hl with
  | closing => rfl
  | _ => simp [Handle.pending] at hp

/-- Only an accepted connection has a socket to close. -/
theorem socketOpen_eq (hl : h.Lives k) (ho : h.socketOpen = true) :
    h = ⟨.connection, .malloc, none, none, [.init]⟩ := by
  cases hl with
  | accepted => rfl
  | _ => simp [Handle.socketOpen] at ho

/-- A consumer that is there has its timer. -/
theorem consumer_eq (hl : h.Lives k) (hc : h.consumer = true) :
    ∃ active, h = ⟨.timer active, .member, some k, none, [.init]⟩ := by
  cases hl with
  | timer => exact ⟨_, rfl⟩
  | _ => simp [Handle.consumer] at hc

/-- A connection has gone along its life in order, the deallocator apart. -/
theorem connection (hl : h.Lives k) (hk : h.kind = .connection) :
    h.events <+: [.init, .uvClose, .closeCallback, .release .delete] := by
  cases hl with
  | accepted => exact ⟨_, rfl⟩
  | closing => exact ⟨_, rfl⟩
  | closed => exact List.prefix_refl _
  | _ => cases hk

end Handle.Lives

/-- **One step.** -/
theorem lives_step (h : Step ip4 s a s') (hs : Each Handle.Lives s) : Each Handle.Lives s' := by
  cases h with
  | create =>
    refine Each.allocate hs ?_
    rw [createdListener]
    split <;> exact .listener
  | noConnection => exact hs
  | acceptFails => exact hs.allocate .closing
  | accept => exact hs.allocate .accepted
  | socketClose hk ho =>
    refine hs.update hk ?_
    rw [(hs _ _ hk).socketOpen_eq ho]
    exact .closing
  | closeListener hk hp =>
    rw [(hs _ _ hk).pending_eq hp] at hp
    cases hp
  | closeConnection hk hp =>
    refine hs.update hk ?_
    rw [(hs _ _ hk).pending_eq hp]
    exact .closed
  | newConsumer => exact hs.allocate .timer
  | start hk hc | stop hk hc =>
    refine hs.update hk ?_
    obtain ⟨active, rfl⟩ := (hs _ _ hk).consumer_eq hc
    exact .timer
  | deleteConsumer hk hc =>
    refine hs.update hk ?_
    obtain ⟨active, rfl⟩ := (hs _ _ hk).consumer_eq hc
    exact .gone

theorem lives_reachable (h : Reachable (step ip4) State.initial s) : Each Handle.Lives s :=
  h.invariant (by rintro k h ⟨⟩) fun s a s' hI hs => lives_step (step_cases hs) hI

/-! ## The law -/

/-- What starts keeps to the law. -/
theorem Handle.Orderly.init {kd : Kind} {al : Allocator} {data : Option ℕ} {cb : Option CloseCb} :
    Handle.Orderly ⟨kd, al, data, cb, [.init]⟩ :=
  ⟨⟨_, rfl⟩, fun _ hmem => by simp at hmem⟩

/-- What is given to `uv_close` after that keeps to it. -/
theorem Handle.Orderly.closing {kd : Kind} {al : Allocator} {data : Option ℕ}
    {cb : Option CloseCb} : Handle.Orderly ⟨kd, al, data, cb, [.init, .uvClose]⟩ :=
  ⟨⟨_, rfl⟩, fun _ hmem => by simp at hmem⟩

/-- What `close_connection` does to what `new_connection_record` allocated
does not. -/
theorem not_orderly_closed {data : Option ℕ} {cb : Option CloseCb} : ¬ Handle.Orderly
    ⟨.connection, .malloc, data, cb, [.init, .uvClose, .closeCallback, .release .delete]⟩ := by
  rintro ⟨-, hreleased⟩
  have hfree := hreleased rfl (by simp)
  simp [Allocator.pair] at hfree

/-- Nor does what `~UvLogConsumer` does to its timer. -/
theorem not_orderly_gone {kd : Kind} {data : Option ℕ} {cb : Option CloseCb} : ¬ Handle.Orderly
    ⟨kd, .member, data, cb, [.init, .release .destructor]⟩ := by
  rintro ⟨halong, -⟩
  have hclose : ¬ [Event.init, .release .destructor] <+: Allocator.member.life := by decide
  exact hclose halong

/-- A handle that was changed to one out of order is there. -/
theorem not_orderly_update (hk : s.handles[k]? = some h) (hf : ¬ (f h).Orderly) :
    ¬ Orderly (s.update k f) := by
  intro ho
  refine hf (ho _ (List.mem_of_getElem? (i := k) ?_))
  rw [getElem?_update, if_pos rfl, hk]
  rfl

/-- **One step**: from a state that keeps to the law it goes to another
exactly where nothing ends. -/
theorem orderly_step_iff (h : Step ip4 s a s') (hs : Each Handle.Lives s) (ho : Orderly s) :
    NothingEnds s a ↔ Orderly s' := by
  have hend {b : Action} {t : State} (hn : NothingEnds s b) (hp : Orderly t) :
      NothingEnds s b ↔ Orderly t := ⟨fun _ => hp, fun _ => hn⟩
  rw [orderly_iff_each] at ho
  cases h with
  | create => exact hend trivial (orderly_iff_each.2 (Each.allocate ho .init))
  | noConnection => exact hend trivial (orderly_iff_each.2 ho)
  | acceptFails => exact hend trivial (orderly_iff_each.2 (ho.allocate .closing))
  | accept => exact hend trivial (orderly_iff_each.2 (ho.allocate .init))
  | socketClose hk hopen =>
    refine hend trivial (orderly_iff_each.2 (ho.update hk ?_))
    rw [(hs _ _ hk).socketOpen_eq hopen]
    exact .closing
  | closeListener hk hp =>
    -- no listener was ever given to `uv_close`
    rw [(hs _ _ hk).pending_eq hp] at hp
    cases hp
  | closeConnection hk hp =>
    have heq := (hs _ _ hk).pending_eq hp
    subst heq
    constructor
    · intro hn
      exact absurd rfl (hn _ hk)
    · exact fun hp' => absurd hp' (not_orderly_update hk not_orderly_closed)
  | newConsumer => exact hend trivial (orderly_iff_each.2 (ho.allocate .init))
  | start hk hc | stop hk hc =>
    refine hend trivial (orderly_iff_each.2 (ho.update hk ?_))
    obtain ⟨active, rfl⟩ := (hs _ _ hk).consumer_eq hc
    exact .init
  | deleteConsumer hk hc =>
    obtain ⟨active, rfl⟩ := (hs _ _ hk).consumer_eq hc
    constructor
    · exact False.elim
    · exact fun hp' => absurd hp' (not_orderly_update hk not_orderly_gone)

/-- **The handle law holds exactly as long as nothing ends**: no connection
is handed to its close callback, and no log consumer destroyed. The order of
a connection is right even then, and only the deallocator is another's. -/
theorem orderly_iff :
    (Run (step ip4) NothingEnds State.initial as s ↔
      Run (step ip4) (Lands (step ip4) Orderly) State.initial as s) ∧
    ∀ h ∈ s.handles, Reachable (step ip4) State.initial s → h.kind = .connection →
      h.events <+: [.init, .uvClose, .closeCallback, .release .delete] := by
  constructor
  · refine Run.lands_iff (J := Each Handle.Lives) (by rintro k h ⟨⟩) (by rintro h ⟨⟩) ?_ ?_
    · exact fun s a s' hJ hs => lives_step (step_cases hs) hJ
    · exact fun s a s' hJ hP hs => orderly_step_iff (step_cases hs) hJ hP
  · intro h hh hr hk
    obtain ⟨k, hget⟩ := List.mem_iff_getElem?.1 hh
    exact (lives_reachable hr k h hget).connection hk

/-- A connection is accepted, closed and handed to its close callback. -/
def closedConnectionRun : List Action :=
  [.createIp4Listener "127.0.0.1" 7890 ⟨⟨0, 0⟩, 0, 0⟩, .onAccept 0 0 0, .socketClose 1,
    .closeCallback 1]

/-- A log consumer is constructed, started and destroyed. -/
def destroyedConsumerRun : List Action := [.newConsumer, .start 0, .deleteConsumer 0]

/-- What `malloc` gave goes to `delete`, and the timer of a consumer goes
without `uv_close`. -/
theorem connection_deleted :
    (∃ s, Run (step fun _ => some 0x7f000001) anyStep State.initial closedConnectionRun s ∧
      ¬ Orderly s ∧ s.handles[1]?.map Handle.events =
        some [.init, .uvClose, .closeCallback, .release .delete]) ∧
    ∃ s, Run (step fun _ => none) anyStep State.initial destroyedConsumerRun s ∧
      ¬ Orderly s ∧ s.handles[0]?.map Handle.events = some [.init, .release .destructor] :=
  ⟨Run.exists_of_exec (by decide +kernel), Run.exists_of_exec (by decide +kernel)⟩

end Webserver

end AppServer
