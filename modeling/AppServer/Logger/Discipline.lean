import AppServer.Logger.Step

/-!
# Who owns which logger, and who holds the lock

The invariant the lock-free queues rest on. `StackOk` is the grammar of the
stacks a thread can have, with what each says of its registration and of
`logger_mutex`: the code between a lock and its unlock is exactly the code
that runs on a stack marked as holding. `Registry` ties the threads'
`thread_local` loggers to the heap and to `loggers`. Both hold in every
reachable state (`discipline`).
-/

namespace AppServer

namespace Logger

open Lib

/-! ## How far a thread has got with its logger -/

/-- A thread has no logger, or one not yet in `loggers`, or one in
`loggers`. -/
inductive Stage where
  | fresh
  | allocated (l : Addr)
  | registered (l : Addr)
  deriving DecidableEq, Repr

/-- The thread's logger, where it has one. -/
def Stage.logger? : Stage → Option Addr
  | .fresh => none
  | .allocated l => some l
  | .registered l => some l

/-- Not between the allocation and the registration. -/
def Stage.Settled (g : Stage) : Prop := ∀ l, g ≠ .allocated l

/-- The stage, read off the `thread_local` variables. -/
def Thread.stage (th : Thread) : Stage :=
  if th.initialized then .registered th.logger
  else if th.closer.isSome then .allocated th.logger
  else .fresh

/-- Thread `t` holds `logger_mutex`. -/
def State.holds (s : State) (t : ThreadId) : Bool := s.mutex == some t

/-- The thread that allocated a logger. -/
def State.ownerOf (s : State) (l : Addr) : Option ThreadId := (s.heap l).map ThreadLogger.owner

/-! ## The grammar of stacks -/

/-- The stacks a log call can be made from: the thread's own code, an
`ordered_log` called by `consume`, or `get_thread_logger` logging the first
message. The flag is whether the lock is held. -/
inductive LogContext : Stage → Bool → List Frame → Prop where
  | idle {g : Stage} : LogContext g false []
  | ordered {g : Stage} {i : ℕ} {first : MsgLoggerPair} {next : StdSet pairKey}
      {check : StdSet loggerKey} :
      LogContext g true [.orderedLog, .consume (.logging i first) next check]
  | registering {l : Addr} {c : LogCall} {item : LogMessage} :
      LogContext (.registered l) true [.getThreadLogger .unlock, .realLogMsg c item .calling]

/-- The points of `consume` other than the call of `ordered_log`, with
whether the lock is held there. -/
def ConsumePc.holds? : ConsumePc → Option Bool
  | .lock => some false
  | .logging _ _ => none
  | _ => some true

/-- The stacks a thread can have, with its stage and whether it holds the
lock. -/
inductive StackOk : Stage → Bool → List Frame → Prop where
  | context {g : Stage} {h : Bool} {st : List Frame} (hg : g.Settled) (hc : LogContext g h st) :
      StackOk g h st
  | consume {g : Stage} {h : Bool} {pc : ConsumePc} {next : StdSet pairKey}
      {check : StdSet loggerKey} (hg : g.Settled) (hpc : pc.holds? = some h) :
      StackOk g h [.consume pc next check]
  | test {g : Stage} {h : Bool} {st : List Frame} {c : LogCall} {item : LogMessage}
      (hg : g.Settled) (hc : LogContext g h st) :
      StackOk g h (.getThreadLogger .test :: .realLogMsg c item .calling :: st)
  | lock {l : Addr} {h : Bool} {st : List Frame} {c : LogCall} {item : LogMessage}
      (hc : LogContext (.allocated l) h st) :
      StackOk (.allocated l) h (.getThreadLogger .lock :: .realLogMsg c item .calling :: st)
  | push {l : Addr} {c : LogCall} {item : LogMessage} :
      StackOk (.allocated l) true [.getThreadLogger .push, .realLogMsg c item .calling]
  | stamp {l : Addr} {h : Bool} {st : List Frame} {c : LogCall} {item : LogMessage}
      (hc : LogContext (.registered l) h st) :
      StackOk (.registered l) h (.realLogMsg c item (.stamp l) :: st)
  | enqueue {l : Addr} {h : Bool} {st : List Frame} {c : LogCall} {item : LogMessage} {r : Record}
      (hc : LogContext (.registered l) h st) :
      StackOk (.registered l) h (.realLogMsg c item (.enqueue l r) :: st)

/-- Every thread's stack is one it can have. -/
def StacksOk (s : State) : Prop :=
  ∀ t, StackOk (s.threads t).stage (s.holds t) (s.threads t).stack

/-- The threads' loggers, the heap and `loggers` agree. -/
structure Registry (s : State) : Prop where
  /-- A thread has the one logger it allocated. -/
  owns : ∀ t l, (s.threads t).stage.logger? = some l ↔ s.ownerOf l = some t
  /-- `loggers` lists the loggers of the registered threads. -/
  listed : ∀ l, l ∈ s.loggers ↔ ∃ t, (s.threads t).stage = .registered l
  /-- Each once. -/
  nodup : s.loggers.Nodup
  /-- What is not listed has not been logged to. -/
  empty : ∀ l, l ∉ s.loggers → s.queue l = []

/-! ## The initial state -/

theorem stage_fresh : Thread.fresh.stage = .fresh := rfl

theorem settled_fresh : Stage.fresh.Settled := fun _ h => by cases h

theorem settled_registered {l : Addr} : (Stage.registered l).Settled := fun _ h => by cases h

theorem stacksOk_initial : StacksOk State.initial :=
  fun _ => StackOk.context settled_fresh LogContext.idle

theorem registry_initial : Registry State.initial where
  owns t l := by simp [State.initial, stage_fresh, Stage.logger?, State.ownerOf]
  listed l := by simp [State.initial, stage_fresh]
  nodup := List.nodup_nil
  empty l _ := rfl

/-! ## Stages and owners along a step -/

section Fields

variable {s : State} {t u : ThreadId} {l l' : Addr}

@[simp] theorem setStack_stage {st : List Frame} :
    ((s.setStack t st).threads u).stage = (s.threads u).stage := by
  simp [Thread.stage]

@[simp] theorem setStack_holds {st : List Frame} : (s.setStack t st).holds u = s.holds u := rfl

theorem holds_eq_true : s.holds t = true ↔ s.mutex = some t := beq_iff_eq

theorem holds_eq_false : s.holds t = false ↔ s.mutex ≠ some t := beq_eq_false_iff_ne

theorem stage_of_initialized (h : (s.threads t).initialized = true) :
    (s.threads t).stage = .registered (s.threads t).logger := by
  rw [Thread.stage, if_pos h]

/-- An uninitialised thread that is not about to register has no logger. -/
theorem stage_of_not_initialized (hg : (s.threads t).stage.Settled)
    (h : (s.threads t).initialized = false) : (s.threads t).stage = .fresh := by
  unfold Thread.stage at hg ⊢
  rw [if_neg (by simp [h])] at hg ⊢
  split
  · rename_i hc
    exact absurd (by rw [if_pos hc]) (hg (s.threads t).logger)
  · rfl

/-- The logger a stage names is the `thread_local` one. -/
theorem logger_of_stage (h : (s.threads t).stage.logger? = some l) :
    (s.threads t).logger = l := by
  unfold Thread.stage at h
  split at h
  · exact Option.some.inj h
  · split at h
    · exact Option.some.inj h
    · cases h

@[simp] theorem setQueue_ownerOf {q : List Record} :
    (s.setQueue l q).ownerOf l' = s.ownerOf l' := by
  by_cases h : l' = l
  · subst h
    simp only [State.ownerOf, State.setQueue, Function.update_self, Option.map_map]
    rfl
  · simp [State.ownerOf, State.setQueue, h]

end Fields

/-! ## Reading the grammar at the top of a stack -/

namespace StackOk

variable {g : Stage} {h : Bool} {st : List Frame} {c : LogCall} {item : LogMessage} {l : Addr}

theorem inv_nil (hok : StackOk g h []) : g.Settled ∧ h = false := by
  cases hok with
  | context hg hc => cases hc; exact ⟨hg, rfl⟩

theorem inv_ordered (hok : StackOk g h (.orderedLog :: st)) :
    g.Settled ∧ h = true ∧ ∃ i first next check, st = [.consume (.logging i first) next check] := by
  cases hok with
  | context hg hc => cases hc; exact ⟨hg, rfl, _, _, _, _, rfl⟩

theorem inv_test (hok : StackOk g h (.getThreadLogger .test :: st)) :
    g.Settled ∧ ∃ c item b, st = .realLogMsg c item .calling :: b ∧ LogContext g h b := by
  cases hok with
  | context _ hc => cases hc
  | test hg hc => exact ⟨hg, _, _, _, rfl, hc⟩

theorem inv_lock (hok : StackOk g h (.getThreadLogger .lock :: st)) :
    ∃ l c item b, g = .allocated l ∧ st = .realLogMsg c item .calling :: b ∧
      LogContext g h b := by
  cases hok with
  | context _ hc => cases hc
  | lock hc => exact ⟨_, _, _, _, rfl, rfl, hc⟩

theorem inv_push (hok : StackOk g h (.getThreadLogger .push :: st)) :
    ∃ l c item, g = .allocated l ∧ h = true ∧ st = [.realLogMsg c item .calling] := by
  cases hok with
  | context _ hc => cases hc
  | push => exact ⟨_, _, _, rfl, rfl, rfl⟩

theorem inv_unlock (hok : StackOk g h (.getThreadLogger .unlock :: st)) :
    ∃ l c item, g = .registered l ∧ h = true ∧ st = [.realLogMsg c item .calling] := by
  cases hok with
  | context _ hc => cases hc; exact ⟨_, _, _, rfl, rfl, rfl⟩

theorem inv_stamp (hok : StackOk g h (.realLogMsg c item (.stamp l) :: st)) :
    g = .registered l ∧ LogContext g h st := by
  cases hok with
  | context _ hc => cases hc
  | stamp hc => exact ⟨rfl, hc⟩

theorem inv_enqueue {r : Record} (hok : StackOk g h (.realLogMsg c item (.enqueue l r) :: st)) :
    g = .registered l ∧ LogContext g h st := by
  cases hok with
  | context _ hc => cases hc
  | enqueue hc => exact ⟨rfl, hc⟩

theorem inv_consume {pc : ConsumePc} {next : StdSet pairKey} {check : StdSet loggerKey}
    (hok : StackOk g h (.consume pc next check :: st)) :
    g.Settled ∧ pc.holds? = some h ∧ st = [] := by
  cases hok with
  | context _ hc => cases hc
  | consume hg hpc => exact ⟨hg, hpc, rfl⟩

/-- Whoever can log is in a context to log from. -/
theorem context_of_canLog {th : Thread} (hok : StackOk g h th.stack) (hlog : th.canLog = true) :
    g.Settled ∧ LogContext g h th.stack := by
  unfold Thread.canLog at hlog
  split at hlog
  · rename_i hst
    rw [hst] at hok ⊢
    obtain ⟨hg, rfl⟩ := hok.inv_nil
    exact ⟨hg, LogContext.idle⟩
  · rename_i hst
    rw [hst] at hok ⊢
    obtain ⟨hg, rfl, i, first, next, check, rfl⟩ := hok.inv_ordered
    exact ⟨hg, LogContext.ordered⟩
  · cases hlog

end StackOk

/-- A context that does not rest on the registration serves any stage. -/
theorem LogContext.of_fresh {g : Stage} {h : Bool} {st : List Frame}
    (hc : LogContext .fresh h st) : LogContext g h st := by
  cases hc with
  | idle => exact LogContext.idle
  | ordered => exact LogContext.ordered

/-- A thread waiting for the lock without holding it was called from its own
code. -/
theorem LogContext.eq_nil {l : Addr} {st : List Frame}
    (hc : LogContext (.allocated l) false st) : st = [] := by
  cases hc; rfl

/-! ## Stacks, step by step -/

section Stacks

variable {s s' : State} {t : ThreadId} {a : Action}

/-- What other threads hold does not change when one takes or leaves the
lock. -/
theorem holds_of_ne {u : ThreadId} (h : Step s t a s') (hs : StacksOk s) (hne : u ≠ t) :
    s'.holds u = s.holds u := by
  have htake : s.mutex = none → (some t == some u) = s.holds u := by
    intro hm
    simp [State.holds, hm, Ne.symm hne]
  have hleave : s.holds t = true → ((none : Option ThreadId) == some u) = s.holds u := by
    intro hm
    simp [State.holds, holds_eq_true.1 hm, Ne.symm hne]
  have hok := hs t
  cases h with
  | getLock _ hm => exact htake hm
  | conLock _ hm => exact htake hm
  | getUnlock hst =>
    rw [hst] at hok
    obtain ⟨l, c, item, -, hh, -⟩ := hok.inv_unlock
    exact hleave hh
  | conUnlock hst =>
    rw [hst] at hok
    exact hleave (Option.some.inj hok.inv_consume.2.1).symm
  | _ => rfl

/-- The thread that holds the lock now and did not before is the mover. -/
theorem mover_of_lock {u : ThreadId} (h : Step s t a s') (hs : StacksOk s)
    (hfree : s.holds u = false) (hm : s'.mutex = some u) : u = t := by
  by_contra hne
  have hheld := holds_of_ne h hs hne
  rw [hfree] at hheld
  exact holds_eq_false.1 hheld hm

/-- A `consume` on top of its stack holds the lock as far as it says. -/
theorem StacksOk.holds_consume (hs : StacksOk s) {pc : ConsumePc} {next : StdSet pairKey}
    {check : StdSet loggerKey} {st : List Frame}
    (hst : (s.threads t).stack = .consume pc next check :: st) : pc.holds? = some (s.holds t) := by
  have hok := hs t
  rw [hst] at hok
  exact hok.inv_consume.2.1

/-- A `consume` on top of its stack is the one `consume` of it. -/
theorem StacksOk.only_consume (hs : StacksOk s) {pc pc' : ConsumePc} {next next' : StdSet pairKey}
    {check check' : StdSet loggerKey} {st : List Frame}
    (hst : (s.threads t).stack = .consume pc' next' check' :: st)
    (hf : Frame.consume pc next check ∈ (s.threads t).stack) :
    st = [] ∧ pc' = pc ∧ next' = next ∧ check' = check := by
  have hok := hs t
  rw [hst] at hok hf
  obtain ⟨-, -, rfl⟩ := hok.inv_consume
  rw [List.mem_singleton, Frame.consume.injEq] at hf
  obtain ⟨rfl, rfl, rfl⟩ := hf
  exact ⟨rfl, rfl, rfl, rfl⟩

/-- What a step does to the other threads: nothing. -/
theorem threads_of_ne {u : ThreadId} (h : Step s t a s') (hne : u ≠ t) :
    s'.threads u = s.threads u := by
  cases h <;> simp [State.setStack, hne]

/-- **One step keeps the mover's stack in the grammar.** -/
theorem stackOk_step (h : Step s t a s') (hok : StackOk (s.threads t).stage (s.holds t)
    (s.threads t).stack) : StackOk (s'.threads t).stage (s'.holds t) (s'.threads t).stack := by
  cases h with
  | log hlog =>
    simp only [setStack_stage, setStack_holds, setStack_stack_self]
    obtain ⟨hg, hc⟩ := hok.context_of_canLog hlog
    exact StackOk.test hg hc
  | consume hst _ =>
    rw [hst] at hok
    obtain ⟨hg, hh⟩ := hok.inv_nil
    simp only [setStack_stage, setStack_holds, setStack_stack_self, hh]
    exact StackOk.consume hg rfl
  | exit hst =>
    rw [hst] at hok
    simpa [hst, Thread.stage, State.holds] using hok
  | getFast hst hi =>
    rw [hst] at hok
    obtain ⟨-, c, item, b, rfl, hc⟩ := hok.inv_test
    simp only [setStack_stage, setStack_holds, setStack_stack_self, returnLogger]
    rw [stage_of_initialized hi] at hc ⊢
    exact StackOk.stamp hc
  | getNew hst hi hnew =>
    rw [hst] at hok
    obtain ⟨hg, c, item, b, rfl, hc⟩ := hok.inv_test
    rw [stage_of_not_initialized hg hi] at hc
    simp only [Function.update_self, Thread.stage, hi, Option.isSome_some, if_true]
    exact StackOk.lock hc.of_fresh
  | getLock hst hm =>
    rw [hst] at hok
    have hh : s.holds t = false := by simp [State.holds, hm]
    obtain ⟨l, c, item, b, hg, rfl, hc⟩ := hok.inv_lock
    rw [hg, hh] at hc
    show StackOk ((s.setStack t _).threads t).stage (some t == some t) _
    simp only [setStack_stage, setStack_stack_self, beq_self_eq_true, hg, hc.eq_nil]
    exact StackOk.push
  | getPush hst =>
    -- the first message is logged from inside, with the lock held
    rw [hst] at hok
    obtain ⟨l, c, item, -, hh, rfl⟩ := hok.inv_push
    show StackOk (Thread.stage _) (s.holds t) _
    simp only [Function.update_self, Thread.stage, if_true, hh]
    exact StackOk.test settled_registered LogContext.registering
  | getUnlock hst =>
    rw [hst] at hok
    obtain ⟨l, c, item, hg, -, rfl⟩ := hok.inv_unlock
    show StackOk ((s.setStack t _).threads t).stage (none == some t) _
    simp only [setStack_stage, setStack_stack_self, returnLogger, hg,
      logger_of_stage (by rw [hg]; rfl : (s.threads t).stage.logger? = some l)]
    exact StackOk.stamp LogContext.idle
  | stamp hst =>
    rw [hst] at hok
    obtain ⟨hg, hc⟩ := hok.inv_stamp
    rw [hg] at hc
    simp only [setStack_stage, setStack_holds, setStack_stack_self, hg]
    exact StackOk.enqueue hc
  | enqueue hst =>
    rw [hst] at hok
    obtain ⟨hg, hc⟩ := hok.inv_enqueue
    show StackOk ((s.setStack t _).threads t).stage (s.holds t) _
    simp only [setStack_stage, setStack_stack_self]
    exact StackOk.context (hg ▸ settled_registered) hc
  | conLock hst hm =>
    rw [hst] at hok
    obtain ⟨hg, -, rfl⟩ := hok.inv_consume
    show StackOk ((s.setStack t _).threads t).stage (some t == some t) _
    simp only [setStack_stage, setStack_stack_self, beq_self_eq_true]
    exact StackOk.consume hg rfl
  | drainCall hst hf =>
    rw [hst] at hok
    obtain ⟨hg, hpc, rfl⟩ := hok.inv_consume
    show StackOk ((s.setStack t _).threads t).stage (s.holds t) _
    simp only [setStack_stage, setStack_stack_self, ← Option.some.inj hpc]
    exact StackOk.context hg LogContext.ordered
  | conUnlock hst =>
    rw [hst] at hok
    obtain ⟨hg, -, rfl⟩ := hok.inv_consume
    show StackOk ((s.setStack t _).threads t).stage (none == some t) _
    simp only [setStack_stage, setStack_stack_self]
    exact StackOk.context hg LogContext.idle
  | ordered hst =>
    rw [hst] at hok
    obtain ⟨hg, hh, i, first, next, check, hst'⟩ := hok.inv_ordered
    obtain ⟨-, rfl⟩ := List.cons.inj hst'
    simp only [setStack_stage, setStack_holds, setStack_stack_self, hh]
    exact StackOk.consume hg rfl
  | conOuter hst _ | conEnd hst _ | firstHit hst _ | firstMiss hst _ | drainEnd hst _ | recheck hst
    | recheckEnd hst | againHit hst _ | againMiss hst _ =>
    rw [hst] at hok
    obtain ⟨hg, hpc, rfl⟩ := hok.inv_consume
    show StackOk ((State.setStack _ t _).threads t).stage (s.holds t) _
    simp only [setStack_stage, setStack_stack_self]
    exact StackOk.consume hg hpc

/-- **One step keeps every stack in the grammar.** -/
theorem stacksOk_step (h : Step s t a s') (hs : StacksOk s) : StacksOk s' := by
  intro u
  by_cases hne : u = t
  · subst hne
    exact stackOk_step h (hs u)
  · rw [threads_of_ne h hne, holds_of_ne h hs hne]
    exact hs u

end Stacks

/-! ## The registry, step by step -/

section Registry

variable {s s' : State} {t : ThreadId} {a : Action}

/-- The registry reads the stages, the owners, `loggers`, and which queues
are empty. -/
theorem Registry.congr (hr : Registry s)
    (hstage : ∀ u, (s'.threads u).stage = (s.threads u).stage)
    (howner : ∀ l, s'.ownerOf l = s.ownerOf l) (hlog : s'.loggers = s.loggers)
    (hq : ∀ l, l ∉ s.loggers → s'.queue l = []) : Registry s' where
  owns t l := by rw [hstage, howner]; exact hr.owns t l
  listed l := by simp only [hstage, hlog]; exact hr.listed l
  nodup := by rw [hlog]; exact hr.nodup
  empty l hl := hq l (hlog ▸ hl)

/-- A queue may change where its logger is listed. -/
theorem Registry.setQueue_empty {l l' : Addr} {q : List Record} (hr : Registry s)
    (hl : l ∈ s.loggers) (hl' : l' ∉ s.loggers) : (s.setQueue l q).queue l' = [] := by
  have hne : l' ≠ l := fun he => hl' (he ▸ hl)
  rw [setQueue_queue_of_ne _ _ hne]
  exact hr.empty l' hl'

/-- What is listed is allocated. -/
theorem Registry.isSome_of_mem {l : Addr} (hr : Registry s) (hl : l ∈ s.loggers) :
    (s.heap l).isSome := by
  obtain ⟨u, hu⟩ := (hr.listed l).1 hl
  have howner := (hr.owns u l).1 (by rw [hu]; rfl)
  simpa [State.ownerOf] using congrArg Option.isSome howner

theorem Registry.mem_of_queue {l : Addr} {r : Record} {q : List Record} (hr : Registry s)
    (hq : s.queue l = r :: q) : l ∈ s.loggers := by
  by_contra hl
  rw [hr.empty l hl] at hq
  cases hq

/-- Closing sets the flag of one logger. -/
theorem closeLogger_apply (l : Addr) : closeLogger s t l = (s.heap l).map fun lg =>
    if (s.threads t).closer = some l then { lg with close := true } else lg := by
  unfold closeLogger
  cases hc : (s.threads t).closer with
  | none => simp
  | some l' =>
    by_cases hl : l = l'
    · subst hl; simp
    · simp [hl, Ne.symm hl]

theorem closeLogger_ownerOf {l : Addr} :
    (closeLogger s t l).map ThreadLogger.owner = s.ownerOf l := by
  rw [closeLogger_apply, Option.map_map, State.ownerOf]
  congr 1
  funext lg
  simp only [Function.comp_apply]
  split <;> rfl

/-- Closing a logger leaves its queue to be consumed. -/
theorem closeLogger_queue {l : Addr} (h : s'.heap l = closeLogger s t l) :
    s'.queue l = s.queue l := by
  unfold State.queue
  rw [h, closeLogger_apply]
  cases s.heap l with
  | none => rfl
  | some lg => simp only [Option.map_some]; split <;> rfl

/-- A thread allocates its logger: it is nobody's yet, and not registered. -/
theorem registry_getNew {env : Env} {st : List Frame} (hs : StacksOk s) (hr : Registry s)
    (hst : (s.threads t).stack = .getThreadLogger .test :: st)
    (hi : (s.threads t).initialized = false) (hnew : s.heap env.logger = none) :
    Registry { s with
      heap := Function.update s.heap env.logger (some ⟨false, [], t⟩)
      threads := Function.update s.threads t
        { s.threads t with
          logger := env.logger
          closer := some env.logger
          stack := .getThreadLogger .lock :: st } } := by
  have hok := hs t
  rw [hst] at hok
  have hfresh := stage_of_not_initialized hok.inv_test.1 hi
  -- the address was free, so that no thread has a logger there
  have hnone : ∀ u, (s.threads u).stage.logger? ≠ some env.logger := by
    intro u hu
    have := (hr.owns u env.logger).1 hu
    simp [State.ownerOf, hnew] at this
  have hnot : env.logger ∉ s.loggers := by
    intro hl
    obtain ⟨u, hu⟩ := (hr.listed _).1 hl
    exact hnone u (by rw [hu]; rfl)
  constructor
  · intro u l
    by_cases hu : u = t
    · subst hu
      simp only [Function.update_self, Thread.stage, hi, State.ownerOf, Option.isSome_some,
        if_true, Bool.false_eq_true, if_false, Stage.logger?, Option.some.injEq]
      by_cases hl : l = env.logger
      · subst hl; simp
      · rw [Function.update_of_ne hl]
        have hno : s.ownerOf l ≠ some u := by
          intro ho
          have := (hr.owns u l).2 ho
          rw [hfresh] at this
          cases this
        exact ⟨fun h => absurd h.symm hl, fun h => absurd h hno⟩
    · simp only [Function.update_of_ne hu, State.ownerOf]
      by_cases hl : l = env.logger
      · subst hl
        rw [Function.update_self]
        exact ⟨fun h => absurd h (hnone u), fun h => absurd (Option.some.inj h).symm hu⟩
      · rw [Function.update_of_ne hl]
        exact hr.owns u l
  · intro l
    simp only
    rw [hr.listed l]
    constructor
    · rintro ⟨u, hu⟩
      have hut : u ≠ t := by
        rintro rfl
        rw [hfresh] at hu
        cases hu
      exact ⟨u, by rw [Function.update_of_ne hut]; exact hu⟩
    · rintro ⟨u, hu⟩
      by_cases hut : u = t
      · subst hut
        simp [Thread.stage, hi] at hu
      · rw [Function.update_of_ne hut] at hu
        exact ⟨u, hu⟩
  · exact hr.nodup
  · intro l hl
    by_cases hle : l = env.logger
    · subst hle; simp [State.queue]
    · have := hr.empty l hl
      simpa [State.queue, hle] using this

/-- A thread registers the logger it has allocated. -/
theorem registry_getPush {env : Env} {st : List Frame} (hs : StacksOk s) (hr : Registry s)
    (hst : (s.threads t).stack = .getThreadLogger .push :: st) :
    Registry { s with
      loggers := s.loggers ++ [(s.threads t).logger]
      threads := Function.update s.threads t
        { s.threads t with
          initialized := true
          stack := .getThreadLogger .test ::
            .realLogMsg (registrationCall env.pid)
              ((registrationCall env.pid).message env.leftover) .calling ::
            .getThreadLogger .unlock :: st } } := by
  have hok := hs t
  rw [hst] at hok
  obtain ⟨l₀, c, item, hg, -, rfl⟩ := hok.inv_push
  have hl₀ : (s.threads t).logger = l₀ := logger_of_stage (by rw [hg]; rfl)
  -- its owner is this thread, which has not registered it
  have hnot : l₀ ∉ s.loggers := by
    intro hl
    obtain ⟨u, hu⟩ := (hr.listed _).1 hl
    have h₁ := (hr.owns u l₀).1 (by rw [hu]; rfl)
    have h₂ := (hr.owns t l₀).1 (by rw [hg]; rfl)
    rw [h₁] at h₂
    obtain rfl := Option.some.inj h₂
    rw [hg] at hu
    cases hu
  constructor
  · intro u l
    by_cases hu : u = t
    · subst hu
      have howns := hr.owns u l
      rw [hg] at howns
      simp only [Function.update_self, Thread.stage, if_true, hl₀]
      exact howns
    · simp only [Function.update_of_ne hu]
      exact hr.owns u l
  · intro l
    simp only [List.mem_append, List.mem_singleton, hl₀]
    constructor
    · rintro (hl | rfl)
      · obtain ⟨u, hu⟩ := (hr.listed l).1 hl
        have hut : u ≠ t := by
          rintro rfl
          rw [hg] at hu
          cases hu
        exact ⟨u, by rw [Function.update_of_ne hut]; exact hu⟩
      · exact ⟨t, by simp [Thread.stage]⟩
    · rintro ⟨u, hu⟩
      by_cases hut : u = t
      · subst hut
        simp only [Function.update_self, Thread.stage, if_true] at hu
        exact Or.inr (Stage.registered.inj hu).symm
      · rw [Function.update_of_ne hut] at hu
        exact Or.inl ((hr.listed l).2 ⟨u, hu⟩)
  · simp only [hl₀]
    exact List.nodup_append.2 ⟨hr.nodup, List.nodup_singleton _, fun x hx y hy => by
      rw [List.mem_singleton.1 hy]; exact fun he => hnot (he ▸ hx)⟩
  · intro l hl
    exact hr.empty l fun hl' => hl (List.mem_append_left _ hl')

/-- **One step keeps the registry.** -/
theorem registry_step (h : Step s t a s') (hs : StacksOk s) (hr : Registry s) : Registry s' := by
  have hok := hs t
  cases h with
  | exit hst =>
    refine hr.congr (fun u => ?_) (fun l => closeLogger_ownerOf) rfl fun l hl => ?_
    · by_cases hu : u = t
      · subst hu; simp [Thread.stage]
      · simp [hu]
    · rw [closeLogger_queue rfl]; exact hr.empty l hl
  | getNew hst hi hnew => exact registry_getNew hs hr hst hi hnew
  | getPush hst => exact registry_getPush hs hr hst
  | enqueue hst =>
    rename_i l r
    rw [hst] at hok
    have hl : l ∈ s.loggers := (hr.listed l).2 ⟨t, hok.inv_enqueue.1⟩
    exact hr.congr (fun u => setStack_stage) (fun l' => setQueue_ownerOf) rfl
      fun l' hl' => hr.setQueue_empty hl hl'
  | firstHit hst hq =>
    exact hr.congr (fun u => setStack_stage) (fun l' => setQueue_ownerOf) rfl
      fun l' hl' => hr.setQueue_empty (hr.mem_of_queue hq) hl'
  | againHit hst hq =>
    exact hr.congr (fun u => setStack_stage) (fun l' => setQueue_ownerOf) rfl
      fun l' hl' => hr.setQueue_empty (hr.mem_of_queue hq) hl'
  | _ => exact hr.congr (fun u => setStack_stage) (fun l => rfl) rfl fun l hl => hr.empty l hl

end Registry

/-- The discipline the queues rest on. -/
structure Discipline (s : State) : Prop where
  grammar : StacksOk s
  registry : Registry s

theorem discipline_initial : Discipline State.initial := ⟨stacksOk_initial, registry_initial⟩

theorem discipline_step {s s' : State} {a : Action} (hd : Discipline s)
    (h : step s a = some s') : Discipline s' :=
  ⟨stacksOk_step (step_cases h) hd.grammar, registry_step (step_cases h) hd.grammar hd.registry⟩

/-- **The discipline holds in every reachable state.** -/
theorem discipline {s : State} (h : Reachable s) : Discipline s :=
  h.invariant discipline_initial fun _ _ _ hd hs => discipline_step hd hs

end Logger

end AppServer
