import AppServer.Logger.Selection
import AppServer.Logger.Sweep

/-!
# When `ordered_log` throws

`ordered_log` is virtual, and an override may throw. The exception leaves
`consume` through `ScopedMutexLock`, which unlocks, and through the two sets,
which die with the call. `ordered_next` then holds the record that was being
passed on and the ones that have been taken from their queues and wait: these
are lost, as the TODO at the `try_dequeue` has it. So nothing is lost exactly
where none wait.
-/

namespace AppServer

namespace Logger

open Lib

/-- What can happen, with exceptions. -/
inductive ThrowAction where
  | step (a : Action)
  /-- The `ordered_log` that thread `t` is in throws. -/
  | throw (t : ThreadId)
  deriving DecidableEq, Repr

/-- The exception leaves `ordered_log` and `consume`. -/
def throwOrdered (s : State) (t : ThreadId) : Option State :=
  match (s.threads t).stack with
  | .orderedLog :: .consume (.logging _ _) _ _ :: st =>
    some { s.setStack t st with mutex := none }
  | _ => none

/-- **The step function**, with exceptions. -/
def stepOrThrow (s : State) : ThrowAction → Option State
  | .step a => step s a
  | .throw t => throwOrdered s t

/-- An exception is thrown only where `ordered_next` holds no other record
than the one being passed on. -/
def ThrowsAlone (s : State) : ThrowAction → Prop
  | .step a => FreshAddr s a
  | .throw t => (s.threads t).waiting = []

/-- The mutex is free, and in the queues is, in order, what was enqueued on
each logger and not passed on. -/
structure Intact (s : State) : Prop where
  mutex : s.mutex = none
  queue : ∀ l, lane l s.enqueued = lane l s.passed ++ s.queue l

/-- **No exception loses anything.** -/
def LosesNothing (s : State) : ThrowAction → Prop
  | .step a => FreshAddr s a
  | .throw t => ∀ s', stepOrThrow s (.throw t) = some s' → Intact s'

variable {s s' : State} {t u : ThreadId} {a : Action} {b : ThrowAction} {bs : List ThrowAction}

/-! ## One exception -/

theorem throw_cases (h : throwOrdered s t = some s') : ∃ i first next check st,
    (s.threads t).stack = .orderedLog :: .consume (.logging i first) next check :: st ∧
    s' = { s.setStack t st with mutex := none } := by
  unfold throwOrdered at h
  split at h
  · rename_i hst
    cases h
    exact ⟨_, _, _, _, _, hst, rfl⟩
  · cases h

/-- The thread that throws is back in its own code, and has held the lock. -/
structure Thrown (s : State) (t : ThreadId) (s' : State) : Prop where
  holds : s.holds t = true
  state : s' = { s.setStack t [] with mutex := none }
  settled : (s.threads t).stage.Settled

theorem Discipline.thrown (hd : Discipline s) (h : throwOrdered s t = some s') :
    Thrown s t s' := by
  obtain ⟨i, first, next, check, st, hst, rfl⟩ := throw_cases h
  have hok := hd.grammar t
  rw [hst] at hok
  obtain ⟨hg, hh, i', first', next', check', heq⟩ := hok.inv_ordered
  obtain ⟨-, rfl⟩ := List.cons.inj heq
  exact ⟨hh, rfl, hg⟩

/-- **An exception loses what waits**, and nothing else. -/
theorem intact_iff (hA : Accounted s) (h : throwOrdered s t = some s') :
    Intact s' ↔ (s.threads t).waiting = [] := by
  obtain ⟨hh, rfl, -⟩ := hA.discipline.thrown h
  have hheld : s.lanes.held = 0 ↔ (s.threads t).waiting = [] := by
    show (s.held : Multiset MsgLoggerPair) = 0 ↔ _
    rw [held_of_holds hh]
    exact Multiset.coe_eq_zero _
  rw [← hheld, hA.inOrder.held_eq_zero_iff]
  exact ⟨fun h => h.queue, fun h => ⟨rfl, h⟩⟩

theorem Thrown.threads_of_ne (h : Thrown s t s') (hu : u ≠ t) : s'.threads u = s.threads u := by
  obtain ⟨-, rfl, -⟩ := h
  exact setStack_threads_of_ne _ _ hu

theorem Thrown.stack (h : Thrown s t s') : (s'.threads t).stack = [] := by
  obtain ⟨-, rfl, -⟩ := h
  exact setStack_stack_self _ _ _

/-- The other threads did not hold the lock, and do not. -/
theorem Thrown.holds_eq_false (h : Thrown s t s') (hu : u ≠ t) :
    s.holds u = false ∧ s'.holds u = false := by
  obtain ⟨hh, rfl, -⟩ := h
  refine ⟨?_, rfl⟩
  rw [Logger.holds_eq_false, holds_eq_true.1 hh]
  exact fun he => hu (Option.some.inj he).symm

theorem discipline_throw (hd : Discipline s) (h : Thrown s t s') : Discipline s' where
  grammar := by
    intro u
    by_cases hu : u = t
    · subst hu
      obtain ⟨-, rfl, hg⟩ := h
      show StackOk ((s.setStack u _).threads u).stage false ((s.setStack u _).threads u).stack
      rw [setStack_stage, setStack_stack_self]
      exact .context hg .idle
    · have hok := hd.grammar u
      rw [(h.holds_eq_false hu).1] at hok
      rw [h.threads_of_ne hu, (h.holds_eq_false hu).2]
      exact hok
  registry := by
    obtain ⟨-, rfl, -⟩ := h
    exact hd.registry.congr (fun u => setStack_stage) (fun l => rfl) rfl hd.registry.empty

/-- What a thread is in after an exception it was in before. -/
theorem Thrown.mem_stack {f : Frame} (h : Thrown s t s') (hf : f ∈ (s'.threads u).stack) :
    u ≠ t ∧ f ∈ (s.threads u).stack := by
  by_cases hu : u = t
  · subst hu
    rw [h.stack] at hf
    cases hf
  · rw [h.threads_of_ne hu] at hf
    exact ⟨hu, hf⟩

theorem Thrown.inFlight {r : Record} (h : Thrown s t s') (hr : InFlight s' u r) :
    InFlight s u r := by
  obtain ⟨c, item, l, st, hst⟩ := hr
  have hu := (h.mem_stack (hst ▸ List.mem_cons_self)).1
  exact ⟨c, item, l, st, by rw [← h.threads_of_ne hu]; exact hst⟩

/-- **An exception that loses nothing leaves every record accounted for.** -/
theorem accounted_throw (hA : Accounted s) (h : Thrown s t s')
    (hw : (s.threads t).waiting = []) : Accounted s' := by
  -- what the call held was nothing, so that no lane has changed
  have hlanes : s'.lanes = s.lanes := by
    have hheld := held_of_holds h.holds
    obtain ⟨-, rfl, -⟩ := h
    rw [hw] at hheld
    unfold State.lanes
    rw [hheld]
    rfl
  have hlog : s'.loggers = s.loggers ∧ s'.enqueued = s.enqueued := by
    obtain ⟨-, rfl, -⟩ := h
    exact ⟨rfl, rfl⟩
  have hpending : s'.pending = s.pending := by
    rw [State.pending, hlanes, hlog.1]
    rfl
  refine ⟨discipline_throw hA.discipline h, ⟨?_, ?_, ?_, ?_⟩, hlanes ▸ hA.inOrder, ?_⟩
  · intro u pc next check hf
    rw [hlog.1]
    exact hA.custody.consuming u pc next check (h.mem_stack hf).2
  · rw [hpending]
    exact hA.custody.distinct
  · intro u r hr p hp
    rw [hpending] at hp
    exact hA.custody.flight u r (h.inFlight hr) p hp
  · exact fun u v r r' hr hr' => hA.custody.flights u v r r' (h.inFlight hr) (h.inFlight hr')
  · unfold Numbered
    rw [hlog.2]
    exact hA.numbered

/-! ## Runs with exceptions -/

/-- **One step of a run whose exceptions lose nothing.** -/
theorem accounted_or_throw (hA : Accounted s) (hok : ThrowsAlone s b)
    (hs : stepOrThrow s b = some s') : Accounted s' := by
  cases b with
  | step a => exact accounted_step hA hok hs
  | throw t => exact accounted_throw hA (hA.discipline.thrown hs) hok

theorem accounted_of_run (h : Run stepOrThrow ThrowsAlone State.initial bs s) : Accounted s :=
  h.invariant accounted_initial fun _ _ _ hA hok hs => accounted_or_throw hA hok hs

/-- **A sweep goes on**, whichever other threads throw. -/
theorem sweep_or_throw {pre : List MsgLoggerPair} (hA : Accounted s) (hok : ThrowsAlone s b)
    (hb : b ≠ .throw t) (hs : stepOrThrow s b = some s') (hpre : ∀ p ∈ pre, p ∈ s.enqueued)
    (hsw : Sweeping pre s t ∨ ∀ p ∈ pre, p ∈ s.passed) :
    (∀ p ∈ pre, p ∈ s'.enqueued) ∧ (Sweeping pre s' t ∨ ∀ p ∈ pre, p ∈ s'.passed) := by
  have hA' := accounted_or_throw hA hok hs
  cases b with
  | step a =>
    have h := step_cases hs
    exact ⟨fun p hp => mem_enqueued_step h (hpre p hp), sweep_step h hA hA' hpre hsw⟩
  | throw u =>
    have h := hA.discipline.thrown hs
    have hut : t ≠ u := fun he => hb (he ▸ rfl)
    rcases hsw with ⟨pc, next, check, hf, hpc, -⟩ | hall
    · -- the sweeper has the lock, and so has the thread that throws
      have hh := (hA.discipline.grammar t).holds_of_consume hf hpc
      rw [(h.holds_eq_false hut).1] at hh
      cases hh
    · obtain ⟨-, rfl, -⟩ := h
      exact ⟨hpre, Or.inr hall⟩

/-- A call that has just taken the lock, and comes to return, passes on all
that was enqueued before. -/
theorem delivered {next : StdSet pairKey} {check : StdSet loggerKey} {s₁ s₂ : State}
    (hA : Accounted s) (hst : (s.threads t).stack = [.consume .lock next check])
    (hok : ThrowsAlone s b) (hs : stepOrThrow s b = some s₁) (hm : s₁.mutex = some t)
    (hrun : Run stepOrThrow (fun s b => ThrowsAlone s b ∧ b ≠ .throw t) s₁ bs s₂)
    (hret : (s₂.threads t).stack = []) : ∀ p ∈ s.enqueued, p ∈ s₂.passed := by
  have hA₁ := accounted_or_throw hA hok hs
  have hstart : (∀ p ∈ s.enqueued, p ∈ s₁.enqueued) ∧ Sweeping s.enqueued s₁ t := by
    cases b with
    | throw u =>
      -- an exception leaves the mutex free
      obtain ⟨-, rfl, -⟩ := hA.discipline.thrown hs
      cases hm
    | step a => exact sweeping_of_acquire hA.discipline hA.custody hs hst hm
  have hend := hrun.invariant (I := fun s' => Accounted s' ∧ (∀ p ∈ s.enqueued, p ∈ s'.enqueued) ∧
      (Sweeping s.enqueued s' t ∨ ∀ p ∈ s.enqueued, p ∈ s'.passed))
    ⟨hA₁, hstart.1, Or.inl hstart.2⟩ fun s' b s'' hI hok hs =>
      ⟨accounted_or_throw hI.1 hok.1 hs, sweep_or_throw hI.1 hok.1 hok.2 hs hI.2.1 hI.2.2⟩
  rcases hend.2.2 with ⟨pc, next, check, hf, -⟩ | hall
  · rw [hret] at hf
    cases hf
  · exact hall

/-- **When an interrupted `consume` loses nothing.** In a run that allocates
as `new` does, every exception leaves the mutex free and every record that
was enqueued and not passed on in its logger's queue, in order, if and only
if every exception is thrown while no record waits in `ordered_next`. And in
such a run a later call of `consume` that returns has passed on everything
enqueued before it took the lock. -/
theorem interrupted_consume_iff :
    (Run stepOrThrow ThrowsAlone State.initial bs s ↔
      Run stepOrThrow LosesNothing State.initial bs s) ∧
    (Run stepOrThrow ThrowsAlone State.initial bs s →
      ∀ t next check b s₁ cs s₂, (s.threads t).stack = [.consume .lock next check] →
        ThrowsAlone s b → stepOrThrow s b = some s₁ → s₁.mutex = some t →
        Run stepOrThrow (fun s b => ThrowsAlone s b ∧ b ≠ .throw t) s₁ cs s₂ →
        (s₂.threads t).stack = [] → ∀ p ∈ s.enqueued, p ∈ s₂.passed) := by
  constructor
  · refine Run.congr (I := Accounted) accounted_initial
      (fun _ _ _ hA hok hs => accounted_or_throw hA hok hs) ?_
    intro s b s' hA hs
    cases b with
    | step a => exact Iff.rfl
    | throw t =>
      rw [ThrowsAlone, ← intact_iff hA hs]
      constructor
      · intro hint s'' hs''
        rw [hs] at hs''
        exact Option.some.inj hs'' ▸ hint
      · exact fun hall => hall s' hs
  · intro h t next check b s₁ cs s₂ hst hok hs hm hrun hret
    exact delivered (accounted_of_run h) hst hok hs hm hrun hret

/-- A run without exceptions is a run. -/
theorem run_of_step {as : List Action} {s₀ : State} (h : Run step FreshAddr s₀ as s) :
    Run stepOrThrow ThrowsAlone s₀ (as.map .step) s := by
  induction h with
  | nil => exact .nil
  | snoc _ hok hs ih =>
    rw [List.map_append]
    exact ih.snoc hok hs

/-- In the run above, with the record of the time 3 waiting, the override
throws: the record is gone. -/
theorem exception_loses_record : ∃ s s',
    Run stepOrThrow ThrowsAlone State.initial (selectionRun.map .step) s ∧
    stepOrThrow s (.throw 1) = some s' ∧ s'.mutex = none ∧
    (∃ p ∈ s'.enqueued, p.1.msg.when = ⟨3, 0⟩ ∧ p ∉ s'.passed ∧ s'.queue p.2 = []) ∧
    ¬ Intact s' := by
  obtain ⟨s, hrun, hs⟩ : ∃ s, Run step FreshAddr State.initial selectionRun s ∧
      (throwOrdered s 1).any (fun s' => s'.mutex.isNone && decide (∃ p ∈ s'.enqueued,
        p.1.msg.when = ⟨3, 0⟩ ∧ p ∉ s'.passed ∧ s'.queue p.2 = [])) = true :=
    fresh_of_exec (n := 3) (by decide +kernel)
  obtain ⟨s', hs', hdec⟩ := (Option.any_eq_true _ _).1 hs
  rw [Bool.and_eq_true, Option.isNone_iff_eq_none, decide_eq_true_eq] at hdec
  obtain ⟨hm, p, hp, hwhen, hnot, hnil⟩ := hdec
  refine ⟨s, s', run_of_step hrun, hs', hm, ⟨p, hp, hwhen, hnot, hnil⟩, fun hI => hnot ?_⟩
  have hlane := hI.queue p.2
  rw [hnil, List.append_nil] at hlane
  have hmem := mem_lane_of_mem hp
  rw [hlane] at hmem
  exact mem_of_mem_lane hmem

end Logger

end AppServer
