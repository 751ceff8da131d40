import AppServer.Logging.Refines

/-!
# What was logged gets there

Every run of the logger on its queues is, its queues' own steps left out, one
of the logger's (`refines`), but for the records there was no memory for. So
what is known of the logger's runs holds here: on each logger, what was
enqueued is what was passed to `ordered_log`, the one record held if there is
one, and what is in the lock-free queue (`records_delivered`).
-/

namespace AppServer

namespace Logging

open Lib
open Queue (BlockPtr)
open Logger (Addr ThreadId Record Discipline FreshAddr)

variable {s s' : State} {as : List Action} {ok : Logger.State → Logger.Action → Prop}

/-- A guard on the logger's part of a step. -/
def Action.Meets (ok : Logger.State → Logger.Action → Prop) (s : State) (a : Action) : Prop :=
  ok s.logger a.logger

/-- The invariant holds in every run. -/
theorem Refined.of_run {guard : State → Action → Prop}
    (h : Run Logging.step guard State.initial as s) : Refined s :=
  h.invariant refined_initial fun _ _ _ hI _ hs => (hI.step hs).1

/-! ## The logger's run -/

/-- What the logger has done meanwhile. -/
structure Trace (ok : Logger.State → Logger.Action → Prop) (as : List Action) (s : State)
    (bs : List Event) : Prop where
  run : Run lossy (Event.Meets ok) Logger.State.initial bs s.logger
  /-- Its actions, in their order. -/
  sublist : (bs.filterMap Event.action?).Sublist (as.map Action.logger)
  /-- All else it did was to drop a record. -/
  length : bs.length = (bs.filterMap Event.action?).length + s.dropped.length
  plain : s.dropped = [] →
    Run Logger.step ok Logger.State.initial (bs.filterMap Event.action?) s.logger

theorem trace_initial : Trace ok [] State.initial [] :=
  ⟨.nil, .slnil, rfl, fun _ => .nil⟩

/-- One more step. -/
theorem Trace.step {bs : List Event} {a : Action} (h : Trace ok as s bs) (hok : Action.Meets ok s a)
    (hs : Stands s a s') : ∃ bs', Trace ok (as ++ [a]) s' bs' := by
  cases hs with
  | still hlogger hdropped =>
    refine ⟨bs, ?_, ?_, ?_, ?_⟩
    · rw [hlogger]
      exact h.run
    · rw [List.map_append]
      exact h.sublist.trans (List.sublist_append_left _ _)
    · rw [hdropped]
      exact h.length
    · rw [hdropped, hlogger]
      exact h.plain
  | act hlogger hdropped =>
    have hact : (bs ++ [Event.act a.logger]).filterMap Event.action? =
        bs.filterMap Event.action? ++ [a.logger] := by
      rw [List.filterMap_append]
      rfl
    refine ⟨bs ++ [Event.act a.logger], .snoc h.run hok hlogger, ?_, ?_, ?_⟩
    · rw [hact, List.map_append]
      exact h.sublist.append (List.Sublist.refl _)
    · rw [hact, List.length_append, List.length_append, hdropped, h.length]
      exact Nat.add_right_comm _ _ _
    · rw [hact, hdropped]
      exact fun hnone => .snoc (h.plain hnone) hok hlogger
  | @drop t hmem hlogger hdropped =>
    have hact : (bs ++ [Event.drop t]).filterMap Event.action? = bs.filterMap Event.action? := by
      rw [List.filterMap_append]
      exact List.append_nil _
    refine ⟨bs ++ [Event.drop t], .snoc h.run trivial hlogger, ?_, ?_, fun hnone => ?_⟩
    · rw [hact, List.map_append]
      exact h.sublist.trans (List.sublist_append_left _ _)
    · rw [hact, List.length_append, hdropped, h.length]
      rfl
    · rw [hnone] at hdropped
      exact absurd hdropped.symm (Nat.succ_ne_zero _)

theorem trace_of_run (h : Run step (Action.Meets ok) State.initial as s) :
    ∃ bs, Trace ok as s bs := by
  induction h with
  | nil => exact ⟨[], trace_initial⟩
  | snoc hr hok hs ih =>
    obtain ⟨bs, hbs⟩ := ih
    exact hbs.step hok ((Refined.of_run hr).step hs).2

/-- Steps of thread `t`, with `m` what `malloc` returns. -/
def walk (t : ThreadId) (k n : ℕ) (m : BlockPtr) : List Action :=
  (List.range n).map fun i => .run t (Logger.sampleEnv (k + i)) fun _ => m

/-- Thread `t` logs. -/
def sampleLog (t : ThreadId) : Action := .log t Logger.sampleCall ⟨0, 0⟩

/-- With memory for a block whenever one is asked for. -/
theorem dropped_of_memory {guard : State → Action → Prop}
    (h : Run step guard State.initial as s) (hmem : ∀ a ∈ as, a.hasMemory = true) :
    s.dropped = [] := by
  induction h with
  | nil => rfl
  | snoc hr _ hs ih =>
    have hdropped := ih fun a ha => hmem a (List.mem_append_left _ ha)
    cases ((Refined.of_run hr).step hs).2 with
    | still _ hsame => exact hsame.trans hdropped
    | act _ hsame => exact hsame.trans hdropped
    | drop hnone =>
      rw [hmem _ (List.mem_append_right _ (List.mem_singleton_self _))] at hnone
      cases hnone

/-- **What was enqueued gets there**, on the lock-free queues and however the
threads' accesses to them interleave: the records enqueued on a logger are, in
order, those passed to `ordered_log`, the one `consume` holds if there is one,
and those in its queue. None is dropped but for want of memory. -/
theorem records_delivered (h : Run step (Action.Meets FreshAddr) State.initial as s) :
    (∀ l, (lane l s.logger.held).length ≤ 1 ∧
      (lane l s.logger.enqueued).map bare =
        (lane l s.logger.passed ++ lane l s.logger.held).map bare ++
          ((s.messages l).map fun q => q.contents.map bare).getD []) ∧
    ((∀ a ∈ as, a.hasMemory = true) → s.dropped = []) := by
  refine ⟨fun l => ?_, fun hmem => dropped_of_memory h hmem⟩
  obtain ⟨bs, hbs⟩ := trace_of_run h
  have hrefined := Refined.of_run h
  have hA := accounted_lossy hbs.run
  obtain ⟨hlen, hsent⟩ := hA.inOrder.lane_sent rfl l
  refine ⟨hlen, ?_⟩
  have hqueue : (s.logger.queue l).map bare =
      ((s.messages l).map fun q => q.contents.map bare).getD [] := by
    cases hq : s.messages l with
    | none =>
      have hnone := hrefined.heap l
      rw [hq, Option.isSome_none, Option.isSome_eq_false_iff, Option.isNone_iff_eq_none] at hnone
      rw [Logger.State.queue, hnone]
      rfl
    | some q => exact (hrefined.queues l q hq).contents
  rw [← hqueue, ← List.map_append]
  exact congrArg (List.map bare) hsent

/-! ## Replaying a run -/

/-- A run with the addresses checked is one that allocates as `new` does. -/
theorem fresh_of_checked {n : ℕ} {s₀ : State} {guard : State → Action → Prop}
    (hrefined : Refined s₀) (hidle : Logger.Idle n s₀.logger)
    (hcheck : ∀ s a, guard s a → Logger.freshBelow n s.logger a.logger = true)
    (h : Run step guard s₀ as s) :
    Run step (fun s a => Action.Meets FreshAddr s a ∧ guard s a) s₀ as s ∧ Refined s ∧
      Logger.Idle n s.logger := by
  have hstep : ∀ s a s', Refined s ∧ Logger.Idle n s.logger → guard s a → step s a = some s' →
      Refined s' ∧ Logger.Idle n s'.logger := by
    refine fun s a s' hI hok hs => ⟨(hI.1.step hs).1, fun u hu => ?_⟩
    have hmover : a.logger.thread < n :=
      of_decide_eq_true (Bool.and_eq_true_iff.1 (hcheck s a hok)).1
    have hne : u ≠ a.logger.thread := fun he => absurd hmover (not_lt.2 (he ▸ hu))
    rw [(step_cases hs).threads_of_ne rfl hne]
    exact hI.2 u hu
  refine ⟨h.mono_of_invariant (I := fun s => Refined s ∧ Logger.Idle n s.logger)
    ⟨hrefined, hidle⟩ hstep fun s a s' hI hok _ => ⟨?_, hok⟩, h.invariant ⟨hrefined, hidle⟩ hstep⟩
  exact Logger.freshAddr_of_freshBelow hI.1.discipline.registry hI.2 (hcheck s a hok)

/-- A run found by replay, with its addresses checked. -/
theorem fresh_of_exec {n : ℕ} {P : State → Prop} [DecidablePred P]
    (h : (exec (guarded step fun s a => Logger.freshBelow n s.logger a.logger = true)
      State.initial as).any (fun s => decide (P s)) = true) :
    ∃ s, Run step (Action.Meets FreshAddr) State.initial as s ∧ P s := by
  obtain ⟨s, hrun, hP⟩ := Run.exists_of_exec h
  have hfresh := (fresh_of_checked refined_initial (fun _ _ => rfl) (fun _ _ h => h) hrun).1
  exact ⟨s, hfresh.mono fun _ _ h => h.1, hP⟩

/-- Thread 1 consumes while thread 0 logs again. -/
def deliveredRun : List Action :=
  sampleLog 0 :: walk 0 0 15 1 ++ .consume 1 :: walk 1 15 14 1 ++ sampleLog 0 :: walk 0 30 4 1 ++
    walk 1 40 3 1 ++ walk 0 50 2 1

/-- One record is passed on, one is held, and a third is in the queue. -/
theorem records_delivered_sample : ∃ s : State,
    Run step (Action.Meets FreshAddr) State.initial deliveredRun s ∧
    (s.logger.passed.length = 1 ∧ s.logger.held.length = 1 ∧ s.logger.enqueued.length = 3) ∧
    (∀ l, (lane l s.logger.held).length ≤ 1 ∧
      (lane l s.logger.enqueued).map bare =
        (lane l s.logger.passed ++ lane l s.logger.held).map bare ++
          ((s.messages l).map fun q => q.contents.map bare).getD []) ∧
    s.dropped = [] := by
  obtain ⟨s, hrun, hP⟩ : ∃ s, Run step (Action.Meets FreshAddr) State.initial deliveredRun s ∧
      s.logger.passed.length = 1 ∧ s.logger.held.length = 1 ∧ s.logger.enqueued.length = 3 :=
    fresh_of_exec (n := 2) (by decide +kernel)
  exact ⟨s, hrun, hP, (records_delivered hrun).1, (records_delivered hrun).2 (by decide)⟩

end Logging

end AppServer
