import AppServer.Lib.Execution
import AppServer.Logger.Conservation

/-!
# What a `consume` leaves behind

Fix the records enqueued before a `consume` took the lock. A logger is clean
once none of them is left in its queue, and it stays so. The loggers parked
in `check_loggers` are clean except the ones the inner loop has still to
recheck (`Swept`), so when the call unlocks, with every logger parked, all
of those records have been passed on.
-/

namespace AppServer

namespace Logger

open Lib

variable {pre : List MsgLoggerPair} {s s' : State} {t u : ThreadId} {a : Action}

/-- The loggers the inner loop has still to recheck. -/
def ConsumePc.todo : ConsumePc → List Addr
  | .recheck _ it => it
  | .tryAgain _ l it => l :: it
  | _ => []

/-- None of the records `pre` is left in the queue of `l`. -/
def Clean (pre : List MsgLoggerPair) (s : State) (l : Addr) : Prop :=
  ∀ r ∈ s.queue l, (r, l) ∉ pre

/-- The parked loggers are clean, but for the ones to recheck. -/
def Swept (pre : List MsgLoggerPair) (s : State) (pc : ConsumePc) (check : StdSet loggerKey) :
    Prop :=
  ∀ l ∈ check.toList, l ∉ pc.todo → Clean pre s l

/-- A record enqueued by a step is a new one. -/
theorem Numbered.not_mem {p : MsgLoggerPair} (h : Numbered s)
    (hp : p.1.serial = s.enqueued.length) : p ∉ s.enqueued := by
  intro hm
  have hserial : p.1.serial ∈ s.enqueued.map fun p => p.1.serial := List.mem_map_of_mem hm
  rw [h, List.mem_range] at hserial
  omega

/-- **A clean logger stays clean.** -/
theorem clean_step {l : Addr} (h : Step s t a s') (hA : Accounted s) (hA' : Accounted s')
    (hpre : ∀ p ∈ pre, p ∈ s.enqueued) (hclean : Clean pre s l) : Clean pre s' l := by
  intro r hq
  change r ∈ s'.lanes.queue l at hq
  rcases lanes_step h hA.discipline hA.custody hA'.discipline hA'.custody.consuming with
    he | ⟨l', r', n, -, -, he, hn, -⟩ | ⟨hstep, henq⟩
  · rw [he] at hq
    exact hclean r hq
  · rw [he] at hq
    by_cases hl : l = l'
    · subst hl
      simp only [Lanes.send, Function.update_self, List.mem_append, List.mem_singleton] at hq
      rcases hq with hq | rfl
      · exact hclean r hq
      · exact fun hm => hA.numbered.not_mem hn (hpre _ hm)
    · simp only [Lanes.send, Function.update_of_ne hl] at hq
      exact hclean r hq
  · exact hclean r (hstep.mem_queue henq hq)

/-- An empty queue is clean. -/
theorem clean_of_queue {l : Addr} (h : s.queue l = []) : Clean pre s l := by
  intro r hr
  rw [h] at hr
  cases hr

/-- Thread `t` is sweeping: it is in a `consume` past its lock. -/
def Sweeping (pre : List MsgLoggerPair) (s : State) (t : ThreadId) : Prop :=
  ∃ pc next check, Frame.consume pc next check ∈ (s.threads t).stack ∧
    pc.holds? ≠ some false ∧ Swept pre s pc check

/-- **One step of the sweeper**: it goes on sweeping, unless it was about to
unlock. -/
theorem sweeping_step (h : Step s t a s') (hd : Discipline s)
    (hclean : ∀ l, Clean pre s l → Clean pre s' l) {pc : ConsumePc} {next : StdSet pairKey}
    {check : StdSet loggerKey} (hf : Frame.consume pc next check ∈ (s.threads t).stack)
    (hpc : pc.holds? ≠ some false) (hsw : Swept pre s pc check) :
    Sweeping pre s' t ∨ (pc = .unlock ∧ (s.threads t).stack = [.consume .unlock next check] ∧
      (s'.threads t).stack = [] ∧ s'.passed = s.passed) := by
  -- what was clean and is not due for a recheck is clean still
  have hkeep : Swept pre s' pc check := fun l hl ht => hclean l (hsw l hl ht)
  have hstay : Frame.consume pc next check ∈ (s'.threads t).stack → Sweeping pre s' t :=
    fun hm => ⟨pc, next, check, hm, hpc, hkeep⟩
  have hpersist := mem_stack_step h hf
  cases h with
  | log hlog =>
    refine Or.inl (hstay (hpersist (fun pc next check st hst => ?_) (by simp)))
    simp [Thread.canLog, hst] at hlog
  | consume hst | exit hst => simp [hst] at hf
  | getFast hst | getUnlock hst | getNew hst | getPush hst | getLock hst | stamp hst
    | enqueue hst => exact Or.inl (hstay (hpersist (by simp [hst]) (by simp [hst])))
  | conLock hst =>
    obtain ⟨-, rfl, -⟩ := hd.grammar.only_consume hst hf
    exact absurd rfl hpc
  | conOuter hst | conEnd hst | firstHit hst | drainEnd hst =>
    obtain ⟨rfl, rfl, rfl, rfl⟩ := hd.grammar.only_consume hst hf
    exact Or.inl ⟨_, _, _, top_mem_setStack, by simp [ConsumePc.holds?], hkeep⟩
  | @drainCall env st next check i first hst =>
    obtain ⟨rfl, rfl, rfl, rfl⟩ := hd.grammar.only_consume hst hf
    refine Or.inl ⟨.logging i first, next, check, ?_, by simp [ConsumePc.holds?], hkeep⟩
    change _ ∈ ((s.setStack t _).threads t).stack
    rw [setStack_stack_self]
    exact List.mem_cons_of_mem _ List.mem_cons_self
  | @firstMiss env st next check i l hst hq =>
    obtain ⟨rfl, rfl, rfl, rfl⟩ := hd.grammar.only_consume hst hf
    refine Or.inl ⟨_, _, _, top_mem_setStack, by simp [ConsumePc.holds?], fun l' hl' ht => ?_⟩
    rcases StdSet.mem_of_mem_insert hl' with rfl | hl'
    · exact clean_of_queue hq
    · exact hkeep l' hl' ht
  | ordered hst =>
    -- everything parked is due for a recheck
    exact Or.inl ⟨_, _, _, top_mem_setStack, by simp [ConsumePc.holds?],
      fun l hl ht => absurd hl ht⟩
  | recheck hst | recheckEnd hst =>
    obtain ⟨rfl, rfl, rfl, rfl⟩ := hd.grammar.only_consume hst hf
    exact Or.inl ⟨_, _, _, top_mem_setStack, by simp [ConsumePc.holds?], hkeep⟩
  | @againHit env st next check i l it r q hst hq =>
    obtain ⟨rfl, rfl, rfl, rfl⟩ := hd.grammar.only_consume hst hf
    refine Or.inl ⟨_, _, _, top_mem_setStack, by simp [ConsumePc.holds?], fun l' hl' ht => ?_⟩
    obtain ⟨hl', hne⟩ := StdSet.mem_erase.1 hl'
    exact hkeep l' hl' fun hm => (List.mem_cons.1 hm).elim hne ht
  | @againMiss env st next check i l it hst hq =>
    obtain ⟨rfl, rfl, rfl, rfl⟩ := hd.grammar.only_consume hst hf
    refine Or.inl ⟨_, _, _, top_mem_setStack, by simp [ConsumePc.holds?], fun l' hl' ht => ?_⟩
    by_cases hl : l' = l
    · subst hl
      exact clean_of_queue hq
    · exact hkeep l' hl' fun hm => (List.mem_cons.1 hm).elim hl ht
  | conUnlock hst =>
    obtain ⟨rfl, rfl, rfl, rfl⟩ := hd.grammar.only_consume hst hf
    exact Or.inr ⟨rfl, hst, setStack_stack_self s t [], rfl⟩

/-- **At the unlock nothing is left.** Every logger is parked and none is due
for a recheck. -/
theorem passed_of_unlock (hA : Accounted s) (hpre : ∀ p ∈ pre, p ∈ s.enqueued)
    {next : StdSet pairKey} {check : StdSet loggerKey}
    (hst : (s.threads t).stack = [.consume .unlock next check])
    (hsw : Swept pre s .unlock check) : ∀ p ∈ pre, p ∈ s.passed := by
  obtain ⟨hd, hc⟩ := And.intro hA.discipline hA.custody
  obtain ⟨-, hnext, hparted⟩ := hc.consuming.top hd.grammar hst
  have hheld : s.held = [] := by
    rw [held_of_holds (holds_top hd.grammar hst rfl), Thread.waiting, hst]
    simp [Frame.waiting, hnext]
  intro p hp
  have hmem := hA.enqueued_perm.mem_iff.1 (hpre p hp)
  rw [hheld, List.append_nil, List.mem_append] at hmem
  rcases hmem with hmem | hmem
  · exact hmem
  · obtain ⟨l, hl, hq⟩ := List.mem_flatMap.1 hmem
    obtain ⟨r, hr, rfl⟩ := List.mem_map.1 hq
    have hcheck : l ∈ check.toList := by
      rw [Parted, hnext, List.map_nil, List.append_nil, List.take_length] at hparted
      exact hparted.mem_iff.2 hl
    exact absurd hp (hsw l hcheck List.not_mem_nil r hr)

/-- **One step keeps the sweep of the records `pre` by thread `t`**: it is
under way, or done. -/
theorem sweep_step (h : Step s u a s') (hA : Accounted s) (hA' : Accounted s')
    (hpre : ∀ p ∈ pre, p ∈ s.enqueued) (hs : Sweeping pre s t ∨ ∀ p ∈ pre, p ∈ s.passed) :
    Sweeping pre s' t ∨ ∀ p ∈ pre, p ∈ s'.passed := by
  have hclean : ∀ l, Clean pre s l → Clean pre s' l := fun l => clean_step h hA hA' hpre
  rcases hs with ⟨pc, next, check, hf, hpc, hsw⟩ | hall
  · by_cases htu : t = u
    · subst htu
      rcases sweeping_step h hA.discipline hclean hf hpc hsw with hsw' | ⟨rfl, hst, -, he⟩
      · exact Or.inl hsw'
      · exact Or.inr (he ▸ passed_of_unlock hA hpre hst hsw)
    · refine Or.inl ⟨pc, next, check, ?_, hpc, fun l hl ht => hclean l (hsw l hl ht)⟩
      rw [threads_of_ne h htu]
      exact hf
  · refine Or.inr fun p hp => ?_
    rcases passed_step h with he | ⟨-, -, -, first, -, -, he⟩
    · exact he ▸ hall p hp
    · exact he ▸ List.mem_append_left _ (hall p hp)

/-- Where that sweep has got to in a run. -/
structure Sweep (pre : List MsgLoggerPair) (t : ThreadId) (s : State) : Prop where
  run : ∃ as, Run step FreshAddr State.initial as s
  enqueued : ∀ p ∈ pre, p ∈ s.enqueued
  sweeping : Sweeping pre s t ∨ ∀ p ∈ pre, p ∈ s.passed

theorem Sweep.step (hs : Sweep pre t s) (hfresh : FreshAddr s a)
    (h : Logger.step s a = some s') : Sweep pre t s' := by
  obtain ⟨as, hrun⟩ := hs.run
  have hrun' := hrun.snoc hfresh h
  have hcases := step_cases h
  exact ⟨⟨_, hrun'⟩, fun p hp => mem_enqueued_step hcases (hs.enqueued p hp),
    sweep_step hcases (accounted hrun) (accounted hrun') hs.enqueued hs.sweeping⟩

/-- A `consume` that has just taken the lock starts a sweep of everything
enqueued. -/
theorem sweeping_of_lock (hd : Discipline s) (hc : Custody s) (h : Step s t a s')
    {next : StdSet pairKey} {check : StdSet loggerKey}
    (hst : (s.threads t).stack = [.consume .lock next check]) (hm : s'.mutex = some t) :
    Sweeping pre s' t := by
  obtain ⟨-, hnext, hcheck⟩ := hc.consuming.top hd.grammar hst
  have hfree : s.mutex ≠ some t :=
    holds_eq_false.1 (Option.some.inj (hd.grammar.holds_consume hst)).symm
  cases h with
  | @conLock env st next' check' hst' =>
    rw [hst, List.cons.injEq, Frame.consume.injEq] at hst'
    obtain ⟨⟨-, rfl, rfl⟩, rfl⟩ := hst'
    refine ⟨.outer 0, next, check, ?_, by simp [ConsumePc.holds?], fun l hl => ?_⟩
    · exact top_mem_setStack
    · rw [hcheck] at hl
      cases hl
  | getLock hst' =>
    rw [hst] at hst'
    cases hst'
  | getUnlock => cases hm
  | conUnlock => cases hm
  | _ => exact absurd hm hfree

/-- Whoever takes the lock, if the call has it now, the call has taken it:
it sweeps what had been enqueued. -/
theorem sweeping_of_acquire (hd : Discipline s) (hc : Custody s) (hs : step s a = some s')
    {next : StdSet pairKey} {check : StdSet loggerKey}
    (hst : (s.threads t).stack = [.consume .lock next check]) (hm : s'.mutex = some t) :
    (∀ p ∈ s.enqueued, p ∈ s'.enqueued) ∧ Sweeping s.enqueued s' t := by
  have h := step_cases hs
  have hfree : s.holds t = false := (Option.some.inj (hd.grammar.holds_consume hst)).symm
  have hta : t = a.thread := mover_of_lock h hd.grammar hfree hm
  rw [← hta] at h
  exact ⟨fun p hp => mem_enqueued_step h hp, sweeping_of_lock hd hc h hst hm⟩

end Logger

end AppServer
