import AppServer.Logger.Conservation

/-!
# The order `consume` passes records on in

The loop that drains `ordered_next` stands inside the loop over `loggers`,
not after it. So when nothing is enqueued meanwhile, each queue is drained
to its end before the next logger is looked at, `ordered_next` never holds
two records, and what a call passes on is the queues one after the other in
the order of registration (`merge_step`). That is sorted by time exactly
where the queues already follow each other in time.
-/

namespace AppServer

namespace Logger

open Lib

variable {s s' : State} {t u : ThreadId} {a : Action}

/-- The step enqueues a record. -/
def Enqueues (s : State) : Action → Bool
  | .run t _ =>
    match (s.threads t).stack with
    | .realLogMsg _ _ (.enqueue _ _) :: _ => true
    | _ => false
  | _ => false

/-! ## What the call has done so far -/

/-- The call is at the logger `l`, the `i`th of `loggers`: the queues before
it are empty, the ones after it as they were, and its own has been passed on
but for `waiting` and what is still in it. `before` are the queues and `p₀`
what had been passed on when the call took the lock. -/
structure Midway (before : Addr → List Record) (p₀ : List MsgLoggerPair) (loggers : List Addr)
    (queue : Addr → List Record) (passed : List MsgLoggerPair) (check : StdSet loggerKey) (i : ℕ)
    (l : Addr) (waiting : List Record) : Prop where
  logger : loggers[i]? = some l
  front : ∀ x ∈ loggers.take i, queue x = []
  back : ∀ x ∈ loggers.drop (i + 1), queue x = before x
  met : ∀ x ∈ check.toList, x ∈ loggers.take (i + 1)
  order : ∃ done, before l = done ++ waiting ++ queue l ∧
    passed = p₀ ++ queued (loggers.take i) before ++ done.map fun r => (r, l)

/-- The call is between two loggers. -/
structure Between (before : Addr → List Record) (p₀ : List MsgLoggerPair) (loggers : List Addr)
    (queue : Addr → List Record) (passed : List MsgLoggerPair) (next : StdSet pairKey)
    (check : StdSet loggerKey) (i : ℕ) : Prop where
  empty : next.toList = []
  front : ∀ x ∈ loggers.take i, queue x = []
  back : ∀ x ∈ loggers.drop i, queue x = before x
  met : ∀ x ∈ check.toList, x ∈ loggers.take i
  order : passed = p₀ ++ queued (loggers.take i) before

/-- The loggers the inner loop has still to recheck, while the call is at
`l`: `l` itself is among them unless its record waits or its queue is
empty. -/
structure Rechecking (loggers : List Addr) (queue : Addr → List Record) (i : ℕ) (l : Addr)
    (waiting : List Record) (it : List Addr) : Prop where
  nodup : it.Nodup
  met : ∀ x ∈ it, x ∈ loggers.take (i + 1)
  due : waiting = [] → l ∈ it ∨ queue l = []
  done : waiting ≠ [] → l ∉ it

/-- What the call has done at each of its points. -/
def MergeOk (before : Addr → List Record) (p₀ : List MsgLoggerPair) (loggers : List Addr)
    (queue : Addr → List Record) (passed : List MsgLoggerPair) (next : StdSet pairKey)
    (check : StdSet loggerKey) : ConsumePc → Prop
  | .lock => False
  | .outer i => Between before p₀ loggers queue passed next check i
  | .tryFirst i l =>
    loggers[i]? = some l ∧ Between before p₀ loggers queue passed next check i
  | .drain i => ∃ l w, Midway before p₀ loggers queue passed check i l w ∧
      next.toList = w.map (fun r => (r, l)) ∧ w.length ≤ 1 ∧ (w = [] → queue l = [])
  | .logging i first => ∃ l, Midway before p₀ loggers queue passed check i l [] ∧
      next.toList = [first] ∧ first.2 = l
  | .recheck i it => ∃ l w, Midway before p₀ loggers queue passed check i l w ∧
      next.toList = w.map (fun r => (r, l)) ∧ w.length ≤ 1 ∧ Rechecking loggers queue i l w it
  | .tryAgain i x it => ∃ l w, Midway before p₀ loggers queue passed check i l w ∧
      next.toList = w.map (fun r => (r, l)) ∧ w.length ≤ 1 ∧
      Rechecking loggers queue i l w (x :: it)
  | .unlock => (∀ x ∈ loggers, queue x = []) ∧ passed = p₀ ++ queued loggers before

section Lists

variable {before queue : Addr → List Record} {p₀ passed : List MsgLoggerPair}
  {loggers : List Addr} {next : StdSet pairKey} {check : StdSet loggerKey} {i : ℕ} {l x : Addr}
  {r : Record} {q : List Record}

theorem ne_of_mem_take (hn : loggers.Nodup) (hl : loggers[i]? = some l)
    (hx : x ∈ loggers.take i) : x ≠ l := by
  rintro rfl
  obtain ⟨hi, rfl⟩ := List.getElem?_eq_some_iff.1 hl
  obtain ⟨j, hj, hji⟩ := List.mem_take_iff_getElem.1 hx
  have := (List.Nodup.getElem_inj_iff hn).1 hji
  omega

theorem ne_of_mem_drop (hn : loggers.Nodup) (hl : loggers[i]? = some l)
    (hx : x ∈ loggers.drop (i + 1)) : x ≠ l := by
  rintro rfl
  obtain ⟨hi, rfl⟩ := List.getElem?_eq_some_iff.1 hl
  obtain ⟨j, hj, hji⟩ := List.mem_drop_iff_getElem.1 hx
  have := (List.Nodup.getElem_inj_iff hn).1 hji
  omega

theorem mem_take_succ (hl : loggers[i]? = some l) :
    x ∈ loggers.take (i + 1) ↔ x ∈ loggers.take i ∨ x = l := by
  rw [take_succ_of_getElem? hl, List.mem_append, List.mem_singleton]

theorem mem_drop_of_getElem? (hl : loggers[i]? = some l) : l ∈ loggers.drop i := by
  obtain ⟨hi, rfl⟩ := List.getElem?_eq_some_iff.1 hl
  rw [List.drop_eq_getElem_cons hi]
  exact List.mem_cons_self

/-- The call comes to a logger. -/
theorem Between.midway (h : Between before p₀ loggers queue passed next check i)
    (hl : loggers[i]? = some l) : Midway before p₀ loggers queue passed check i l [] where
  logger := hl
  front := h.front
  back x hx := h.back x (by
    rw [← List.drop_drop] at hx
    exact List.mem_of_mem_drop hx)
  met x hx := (mem_take_succ hl).2 (Or.inl (h.met x hx))
  order := ⟨[], by simp [h.back l (mem_drop_of_getElem? hl)], by simp [h.order]⟩

/-- It takes the head of that logger's queue. -/
theorem Midway.take (h : Midway before p₀ loggers queue passed check i l [])
    (hn : loggers.Nodup) (hq : queue l = r :: q) (check' : StdSet loggerKey)
    (hcheck : ∀ x ∈ check'.toList, x ∈ check.toList) :
    Midway before p₀ loggers (Function.update queue l q) passed check' i l [r] where
  logger := h.logger
  front x hx := by
    rw [Function.update_of_ne (ne_of_mem_take hn h.logger hx)]
    exact h.front x hx
  back x hx := by
    rw [Function.update_of_ne (ne_of_mem_drop hn h.logger hx)]
    exact h.back x hx
  met x hx := h.met x (hcheck x hx)
  order := by
    obtain ⟨done, hbefore, hpassed⟩ := h.order
    refine ⟨done, ?_, hpassed⟩
    rw [hbefore, hq, Function.update_self]
    simp

/-- It passes the record on. -/
theorem Midway.pass (h : Midway before p₀ loggers queue passed check i l [r]) :
    Midway before p₀ loggers queue (passed ++ [(r, l)]) check i l [] where
  logger := h.logger
  front := h.front
  back := h.back
  met := h.met
  order := by
    obtain ⟨done, hbefore, hpassed⟩ := h.order
    exact ⟨done ++ [r], by simp [hbefore], by simp [hpassed]⟩

/-- More loggers may be parked. -/
theorem Midway.park (h : Midway before p₀ loggers queue passed check i l [])
    {x : Addr} (hx : x ∈ loggers.take (i + 1)) :
    Midway before p₀ loggers queue passed (check.insert x) i l [] where
  logger := h.logger
  front := h.front
  back := h.back
  met y hy := by
    rcases StdSet.mem_of_mem_insert hy with rfl | hy
    · exact hx
    · exact h.met y hy
  order := h.order

/-- The logger's queue is empty: it has been passed on, and the call goes
on. -/
theorem Midway.between (h : Midway before p₀ loggers queue passed check i l [])
    (hq : queue l = []) (hnext : next.toList = []) :
    Between before p₀ loggers queue passed next check (i + 1) where
  empty := hnext
  front x hx := by
    rcases (mem_take_succ h.logger).1 hx with hx | rfl
    · exact h.front x hx
    · exact hq
  back := h.back
  met := h.met
  order := by
    obtain ⟨done, hbefore, hpassed⟩ := h.order
    rw [hpassed, take_succ_of_getElem? h.logger, queued, queued, List.flatMap_append]
    simp [hbefore, hq]

/-- At the end of `loggers` everything has been passed on. -/
theorem Between.finish (h : Between before p₀ loggers queue passed next check i)
    (hl : loggers[i]? = none) :
    (∀ x ∈ loggers, queue x = []) ∧ passed = p₀ ++ queued loggers before := by
  have htake : loggers.take i = loggers := List.take_of_length_le (List.getElem?_eq_none_iff.1 hl)
  exact ⟨fun x hx => h.front x (htake.symm ▸ hx), by rw [h.order, htake]⟩

end Lists

/-! ## Step by step -/

/-- A step that is no enqueue, of a thread that is not consuming, leaves the
queues and what was passed on alone. -/
theorem unchanged_step (h : Step s u a s') (he : Enqueues s a = false)
    (hnot : ∀ pc next check st, (s.threads u).stack = .consume pc next check :: st →
      pc.holds? ≠ some true) :
    s'.queue = s.queue ∧ s'.passed = s.passed := by
  cases h with
  | enqueue hst => simp [Enqueues, hst] at he
  | firstHit hst | againHit hst | drainCall hst => exact absurd rfl (hnot _ _ _ _ hst)
  | exit => exact ⟨funext fun l => closeLogger_queue rfl, rfl⟩
  | @getNew env st hst hi hnew =>
    refine ⟨funext fun l => ?_, rfl⟩
    by_cases hl : l = env.logger
    · subst hl; simp [State.queue, hnew]
    · simp [State.queue, hl]
  | _ => exact ⟨rfl, rfl⟩

/-- Thread `t` is in a call that has done, of the queues `before` and on top
of `p₀`, what its point says. -/
def Merging (before : Addr → List Record) (p₀ : List MsgLoggerPair) (s : State) (t : ThreadId) :
    Prop :=
  ∃ pc next check, Frame.consume pc next check ∈ (s.threads t).stack ∧
    MergeOk before p₀ s.loggers s.queue s.passed next check pc

variable {before : Addr → List Record} {p₀ : List MsgLoggerPair}

theorem iterating_of_mergeOk {pc : ConsumePc} {next : StdSet pairKey} {check : StdSet loggerKey}
    (hf : Frame.consume pc next check ∈ (s.threads t).stack)
    (hm : MergeOk before p₀ s.loggers s.queue s.passed next check pc) : Iterating s t := by
  refine ⟨pc, next, check, hf, ?_⟩
  cases pc <;> simp [ConsumePc.holds?]
  exact hm

/-- What other threads do is none of the call's business. -/
theorem merging_of_ne (h : Step s u a s') (he : Enqueues s a = false) (hd : Discipline s)
    (hne : t ≠ u) (hm : Merging before p₀ s t) : Merging before p₀ s' t := by
  obtain ⟨pc, next, check, hf, hok⟩ := hm
  have hit := iterating_of_mergeOk hf hok
  have hmutex := mutex_of_iterating hd.grammar hit
  obtain ⟨hq, hp⟩ := unchanged_step h he fun pc' next' check' st hst hpc => by
    have hh := holds_eq_true.1 (holds_top hd.grammar hst hpc)
    rw [hmutex] at hh
    exact hne (Option.some.inj hh)
  refine ⟨pc, next, check, by rwa [threads_of_ne h hne], ?_⟩
  rw [hq, hp, loggers_eq_of_iterating hd.grammar h hit]
  exact hok

/-- **One step of the call.** It stays on course until it returns, with
everything passed on. -/
theorem merge_step (h : Step s t a s') (he : Enqueues s a = false) (hd : Discipline s)
    (hm : Merging before p₀ s t) : Merging before p₀ s' t ∨
      ((s'.threads t).stack = [] ∧ s'.passed = p₀ ++ queued s.loggers before) := by
  obtain ⟨pc, next, check, hf, hok⟩ := hm
  have hn := hd.registry.nodup
  have hgr := hd.grammar t
  have hit := iterating_of_mergeOk hf hok
  have hloggers := loggers_eq_of_iterating hd.grammar h hit
  -- a call under another function is where it was
  have hstay : (∀ pc next check st, (s.threads t).stack = .consume pc next check :: st →
      pc.holds? ≠ some true) → Frame.consume pc next check ∈ (s'.threads t).stack →
      Merging before p₀ s' t := by
    intro hnot hmem
    obtain ⟨hq, hp⟩ := unchanged_step h he hnot
    refine ⟨pc, next, check, hmem, ?_⟩
    rw [hq, hp, hloggers]
    exact hok
  have hpersist := mem_stack_step h hf
  -- a call on top of its stack is the one on course
  have htop : ∀ pc' next' check' st, (s.threads t).stack = .consume pc' next' check' :: st →
      st = [] ∧ MergeOk before p₀ s.loggers s.queue s.passed next' check' pc' := by
    intro pc' next' check' st hst
    obtain ⟨rfl, rfl, rfl, rfl⟩ := hd.grammar.only_consume hst hf
    exact ⟨rfl, hok⟩
  cases h with
  | log hlog =>
    have hnot : ∀ pc next check st, (s.threads t).stack ≠ .consume pc next check :: st :=
      fun pc next check st hst => by simp [Thread.canLog, hst] at hlog
    exact Or.inl (hstay (fun _ _ _ _ hst => absurd hst (hnot _ _ _ _)) (hpersist hnot (by simp)))
  | consume hst | exit hst => simp [hst] at hf
  | getFast hst | getUnlock hst | getNew hst | getPush hst | getLock hst | stamp hst =>
    exact Or.inl (hstay (by simp [hst]) (hpersist (by simp [hst]) (by simp [hst])))
  | enqueue hst => simp [Enqueues, hst] at he
  | conLock hst =>
    obtain ⟨-, hno⟩ := htop _ _ _ _ hst
    exact hno.elim
  | conOuter hst hl =>
    obtain ⟨rfl, hb⟩ := htop _ _ _ _ hst
    exact Or.inl ⟨_, _, _, top_mem_setStack, hl, hb⟩
  | conEnd hst hl =>
    obtain ⟨rfl, hb⟩ := htop _ _ _ _ hst
    exact Or.inl ⟨_, _, _, top_mem_setStack, Between.finish hb hl⟩
  | @firstHit env st next check i l r q hst hq =>
    obtain ⟨rfl, hl, hb⟩ := htop _ _ _ _ hst
    have hmid := (hb.midway hl).take hn hq check fun x hx => hx
    rw [← queue_setQueue (isSome_of_queue (by rw [hq]; simp))] at hmid
    exact Or.inl ⟨_, _, _, top_mem_setStack, l, [r], hmid,
      StdSet.toList_insert_of_empty hb.empty, le_refl 1, fun h => by cases h⟩
  | @firstMiss env st next check i l hst hq =>
    obtain ⟨rfl, hl, hb⟩ := htop _ _ _ _ hst
    have hmid := (hb.midway hl).park ((mem_take_succ hl).2 (Or.inr rfl))
    exact Or.inl ⟨_, _, _, top_mem_setStack, l, [], hmid, hb.empty, Nat.zero_le 1, fun _ => hq⟩
  | @drainCall env st next check i first hst hfirst =>
    obtain ⟨rfl, l, w, hmid, hnext, hw, -⟩ := htop _ _ _ _ hst
    rw [StdSet.first?, hnext] at hfirst
    cases w with
    | nil => cases hfirst
    | cons r w =>
      obtain rfl : w = [] := List.length_eq_zero_iff.1 (by simpa using hw)
      obtain rfl : (r, l) = first := Option.some.inj hfirst
      refine Or.inl ⟨.logging i (r, l), next, check, ?_, l, hmid.pass, hnext, rfl⟩
      change _ ∈ ((s.setStack t _).threads t).stack
      rw [setStack_stack_self]
      exact List.mem_cons_of_mem _ List.mem_cons_self
  | drainEnd hst hfirst =>
    obtain ⟨rfl, l, w, hmid, hnext, hw, hempty⟩ := htop _ _ _ _ hst
    have hnil := StdSet.first?_eq_none.1 hfirst
    obtain rfl : w = [] := by rw [hnil] at hnext; exact List.map_eq_nil_iff.1 hnext.symm
    exact Or.inl ⟨_, _, _, top_mem_setStack, hmid.between (hempty rfl) hnil⟩
  | @ordered env st next check i first hst =>
    rw [hst] at hgr hf
    obtain ⟨-, -, i', first', next', check', hst'⟩ := hgr.inv_ordered
    obtain ⟨-, rfl⟩ := List.cons.inj hst'
    simp only [List.mem_cons, List.not_mem_nil, or_false, reduceCtorEq, false_or,
      Frame.consume.injEq] at hf
    obtain ⟨rfl, rfl, rfl⟩ := hf
    obtain ⟨l, hmid, hnext, rfl⟩ := hok
    have hl : first.2 ∈ s.loggers.take (i + 1) := (mem_take_succ hmid.logger).2 (Or.inr rfl)
    have hpark := hmid.park hl
    refine Or.inl ⟨_, _, _, top_mem_setStack, first.2, [], hpark, ?_, Nat.zero_le 1, ?_⟩
    · simp [StdSet.erase, hnext]
    · refine ⟨(check.insert first.2).nodup, hpark.met, fun _ => Or.inl ?_, fun h => absurd rfl h⟩
      exact (StdSet.mem_insert_of_injective fun _ _ h => h).2 (Or.inl rfl)
  | recheck hst =>
    obtain ⟨rfl, hrec⟩ := htop _ _ _ _ hst
    exact Or.inl ⟨_, _, _, top_mem_setStack, hrec⟩
  | recheckEnd hst =>
    obtain ⟨rfl, l, w, hmid, hnext, hw, hrec⟩ := htop _ _ _ _ hst
    refine Or.inl ⟨_, _, _, top_mem_setStack, l, w, hmid, hnext, hw, fun h => ?_⟩
    exact (hrec.due h).resolve_left List.not_mem_nil
  | @againHit env st next check i x it r q hst hq =>
    obtain ⟨rfl, l, w, hmid, hnext, hw, hrec⟩ := htop _ _ _ _ hst
    -- the loggers met before are empty, so this one is the one the call is at
    have hx : x = l := by
      rcases (mem_take_succ hmid.logger).1 (hrec.met x List.mem_cons_self) with hx | hx
      · rw [hmid.front x hx] at hq
        cases hq
      · exact hx
    subst hx
    obtain rfl : w = [] := by
      by_contra hne
      exact hrec.done hne List.mem_cons_self
    have htake := hmid.take hn hq (check.erase x) fun y hy => (StdSet.mem_erase.1 hy).1
    rw [← queue_setQueue (isSome_of_queue (by rw [hq]; simp))] at htake
    obtain ⟨hnot, hnodup⟩ := List.nodup_cons.1 hrec.nodup
    exact Or.inl ⟨_, _, _, top_mem_setStack, x, [r], htake, StdSet.toList_insert_of_empty hnext,
      le_refl 1, hnodup, fun y hy => hrec.met y (List.mem_cons_of_mem x hy),
      (fun h => by cases h), fun _ => hnot⟩
  | @againMiss env st next check i x it hst hq =>
    obtain ⟨rfl, l, w, hmid, hnext, hw, hrec⟩ := htop _ _ _ _ hst
    refine Or.inl ⟨_, _, _, top_mem_setStack, l, w, hmid, hnext, hw,
      (List.nodup_cons.1 hrec.nodup).2, fun y hy => hrec.met y (List.mem_cons_of_mem x hy),
      fun h => ?_, fun h hl => hrec.done h (List.mem_cons_of_mem x hl)⟩
    rcases hrec.due h with hl | hl
    · rcases List.mem_cons.1 hl with rfl | hl
      · exact Or.inr hq
      · exact Or.inl hl
    · exact Or.inr hl
  | conUnlock hst =>
    obtain ⟨rfl, hall⟩ := htop _ _ _ _ hst
    exact Or.inr ⟨setStack_stack_self s t [], hall.2⟩

/-! ## A whole call -/

/-- No step enqueues, and the call of `consume` of thread `t` has not
returned. -/
def QuietCall (t : ThreadId) (s : State) (a : Action) : Prop :=
  Enqueues s a = false ∧ (s.threads t).stack ≠ []

variable {as : List Action}

/-- **What a call passes on when nothing is enqueued meanwhile**: the queues
one after the other. -/
theorem passed_of_quiet_call (hd : Discipline s)
    (hst : (s.threads t).stack = [.consume (.outer 0) StdSet.empty StdSet.empty])
    (hrun : Run step (QuietCall t) s as s') (hret : (s'.threads t).stack = []) :
    s'.passed = s.passed ++ s.queued := by
  have hstart : Merging s.queue s.passed s t := by
    refine ⟨.outer 0, StdSet.empty, StdSet.empty, hst ▸ List.mem_cons_self, ?_⟩
    exact ⟨rfl, by simp, fun _ _ => rfl, by simp, by simp [queued]⟩
  -- by the run rule: the call goes on merging, or has returned
  obtain ⟨-, ⟨-, pc, next, check, hf, -⟩ | ⟨-, hpassed⟩⟩ := hrun.invariant
    (I := fun s₁ => Discipline s₁ ∧ ((s₁.loggers = s.loggers ∧ Merging s.queue s.passed s₁ t) ∨
      ((s₁.threads t).stack = [] ∧ s₁.passed = s.passed ++ s.queued)))
    ⟨hd, Or.inl ⟨rfl, hstart⟩⟩ (fun s₁ a s₂ hI hok hs => by
      refine ⟨discipline_step hI.1 hs, ?_⟩
      have h := step_cases hs
      rcases hI.2 with ⟨hl, hm⟩ | ⟨hnil, -⟩
      · have hl' : s₂.loggers = s₁.loggers := by
          obtain ⟨pc, next, check, hf, hmok⟩ := hm
          exact loggers_eq_of_iterating hI.1.grammar h (iterating_of_mergeOk hf hmok)
        by_cases hta : t = a.thread
        · rw [← hta] at h
          rcases merge_step h hok.1 hI.1 hm with hm' | ⟨hnil, hpassed⟩
          · exact Or.inl ⟨hl'.trans hl, hm'⟩
          · exact Or.inr ⟨hnil, by rw [hpassed, hl]; rfl⟩
        · exact Or.inl ⟨hl'.trans hl, merging_of_ne h hok.1 hI.1 hta hm⟩
      · exact absurd hnil hok.2)
  · rw [hret] at hf
    cases hf
  · exact hpassed

/-- The times of some records, in order. -/
def whens (ps : List MsgLoggerPair) : List Timespec := ps.map fun p => p.1.msg.when

/-- Every record queued on an earlier logger is no later than every record
queued on a later one. -/
def InLoggerOrder (s : State) : Prop :=
  s.loggers.Pairwise fun l l' => ∀ r ∈ s.queue l, ∀ r' ∈ s.queue l', r.msg.when ≤ r'.msg.when

/-- The queues one after the other are in order of time where each is, and
they follow each other in time. -/
theorem whens_queued (hsorted : ∀ l ∈ s.loggers,
    ((s.queue l).map fun r => r.msg.when).Pairwise (· ≤ ·)) :
    (whens s.queued).Pairwise (· ≤ ·) ↔ InLoggerOrder s := by
  have hflat : whens s.queued = s.loggers.flatMap fun l => (s.queue l).map fun r => r.msg.when := by
    simp [whens, State.queued, queued, List.map_flatMap, Function.comp_def]
  rw [hflat, List.pairwise_flatMap]
  constructor
  · rintro ⟨-, hcross⟩
    refine hcross.imp fun h r hr r' hr' => ?_
    exact h _ (List.mem_map_of_mem hr) _ (List.mem_map_of_mem hr')
  · intro hcross
    refine ⟨hsorted, hcross.imp fun h x hx y hy => ?_⟩
    obtain ⟨r, hr, rfl⟩ := List.mem_map.1 hx
    obtain ⟨r', hr', rfl⟩ := List.mem_map.1 hy
    exact h r hr r' hr'

/-- **A call of `consume` merges the queues exactly where they already
follow each other in time.** Whatever the loggers and their queues, each in
order of `when`, and whatever the other threads do but enqueue: what the
call passes on is a permutation of all that is queued; and it is in order of
`when` just when no record of a logger is later than one of a logger
registered after it. -/
theorem consume_merges_iff (hd : Discipline s)
    (hst : (s.threads t).stack = [.consume (.outer 0) StdSet.empty StdSet.empty])
    (hsorted : ∀ l ∈ s.loggers, ((s.queue l).map fun r => r.msg.when).Pairwise (· ≤ ·))
    (hrun : Run step (QuietCall t) s as s') (hret : (s'.threads t).stack = []) :
    ∃ out, s'.passed = s.passed ++ out ∧
      ((out.Perm s.queued ∧ (whens out).Pairwise (· ≤ ·)) ↔ InLoggerOrder s) := by
  refine ⟨s.queued, passed_of_quiet_call hd hst hrun hret, ?_⟩
  rw [← whens_queued hsorted]
  exact ⟨fun h => h.2, fun h => ⟨List.Perm.refl _, h⟩⟩

instance (t : ThreadId) (s : State) (a : Action) : Decidable (QuietCall t s a) :=
  decidable_of_iff (Enqueues s a = false ∧ (s.threads t).stack.isEmpty = false) <| by
    rw [QuietCall, List.isEmpty_eq_false_iff]

/-! ## Two threads whose records alternate -/

/-- The next `n` statements of thread `t`, at the time `k`: a new logger
would be at `logger`, new records are at `addr` and on, and the memory of a
copy happens to hold the time. -/
def stretch (t : ThreadId) (logger addr k n : ℕ) : List Action :=
  (List.range n).map fun j => .run t ⟨logger, addr + j, ⟨k, 0⟩, ⟨k, 0⟩, 7⟩

/-- Thread 0 logs at the times 1 and 5, thread 2 at the times 2 and 3; then
thread 1 calls `consume` and takes the lock. -/
def mergeSetup : List Action :=
  .log 0 sampleCall ⟨0, 0⟩ :: stretch 0 100 200 1 7 ++
  .log 2 sampleCall ⟨0, 0⟩ :: stretch 2 101 210 2 5 ++
  stretch 2 101 220 3 4 ++ stretch 0 100 230 5 2 ++ .consume 1 :: stretch 1 102 240 6 1

/-- The rest of that call. -/
def mergeCall : List Action := stretch 1 102 250 6 32

theorem mergeSetup_run : ∃ s s', Run step FreshAddr State.initial mergeSetup s ∧
    (s.threads 1).stack = [.consume (.outer 0) StdSet.empty StdSet.empty] ∧
    (∀ l ∈ s.loggers, ((s.queue l).map fun r => r.msg.when).Pairwise (· ≤ ·)) ∧
    Run step (QuietCall 1) s mergeCall s' ∧ (s'.threads 1).stack = [] ∧ s.passed = [] ∧
    whens s'.passed = [⟨1, 0⟩, ⟨5, 0⟩, ⟨2, 0⟩, ⟨3, 0⟩] := by
  obtain ⟨s, hrun, hst, hsorted, hpassed, hexec⟩ : ∃ s : State,
      Run step (fun s a => freshBelow 3 s a = true) State.initial mergeSetup s ∧
      (s.threads 1).stack = [.consume (.outer 0) StdSet.empty StdSet.empty] ∧
      (∀ l ∈ s.loggers, ((s.queue l).map fun r => r.msg.when).Pairwise (· ≤ ·)) ∧
      s.passed = [] ∧ (exec (guarded step (QuietCall 1)) s mergeCall).any (fun s' =>
        decide ((s'.threads 1).stack = [] ∧
          whens s'.passed = [⟨1, 0⟩, ⟨5, 0⟩, ⟨2, 0⟩, ⟨3, 0⟩])) = true :=
    Run.exists_of_exec (by decide +kernel)
  obtain ⟨s', hquiet, hret, hwhens⟩ := Run.exists_of_exec hexec
  have hfresh := (fresh_of_checked discipline_initial (fun _ _ => rfl) (fun _ _ h => h) hrun).1
  exact ⟨s, s', hfresh.mono fun _ _ h => h.1, hst, hsorted, hquiet, hret, hpassed, hwhens⟩

/-- On the two threads' records. -/
theorem consume_merges_iff_sample : ∃ (s s' : State) (out : List MsgLoggerPair),
    Run step FreshAddr State.initial mergeSetup s ∧ Run step (QuietCall 1) s mergeCall s' ∧
    s'.passed = s.passed ++ out ∧
    ((out.Perm s.queued ∧ (whens out).Pairwise (· ≤ ·)) ↔ InLoggerOrder s) := by
  obtain ⟨s, s', hrun, hst, hsorted, hquiet, hret, -⟩ := mergeSetup_run
  obtain ⟨out, hout⟩ := consume_merges_iff (discipline hrun.reachable) hst hsorted hquiet hret
  exact ⟨s, s', out, hrun, hquiet, hout⟩

/-- One call passes on the records of the times 1, 5, 2 and 3 in this
order. -/
theorem consume_out_of_order : ∃ s s', Run step FreshAddr State.initial mergeSetup s ∧
    (s.threads 1).stack = [.consume (.outer 0) StdSet.empty StdSet.empty] ∧
    (∀ l ∈ s.loggers, ((s.queue l).map fun r => r.msg.when).Pairwise (· ≤ ·)) ∧
    Run step (QuietCall 1) s mergeCall s' ∧ (s'.threads 1).stack = [] ∧ s.passed = [] ∧
    whens s'.passed = [⟨1, 0⟩, ⟨5, 0⟩, ⟨2, 0⟩, ⟨3, 0⟩] ∧
    ¬ (whens s'.passed).Pairwise (· ≤ ·) := by
  obtain ⟨s, s', hrun, hst, hsorted, hquiet, hret, hnil, hwhens⟩ := mergeSetup_run
  refine ⟨s, s', hrun, hst, hsorted, hquiet, hret, hnil, hwhens, ?_⟩
  rw [hwhens]
  decide

end Logger

end AppServer
