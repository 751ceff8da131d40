import AppServer.Logger.Conservation

/-!
# What `ordered_log` receives

A record says what its call said. Its `when` is another matter: the copy
constructor leaves it out, so the clock value `gettime` stored in the item
reaches the record only where the memory of the copy happened to hold it
already (`LeftoverIsClock`).
-/

namespace AppServer

namespace Logger

open Lib

variable {s s' : State} {t : ThreadId} {a : Action} {as : List Action}

/-- A record that says what its call said, with the time it was logged
at. -/
structure Record.Faithful (r : Record) : Prop where
  content : r.msg.Carries r.call
  when : r.msg.when = r.clock

/-- Every record made so far is faithful. -/
structure AllFaithful (s : State) : Prop where
  flight : ∀ t r, InFlight s t r → r.Faithful
  enqueued : ∀ p ∈ s.enqueued, p.1.Faithful

/-- Where the step copies an item, the memory of the copy holds, in the place
of `when`, the clock value the item was stamped with. -/
def LeftoverIsClock (s : State) : Action → Prop
  | .run t env => ∀ c item l st, (s.threads t).stack = .realLogMsg c item (.stamp l) :: st →
      env.leftover = env.clock
  | _ => True

/-! ## Nothing is made up -/

/-- What is in a queue, in an `ordered_next` or passed on was enqueued. This
needs no assumption on addresses. -/
structure Sourced (s : State) : Prop where
  queue : ∀ l, s.queue l <:+ lane l s.enqueued
  next : ∀ t pc next check, Frame.consume pc next check ∈ (s.threads t).stack →
    ∀ p ∈ next.toList, p ∈ s.enqueued
  passed : ∀ p ∈ s.passed, p ∈ s.enqueued

/-- A queue after a dequeue. -/
theorem queue_suffix_of_cons {l l' : Addr} {r : Record} {q : List Record}
    (hq : s.queue l = r :: q) (hs : ∀ l, s.queue l <:+ lane l s.enqueued) :
    (s.setQueue l q).queue l' <:+ lane l' s.enqueued := by
  by_cases hl : l' = l
  · subst hl
    rw [setQueue_queue_self _ (isSome_of_queue (by rw [hq]; simp))]
    have := hs l'
    rw [hq] at this
    exact (List.suffix_cons r q).trans this
  · rw [setQueue_queue_of_ne _ _ hl]
    exact hs l'

/-- A record waits in `ordered_next` after a step because it did before, or
because it was at the head of its queue. -/
theorem next_step {pc : ConsumePc} {next : StdSet pairKey} {check : StdSet loggerKey}
    {p : MsgLoggerPair} (h : Step s t a s')
    (hf : Frame.consume pc next check ∈ (s'.threads t).stack) (hp : p ∈ next.toList) :
    (∃ pc next check, Frame.consume pc next check ∈ (s.threads t).stack ∧ p ∈ next.toList) ∨
    ∃ q, s.queue p.2 = p.1 :: q := by
  have hkeep : Frame.consume pc next check ∈ (s.threads t).stack →
      ∃ pc next check, Frame.consume pc next check ∈ (s.threads t).stack ∧ p ∈ next.toList :=
    fun hm => ⟨pc, next, check, hm, hp⟩
  have hback := mem_of_mem_stack_step h hf
  cases h with
  | log hlog =>
    refine Or.inl (hkeep (hback (by simp) (fun pc next check st hst => ?_) (by simp)))
    simp [Thread.canLog, hst] at hlog
  | consume =>
    rw [setStack_stack_self, List.mem_singleton, Frame.consume.injEq] at hf
    obtain ⟨-, rfl, -⟩ := hf
    cases hp
  | exit hst => simp [hst] at hf
  | getFast hst | getUnlock hst | getNew hst | getPush hst | getLock hst | stamp hst
    | enqueue hst => exact Or.inl (hkeep (hback (by simp) (by simp [hst]) (by simp [hst])))
  | conUnlock hst =>
    change _ ∈ ((s.setStack t _).threads t).stack at hf
    rw [setStack_stack_self] at hf
    exact Or.inl (hkeep (hst ▸ List.mem_cons_of_mem _ hf))
  | conLock hst | drainCall hst | conOuter hst | conEnd hst | firstMiss hst | drainEnd hst
    | recheck hst | recheckEnd hst | againMiss hst =>
    change _ ∈ ((State.setStack _ t _).threads t).stack at hf
    simp only [setStack_stack_self, List.mem_cons, Frame.consume.injEq, reduceCtorEq,
      false_or] at hf
    rcases hf with ⟨-, rfl, -⟩ | hf
    · exact Or.inl ⟨_, _, _, hst ▸ List.mem_cons_self, hp⟩
    · exact Or.inl (hkeep (hst ▸ List.mem_cons_of_mem _ hf))
  | ordered hst =>
    simp only [setStack_stack_self, List.mem_cons, Frame.consume.injEq] at hf
    rcases hf with ⟨-, rfl, -⟩ | hf
    · exact Or.inl ⟨_, _, _, hst ▸ List.mem_cons_of_mem _ List.mem_cons_self,
        (StdSet.mem_erase.1 hp).1⟩
    · exact Or.inl (hkeep (hst ▸ List.mem_cons_of_mem _ (List.mem_cons_of_mem _ hf)))
  | firstHit hst hq | againHit hst hq =>
    -- the record inserted is the head of the queue it was taken from
    simp only [setStack_stack_self, List.mem_cons, Frame.consume.injEq] at hf
    rcases hf with ⟨-, rfl, -⟩ | hf
    · rcases StdSet.mem_of_mem_insert hp with rfl | hp
      · exact Or.inr ⟨_, hq⟩
      · exact Or.inl ⟨_, _, _, hst ▸ List.mem_cons_self, hp⟩
    · exact Or.inl (hkeep (hst ▸ List.mem_cons_of_mem _ hf))

/-- **One step makes nothing up.** -/
theorem sourced_step (h : Step s t a s') (hd : Discipline s) (hso : Sourced s) :
    Sourced s' where
  queue l := by
    have hold := hso.queue l
    cases h with
    | exit => rwa [closeLogger_queue rfl]
    | @getNew env st hst hi hnew =>
      by_cases hl : l = env.logger
      · subst hl; simp [State.queue]
      · simpa [State.queue, hl] using hold
    | @enqueue env st c item l' r hst =>
      -- the one step that adds to a queue adds the same to what was enqueued
      have hok := hd.grammar t
      rw [hst] at hok
      have hl' : l' ∈ s.loggers := (hd.registry.listed l').2 ⟨t, hok.inv_enqueue.1⟩
      show (s.setQueue l' _).queue l <:+ lane l (s.enqueued ++ _)
      rw [lane_append, lane_singleton]
      by_cases hl : l = l'
      · subst hl
        rw [queue_setQueue (hd.registry.isSome_of_mem hl'), Function.update_self, if_pos rfl]
        obtain ⟨pre, hpre⟩ := hold
        exact ⟨pre, by rw [← List.append_assoc, hpre]⟩
      · rw [setQueue_queue_of_ne _ _ hl, if_neg (Ne.symm hl), List.append_nil]
        exact hold
    | firstHit _ hq => exact queue_suffix_of_cons hq hso.queue
    | againHit _ hq => exact queue_suffix_of_cons hq hso.queue
    | _ => exact hold
  next u pc next check hf p hp := by
    refine mem_enqueued_step h ?_
    by_cases hut : u = t
    · subst hut
      rcases next_step h hf hp with ⟨pc', next', check', hf', hp'⟩ | ⟨q, hq⟩
      · exact hso.next u pc' next' check' hf' p hp'
      · refine mem_of_mem_lane ((hso.queue p.2).subset ?_)
        rw [hq]
        exact List.mem_cons_self
    · rw [threads_of_ne h hut] at hf
      exact hso.next u pc next check hf p hp
  passed p hp := by
    refine mem_enqueued_step h ?_
    rcases passed_step h with he | ⟨pc, next, check, first, hf, hfirst, he⟩
    · exact hso.passed p (he ▸ hp)
    · rw [he, List.mem_append, List.mem_singleton] at hp
      rcases hp with hp | rfl
      · exact hso.passed p hp
      · exact hso.next t pc next check hf p hfirst

theorem sourced_initial : Sourced State.initial where
  queue _ := List.suffix_refl _
  next _ _ _ _ h := by cases h
  passed _ h := by cases h

/-- **Nothing is made up**, in any reachable state. -/
theorem sourced (h : Reachable s) : Sourced s := by
  refine (h.invariant (I := fun s => Discipline s ∧ Sourced s)
    ⟨discipline_initial, sourced_initial⟩ ?_).2
  intro s a s' hI hs
  exact ⟨discipline_step hI.1 hs, sourced_step (step_cases hs) hI.1 hI.2⟩

/-! ## When the time survives -/

/-- A new record is faithful where the leftover is the time. -/
theorem newRecord_faithful {c : LogCall} {item : LogMessage} {env : Env}
    (hitem : item.Carries c) :
    (newRecord c item t env).Faithful ↔ env.leftover = env.clock :=
  ⟨fun h => h.when, fun h => ⟨(newRecord_madeBy (t := t) hitem).content, h⟩⟩

theorem handles_stamp {c : LogCall} {item : LogMessage} {l : Addr} {st : List Frame}
    (hp : Provenance s) (hst : (s.threads t).stack = .realLogMsg c item (.stamp l) :: st) :
    item.Carries c :=
  hp.frames t (.realLogMsg c item (.stamp l)) (hst ▸ List.mem_cons_self)

/-- **A step leaves every record faithful exactly where the leftover of the
copy it makes is the time.** -/
theorem allFaithful_step (hs : step s a = some s') (hd : Discipline s) (hp : Provenance s)
    (hall : AllFaithful s) : LeftoverIsClock s a ↔ AllFaithful s' := by
  have h := step_cases hs
  constructor
  · intro hleft
    refine ⟨fun u r hr => ?_, fun p hmem => ?_⟩
    · by_cases hut : u = a.thread
      · subst hut
        obtain ⟨env, c, item, l, st, ha, hst, rfl⟩ := inFlight_step h hd.grammar hr
        rw [ha] at hleft
        exact (newRecord_faithful (handles_stamp hp hst)).2 (hleft c item l st hst)
      · exact hall.flight u r (inFlight_of_ne h hut hr)
    · rcases enqueued_step h with he | ⟨c, item, l, r, st, hst, he⟩
      · exact hall.enqueued p (he ▸ hmem)
      · rw [he, List.mem_append, List.mem_singleton] at hmem
        rcases hmem with hmem | rfl
        · exact hall.enqueued p hmem
        · have hr := hall.flight a.thread r ⟨c, item, l, st, hst⟩
          exact ⟨hr.content, hr.when⟩
  · intro hall'
    cases a with
    | run t env =>
      intro c item l st hst
      simp only [step, advance, hst, advanceLog, Option.some.injEq] at hs
      subst hs
      refine (newRecord_faithful (t := t) (handles_stamp hp hst)).1 (hall'.flight t _ ?_)
      exact ⟨c, { item with when := env.clock }, l, st, setStack_stack_self _ _ _⟩
    | _ => trivial

theorem allFaithful_initial : AllFaithful State.initial where
  flight _ _ h := by
    obtain ⟨c, item, l, st, hst⟩ := h
    cases hst
  enqueued _ h := by cases h

/-- The runs whose records are all faithful, all the way. -/
theorem run_leftover_iff : Run step LeftoverIsClock State.initial as s ↔
    Run step (Lands step AllFaithful) State.initial as s := by
  refine Run.lands_iff (J := fun s => Discipline s ∧ Provenance s)
    ⟨discipline_initial, provenance_initial⟩ allFaithful_initial ?_ ?_
  · intro s a s' hJ hs
    exact ⟨discipline_step hJ.1 hs, provenance_step (step_cases hs) hJ.1.grammar hJ.2⟩
  · exact fun s a s' hJ hall hs => allFaithful_step hs hJ.1 hJ.2 hall

/-- **A record reaches `ordered_log` as it was logged** exactly where each
copy's memory held the time already. The steps of a run all copy into such
memory just when every state it visits has only faithful records; and then
what `ordered_log` has received says what its call said, with the time of
the call, and a thread whose clock never went back has its queue in order of
`when`. -/
theorem log_record_fidelity :
    (Run step LeftoverIsClock State.initial as s ↔
      Run step (Lands step AllFaithful) State.initial as s) ∧
    (Run step LeftoverIsClock State.initial as s →
      (∀ p ∈ s.passed, p ∈ s.enqueued ∧ p.1.msg.Carries p.1.call ∧ p.1.msg.when = p.1.clock) ∧
      ∀ l, ((lane l s.enqueued).map Record.clock).Pairwise (· ≤ ·) →
        ((s.queue l).map fun r => r.msg.when).Pairwise (· ≤ ·)) := by
  refine ⟨run_leftover_iff, fun h => ?_⟩
  have hso := sourced h.reachable
  have hall : AllFaithful s := by
    refine (h.invariant (I := fun s => (Discipline s ∧ Provenance s) ∧ AllFaithful s)
      ⟨⟨discipline_initial, provenance_initial⟩, allFaithful_initial⟩ ?_).2
    intro s a s' hI hleft hs
    exact ⟨⟨discipline_step hI.1.1 hs, provenance_step (step_cases hs) hI.1.1.grammar hI.1.2⟩,
      (allFaithful_step hs hI.1.1 hI.1.2 hI.2).1 hleft⟩
  refine ⟨fun p hp => ?_, fun l hclock => ?_⟩
  · have hmem := hso.passed p hp
    exact ⟨hmem, (hall.enqueued p hmem).content, (hall.enqueued p hmem).when⟩
  · have hwhen : (s.queue l).map (fun r => r.msg.when) = (s.queue l).map Record.clock := by
      refine List.map_congr_left fun r hr => ?_
      exact (hall.enqueued (r, l) (mem_of_mem_lane ((hso.queue l).subset hr))).when
    rw [hwhen]
    exact hclock.sublist ((hso.queue l).sublist.map Record.clock)

/-- Thread 0 logs at the time 4 and the record passed to `ordered_log` says 0,
which is what the copy's memory held. -/
theorem log_record_loses_when : ∃ s, exec step State.initial (sampleRun 9 4) = some s ∧
    ∃ p ∈ s.passed, p.1.clock = ⟨4, 0⟩ ∧ p.1.msg.when = ⟨0, 0⟩ := by
  have hexec : (exec step State.initial (sampleRun 9 4)).isSome := by rfl
  obtain ⟨s, hs⟩ := Option.isSome_iff_exists.1 hexec
  refine ⟨s, hs, ?_⟩
  obtain rfl := Option.some.inj hs
  exact ⟨_, List.mem_singleton_self _, rfl, rfl⟩

end Logger

end AppServer
