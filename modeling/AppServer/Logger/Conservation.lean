import AppServer.Logger.Custody

/-!
# No record is lost

Each step of the logger moves records as items move in lanes, a lane for
each logger. So what was enqueued is what was passed to `ordered_log`, what
the running `consume` holds, and what is queued; and what was passed on of a
logger is a prefix of what was enqueued on it.
-/

namespace AppServer

namespace Logger

open Lib

variable {s s' : State} {t u : ThreadId} {a : Action}

/-! ## What the running `consume` holds -/

/-- Only the `consume` that holds the lock holds records. -/
theorem waiting_of_not_holds (hs : StacksOk s) (hc : Consuming s) (hh : s.holds u = false) :
    (s.threads u).waiting = [] := by
  refine List.flatMap_eq_nil_iff.2 fun f hf => ?_
  cases f with
  | consume pc next check =>
    have hpc : pc.holds? = some false := by
      by_contra hne
      have := (hs u).holds_of_consume hf hne
      rw [hh] at this
      cases this
    cases pc with
    | lock => exact (hc u _ _ _ hf).1
    | _ => cases hpc
  | _ => rfl

/-- Where no thread's records change, whoever holds the lock. -/
theorem held_congr (hw : ∀ u, (s'.threads u).waiting = (s.threads u).waiting)
    (hs : StacksOk s) (hc : Consuming s) (hs' : StacksOk s') (hc' : Consuming s') :
    s'.held = s.held := by
  have hnone : ∀ u, s.holds u = false → s'.holds u = true → s'.held = [] := by
    intro u h h'
    rw [held_of_holds h', hw, waiting_of_not_holds hs hc h]
  have hnone' : ∀ u, s.holds u = true → s'.holds u = false → s.held = [] := by
    intro u h h'
    rw [held_of_holds h, ← hw, waiting_of_not_holds hs' hc' h']
  have hfree : ∀ {s : State}, s.mutex = none → s.held = [] := by
    intro s h
    rw [State.held, h]
  cases hm : s.mutex with
  | none =>
    cases hm' : s'.mutex with
    | none => rw [hfree hm, hfree hm']
    | some v =>
      rw [hfree hm, hnone v (by simp [State.holds, hm]) (holds_eq_true.2 hm')]
  | some v =>
    by_cases h' : s'.holds v = true
    · rw [held_of_holds h', held_of_holds (holds_eq_true.2 hm), hw]
    · rw [hnone' v (holds_eq_true.2 hm) (by simpa using h')]
      cases hm' : s'.mutex with
      | none => rw [hfree hm']
      | some w =>
        have hwv : w ≠ v := by
          rintro rfl
          exact h' (holds_eq_true.2 hm')
        refine hnone w ?_ (holds_eq_true.2 hm')
        rw [holds_eq_false, hm]
        exact fun he => hwv (Option.some.inj he).symm

/-- What a step that neither dequeues nor passes anything on leaves of the
mover's records: all of them. -/
theorem waiting_returnLogger {l : Addr} {st : List Frame} :
    (returnLogger l st).flatMap Frame.waiting = st.flatMap Frame.waiting := by
  unfold returnLogger
  split <;> simp [Frame.waiting]

/-- Where a step is none of the lanes' business. -/
theorem lanes_congr (hw : (s'.threads t).waiting = (s.threads t).waiting) (h : Step s t a s')
    (hd : Discipline s) (hc : Consuming s) (hd' : Discipline s') (hc' : Consuming s')
    (he : s'.enqueued = s.enqueued) (hp : s'.passed = s.passed)
    (hq : ∀ l, s'.queue l = s.queue l) : s'.lanes = s.lanes := by
  have hheld : s'.held = s.held := by
    refine held_congr (fun u => ?_) hd.grammar hc hd'.grammar hc'
    by_cases hut : u = t
    · rw [hut, hw]
    · rw [threads_of_ne h hut]
  simp only [State.lanes, he, hp, hheld, funext hq]

/-- The queues, one of them changed. -/
theorem queue_setQueue {l : Addr} {q : List Record} (h : (s.heap l).isSome) :
    (s.setQueue l q).queue = Function.update s.queue l q := by
  funext l'
  by_cases hl : l' = l
  · subst hl
    rw [setQueue_queue_self _ h, Function.update_self]
  · rw [setQueue_queue_of_ne _ _ hl, Function.update_of_ne hl]

theorem holds_top {pc : ConsumePc} {next : StdSet pairKey} {check : StdSet loggerKey}
    {st : List Frame} (hs : StacksOk s) (hst : (s.threads t).stack = .consume pc next check :: st)
    (hpc : pc.holds? = some true) : s.holds t = true := by
  have hok := hs t
  rw [hst] at hok
  have := hok.inv_consume.2.1
  rw [hpc] at this
  exact (Option.some.inj this).symm

/-- **A successful `try_dequeue` takes the head of its lane.** The set drops
nothing, and holds no other record of that logger. -/
theorem lanes_take {pc pc' : ConsumePc} {next : StdSet pairKey} {check check' : StdSet loggerKey}
    {l : Addr} {r : Record} {q : List Record} (hd : Discipline s) (hc : Custody s)
    (hst : (s.threads t).stack = [.consume pc next check]) (hpc : pc.holds? = some true)
    (hw : (Frame.consume pc' (next.insert (r, l)) check').waiting = (next.insert (r, l)).toList)
    (hq : s.queue l = r :: q) (hnone : ∀ p ∈ next.toList, p.2 ≠ l)
    (hs' : s' = (s.setQueue l q).setStack t [.consume pc' (next.insert (r, l)) check']) :
    Lanes.Step s.lanes s'.lanes := by
  have hh := holds_top hd.grammar hst hpc
  have hheld : s.held = next.toList := by
    rw [held_of_holds hh, Thread.waiting, hst, List.flatMap_singleton]
    cases pc with
    | logging => cases hpc
    | _ => rfl
  have hheld' : s'.held = (next.insert (r, l)).toList := by
    have hh' : s'.holds t = true := by rw [hs']; exact hh
    rw [held_of_holds hh', Thread.waiting, hs', setStack_stack_self, List.flatMap_singleton, hw]
  have hins : (next.insert (r, l)).toList.Perm ((r, l) :: next.toList) :=
    StdSet.perm_insert fun p hp => key_ne_of_queue hc hd hq p (hheld ▸ hp)
  have hqueue := queue_setQueue (q := q) (isSome_of_queue (l := l) (by rw [hq]; simp))
  have hlanes : s'.lanes = { s.lanes with
      held := (r, l) ::ₘ s.lanes.held
      queue := Function.update s.lanes.queue l q } := by
    unfold State.lanes
    rw [hheld', hheld, Multiset.coe_eq_coe.2 hins, ← hqueue, hs']
    rfl
  rw [hlanes]
  refine Lanes.Step.take hq fun p hp => hnone p ?_
  rw [← hheld]
  exact Multiset.mem_coe.1 hp

/-- **The call of `ordered_log` gives a record on.** -/
theorem lanes_give {i : ℕ} {next : StdSet pairKey} {check : StdSet loggerKey}
    {first : MsgLoggerPair} (hd : Discipline s)
    (hst : (s.threads t).stack = [.consume (.drain i) next check]) (hf : first ∈ next.toList)
    (hs' : s' = { s.setStack t [.orderedLog, .consume (.logging i first) next check] with
      passed := s.passed ++ [first] }) : Lanes.Step s.lanes s'.lanes := by
  have hh := holds_top hd.grammar hst rfl
  have hheld : s.held = next.toList := by
    rw [held_of_holds hh, Thread.waiting, hst]
    simp [Frame.waiting]
  have hheld' : s'.held = (next.erase first).toList := by
    have hh' : s'.holds t = true := by rw [hs']; exact hh
    rw [held_of_holds hh', Thread.waiting, hs']
    show ((State.setStack _ t _).threads t).stack.flatMap _ = _
    rw [setStack_stack_self]
    simp [Frame.waiting]
  have hgive : s.lanes.held = first ::ₘ ↑(next.erase first).toList := by
    show (s.held : Multiset MsgLoggerPair) = _
    rw [hheld, Multiset.coe_eq_coe.2 (StdSet.perm_erase hf), ← Multiset.cons_coe]
  have hlanes : s'.lanes = { s.lanes with
      got := s.lanes.got ++ [first]
      held := ↑(next.erase first).toList } := by
    unfold State.lanes
    rw [hheld', hs']
    rfl
  rw [hlanes]
  exact Lanes.Step.give hgive

/-- **Each step moves records as items move in lanes**, and only an enqueue
sends. -/
theorem lanes_step (h : Step s t a s') (hd : Discipline s) (hc : Custody s)
    (hd' : Discipline s') (hc' : Consuming s') :
    s'.lanes = s.lanes ∨
    (∃ l r n, InFlight s t r ∧ l ∈ s.loggers ∧ s'.lanes = s.lanes.send { r with serial := n } l ∧
      n = s.enqueued.length ∧ s'.loggers = s.loggers) ∨
    (Lanes.Step s.lanes s'.lanes ∧ s'.enqueued = s.enqueued) := by
  have hok := hd.grammar t
  -- most steps leave what waits, what is queued and what was passed on alone
  have hstutter := fun hw => lanes_congr (t := t) hw h hd hc.consuming hd' hc'
  cases h with
  | log => exact Or.inl (hstutter (by simp [Thread.waiting, Frame.waiting]) rfl rfl fun _ => rfl)
  | consume hst =>
    exact Or.inl (hstutter (by simp [Thread.waiting, Frame.waiting, hst]) rfl rfl fun _ => rfl)
  | exit hst =>
    exact Or.inl (hstutter (by simp [Thread.waiting, hst]) rfl rfl fun _ => closeLogger_queue rfl)
  | getFast hst =>
    refine Or.inl (hstutter ?_ rfl rfl fun _ => rfl)
    simp [Thread.waiting, Frame.waiting, hst, waiting_returnLogger]
  | @getNew env st hst hi hnew =>
    refine Or.inl (hstutter ?_ rfl rfl fun l => ?_)
    · simp [Thread.waiting, Frame.waiting, hst]
    · by_cases hl : l = env.logger
      · subst hl; simp [State.queue, hnew]
      · simp [State.queue, hl]
  | getLock hst =>
    refine Or.inl (hstutter ?_ rfl rfl fun _ => rfl)
    show ((s.setStack t _).threads t).waiting = _
    simp [Thread.waiting, Frame.waiting, hst]
  | getPush hst =>
    refine Or.inl (hstutter ?_ rfl rfl fun _ => rfl)
    simp [Thread.waiting, Frame.waiting, hst]
  | getUnlock hst =>
    refine Or.inl (hstutter ?_ rfl rfl fun _ => rfl)
    show ((s.setStack t _).threads t).waiting = _
    simp [Thread.waiting, Frame.waiting, hst, waiting_returnLogger]
  | stamp hst =>
    exact Or.inl (hstutter (by simp [Thread.waiting, Frame.waiting, hst]) rfl rfl fun _ => rfl)
  | @enqueue env st c item l r hst =>
    have hl : l ∈ s.loggers := by
      rw [hst] at hok
      exact (hd.registry.listed l).2 ⟨t, hok.inv_enqueue.1⟩
    have hsome := hd.registry.isSome_of_mem hl
    refine Or.inr (Or.inl ⟨l, r, s.enqueued.length, ⟨c, item, l, st, hst⟩, hl, ?_, rfl, rfl⟩)
    have hheld := held_congr (fun u => ?_) hd.grammar hc.consuming hd'.grammar hc'
    · unfold State.lanes Lanes.send
      rw [hheld, ← queue_setQueue hsome]
      rfl
    · by_cases hut : u = t
      · subst hut
        show ((State.setStack _ u _).threads u).waiting = _
        simp [Thread.waiting, Frame.waiting, hst]
      · show ((State.setStack _ t _).threads u).waiting = _
        simp [hut]
  | conLock hst =>
    obtain ⟨rfl, hnext, -⟩ := hc.consuming.top hd.grammar hst
    refine Or.inl (hstutter ?_ rfl rfl fun _ => rfl)
    show ((s.setStack t _).threads t).waiting = _
    simp [Thread.waiting, Frame.waiting, hst]
  | conOuter hst | conEnd hst | firstMiss hst | drainEnd hst | recheck hst | recheckEnd hst
    | againMiss hst | ordered hst =>
    exact Or.inl (hstutter (by simp [Thread.waiting, Frame.waiting, hst]) rfl rfl fun _ => rfl)
  | firstHit hst hq =>
    obtain ⟨rfl, hl, hnext, hp⟩ := hc.consuming.top hd.grammar hst
    exact Or.inr (Or.inr ⟨lanes_take hd hc hst rfl rfl hq (by simp [hnext]) rfl, rfl⟩)
  | againHit hst hq =>
    obtain ⟨rfl, hi, hp, hit⟩ := hc.consuming.top hd.grammar hst
    have hnone := hp.not_waiting hd.registry.nodup (hit.subset List.mem_cons_self)
    exact Or.inr (Or.inr ⟨lanes_take hd hc hst rfl rfl hq hnone rfl, rfl⟩)
  | drainCall hst hfirst =>
    obtain ⟨rfl, -⟩ := hc.consuming.top hd.grammar hst
    exact Or.inr (Or.inr ⟨lanes_give hd hst (StdSet.mem_of_first? hfirst) rfl, rfl⟩)
  | conUnlock hst =>
    obtain ⟨rfl, hnext, -⟩ := hc.consuming.top hd.grammar hst
    refine Or.inl (hstutter ?_ rfl rfl fun _ => rfl)
    show ((s.setStack t _).threads t).waiting = _
    simp [Thread.waiting, Frame.waiting, hst, hnext]

/-! ## Custody, step by step -/

/-- What is under way is alive. -/
theorem live_of_pending {p : MsgLoggerPair} (hp : p ∈ s.pending) : Live s p.1 := by
  unfold State.pending Lanes.pending at hp
  rcases Multiset.mem_add.1 hp with hp | hp
  · have hp : p ∈ s.held := hp
    unfold State.held at hp
    cases hm : s.mutex with
    | none => simp [hm] at hp
    | some t =>
      simp only [hm] at hp
      obtain ⟨f, hf, hpf⟩ := List.mem_flatMap.1 hp
      refine Or.inr ⟨t, f, hf, ?_⟩
      unfold Frame.waiting at hpf
      split at hpf
      · exact List.mem_map_of_mem (StdSet.mem_erase.1 hpf).1
      · exact List.mem_map_of_mem hpf
      · cases hpf
  · obtain ⟨l, -, hp⟩ := List.mem_flatMap.1 (Multiset.mem_coe.1 hp)
    obtain ⟨r, hr, rfl⟩ := List.mem_map.1 hp
    exact Or.inl ⟨l, hr⟩

theorem live_of_inFlight {r : Record} (h : InFlight s t r) : Live s r := by
  obtain ⟨c, item, l, st, hst⟩ := h
  refine Or.inr ⟨t, .realLogMsg c item (.enqueue l r), ?_, List.mem_singleton_self r⟩
  rw [hst]
  exact List.mem_cons_self

/-- No context a log call is made from has an enqueue on top. -/
theorem LogContext.not_enqueue {g : Stage} {b : Bool} {st st' : List Frame} {c : LogCall}
    {item : LogMessage} {l : Addr} {r : Record} (hc : LogContext g b st) :
    st ≠ .realLogMsg c item (.enqueue l r) :: st' := by
  rintro rfl
  cases hc

/-- A thread gets to an enqueue by allocating the record. -/
theorem inFlight_step {r : Record} (h : Step s t a s') (hs : StacksOk s)
    (hr : InFlight s' t r) : ∃ env c item l st, a = .run t env ∧
      (s.threads t).stack = .realLogMsg c item (.stamp l) :: st ∧ r = newRecord c item t env := by
  obtain ⟨c, item, l, st, hst'⟩ := hr
  have hok := hs t
  -- only the step that stamps leaves a record about to be enqueued
  cases h with
  | log => simp at hst'
  | consume => simp at hst'
  | exit hst => simp [hst] at hst'
  | getFast hst =>
    rw [hst] at hok
    obtain ⟨-, c', item', b, rfl, -⟩ := hok.inv_test
    simp [returnLogger] at hst'
  | getNew => simp at hst'
  | getLock hst =>
    change ((s.setStack t _).threads t).stack = _ at hst'
    simp at hst'
  | getPush => simp at hst'
  | getUnlock hst =>
    rw [hst] at hok
    obtain ⟨l', c', item', -, -, rfl⟩ := hok.inv_unlock
    change ((s.setStack t _).threads t).stack = _ at hst'
    simp [returnLogger] at hst'
  | stamp hst =>
    rw [setStack_stack_self, List.cons.injEq, Frame.realLogMsg.injEq, LogPc.enqueue.injEq] at hst'
    obtain ⟨⟨-, -, -, rfl⟩, -⟩ := hst'
    exact ⟨_, _, _, _, _, rfl, hst, rfl⟩
  | enqueue hst =>
    rw [hst] at hok
    change ((State.setStack _ t _).threads t).stack = _ at hst'
    rw [setStack_stack_self] at hst'
    exact absurd hst' hok.inv_enqueue.2.not_enqueue
  | conUnlock hst =>
    rw [hst] at hok
    obtain ⟨-, -, rfl⟩ := hok.inv_consume
    change ((s.setStack t _).threads t).stack = _ at hst'
    simp at hst'
  | conLock | drainCall =>
    change ((State.setStack _ t _).threads t).stack = _ at hst'
    simp at hst'
  | conOuter | conEnd | firstHit | firstMiss | drainEnd | ordered | recheck | recheckEnd
    | againHit | againMiss => simp at hst'

/-- A newly registered logger has nothing in its queue. -/
theorem pending_loggers (h : Step s t a s') (hr : Registry s) (hr' : Registry s') :
    s'.pending = s'.lanes.pending s.loggers := by
  unfold State.pending
  cases h with
  | getPush hst =>
    have hnot : (s.threads t).logger ∉ s.loggers := by
      have hn := hr'.nodup
      rw [List.nodup_append] at hn
      exact fun hm => hn.2.2 _ hm _ (List.mem_singleton_self _) rfl
    exact Lanes.pending_concat (hr.empty _ hnot)
  | _ => rfl

/-- What is under way after a step was under way before, or was being
enqueued by the thread that moved. -/
theorem mem_pending_step {p : MsgLoggerPair} (h : Step s t a s') (hd : Discipline s)
    (hc : Custody s) (hd' : Discipline s') (hc' : Consuming s') (hp : p ∈ s'.pending) :
    p ∈ s.pending ∨ ∃ r, InFlight s t r ∧ r.addr = p.1.addr := by
  rw [pending_loggers h hd.registry hd'.registry] at hp
  rcases lanes_step h hd hc hd' hc' with he | ⟨l, r, n, hr, hl, he, -⟩ | ⟨hstep, henq⟩
  · rw [he] at hp
    exact Or.inl hp
  · rw [he, Lanes.pending_send hd.registry.nodup hl, Multiset.mem_cons] at hp
    rcases hp with rfl | hp
    · exact Or.inr ⟨r, hr, rfl⟩
    · exact Or.inl hp
  · exact Or.inl (Multiset.mem_of_le
      (hstep.pending_le henq hd.registry.nodup hd.registry.empty) hp)

theorem inFlight_of_ne {r : Record} (h : Step s t a s') (hne : u ≠ t) (hr : InFlight s' u r) :
    InFlight s u r := by
  obtain ⟨c, item, l, st, hst⟩ := hr
  exact ⟨c, item, l, st, by rwa [threads_of_ne h hne] at hst⟩

/-- **One step keeps every record in one place**, if it allocates as `new`
does. -/
theorem custody_step (h : Step s t a s') (hfresh : FreshAddr s a) (hd : Discipline s)
    (hc : Custody s) (hd' : Discipline s') : Custody s' := by
  have hc' := consuming_step h hd hc
  -- a record the mover has in flight is one it has just allocated
  have hnew : ∀ r, InFlight s' t r → ∀ r', Live s r' → r'.addr ≠ r.addr := by
    intro r hr r' hlive
    obtain ⟨env, c, item, l, st, rfl, hst, rfl⟩ := inFlight_step h hd.grammar hr
    exact hfresh c item l st hst r' hlive
  constructor
  · exact hc'
  · rw [pending_loggers h hd.registry hd'.registry]
    rcases lanes_step h hd hc hd' hc' with he | ⟨l, r, n, hr, hl, he, -⟩ | ⟨hstep, henq⟩
    · rw [he]
      exact hc.distinct
    · rw [he, Lanes.pending_send hd.registry.nodup hl, Multiset.map_cons, Multiset.nodup_cons]
      refine ⟨fun hm => ?_, hc.distinct⟩
      obtain ⟨p, hp, hpa⟩ := Multiset.mem_map.1 hm
      exact hc.flight t r hr p hp hpa
    · exact Multiset.nodup_of_le (Multiset.map_le_map
        (hstep.pending_le henq hd.registry.nodup hd.registry.empty)) hc.distinct
  · intro u r hr p hp
    by_cases hut : u = t
    · subst hut
      rcases mem_pending_step h hd hc hd' hc' hp with hp | ⟨r', hr', haddr⟩
      · exact hnew r hr p.1 (live_of_pending hp)
      · rw [← haddr]
        exact hnew r hr r' (live_of_inFlight hr')
    · have hr := inFlight_of_ne h hut hr
      rcases mem_pending_step h hd hc hd' hc' hp with hp | ⟨r', hr', haddr⟩
      · exact hc.flight u r hr p hp
      · rw [← haddr]
        exact hc.flights t u r' r hr' hr (Ne.symm hut)
  · intro u v r r' hr hr' hne
    by_cases hut : u = t
    · subst hut
      exact (hnew r hr r' (live_of_inFlight (inFlight_of_ne h (Ne.symm hne) hr'))).symm
    · by_cases hvt : v = t
      · subst hvt
        exact hnew r' hr' r (live_of_inFlight (inFlight_of_ne h hut hr))
      · exact hc.flights u v r r' (inFlight_of_ne h hut hr) (inFlight_of_ne h hvt hr') hne

theorem custody_initial : Custody State.initial where
  consuming _ _ _ _ h := by cases h
  distinct := Multiset.nodup_zero
  flight _ _ h := by
    obtain ⟨c, item, l, st, hst⟩ := h
    cases hst
  flights _ _ _ _ h := by
    obtain ⟨c, item, l, st, hst⟩ := h
    cases hst

/-! ## The histories grow -/

/-- Enqueues are never forgotten. -/
theorem mem_enqueued_step {p : MsgLoggerPair} (h : Step s t a s') (hp : p ∈ s.enqueued) :
    p ∈ s'.enqueued := by
  rcases enqueued_step h with he | ⟨c, item, l, r, st, -, he⟩
  · exact he ▸ hp
  · rw [he]
    exact List.mem_append_left _ hp

theorem enqueued_length_le (h : Step s t a s') : s.enqueued.length ≤ s'.enqueued.length := by
  rcases enqueued_step h with he | ⟨c, item, l, r, st, -, he⟩
  · rw [he]
  · rw [he, List.length_append]
    exact Nat.le_add_right _ _

/-- What a step passes on was waiting. -/
theorem passed_step (h : Step s t a s') : s'.passed = s.passed ∨
    ∃ pc next check first, Frame.consume pc next check ∈ (s.threads t).stack ∧
      first ∈ next.toList ∧ s'.passed = s.passed ++ [first] := by
  cases h with
  | drainCall hst hfirst =>
    exact Or.inr ⟨_, _, _, _, hst ▸ List.mem_cons_self, StdSet.mem_of_first? hfirst, rfl⟩
  | _ => exact Or.inl rfl

/-! ## The run -/

variable {as : List Action}

/-- The invariant of a run that allocates as `new` does, along a step. -/
theorem custody_and_discipline_step (hI : Discipline s ∧ Custody s) (hfresh : FreshAddr s a)
    (hs : step s a = some s') : Discipline s' ∧ Custody s' := by
  have hd' := discipline_step hI.1 hs
  exact ⟨hd', custody_step (step_cases hs) hfresh hI.1 hI.2 hd'⟩

/-- Every record is in one place, in every state of such a run. -/
theorem custody (h : Run step FreshAddr State.initial as s) : Discipline s ∧ Custody s :=
  h.invariant (I := fun s => Discipline s ∧ Custody s) ⟨discipline_initial, custody_initial⟩
    fun _ _ _ hI hfresh hs => custody_and_discipline_step hI hfresh hs

/-- **The logger refines the lanes.** -/
theorem lanes_of_run (h : Run step FreshAddr State.initial as s) :
    Relation.ReflTransGen Lanes.Step (Lanes.initial : Lanes Record Addr) s.lanes := by
  refine h.simulates (f := State.lanes) (I := fun s => Discipline s ∧ Custody s)
    ⟨discipline_initial, custody_initial⟩
    (fun _ _ _ hI hfresh hs => custody_and_discipline_step hI hfresh hs) ?_
  intro s a s' hI hfresh hs
  have hcases := step_cases hs
  have hI' := custody_and_discipline_step hI hfresh hs
  rcases lanes_step hcases hI.1 hI.2 hI'.1 hI'.2.consuming with
    he | ⟨l, r, n, -, -, he, -⟩ | ⟨hstep, -⟩
  · exact Or.inr he.symm
  · rw [he]
    exact Or.inl (Lanes.Step.send _ _)
  · exact Or.inl hstep

/-- Records are numbered in the order they are enqueued. -/
def Numbered (s : State) : Prop :=
  s.enqueued.map (fun p => p.1.serial) = List.range s.enqueued.length

theorem numbered_step (h : Step s t a s') (hn : Numbered s) : Numbered s' := by
  unfold Numbered at hn ⊢
  rcases enqueued_step h with he | ⟨c, item, l, r, st, -, he⟩
  · rw [he, hn]
  · rw [he, List.map_append, hn, List.length_append, List.length_singleton, List.range_succ]
    rfl

/-- No two enqueues are of one record. -/
theorem Numbered.nodup (h : Numbered s) : s.enqueued.Nodup := by
  refine List.Nodup.of_map (fun p => p.1.serial) ?_
  rw [h]
  exact List.nodup_range

/-- **Every record is accounted for.** -/
structure Accounted (s : State) : Prop where
  discipline : Discipline s
  custody : Custody s
  inOrder : s.lanes.InOrder
  numbered : Numbered s

theorem accounted_initial : Accounted State.initial :=
  ⟨discipline_initial, custody_initial, Lanes.inOrder_initial, rfl⟩

theorem accounted_step (hA : Accounted s) (hfresh : FreshAddr s a) (hs : step s a = some s') :
    Accounted s' := by
  have h := step_cases hs
  obtain ⟨hd', hc'⟩ := custody_and_discipline_step ⟨hA.discipline, hA.custody⟩ hfresh hs
  refine ⟨hd', hc', ?_, numbered_step h hA.numbered⟩
  rcases lanes_step h hA.discipline hA.custody hd' hc'.consuming with
    he | ⟨l, r, n, -, -, he, -⟩ | ⟨hstep, -⟩
  · rw [he]
    exact hA.inOrder
  · rw [he]
    exact hA.inOrder.step (Lanes.Step.send _ _)
  · exact hA.inOrder.step hstep

theorem accounted (h : Run step FreshAddr State.initial as s) : Accounted s :=
  h.invariant accounted_initial fun _ _ _ hA hfresh hs => accounted_step hA hfresh hs

/-- What was enqueued is what was passed on, what is held and what is
queued. -/
theorem Accounted.enqueued_perm (hA : Accounted s) :
    s.enqueued.Perm (s.passed ++ s.held ++ s.queued) :=
  hA.inOrder.conservation hA.discipline.registry.nodup hA.discipline.registry.empty rfl

/-! ## Replaying a run -/

/-- Only the first `n` threads have started. -/
def Idle (n : ℕ) (s : State) : Prop := ∀ u, n ≤ u → (s.threads u).stack = []

/-- The address the environment supplies is not that of a live record, where
only the first `n` threads have started. -/
def freshBelow (n : ℕ) (s : State) (a : Action) : Bool :=
  a.thread < n && match a with
    | .run _ env =>
      s.loggers.all (fun l => (s.queue l).all fun r => r.addr != env.addr) &&
      (List.range n).all fun u => (s.threads u).stack.all fun f =>
        f.records.all fun r => r.addr != env.addr
    | _ => true

theorem freshAddr_of_freshBelow {n : ℕ} (hr : Registry s)
    (hidle : Idle n s) (h : freshBelow n s a = true) :
    FreshAddr s a := by
  cases a with
  | run t env =>
    simp only [freshBelow, Bool.and_eq_true, List.all_eq_true, bne_iff_ne, List.mem_range] at h
    intro c item l st _ r hlive
    rcases hlive with ⟨l, hl⟩ | ⟨u, f, hf, hrf⟩
    · refine h.2.1 l ?_ r hl
      by_contra hnot
      rw [hr.empty l hnot] at hl
      cases hl
    · refine h.2.2 u ?_ f hf r hrf
      by_contra hnot
      rw [hidle u (by omega)] at hf
      cases hf
  | _ => trivial

/-- **A run with the addresses checked** is one that allocates as `new`
does. -/
theorem fresh_of_checked {n : ℕ} {s₀ : State} {ok : State → Action → Prop}
    (hd : Discipline s₀) (hidle : Idle n s₀)
    (hcheck : ∀ s a, ok s a → freshBelow n s a = true) (h : Run step ok s₀ as s) :
    Run step (fun s a => FreshAddr s a ∧ ok s a) s₀ as s ∧ Discipline s ∧ Idle n s := by
  have hstep : ∀ s a s', Discipline s ∧ Idle n s → ok s a → step s a = some s' →
      Discipline s' ∧ Idle n s' := by
    intro s a s' hI hok hs
    refine ⟨discipline_step hI.1 hs, fun u hu => ?_⟩
    have hmover : a.thread < n := by
      have := hcheck s a hok
      simp only [freshBelow, Bool.and_eq_true, decide_eq_true_eq] at this
      exact this.1
    have hne : u ≠ a.thread := fun he => absurd hmover (not_lt.2 (he ▸ hu))
    rw [threads_of_ne (step_cases hs) hne]
    exact hI.2 u hu
  refine ⟨h.mono_of_invariant (I := fun s => Discipline s ∧ Idle n s) ⟨hd, hidle⟩ hstep
    fun s a s' hI hok _ => ⟨?_, hok⟩, h.invariant ⟨hd, hidle⟩ hstep⟩
  exact freshAddr_of_freshBelow hI.1.registry hI.2 (hcheck s a hok)

/-- A run found by replay, with its addresses checked. -/
theorem fresh_of_exec {n : ℕ} {P : State → Prop} [DecidablePred P]
    (h : (exec (guarded step fun s a => freshBelow n s a = true) State.initial as).any
      (fun s => decide (P s)) = true) : ∃ s, Run step FreshAddr State.initial as s ∧ P s := by
  obtain ⟨s, hrun, hP⟩ := Run.exists_of_exec h
  have hfresh := (fresh_of_checked discipline_initial (fun _ _ => rfl) (fun _ _ h => h) hrun).1
  exact ⟨s, hfresh.mono fun _ _ h => h.1, hP⟩

/-- **No record is lost, duplicated, reordered or misattributed**, in any
state of any run that allocates as `new` does: what was enqueued is what was
passed to `ordered_log`, what the `consume` with the lock holds and what is
queued, all of them different; what was passed on was enqueued on the logger
it was passed on with, by its owner; and what was passed on of a logger is a
prefix of what was enqueued on it. -/
theorem no_record_lost (h : Run step FreshAddr State.initial as s) :
    s.enqueued.Perm (s.passed ++ s.held ++ s.queued) ∧ s.enqueued.Nodup ∧
    (∀ t, s.mutex ≠ some t → (s.threads t).waiting = []) ∧
    (∀ l, l ∉ s.loggers → s.queue l = []) ∧
    s.passed.Nodup ∧
    (∀ p ∈ s.passed, p ∈ s.enqueued ∧ s.ownerOf p.2 = some p.1.thread) ∧
    ∀ l, lane l s.passed <+: lane l s.enqueued := by
  obtain ⟨hd, hc⟩ := custody h
  have horder := Lanes.inOrder_of_steps (lanes_of_run h)
  have hperm := (accounted h).enqueued_perm
  have hnodup := (accounted h).numbered.nodup
  have hall := hperm.nodup_iff.1 hnodup
  refine ⟨hperm, hnodup, fun t ht => ?_, hd.registry.empty, ?_, fun p hp => ?_,
    horder.got_prefix⟩
  · exact waiting_of_not_holds hd.grammar hc.consuming (holds_eq_false.2 ht)
  · exact (List.nodup_append.1 (List.nodup_append.1 hall).1).1
  · have hmem : p ∈ s.enqueued :=
      hperm.mem_iff.2 (List.mem_append_left _ (List.mem_append_left _ hp))
    refine ⟨hmem, (hd.registry.owns _ _).1 ?_⟩
    rw [((provenance h.reachable).enqueued p hmem).2]
    rfl

/-- With one of the two records passed on, and the other in
`ordered_next`. -/
theorem no_record_lost_sample :
    ∃ s : State, Run step FreshAddr State.initial (sampleRun 9 7) s ∧
      (s.enqueued.length = 2 ∧ s.passed.length = 1 ∧ s.held.length = 1) ∧
      s.enqueued.Perm (s.passed ++ s.held ++ s.queued) := by
  obtain ⟨s, hrun, hP⟩ : ∃ s, Run step FreshAddr State.initial (sampleRun 9 7) s ∧
      s.enqueued.length = 2 ∧ s.passed.length = 1 ∧ s.held.length = 1 :=
    fresh_of_exec (n := 2) (by decide +kernel)
  exact ⟨s, hrun, hP, (no_record_lost hrun).1⟩

end Logger

end AppServer
