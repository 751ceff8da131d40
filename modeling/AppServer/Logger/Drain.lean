import AppServer.Logger.Sweep
import Mathlib.Algebra.GroupWithZero.Nat

/-!
# A `consume` returns

While a `consume` holds the lock, `State.left` bounds the steps it has left:
only an enqueue raises it and each step of the call brings it down. Waiting
for the lock ends too: a thread that takes the lock to register enqueues a
record before it unlocks, so once no more is enqueued the lock is given back
and not taken again by anyone else. So a call comes to the lock, takes it, and
has passed on what had been enqueued by then when it returns
(`consume_drains`).
-/

namespace AppServer

namespace Logger

open Lib

variable {s s' : State} {t u : ThreadId} {a : Action}

/-! ## Where `ordered_log` does not log -/

/-- `ordered_log` does not use the log macros. -/
def QuietLog (s : State) : Action → Prop
  | .log t _ _ => (s.threads t).stack = []
  | _ => True

instance (s : State) (a : Action) : Decidable (QuietLog s a) :=
  match a with
  | .log t _ _ => decidable_of_iff ((s.threads t).stack.isEmpty = true) List.isEmpty_iff
  | .consume _ => .isTrue trivial
  | .exit _ => .isTrue trivial
  | .run _ _ => .isTrue trivial

/-- Addresses are as `new` gives them, and `ordered_log` does not log. -/
def DrainOk (s : State) (a : Action) : Prop := FreshAddr s a ∧ QuietLog s a

/-- Nothing runs on top of `ordered_log`. -/
def Quiet (s : State) : Prop := ∀ t, Frame.orderedLog ∉ (s.threads t).stack.tail

theorem quiet_step (h : Step s t a s') (hok : QuietLog s a) (hd : Discipline s) (hq : Quiet s) :
    Quiet s' := by
  intro u
  by_cases hut : u = t
  · subst hut
    have hold := hq u
    have hgr := hd.grammar u
    cases h with
    | log =>
      -- quiet consumers log from their own code only
      have hnil : (s.threads u).stack = [] := hok
      simp [hnil]
    | consume => simp
    | exit hst => simp [hst]
    | getFast hst =>
      rw [hst] at hold hgr
      obtain ⟨-, c, item, b, rfl, -⟩ := hgr.inv_test
      simpa [returnLogger] using hold
    | getNew hst => simpa [hst] using hold
    | getLock hst =>
      change _ ∉ ((s.setStack u _).threads u).stack.tail
      simpa [hst] using hold
    | getPush hst => simpa [hst] using hold
    | getUnlock hst =>
      rw [hst] at hold hgr
      obtain ⟨l, c, item, -, -, rfl⟩ := hgr.inv_unlock
      change _ ∉ ((s.setStack u _).threads u).stack.tail
      simp [returnLogger]
    | stamp hst => simpa [hst] using hold
    | enqueue hst =>
      change _ ∉ ((State.setStack _ u _).threads u).stack.tail
      rw [hst] at hold
      rw [setStack_stack_self]
      exact fun hm => hold (List.mem_of_mem_tail hm)
    | conUnlock hst =>
      change _ ∉ ((s.setStack u _).threads u).stack.tail
      rw [hst] at hold
      rw [setStack_stack_self]
      exact fun hm => hold (List.mem_of_mem_tail hm)
    | ordered hst =>
      rw [hst] at hold
      simpa using hold
    | conLock hst | conOuter hst | conEnd hst | firstHit hst | firstMiss hst | drainEnd hst
      | recheck hst | recheckEnd hst | againHit hst | againMiss hst | drainCall hst =>
      change _ ∉ ((State.setStack _ u _).threads u).stack.tail
      rw [hst] at hold
      simpa using hold
  · rw [threads_of_ne h hut]
    exact hq u

/-- The states of a run of which all that is assumed. -/
structure Drainable (s : State) : Prop where
  discipline : Discipline s
  custody : Custody s
  quiet : Quiet s

theorem drainable_initial : Drainable State.initial :=
  ⟨discipline_initial, custody_initial, fun _ h => by cases h⟩

theorem drainable_step (hI : Drainable s) (hok : DrainOk s a) (hs : step s a = some s') :
    Drainable s' := by
  have h := step_cases hs
  have hd' := discipline_step hI.discipline hs
  exact ⟨hd', custody_step h hok.1 hI.discipline hI.custody hd',
    quiet_step h hok.2 hI.discipline hI.quiet⟩

/-- Thread `t` is in `consume`. -/
def InConsume (s : State) (t : ThreadId) : Prop :=
  ∃ pc next check, Frame.consume pc next check ∈ (s.threads t).stack

/-- A `consume` is alone on a stack that is quiet, or under
`ordered_log`. -/
theorem StackOk.of_consume {g : Stage} {h : Bool} {st : List Frame} {pc : ConsumePc}
    {next : StdSet pairKey} {check : StdSet loggerKey} (hok : StackOk g h st)
    (hf : Frame.consume pc next check ∈ st) (hq : Frame.orderedLog ∉ st.tail) :
    st = [.consume pc next check] ∨
    ∃ i first, pc = .logging i first ∧ st = [.orderedLog, .consume pc next check] := by
  have hcontext : ∀ {g h b}, LogContext g h b → Frame.consume pc next check ∈ b →
      Frame.orderedLog ∈ b := by
    intro g h b hc hm
    cases hc with
    | idle => cases hm
    | ordered => exact List.mem_cons_self
    | registering => simp at hm
  cases hok with
  | context _ hc =>
    cases hc with
    | idle => cases hf
    | ordered =>
      simp only [List.mem_cons, List.not_mem_nil, or_false, reduceCtorEq, false_or] at hf
      cases hf
      exact Or.inr ⟨_, _, rfl, rfl⟩
    | registering => simp at hf
  | consume _ _ =>
    rw [List.mem_singleton] at hf
    exact Or.inl (by rw [hf])
  | push => simp at hf
  | test _ hc | lock hc =>
    simp only [List.mem_cons, reduceCtorEq, false_or] at hf
    exact absurd (List.mem_cons_of_mem _ (hcontext hc hf)) hq
  | stamp hc | enqueue hc =>
    simp only [List.mem_cons, reduceCtorEq, false_or] at hf
    exact absurd (hcontext hc hf) hq

/-! ## The steps a `consume` has left -/

/-- The steps left on the way to the next record or to the end, with `n`
loggers. -/
def ConsumePc.left (n : ℕ) : ConsumePc → ℕ
  | .lock => 0
  | .outer i => 5 * (n - i) + 2
  | .tryFirst i _ => 5 * (n - i) + 1
  | .drain i => 5 * (n - (i + 1)) + 4
  | .logging i _ => 5 * (n - (i + 1)) + 3
  | .recheck i it => 5 * (n - (i + 1)) + 5 + 2 * it.length
  | .tryAgain i _ it => 5 * (n - (i + 1)) + 6 + 2 * it.length
  | .unlock => 1

/-- With the records there are: one that is queued has still to be taken and
passed on, one that is waiting has still to be passed on. -/
def Frame.left (s : State) : Frame → ℕ
  | .consume pc next _ =>
    (2 * s.loggers.length + 4) * (2 * s.queued.length + next.toList.length) +
      pc.left s.loggers.length
  | _ => 0

/-- The steps thread `t` has left in `consume`, at most. -/
def State.left (s : State) (t : ThreadId) : ℕ := ((s.threads t).stack.map (Frame.left s)).sum

/-- Thread `t` is in `consume` and holds the lock. -/
def Draining (s : State) (t : ThreadId) : Prop := InConsume s t ∧ s.holds t = true

theorem left_lt_of_records {k w w' p p' : ℕ} (hw : w' < w) (hp : p' < p + k) :
    k * w' + p' < k * w + p := by
  have h : k * (w' + 1) ≤ k * w := Nat.mul_le_mul_left k hw
  rw [Nat.mul_succ] at h
  omega

/-- Thread `t` is in `consume`, at `pc`, and nothing else but maybe
`ordered_log`. -/
def At (s : State) (t : ThreadId) (pc : ConsumePc) (next : StdSet pairKey)
    (check : StdSet loggerKey) : Prop :=
  (s.threads t).stack = [.consume pc next check] ∨
  (s.threads t).stack = [.orderedLog, .consume pc next check]

theorem left_of_at {pc : ConsumePc} {next : StdSet pairKey} {check : StdSet loggerKey}
    (h : At s t pc next check) :
    s.left t = (2 * s.loggers.length + 4) * (2 * s.queued.length + next.toList.length) +
      pc.left s.loggers.length := by
  rcases h with h | h
  all_goals
    rw [State.left, h]
    simp [Frame.left]

/-- The steps left, where the move changes neither the records nor who is
waiting. -/
theorem left_lt_of_pc {pc pc' : ConsumePc} {next : StdSet pairKey}
    {check check' : StdSet loggerKey} (hat : At s t pc next check)
    (hat' : At s' t pc' next check') (hl : s'.loggers = s.loggers) (hq : s'.queue = s.queue)
    (hlt : pc'.left s.loggers.length < pc.left s.loggers.length) : s'.left t < s.left t := by
  rw [left_of_at hat, left_of_at hat', hl]
  have hqueued : s'.queued = s.queued := by rw [State.queued, hl, hq]; rfl
  rw [hqueued]
  omega

/-- And where it takes a record off a queue. -/
theorem left_lt_of_take {pc pc' : ConsumePc} {next : StdSet pairKey}
    {check check' : StdSet loggerKey} {l : Addr} {r : Record} {q : List Record}
    (hr : Registry s) (hat : At s t pc next check) (hq : s.queue l = r :: q)
    (hs' : s' = (s.setQueue l q).setStack t [.consume pc' (next.insert (r, l)) check'])
    (hlt : pc'.left s.loggers.length < pc.left s.loggers.length) : s'.left t < s.left t := by
  have hat' : At s' t pc' (next.insert (r, l)) check' := by
    rw [hs']
    exact Or.inl (setStack_stack_self _ _ _)
  have hl : s'.loggers = s.loggers := by rw [hs']; rfl
  rw [left_of_at hat, left_of_at hat', hl]
  have hqueue := queue_setQueue (q := q) (isSome_of_queue (l := l) (by rw [hq]; simp))
  have hqueued : s.queued.length = s'.queued.length + 1 := by
    have hperm : s.queued.Perm ((r, l) :: Lib.queued s.loggers (Function.update s.queue l q)) :=
      queued_of_cons hr.nodup (hr.mem_of_queue hq) hq
    rw [hperm.length_eq, List.length_cons, ← hqueue, hs']
    rfl
  have hnext : (next.insert (r, l)).toList.length ≤ next.toList.length + 1 :=
    StdSet.length_insert_le
  exact left_lt_of_records (by omega) (by omega)

/-- The parked loggers and the waiting records are no more than the loggers
met. -/
theorem Parted.length_le {loggers : List Addr} {k : ℕ} {next : StdSet pairKey}
    {check : StdSet loggerKey} (h : Parted loggers k next check) :
    check.toList.length + next.toList.length ≤ loggers.length := by
  have hlen := h.length_eq
  rw [List.length_append, List.length_map, List.length_take] at hlen
  omega

/-- **Each step of the call brings down what it has left.** -/
theorem left_step (h : Step s t a s') (hok : QuietLog s a) (hI : Drainable s)
    (hd : Draining s t) : s'.left t < s.left t := by
  obtain ⟨⟨pc, next, check, hf⟩, hh⟩ := hd
  have hgr := hI.discipline.grammar
  have hcon := hI.custody.consuming
  have hshape := (hgr t).of_consume hf (hI.quiet t)
  -- a stack with anything else on top of the call is not quiet
  have hother : ∀ f st, (s.threads t).stack = f :: st → f ≠ .orderedLog →
      f = .consume pc next check := by
    intro f st hst hne
    rcases hshape with hs | ⟨i, first, -, hs⟩
    · rw [hs] at hst
      exact (List.cons.inj hst).1.symm
    · rw [hs] at hst
      exact absurd (List.cons.inj hst).1.symm hne
  cases h with
  | log =>
    have hnil : (s.threads t).stack = [] := hok
    simp [hnil] at hf
  | consume hst => simp [hst] at hf
  | exit hst => simp [hst] at hf
  | getFast hst | getNew hst | getLock hst | getPush hst | getUnlock hst | stamp hst
    | enqueue hst => cases hother _ _ hst (by simp)
  | conLock hst hm => simp [State.holds, hm] at hh
  | conOuter hst hl =>
    obtain ⟨rfl, hi, -⟩ := hcon.top hgr hst
    refine left_lt_of_pc (Or.inl hst) (Or.inl (setStack_stack_self _ _ _)) rfl rfl ?_
    simp [ConsumePc.left]
  | conEnd hst hl =>
    obtain ⟨rfl, hi, -⟩ := hcon.top hgr hst
    refine left_lt_of_pc (Or.inl hst) (Or.inl (setStack_stack_self _ _ _)) rfl rfl ?_
    simp [ConsumePc.left]
  | firstHit hst hq =>
    obtain ⟨rfl, hl, -⟩ := hcon.top hgr hst
    obtain ⟨hi, -⟩ := List.getElem?_eq_some_iff.1 hl
    refine left_lt_of_take hI.discipline.registry (Or.inl hst) hq rfl ?_
    simp only [ConsumePc.left]
    omega
  | firstMiss hst hq =>
    obtain ⟨rfl, hl, -⟩ := hcon.top hgr hst
    obtain ⟨hi, -⟩ := List.getElem?_eq_some_iff.1 hl
    refine left_lt_of_pc (Or.inl hst) (Or.inl (setStack_stack_self _ _ _)) rfl rfl ?_
    simp only [ConsumePc.left]
    omega
  | drainCall hst hfirst =>
    obtain ⟨rfl, -⟩ := hcon.top hgr hst
    refine left_lt_of_pc (Or.inl hst) (Or.inr (setStack_stack_self s t _)) rfl rfl ?_
    simp [ConsumePc.left]
  | drainEnd hst hfirst =>
    obtain ⟨rfl, hi, -⟩ := hcon.top hgr hst
    refine left_lt_of_pc (Or.inl hst) (Or.inl (setStack_stack_self _ _ _)) rfl rfl ?_
    simp only [ConsumePc.left]
    omega
  | @ordered env st next check i first hst =>
    have hst' : st = [] := by
      rcases hshape with hs | ⟨i, first, -, hs⟩
      · rw [hs] at hst
        cases hst
      · rw [hs] at hst
        exact (List.cons.inj (List.cons.inj hst).2).2.symm
    subst hst'
    obtain ⟨hi, hmem, hp⟩ := hcon t _ _ _ (hst ▸ List.mem_cons_of_mem _ List.mem_cons_self)
    have hat' : At (s.setStack t [.consume (.recheck i (check.insert first.2).toList)
        (next.erase first) (check.insert first.2)]) t _ _ _ :=
      Or.inl (setStack_stack_self _ _ _)
    rw [left_of_at (Or.inr hst), left_of_at hat']
    -- one record fewer waits, and that pays for the walk over the parked loggers
    have hnext := (StdSet.perm_erase hmem).length_eq
    have hcheck : (check.insert first.2).toList.length ≤ check.toList.length + 1 :=
      StdSet.length_insert_le
    have hlen := hp.length_le
    rw [List.length_cons] at hnext
    change _ * (2 * s.queued.length + _) + _ < _
    refine left_lt_of_records (by omega) ?_
    simp only [ConsumePc.left, setStack_loggers]
    omega
  | recheck hst =>
    obtain ⟨rfl, -⟩ := hcon.top hgr hst
    refine left_lt_of_pc (Or.inl hst) (Or.inl (setStack_stack_self _ _ _)) rfl rfl ?_
    simp only [ConsumePc.left, List.length_cons]
    omega
  | recheckEnd hst =>
    obtain ⟨rfl, -⟩ := hcon.top hgr hst
    refine left_lt_of_pc (Or.inl hst) (Or.inl (setStack_stack_self _ _ _)) rfl rfl ?_
    simp [ConsumePc.left]
  | againHit hst hq =>
    obtain ⟨rfl, -⟩ := hcon.top hgr hst
    refine left_lt_of_take hI.discipline.registry (Or.inl hst) hq rfl ?_
    simp only [ConsumePc.left]
    omega
  | againMiss hst hq =>
    obtain ⟨rfl, -⟩ := hcon.top hgr hst
    refine left_lt_of_pc (Or.inl hst) (Or.inl (setStack_stack_self _ _ _)) rfl rfl ?_
    simp only [ConsumePc.left]
    omega
  | conUnlock hst =>
    obtain ⟨rfl, -⟩ := hcon.top hgr hst
    have hnone : State.left { s.setStack t [] with mutex := none } t = 0 := by
      rw [State.left]
      show (((s.setStack t []).threads t).stack.map _).sum = 0
      simp
    rw [hnone, left_of_at (Or.inl hst)]
    exact Nat.succ_pos _

/-! ## The call keeps moving -/

/-- A call that holds the lock is past taking it. -/
theorem sweeping_of_draining (hI : Drainable s) (hd : Draining s t) : Sweeping [] s t := by
  obtain ⟨⟨pc, next, check, hf⟩, hh⟩ := hd
  refine ⟨pc, next, check, hf, fun hpc => ?_, fun l _ _ r _ => List.not_mem_nil⟩
  have hok := hI.discipline.grammar t
  rcases hok.of_consume hf (hI.quiet t) with hst | ⟨i, first, rfl, -⟩
  · rw [hst, hh] at hok
    rw [hok.inv_consume.2.1] at hpc
    cases hpc
  · cases hpc

theorem draining_of_sweeping (hs : StacksOk s) (h : Sweeping [] s t) : Draining s t := by
  obtain ⟨pc, next, check, hf, hpc, -⟩ := h
  exact ⟨⟨pc, next, check, hf⟩, (hs t).holds_of_consume hf hpc⟩

/-- **A call goes on draining until it returns.** -/
theorem draining_step (h : Step s u a s') (hI : Drainable s) (hI' : Drainable s')
    (hd : Draining s t) : Draining s' t ∨ (s'.threads t).stack = [] := by
  by_cases hut : t = u
  · subst hut
    obtain ⟨pc, next, check, hf, hpc, hsw⟩ := sweeping_of_draining hI hd
    have hclean : ∀ l, Clean [] s l → Clean [] s' l := fun _ _ r _ => List.not_mem_nil
    rcases sweeping_step h hI.discipline hclean hf hpc hsw with
      hsw' | ⟨-, -, hst, -⟩
    · exact Or.inl (draining_of_sweeping hI'.discipline.grammar hsw')
    · exact Or.inr hst
  · refine Or.inl ⟨?_, ?_⟩
    · obtain ⟨pc, next, check, hf⟩ := hd.1
      exact ⟨pc, next, check, by rwa [threads_of_ne h hut]⟩
    · rw [holds_of_ne h hI.discipline.grammar hut]
      exact hd.2

/-- What an enqueue adds to what a call has left. -/
def State.perRecord (s : State) : ℕ := 2 * (2 * s.loggers.length + 4)

theorem loggers_of_draining (h : Step s u a s') (hI : Drainable s) (hd : Draining s t) :
    s'.loggers = s.loggers := by
  obtain ⟨pc, next, check, hf, hpc, -⟩ := sweeping_of_draining hI hd
  exact loggers_eq_of_iterating hI.discipline.grammar h ⟨pc, next, check, hf, hpc⟩

/-- **No other thread's step adds to what the call has left, but an
enqueue.** -/
theorem left_step_of_ne (h : Step s u a s') (hne : t ≠ u) (hI : Drainable s)
    (hI' : Drainable s') (hd : Draining s t) :
    s'.left t + s.perRecord * s.enqueued.length ≤
      s.left t + s.perRecord * s'.enqueued.length := by
  have hl := loggers_of_draining h hI hd
  have hr := hI.discipline.registry
  have hqueued : s'.queued.length + s.enqueued.length ≤
      s.queued.length + s'.enqueued.length := by
    rw [State.queued, hl]
    rcases lanes_step h hI.discipline hI.custody hI'.discipline hI'.custody.consuming with
      he | ⟨l, r, n, -, hm, he, -⟩ | ⟨hstep, henq⟩
    · have hq : s'.queue = s.queue := congrArg Lanes.queue he
      have henq : s'.enqueued = s.enqueued := congrArg Lanes.sent he
      exact le_of_eq (by rw [hq, henq]; rfl)
    · have hq : s'.queue = (s.lanes.send _ l).queue := congrArg Lanes.queue he
      have henq : s'.enqueued = s.enqueued ++ _ := congrArg Lanes.sent he
      rw [hq, (Lanes.queued_send hr.nodup hm).length_eq, henq, List.length_append,
        List.length_cons, List.length_singleton]
      show s.queued.length + 1 + _ ≤ _
      omega
    · rw [henq]
      exact Nat.add_le_add_right (hstep.queued_length_le henq hr.nodup hr.empty) _
  obtain ⟨⟨pc, next, check, hf⟩, -⟩ := hd
  have hat : At s t pc next check := by
    rcases (hI.discipline.grammar t).of_consume hf (hI.quiet t) with hst | ⟨-, -, -, hst⟩
    · exact Or.inl hst
    · exact Or.inr hst
  have hat' : At s' t pc next check := by
    unfold At
    rw [threads_of_ne h hne]
    exact hat
  rw [left_of_at hat, left_of_at hat', hl, State.perRecord]
  -- both sides are multiples of the cost of a record, up to what they share
  have hmul := Nat.mul_le_mul_left (2 * (2 * s.loggers.length + 4)) hqueued
  generalize 2 * s.loggers.length + 4 = k at hmul ⊢
  have hsplit : ∀ q w : ℕ, k * (2 * q + w) = 2 * k * q + k * w := fun q w => by
    rw [Nat.mul_add, ← Nat.mul_assoc, Nat.mul_comm k 2]
  rw [hsplit, hsplit]
  rw [Nat.mul_add, Nat.mul_add] at hmul
  omega

/-- The actions that are thread `t`'s next statement. -/
def Action.isRun (t : ThreadId) (a : Action) : Prop := ∃ env, a = .run t env

/-- **A call that holds the lock can always move.** -/
theorem enabled_of_draining (hI : Drainable s) (hd : Draining s t) :
    Enabled step (Action.isRun t) s := by
  obtain ⟨pc, next, check, hf, hpc, -⟩ := sweeping_of_draining hI hd
  have hsome : ∃ s', step s (.run t (sampleEnv 0)) = some s' := by
    have hok := hI.discipline.grammar t
    rcases hok.of_consume hf (hI.quiet t) with hst | ⟨i, first, rfl, hst⟩
    · simp only [step, advance, hst]
      rw [hst] at hok
      have hpc' := hok.inv_consume.2.1
      cases pc with
      | lock => exact absurd rfl hpc
      | logging => cases hpc'
      | outer i =>
        simp only [advanceConsume]
        cases s.loggers[i]? <;> exact ⟨_, rfl⟩
      | tryFirst i l | tryAgain i l it =>
        simp only [advanceConsume]
        cases s.queue l <;> exact ⟨_, rfl⟩
      | drain i =>
        simp only [advanceConsume]
        cases next.first? <;> exact ⟨_, rfl⟩
      | recheck i it => cases it <;> exact ⟨_, rfl⟩
      | unlock => exact ⟨_, rfl⟩
    · simp only [step, advance, hst, returnOrdered]
      exact ⟨_, rfl⟩
  obtain ⟨s', hs'⟩ := hsome
  exact ⟨_, s', ⟨_, rfl⟩, hs'⟩

/-! ## Threads that hold the lock to register -/

/-- How far the code that holds the lock to register is from its enqueue. -/
def Frame.rank : Frame → ℕ
  | .getThreadLogger .push => 4
  | .getThreadLogger .test => 3
  | .realLogMsg _ _ (.stamp _) => 2
  | .realLogMsg _ _ (.enqueue _ _) => 1
  | _ => 0

/-- The same, for a thread. -/
def State.rank (s : State) (u : ThreadId) : ℕ := ((s.threads u).stack.head?.map Frame.rank).getD 0

/-- Thread `u` holds the lock and has its registration message to
enqueue. -/
def Registering (s : State) (u : ThreadId) : Prop := s.holds u = true ∧ 0 < s.rank u

theorem rank_of_stack {f : Frame} {st : List Frame} (hst : (s.threads u).stack = f :: st) :
    s.rank u = f.rank := by
  rw [State.rank, hst]
  rfl

/-- A thread that tests for its logger while it holds the lock has one. -/
theorem initialized_of_test {st : List Frame} (hI : Drainable s) (hh : s.holds u = true)
    (hst : (s.threads u).stack = .getThreadLogger .test :: st) :
    (s.threads u).initialized = true ∧ ∃ c item b, st = .realLogMsg c item .calling :: b := by
  have hok := hI.discipline.grammar u
  have hq := hI.quiet u
  rw [hst, hh] at hok
  rw [hst] at hq
  obtain ⟨-, c, item, b, rfl, hc⟩ := hok.inv_test
  refine ⟨?_, c, item, b, rfl⟩
  by_contra hi
  rw [Bool.not_eq_true] at hi
  have hstage : ∀ l, (s.threads u).stage ≠ .registered l := by
    intro l hl
    unfold Thread.stage at hl
    rw [if_neg (by simp [hi])] at hl
    split at hl <;> cases hl
  generalize (s.threads u).stage = g at hc hstage
  cases hc with
  | ordered => simp at hq
  | registering => exact hstage _ rfl

/-- **A thread that registers goes on to its enqueue.** -/
theorem registering_step (h : Step s t a s') (hI : Drainable s) (hr : Registering s u)
    (henq : s'.enqueued = s.enqueued) :
    Registering s' u ∧ s'.rank u ≤ s.rank u ∧ (t = u → s'.rank u < s.rank u) := by
  obtain ⟨hh, hrank⟩ := hr
  by_cases hut : u = t
  · subst hut
    -- at the points that are not on the way the rank is 0
    have hzero : ∀ f st, (s.threads u).stack = f :: st → f.rank ≠ 0 := by
      intro f st hst
      rw [rank_of_stack hst] at hrank
      omega
    have hnil : (s.threads u).stack ≠ [] := by
      intro hst
      simp [State.rank, hst] at hrank
    cases h with
    | log hlog =>
      unfold Thread.canLog at hlog
      split at hlog
      · rename_i hst
        exact absurd hst hnil
      · rename_i hst
        exact absurd rfl (hzero _ _ hst)
      · cases hlog
    | consume hst => exact absurd hst hnil
    | exit hst => exact absurd hst hnil
    | getFast hst hi =>
      obtain ⟨-, c, item, b, rfl⟩ := initialized_of_test hI hh hst
      have hst' := setStack_stack_self s u (returnLogger (s.threads u).logger
        (.realLogMsg c item .calling :: b))
      rw [Registering, rank_of_stack hst', rank_of_stack hst]
      exact ⟨⟨hh, by simp [Frame.rank]⟩, by simp [Frame.rank], fun _ => by simp [Frame.rank]⟩
    | getNew hst hi =>
      rw [(initialized_of_test hI hh hst).1] at hi
      cases hi
    | getPush hst =>
      rw [Registering, rank_of_stack hst]
      simp only [State.rank, Function.update_self]
      exact ⟨⟨hh, by simp [Frame.rank]⟩, by simp [Frame.rank], fun _ => by simp [Frame.rank]⟩
    | stamp hst =>
      have hst' := setStack_stack_self s u
      rw [Registering, rank_of_stack (hst' _), rank_of_stack hst]
      exact ⟨⟨hh, by simp [Frame.rank]⟩, by simp [Frame.rank], fun _ => by simp [Frame.rank]⟩
    | enqueue hst => simp at henq
    | getLock hst | getUnlock hst | conLock hst | conOuter hst | conEnd hst | firstHit hst
      | firstMiss hst | drainCall hst | drainEnd hst | ordered hst | recheck hst
      | recheckEnd hst | againHit hst | againMiss hst | conUnlock hst =>
      exact absurd rfl (hzero _ _ hst)
  · have hsame : s'.rank u = s.rank u := by
      rw [State.rank, State.rank, threads_of_ne h hut]
    rw [Registering, hsame, holds_of_ne h hI.discipline.grammar hut]
    exact ⟨⟨hh, hrank⟩, le_refl _, fun he => absurd he.symm hut⟩

theorem enabled_of_registering (hI : Drainable s) (hr : Registering s u) :
    Enabled step (Action.isRun u) s := by
  obtain ⟨hh, hrank⟩ := hr
  have hsome : ∃ s', step s (.run u (sampleEnv 0)) = some s' := by
    cases hst : (s.threads u).stack with
    | nil => simp [State.rank, hst] at hrank
    | cons f st =>
      rw [rank_of_stack hst] at hrank
      simp only [step, advance, hst]
      unfold Frame.rank at hrank
      split at hrank
      · exact ⟨_, rfl⟩
      · simp only [advanceGet, if_pos (initialized_of_test hI hh hst).1]
        exact ⟨_, rfl⟩
      · exact ⟨_, rfl⟩
      · exact ⟨_, rfl⟩
      · cases hrank
  obtain ⟨s', hs'⟩ := hsome
  exact ⟨_, s', ⟨_, rfl⟩, hs'⟩

/-! ## Who can hold the lock -/

/-- Whoever holds the lock is in `consume`, or registering, or about to
unlock. -/
theorem StackOk.of_holds {g : Stage} {b : Bool} {st : List Frame} (hok : StackOk g b st)
    (hb : b = true) : (∃ pc next check, Frame.consume pc next check ∈ st) ∨
      (∃ f st', st = f :: st' ∧ 0 < f.rank) ∨ ∃ st', st = .getThreadLogger .unlock :: st' := by
  subst hb
  cases hok with
  | context _ hc =>
    cases hc with
    | ordered => exact Or.inl ⟨_, _, _, List.mem_cons_of_mem _ List.mem_cons_self⟩
    | registering => exact Or.inr (Or.inr ⟨_, rfl⟩)
  | consume => exact Or.inl ⟨_, _, _, List.mem_cons_self⟩
  | lock hc =>
    cases hc with
    | ordered =>
      exact Or.inl ⟨_, _, _, List.mem_cons_of_mem _ (List.mem_cons_of_mem _
        (List.mem_cons_of_mem _ List.mem_cons_self))⟩
  | test | push | stamp | enqueue => exact Or.inr (Or.inl ⟨_, _, rfl, by simp [Frame.rank]⟩)

theorem holder_cases (hs : StacksOk s) (hm : s.mutex = some u) : InConsume s u ∨
    Registering s u ∨ ∃ st, (s.threads u).stack = .getThreadLogger .unlock :: st := by
  have hh : s.holds u = true := holds_eq_true.2 hm
  rcases (hs u).of_holds hh with hc | ⟨f, st, hst, hrank⟩ | hst
  · exact Or.inl hc
  · exact Or.inr (Or.inl ⟨hh, rank_of_stack hst ▸ hrank⟩)
  · exact Or.inr (Or.inr hst)

/-- The lock is held until it is given back. -/
theorem mutex_step (h : Step s t a s') (hm : s.mutex = some u) :
    s'.mutex = some u ∨ s'.mutex = none := by
  cases h with
  | getLock _ hfree | conLock _ hfree =>
    rw [hm] at hfree
    cases hfree
  | getUnlock | conUnlock => exact Or.inr rfl
  | _ => exact Or.inl hm

/-- The lock is taken to register or to consume. -/
theorem mutex_step_of_free (h : Step s t a s') (hm : s.mutex = none) :
    s'.mutex = none ∨ Registering s' t ∨ Draining s' t := by
  cases h with
  | getLock hst =>
    refine Or.inr (Or.inl ⟨beq_self_eq_true _, ?_⟩)
    show 0 < (s.setStack t _).rank t
    rw [rank_of_stack (setStack_stack_self s t _)]
    simp [Frame.rank]
  | conLock hst =>
    exact Or.inr (Or.inr ⟨⟨_, _, _, top_mem_setStack⟩, beq_self_eq_true _⟩)
  | getUnlock | conUnlock => exact Or.inl rfl
  | _ => exact Or.inl hm

/-- `get_thread_logger` can always unlock. -/
theorem step_unlock (env : Env) {st : List Frame}
    (hst : (s.threads u).stack = .getThreadLogger .unlock :: st) :
    step s (.run u env) =
      some { s.setStack u (returnLogger (s.threads u).logger st) with mutex := none } := by
  simp only [step, advance, hst, advanceGet]

/-- `consume` can take a lock that is free. -/
theorem step_lock (env : Env) {next : StdSet pairKey} {check : StdSet loggerKey}
    (hst : (s.threads t).stack = [.consume .lock next check]) (hm : s.mutex = none) :
    step s (.run t env) =
      some { s.setStack t [.consume (.outer 0) next check] with mutex := some t } := by
  simp only [step, advance, hst, advanceConsume, if_pos hm]

/-- Thread `t` has called `consume` and not taken the lock yet. -/
def AtLock (s : State) (t : ThreadId) : Prop :=
  ∃ next check, (s.threads t).stack = [.consume .lock next check]

/-- A frame that waits for the lock in `consume`. -/
def Frame.isLock : Frame → Bool
  | .consume .lock _ _ => true
  | _ => false

theorem atLock_iff : AtLock s t ↔ (s.threads t).stack.map Frame.isLock = [true] := by
  constructor
  · rintro ⟨next, check, hst⟩
    rw [hst]
    rfl
  · intro h
    obtain ⟨f, hst, hf⟩ := List.map_eq_singleton_iff.1 h
    cases f with
    | consume pc next check =>
      cases pc with
      | lock => exact ⟨next, check, hst⟩
      | _ => cases hf
    | _ => cases hf

instance : Decidable (AtLock s t) := decidable_of_iff _ atLock_iff.symm

/-- A call of `consume` comes to the lock first. -/
theorem atLock_of_consume (h : Step s t a s') (ha : a = .consume t) : AtLock s' t := by
  cases h with
  | consume hst => exact ⟨_, _, setStack_stack_self _ _ _⟩
  | _ => cases ha

theorem AtLock.inConsume (h : AtLock s t) : InConsume s t := by
  obtain ⟨next, check, hst⟩ := h
  exact ⟨.lock, next, check, hst ▸ List.mem_cons_self⟩

/-- A call that does not hold the lock waits for it. -/
theorem at_lock (hI : Drainable s) (hc : InConsume s t) (hh : s.holds t = false) :
    AtLock s t := by
  obtain ⟨pc, next, check, hf⟩ := hc
  have hok := hI.discipline.grammar t
  rcases hok.of_consume hf (hI.quiet t) with hst | ⟨i, first, -, hst⟩
  · rw [hst, hh] at hok
    have hpc := hok.inv_consume.2.1
    cases pc with
    | lock => exact ⟨next, check, hst⟩
    | _ => cases hpc
  · rw [hst, hh] at hok
    cases hok.inv_ordered.2.1

/-- And when it moves it has it. -/
theorem draining_of_lock {next : StdSet pairKey} {check : StdSet loggerKey}
    (h : Step s t a s') (hst : (s.threads t).stack = [.consume .lock next check]) :
    Draining s' t := by
  cases h with
  | conLock hst' => exact ⟨⟨_, _, _, top_mem_setStack⟩, beq_self_eq_true _⟩
  | log hlog => simp [Thread.canLog, hst] at hlog
  | consume hst' | exit hst' | getFast hst' | getNew hst' | getLock hst' | getPush hst'
    | getUnlock hst' | stamp hst' | enqueue hst' | conOuter hst' | conEnd hst' | firstHit hst'
    | firstMiss hst' | drainCall hst' | drainEnd hst' | ordered hst' | recheck hst'
    | recheckEnd hst' | againHit hst' | againMiss hst' | conUnlock hst' =>
    rw [hst] at hst'
    cases hst'

/-- **A call goes on until it returns.** -/
theorem inConsume_step (h : Step s u a s') (hI : Drainable s) (hI' : Drainable s')
    (hc : InConsume s t) : InConsume s' t ∨ (s'.threads t).stack = [] := by
  cases hh : s.holds t with
  | true => exact (draining_step h hI hI' ⟨hc, hh⟩).imp_left And.left
  | false =>
    by_cases hut : t = u
    · subst hut
      obtain ⟨next, check, hst⟩ := at_lock hI hc hh
      exact Or.inl (draining_of_lock h hst).1
    · obtain ⟨pc, next, check, hf⟩ := hc
      exact Or.inl ⟨pc, next, check, by rwa [threads_of_ne h hut]⟩

/-! ## Executions -/

section Execution

variable {e : Execution step DrainOk} {n m : ℕ}

/-- From step `n` on nothing is enqueued. -/
def NoEnqueue (e : Execution step DrainOk) (n : ℕ) : Prop :=
  ∀ m a, n ≤ m → step (e.state m) a = some (e.state (m + 1)) →
    (e.state (m + 1)).enqueued = (e.state m).enqueued

variable (hI : ∀ m, Drainable (e.state m)) (hfair : ∀ u, e.Fair (Action.isRun u))
  (hquiet : NoEnqueue e n)

include hI hfair hquiet

/-- Once nothing is enqueued no thread registers. -/
theorem not_registering (hm : n ≤ m) : ¬ Registering (e.state m) u := by
  intro hr
  have hstep : ∀ k a, m ≤ k → Registering (e.state k) u →
      step (e.state k) a = some (e.state (k + 1)) → Registering (e.state (k + 1)) u ∧
        (e.state (k + 1)).rank u ≤ (e.state k).rank u ∧
        (a.thread = u → (e.state (k + 1)).rank u < (e.state k).rank u) := fun k a hk hP hs =>
    registering_step (step_cases hs) (hI k) hP (hquiet k a (hm.trans hk) hs)
  obtain ⟨m', hm', hnot⟩ := Execution.leaves (P := fun s => Registering s u)
    (r := fun s => s.rank u) (n := m) (hfair u)
    (fun k _ hP => enabled_of_registering (hI k) hP) fun k a hk hP _ _ hs => by
      obtain ⟨-, hle, hlt⟩ := hstep k a hk hP hs
      refine ⟨hle, ?_⟩
      rintro ⟨env, rfl⟩
      exact hlt rfl
  obtain ⟨k, a, hk, -, hP, hnot', -, hs⟩ :=
    Execution.exit (P := fun s => Registering s u) hr hm' hnot
  exact hnot' (hstep k a hk (hP k hk (le_refl k)) hs).1

/-- **The lock is given back.** -/
theorem released (hm : n ≤ m) (halone : ∀ k u, m ≤ k → (e.state k).mutex = some u →
    ¬ InConsume (e.state k) u) : ∃ k, m ≤ k ∧ (e.state k).mutex = none := by
  cases hmx : (e.state m).mutex with
  | none => exact ⟨m, le_refl m, hmx⟩
  | some u =>
    -- the holder has nothing left to do but to unlock
    have hunlock : ∀ k, m ≤ k → (e.state k).mutex = some u →
        ∃ st, ((e.state k).threads u).stack = .getThreadLogger .unlock :: st := by
      intro k hk hP
      rcases holder_cases (hI k).discipline.grammar hP with hc | hr | hst
      · exact absurd hc (halone k u hk hP)
      · exact absurd hr (not_registering hI hfair hquiet (hm.trans hk))
      · exact hst
    obtain ⟨m', hm', hnot⟩ := Execution.leaves (P := fun s : State => s.mutex = some u)
      (r := fun _ => 0) (n := m) (hfair u) (fun k hk hP => by
        obtain ⟨st, hst⟩ := hunlock k hk hP
        exact ⟨.run u (sampleEnv 0), _, ⟨_, rfl⟩, step_unlock _ hst⟩) fun k a hk hP hP' _ hs => by
        refine ⟨le_refl _, ?_⟩
        rintro ⟨env, rfl⟩
        obtain ⟨st, hst⟩ := hunlock k hk hP
        rw [← Option.some.inj ((step_unlock _ hst).symm.trans hs)] at hP'
        cases hP'
    obtain ⟨k, a, hk, -, hP, hnot', -, hs⟩ :=
      Execution.exit (P := fun s : State => s.mutex = some u) hmx hm' hnot
    rcases mutex_step (step_cases hs) (hP k hk (le_refl k)) with hP' | hfree
    · exact absurd hP' hnot'
    · exact ⟨k + 1, Nat.le_succ_of_le hk, hfree⟩

/-- A call that is never entered by anyone else gets the lock. -/
theorem acquires (hm : n ≤ m) (hcall : ∀ k, m ≤ k → InConsume (e.state k) t)
    (halone : ∀ k u, m ≤ k → u ≠ t → ¬ InConsume (e.state k) u) :
    ∃ k, m ≤ k ∧ Draining (e.state k) t := by
  by_contra hcon
  have hwait : ∀ k, m ≤ k → (e.state k).holds t = false := by
    intro k hk
    by_contra hh
    exact hcon ⟨k, hk, hcall k hk, by simpa using hh⟩
  have hother : ∀ k u, m ≤ k → (e.state k).mutex = some u → ¬ InConsume (e.state k) u := by
    intro k u hk hmx
    refine halone k u hk ?_
    rintro rfl
    exact holds_eq_false.1 (hwait k hk) hmx
  obtain ⟨k₀, hk₀, hfree₀⟩ := released hI hfair hquiet hm hother
  -- nobody takes it again, so the call could take it for ever
  have hfree : ∀ k, k₀ ≤ k → (e.state k).mutex = none := by
    intro k hk
    induction k, hk using Nat.le_induction with
    | base => exact hfree₀
    | succ k hk ih =>
      have hmk : m ≤ k + 1 := Nat.le_succ_of_le (hk₀.trans hk)
      rcases e.next k with ⟨-, he⟩ | ⟨a, -, -, hs⟩
      · rw [he]
        exact ih
      · rcases mutex_step_of_free (step_cases hs) ih with hf | hr | hd
        · exact hf
        · exact absurd hr (not_registering hI hfair hquiet (hm.trans hmk))
        · by_cases hta : a.thread = t
          · exact absurd ⟨k + 1, hmk, hta ▸ hd⟩ hcon
          · exact absurd hd.1 (halone (k + 1) _ hmk hta)
  obtain ⟨k, hk, ⟨a, ha, env, rfl⟩ | hdis⟩ := hfair t k₀
  · rcases e.next k with ⟨hidle, -⟩ | ⟨a', ha', -, hs⟩
    · rw [hidle] at ha
      cases ha
    · obtain rfl := Option.some.inj (ha'.symm.trans ha)
      have hmk := hk₀.trans hk
      obtain ⟨next, check, hst⟩ := at_lock (hI k) (hcall k hmk) (hwait k hmk)
      exact hcon ⟨k + 1, Nat.le_succ_of_le hmk, draining_of_lock (step_cases hs) hst⟩
  · have hmk := hk₀.trans hk
    obtain ⟨next, check, hst⟩ := at_lock (hI k) (hcall k hmk) (hwait k hmk)
    have hlock := step_lock (sampleEnv 0) hst (hfree k hk)
    exact hdis ⟨.run t (sampleEnv 0), _, ⟨_, rfl⟩, hlock⟩

/-- **A call that has the lock returns.** -/
theorem returns (hm : n ≤ m) (hd : Draining (e.state m) t) :
    ∃ k, m ≤ k ∧ ((e.state k).threads t).stack = [] := by
  obtain ⟨m', hm', hnot⟩ := Execution.leaves (P := fun s => Draining s t)
    (r := fun s => s.left t) (n := m) (hfair t) (fun k _ hP => enabled_of_draining (hI k) hP)
    fun k a hk hP hP' hok hs => by
      have h := step_cases hs
      by_cases hta : t = a.thread
      · have hlt : (e.state (k + 1)).left t < (e.state k).left t := by
          rw [← hta] at h
          exact left_step h hok.2 (hI k) hP
        exact ⟨hlt.le, fun _ => hlt⟩
      · have hle := left_step_of_ne h hta (hI k) (hI (k + 1)) hP
        rw [hquiet k a (hm.trans hk) hs] at hle
        refine ⟨Nat.le_of_add_le_add_right hle, ?_⟩
        rintro ⟨env, rfl⟩
        exact absurd rfl hta
  obtain ⟨k, a, hk, -, hP, hnot', -, hs⟩ :=
    Execution.exit (P := fun s => Draining s t) hd hm' hnot
  have hcases := step_cases hs
  rcases draining_step hcases (hI k) (hI (k + 1)) (hP k hk (le_refl k)) with hP' | hst
  · exact absurd hP' hnot'
  · exact ⟨k + 1, Nat.le_succ_of_le hk, hst⟩

end Execution

section Drain

variable {e : Execution step DrainOk} {as : List Action} {n m : ℕ}

/-- From step `n` to step `m` thread `t` is in the call of `consume` it is in
at step `n`. -/
def DuringCall (e : Execution step DrainOk) (t : ThreadId) (n m : ℕ) : Prop :=
  n ≤ m ∧ ∀ k, n ≤ k → k ≤ m → InConsume (e.state k) t

/-- Where boundedly many records are ever enqueued there is a last one. -/
theorem noEnqueue_of_bounded {b : ℕ} (hb : ∀ m, n ≤ m → (e.state m).enqueued.length ≤ b) :
    ∃ k, n ≤ k ∧ NoEnqueue e k := by
  obtain ⟨k, hk, hrest⟩ := Execution.comes_to_rest (c := fun s : State => s.enqueued.length)
    (fun s a s' _ hs => enqueued_length_le (step_cases hs)) hb
  refine ⟨k, hk, fun m a hm hs => ?_⟩
  rcases enqueued_step (step_cases hs) with he | ⟨_, _, _, _, _, _, he⟩
  · exact he
  · have h₁ := hrest (m + 1) (Nat.le_succ_of_le hm)
    have h₂ := hrest m hm
    rw [he, List.length_append, List.length_singleton] at h₁
    omega

/-- **The call returns**, if it is the only one and boundedly many records
are enqueued while it lasts. -/
theorem consume_returns (hI : ∀ m, Drainable (e.state m)) (hcall : InConsume (e.state n) t)
    (hfair : ∀ u, e.Fair (Action.isRun u))
    (halone : ∀ m u, DuringCall e t n m → u ≠ t → ¬ InConsume (e.state m) u)
    {b : ℕ} (hb : ∀ m, DuringCall e t n m → (e.state m).enqueued.length ≤ b) :
    ∃ m, n ≤ m ∧ ((e.state m).threads t).stack = [] := by
  by_contra hcon
  have hin : ∀ m, n ≤ m → InConsume (e.state m) t := by
    intro m hm
    induction m, hm using Nat.le_induction with
    | base => exact hcall
    | succ m hm ih =>
      rcases e.next m with ⟨-, he⟩ | ⟨a, -, -, hs⟩
      · exact he ▸ ih
      · rcases inConsume_step (step_cases hs) (hI m) (hI (m + 1)) ih with hc | hst
        · exact hc
        · exact absurd ⟨m + 1, Nat.le_succ_of_le hm, hst⟩ hcon
  have hduring : ∀ m, n ≤ m → DuringCall e t n m := fun m hm => ⟨hm, fun k hk _ => hin k hk⟩
  obtain ⟨k, hk, hquiet⟩ := noEnqueue_of_bounded fun m hm => hb m (hduring m hm)
  obtain ⟨j, hj, hd⟩ := acquires hI hfair hquiet (le_refl k) (fun i hi => hin i (hk.trans hi))
    fun i u hi hu => halone i u (hduring i (hk.trans hi)) hu
  obtain ⟨m, hm, hst⟩ := returns hI hfair hquiet hj hd
  exact hcon ⟨m, (hk.trans hj).trans hm, hst⟩

/-- Thread `t` takes the lock in `consume` at step `k`. -/
def Acquires (e : Execution step DrainOk) (t : ThreadId) (k : ℕ) : Prop :=
  AtLock (e.state k) t ∧ (e.state (k + 1)).mutex = some t

/-- **What was enqueued before the lock was taken has been passed on when
the call returns.** -/
theorem consume_completes (hrun : ∀ m, ∃ as, Run step DrainOk State.initial as (e.state m))
    {k : ℕ} (hk : Acquires e t k) (hm : k < m) (hst : ((e.state m).threads t).stack = []) :
    ∀ p ∈ (e.state k).enqueued, p ∈ (e.state m).passed := by
  obtain ⟨⟨next, check, hlock⟩, hmx⟩ := hk
  obtain ⟨as, hr⟩ := hrun k
  have hr := hr.mono fun _ _ h => h.1
  obtain ⟨hd, hc⟩ := custody hr
  have hstart : Sweep (e.state k).enqueued t (e.state (k + 1)) := by
    rcases e.next k with ⟨-, he⟩ | ⟨a, -, hok, hs⟩
    · rw [he] at hmx
      have hfree := (Option.some.inj (hd.grammar.holds_consume hlock)).symm
      exact absurd hmx (holds_eq_false.1 hfree)
    · obtain ⟨henq, hsw⟩ := sweeping_of_acquire hd hc hs hlock hmx
      exact ⟨⟨_, hr.snoc hok.1 hs⟩, henq, Or.inl hsw⟩
  have hend : Sweep (e.state k).enqueued t (e.state m) :=
    e.invariant hstart (fun s a s' hI hok hs => hI.step hok.1 hs) hm
  rcases hend.sweeping with ⟨pc, next, check, hf, -⟩ | hall
  · rw [hst] at hf
    cases hf
  · exact hall

/-- No record is taken back. -/
theorem mem_enqueued_of_le {ok : State → Action → Prop} {e : Execution step ok}
    {p : MsgLoggerPair} (hm : n ≤ m) (hp : p ∈ (e.state n).enqueued) :
    p ∈ (e.state m).enqueued :=
  e.invariant hp (fun _ _ _ hI _ hs => mem_enqueued_step (step_cases hs) hI) hm

theorem enqueued_length_mono {ok : State → Action → Prop} {e : Execution step ok} (hm : n ≤ m) :
    (e.state n).enqueued.length ≤ (e.state m).enqueued.length :=
  e.invariant (I := fun s => (e.state n).enqueued.length ≤ s.enqueued.length) (le_refl _)
    (fun _ _ _ hI _ hs => hI.trans (enqueued_length_le (step_cases hs))) hm

/-- A call that has returned took its last step at some step. -/
theorem during_of_returned (hI : ∀ m, Drainable (e.state m)) (hcall : InConsume (e.state n) t)
    (hm : n ≤ m) (hst : ((e.state m).threads t).stack = []) :
    ∃ k, DuringCall e t n k ∧ ((e.state (k + 1)).threads t).stack = [] := by
  have hout : ¬ InConsume (e.state m) t := by
    rintro ⟨pc, next, check, hf⟩
    rw [hst] at hf
    cases hf
  obtain ⟨k, a, hk, -, hin, hnot, -, hs⟩ :=
    Execution.exit (P := fun s => InConsume s t) hcall hm hout
  have hlast := inConsume_step (step_cases hs) (hI k) (hI (k + 1)) (hin k hk (le_refl k))
  exact ⟨k, ⟨hk, hin⟩, hlast.resolve_left hnot⟩

/-- And on the way it took the lock. -/
theorem acquires_of_returned (hlock : AtLock (e.state n) t) (hm : n ≤ m)
    (hst : ((e.state (m + 1)).threads t).stack = []) : ∃ k, n ≤ k ∧ k < m ∧ Acquires e t k := by
  have hout : ¬ AtLock (e.state (m + 1)) t := by
    rintro ⟨next, check, hlock'⟩
    rw [hst] at hlock'
    cases hlock'
  obtain ⟨k, a, hk, hkm, hat, hnot, -, hs⟩ :=
    Execution.exit (P := fun s => AtLock s t) hlock (Nat.le_succ_of_le hm) hout
  have h := step_cases hs
  obtain ⟨next, check, hstk⟩ := hat k hk (le_refl k)
  by_cases hta : t = a.thread
  · subst hta
    have hd := draining_of_lock h hstk
    refine ⟨k, hk, lt_of_le_of_ne (Nat.le_of_lt_succ hkm) ?_, ⟨next, check, hstk⟩,
      holds_eq_true.1 hd.2⟩
    -- with the lock just taken there is more to do
    rintro rfl
    obtain ⟨pc, next', check', hf⟩ := hd.1
    rw [hst] at hf
    cases hf
  · refine absurd ⟨next, check, ?_⟩ hnot
    rwa [threads_of_ne h hta]

/-- **The call drains and returns.** One that has still to take the lock takes
it, and returns with everything passed on that was enqueued before. -/
theorem consume_delivers (hI : ∀ m, Drainable (e.state m))
    (hrun : ∀ m, ∃ as, Run step DrainOk State.initial as (e.state m))
    (hcall : InConsume (e.state n) t) (hfair : ∀ u, e.Fair (Action.isRun u))
    (halone : ∀ m u, DuringCall e t n m → u ≠ t → ¬ InConsume (e.state m) u)
    {b : ℕ} (hb : ∀ m, DuringCall e t n m → (e.state m).enqueued.length ≤ b) :
    ∃ m, DuringCall e t n m ∧ ((e.state (m + 1)).threads t).stack = [] ∧
      (AtLock (e.state n) t → ∃ k, n ≤ k ∧ k < m ∧ Acquires e t k ∧
        ∀ p ∈ (e.state k).enqueued, p ∈ (e.state (m + 1)).passed) := by
  obtain ⟨j, hj, hstj⟩ := consume_returns hI hcall hfair halone hb
  obtain ⟨m, hduring, hst⟩ := during_of_returned hI hcall hj hstj
  refine ⟨m, hduring, hst, fun hlock => ?_⟩
  obtain ⟨k, hk, hkm, hacq⟩ := acquires_of_returned hlock hduring.1 hst
  exact ⟨k, hk, hkm, hacq, consume_completes hrun hacq (Nat.lt_succ_of_lt hkm) hst⟩

/-- **A call that has the lock takes boundedly many steps**, however the
other threads' steps fall between them. -/
theorem own_steps_le {s s' : State} (hI : Drainable s)
    (h : Run step (fun s a => DrainOk s a ∧ Draining s t) s as s') :
    as.countP (fun a => a.thread = t) + s.perRecord * s.enqueued.length ≤
      s.left t + s.perRecord * s'.enqueued.length := by
  have hpot := h.potential (I := fun s' => Drainable s' ∧ (Draining s' t → s'.loggers = s.loggers))
    (p := fun s => s.left t) (c := fun s' => s.perRecord * s'.enqueued.length)
    (k := fun a => a.thread = t) ⟨hI, fun _ => rfl⟩ (fun s₁ a s₂ hI₁ hok hs => ?_)
    fun s₁ a s₂ hI₁ hok hs => ?_
  · rw [Nat.add_right_comm] at hpot
    omega
  · refine ⟨drainable_step hI₁.1 hok.1 hs, fun _ => ?_⟩
    rw [loggers_of_draining (step_cases hs) hI₁.1 hok.2, hI₁.2 hok.2]
  · -- no logger is registered while the lock is held
    have hper : s₁.perRecord = s.perRecord := by
      rw [State.perRecord, hI₁.2 hok.2]
      rfl
    have h := step_cases hs
    by_cases hta : a.thread = t
    · simp only [hta, decide_true, if_true]
      rw [hta] at h
      have hlt := left_step h hok.1.2 hI₁.1 hok.2
      have hgrow := Nat.mul_le_mul_left s.perRecord (enqueued_length_le h)
      omega
    · simp only [hta, decide_false, Bool.false_eq_true, if_false]
      have hle := left_step_of_ne h (Ne.symm hta) hI₁.1 (drainable_step hI₁.1 hok.1 hs) hok.2
      rw [hper] at hle
      exact hle

/-- **`consume` drains completely and returns.** From any state the program
reaches, with addresses as `new` gives them and an `ordered_log` that does
not log: every call of `consume` comes to the lock first; a call that is the
only one, with boundedly many records enqueued while it lasts, returns, if
every thread that can go on does, and if it was at its lock it has taken it on
the way, and has passed on everything enqueued before when it returns; one
that has the lock takes no more steps than it had left at first, and so many
more for each record enqueued meanwhile; and whenever a call that has taken
the lock has returned, every record enqueued before it took the lock has been
passed to `ordered_log`. -/
theorem consume_drains (h₀ : Run step DrainOk State.initial as (e.state 0)) :
    (∀ t n, e.action n = some (.consume t) → AtLock (e.state (n + 1)) t) ∧
    (∀ t n, InConsume (e.state n) t → (∀ u, e.Fair (Action.isRun u)) →
      (∀ m u, DuringCall e t n m → u ≠ t → ¬ InConsume (e.state m) u) →
      (∃ b, ∀ m, DuringCall e t n m → (e.state m).enqueued.length ≤ b) →
      ∃ m, DuringCall e t n m ∧ ((e.state (m + 1)).threads t).stack = [] ∧
        (AtLock (e.state n) t → ∃ k, n ≤ k ∧ k < m ∧ Acquires e t k ∧
          ∀ p ∈ (e.state k).enqueued, p ∈ (e.state (m + 1)).passed)) ∧
    (∀ t bs s,
      Run step (fun s a => DrainOk s a ∧ Draining s t) (e.state 0) bs s →
      bs.countP (fun a => a.thread = t) + (e.state 0).perRecord * (e.state 0).enqueued.length ≤
        (e.state 0).left t + (e.state 0).perRecord * s.enqueued.length) ∧
    ∀ t k m, Acquires e t k → k < m → ((e.state m).threads t).stack = [] →
      ∀ p ∈ (e.state k).enqueued, p ∈ (e.state m).passed := by
  have hrun : ∀ m, ∃ as, Run step DrainOk State.initial as (e.state m) := fun m =>
    e.invariant (I := fun s => ∃ as, Run step DrainOk State.initial as s) ⟨as, h₀⟩
      (fun s a s' hI hok hs => hI.elim fun as hr => ⟨_, hr.snoc hok hs⟩) (Nat.zero_le m)
  have hI : ∀ m, Drainable (e.state m) := fun m =>
    (hrun m).elim fun as hr => hr.invariant drainable_initial fun s a s' => drainable_step
  refine ⟨fun t n ha => ?_, fun t n hcall hfair halone hbound => ?_,
    fun t bs s => own_steps_le (hI 0), fun t k m => consume_completes hrun⟩
  · rcases e.next n with ⟨hidle, -⟩ | ⟨a, ha', -, hs⟩
    · rw [hidle] at ha
      cases ha
    · obtain rfl := Option.some.inj (ha'.symm.trans ha)
      exact atLock_of_consume (step_cases hs) rfl
  · obtain ⟨b, hb⟩ := hbound
    exact consume_delivers hI hrun hcall hfair halone hb

/-- The steps of `sampleRun` after thread 1 has called `consume`. -/
def sampleConsume : List Action := (List.range 16).map fun k => .run 1 (sampleEnv (9 + k))

/-- Two records are queued; the call takes the lock, passes them on and
returns. -/
theorem consume_drains_sample : ∃ e : Execution step DrainOk,
    Run step DrainOk State.initial (sampleRun 9 0) (e.state 0) ∧ AtLock (e.state 0) 1 ∧
    (e.state 0).enqueued.length = 2 ∧
    ∃ k m, k < m ∧ Acquires e 1 k ∧ ((e.state m).threads 1).stack = [] ∧
      ∀ p ∈ (e.state 0).enqueued, p ∈ (e.state m).passed := by
  have hexec : (exec (guarded step fun s a => freshBelow 2 s a = true ∧ QuietLog s a)
      State.initial (sampleRun 9 0)).isSome := by rfl
  obtain ⟨s, hs⟩ := Option.isSome_iff_exists.1 hexec
  have hexec' : (exec (guarded step fun s a => (freshBelow 2 s a = true ∧ QuietLog s a) ∧
      a.thread = 1) s sampleConsume).isSome := by
    obtain rfl := Option.some.inj hs
    rfl
  obtain ⟨s', hs'⟩ := Option.isSome_iff_exists.1 hexec'
  obtain ⟨hrun, hd, hidle⟩ := fresh_of_checked discipline_initial (fun _ _ => rfl)
    (fun _ _ h => h.1) (Run.of_exec hs)
  obtain ⟨hrun', -, hidle'⟩ := fresh_of_checked hd hidle (fun _ _ h => h.1.1) (Run.of_exec hs')
  obtain ⟨e, he, hend⟩ := Execution.of_run hrun'
  -- at the end of the run nobody is in a call, so that idling is fair
  have htwo : ∀ u : ℕ, ¬ 2 ≤ u → u = 0 ∨ u = 1 := by omega
  have hempty : ∀ u, (s'.threads u).stack = [] := by
    intro u
    by_cases hu : 2 ≤ u
    · exact hidle' u hu
    · obtain rfl := Option.some.inj hs
      obtain rfl := Option.some.inj hs'
      rcases htwo u hu with rfl | rfl <;> rfl
  have hlock : AtLock (e.state 0) 1 := by
    rw [he]
    obtain rfl := Option.some.inj hs
    exact ⟨_, _, rfl⟩
  have hstart : Run step DrainOk State.initial (sampleRun 9 0) (e.state 0) :=
    he ▸ hrun.mono fun _ _ h => ⟨h.1, h.2.2⟩
  refine ⟨e.mono fun _ _ h => ⟨h.1, h.2.1.2⟩, hstart, hlock, ?_, ?_⟩
  · show (e.state 0).enqueued.length = 2
    rw [he]
    obtain rfl := Option.some.inj hs
    rfl
  · have hfair : ∀ u, (e.mono fun _ _ h => ⟨h.1, h.2.1.2⟩ : Execution step DrainOk).Fair
        (Action.isRun u) := by
      refine fun u n => ⟨n + sampleConsume.length, Nat.le_add_right _ _, Or.inr ?_⟩
      rintro ⟨a, s'', ⟨env, rfl⟩, hstep⟩
      change step (e.state _) _ = _ at hstep
      rw [hend _ (Nat.le_add_left _ _)] at hstep
      simp [step, advance, hempty u] at hstep
    have halone : ∀ m u, u ≠ 1 → ((e.state m).threads u).stack = [] := by
      intro m u hu
      refine e.invariant (I := fun s => (s.threads u).stack = []) ?_ (fun s a s' hI hok hs => ?_)
        (Nat.zero_le m)
      · rw [he]
        by_cases hu2 : 2 ≤ u
        · exact hidle u hu2
        · obtain rfl := Option.some.inj hs
          obtain rfl := (htwo u hu2).resolve_right hu
          rfl
      · rw [threads_of_ne (step_cases hs) (by rw [hok.2.2]; exact hu)]
        exact hI
    have hbound : ∀ m, (e.state m).enqueued.length ≤ s'.enqueued.length := by
      intro m
      rw [← hend (m + sampleConsume.length) (Nat.le_add_left _ _)]
      exact enqueued_length_mono (Nat.le_add_right _ _)
    obtain ⟨m, -, hst, hdelivers⟩ := (consume_drains hstart).2.1 1 0 hlock.inConsume hfair
      (by
        rintro m u - hu ⟨pc, next, check, hf⟩
        change _ ∈ ((e.state m).threads u).stack at hf
        rw [halone m u hu] at hf
        cases hf) ⟨_, fun m _ => hbound m⟩
    obtain ⟨k, -, hkm, hacq, hpassed⟩ := hdelivers hlock
    exact ⟨k, m + 1, Nat.lt_succ_of_lt hkm, hacq, hst,
      fun p hp => hpassed p (mem_enqueued_of_le (Nat.zero_le k) hp)⟩

end Drain

end Logger

end AppServer
