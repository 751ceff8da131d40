import AppServer.Lib.Lanes
import AppServer.Logger.Roles

/-!
# Where the records are

A record is in a queue, or in the `ordered_next` of the `consume` that holds
the lock, or has been passed to `ordered_log`. `ConsumeOk` says what the two
sets of `consume` hold at each of its points: every logger the outer loop
has met is in exactly one of them. With the addresses of live records
distinct (`FreshAddr`), `ordered_next` drops nothing, and each step moves
records the way items move in lanes (`lanes_step`).
-/

namespace AppServer

namespace Logger

open Lib

/-! ## The two sets of `consume` -/

/-- The first `k` loggers are each in one of the two sets: parked, or with
the record taken from its queue waiting. -/
def Parted (loggers : List Addr) (k : ℕ) (next : StdSet pairKey) (check : StdSet loggerKey) :
    Prop :=
  (check.toList ++ next.toList.map Prod.snd).Perm (loggers.take k)

/-- What the sets hold at each point of `consume`. -/
def ConsumeOk (loggers : List Addr) (next : StdSet pairKey) (check : StdSet loggerKey) :
    ConsumePc → Prop
  | .lock => next.toList = [] ∧ check.toList = []
  | .outer i => i ≤ loggers.length ∧ next.toList = [] ∧ Parted loggers i next check
  | .tryFirst i l => loggers[i]? = some l ∧ next.toList = [] ∧ Parted loggers i next check
  | .drain i => i < loggers.length ∧ Parted loggers (i + 1) next check
  | .logging i first =>
    i < loggers.length ∧ first ∈ next.toList ∧ Parted loggers (i + 1) next check
  | .recheck i it =>
    i < loggers.length ∧ Parted loggers (i + 1) next check ∧ it.Sublist check.toList
  | .tryAgain i l it =>
    i < loggers.length ∧ Parted loggers (i + 1) next check ∧ (l :: it).Sublist check.toList
  | .unlock => next.toList = [] ∧ Parted loggers loggers.length next check

section Parted

variable {loggers : List Addr} {k i : ℕ} {next : StdSet pairKey} {check : StdSet loggerKey}
  {l : Addr} {p : MsgLoggerPair}

theorem Parted.nodup (h : Parted loggers k next check) (hn : loggers.Nodup) :
    (check.toList ++ next.toList.map Prod.snd).Nodup :=
  h.nodup_iff.2 (hn.sublist (List.take_sublist k loggers))

/-- A parked logger has no record waiting. -/
theorem Parted.not_waiting (h : Parted loggers k next check) (hn : loggers.Nodup)
    (hl : l ∈ check.toList) : ∀ p ∈ next.toList, p.2 ≠ l := by
  intro p hp he
  exact (List.nodup_append.1 (h.nodup hn)).2.2 l hl p.2 (List.mem_map_of_mem hp) he.symm

/-- The next logger of the outer loop is in neither set. -/
theorem Parted.not_mem (h : Parted loggers i next check) (hn : loggers.Nodup)
    (hl : loggers[i]? = some l) : l ∉ check.toList := by
  intro hc
  obtain ⟨hi, hli⟩ := List.getElem?_eq_some_iff.1 hl
  have hm : l ∈ loggers.take i := h.mem_iff.1 (List.mem_append_left _ hc)
  obtain ⟨j, hj, hlj⟩ := List.mem_take_iff_getElem.1 hm
  have := (List.Nodup.getElem_inj_iff hn).1 (hlj.trans hli.symm)
  omega

theorem take_succ_of_getElem? (hl : loggers[i]? = some l) :
    loggers.take (i + 1) = loggers.take i ++ [l] := by
  obtain ⟨hi, rfl⟩ := List.getElem?_eq_some_iff.1 hl
  exact List.take_succ_eq_append_getElem hi

/-- Inserting a logger that is not parked parks it. -/
theorem perm_insert_check (hl : l ∉ check.toList) :
    (check.insert l).toList.Perm (l :: check.toList) :=
  StdSet.perm_insert fun b hb (he : b = l) => hl (he ▸ hb)

/-- The next logger was empty: it is parked. -/
theorem Parted.park (h : Parted loggers i next check) (hn : loggers.Nodup)
    (hl : loggers[i]? = some l) : Parted loggers (i + 1) next (check.insert l) := by
  unfold Parted
  rw [take_succ_of_getElem? hl]
  have hins := perm_insert_check (h.not_mem hn hl)
  exact ((hins.append_right _).trans (h.cons l)).trans (List.perm_append_singleton l _).symm

/-- The next logger had a record: it waits. -/
theorem Parted.wait (h : Parted loggers i next check) (hl : loggers[i]? = some l)
    (hp : p.2 = l) (hins : (next.insert p).toList.Perm (p :: next.toList)) :
    Parted loggers (i + 1) (next.insert p) check := by
  unfold Parted
  rw [take_succ_of_getElem? hl]
  have hmap := (hins.map Prod.snd).append_left check.toList
  rw [List.map_cons, hp] at hmap
  exact (hmap.trans List.perm_middle).trans
    ((h.cons l).trans (List.perm_append_singleton l _).symm)

/-- A parked logger turns out to have a record: it moves over. -/
theorem Parted.unpark (h : Parted loggers k next check) (hl : l ∈ check.toList) (hp : p.2 = l)
    (hins : (next.insert p).toList.Perm (p :: next.toList)) :
    Parted loggers k (next.insert p) (check.erase l) := by
  have hmap := (hins.map Prod.snd).append_left (check.erase l).toList
  rw [List.map_cons, hp] at hmap
  refine (hmap.trans List.perm_middle).trans (List.Perm.trans ?_ h)
  rw [← List.cons_append]
  exact (StdSet.perm_erase hl).symm.append_right _

/-- A record has been passed on: its logger is parked. -/
theorem Parted.repark (h : Parted loggers k next check) (hn : loggers.Nodup)
    (hp : p ∈ next.toList) : Parted loggers k (next.erase p) (check.insert p.2) := by
  have hnot : p.2 ∉ check.toList := fun hc => h.not_waiting hn hc p hp rfl
  refine ((perm_insert_check hnot).append_right _).trans (List.Perm.trans ?_ h)
  rw [List.cons_append]
  have hmap := ((StdSet.perm_erase hp).map Prod.snd).append_left check.toList
  rw [List.map_cons] at hmap
  exact (hmap.trans List.perm_middle).symm

end Parted

/-! ## Live records -/

/-- The records a frame keeps alive. -/
def Frame.records : Frame → List Record
  | .realLogMsg _ _ (.enqueue _ newmsg) => [newmsg]
  | .consume _ next _ => next.toList.map Prod.fst
  | _ => []

/-- A record that has not been freed: it is in a queue, in an
`ordered_next`, or on its way into a queue. -/
def Live (s : State) (r : Record) : Prop :=
  (∃ l, r ∈ s.queue l) ∨ ∃ t, ∃ f ∈ (s.threads t).stack, r ∈ f.records

/-- What `new LogMessage` promises: an address no live record is at. -/
def FreshAddr (s : State) : Action → Prop
  | .run t env => ∀ c item l st, (s.threads t).stack = .realLogMsg c item (.stamp l) :: st →
      ∀ r, Live s r → r.addr ≠ env.addr
  | _ => True

/-- Thread `t` is enqueuing the record `r`. -/
def InFlight (s : State) (t : ThreadId) (r : Record) : Prop :=
  ∃ c item l st, (s.threads t).stack = .realLogMsg c item (.enqueue l r) :: st

/-- The records of `ordered_next` still to be passed on. While `ordered_log`
runs, the one it was called with is in the set and has been passed on. -/
def Frame.waiting : Frame → List MsgLoggerPair
  | .consume (.logging _ first) next _ => (next.erase first).toList
  | .consume _ next _ => next.toList
  | _ => []

/-- The same, for a thread. -/
def Thread.waiting (th : Thread) : List MsgLoggerPair := th.stack.flatMap Frame.waiting

/-- The records held in the `ordered_next` of the `consume` that is running,
which is the one that holds the lock. -/
def State.held (s : State) : List MsgLoggerPair :=
  match s.mutex with
  | some t => (s.threads t).waiting
  | none => []

/-- The records in the queues of the registered loggers. -/
def State.queued (s : State) : List MsgLoggerPair := Lib.queued s.loggers s.queue

/-- The state, as items in lanes: a lane for each logger. -/
def State.lanes (s : State) : Lanes Record Addr where
  sent := s.enqueued
  got := s.passed
  held := s.held
  queue := s.queue

/-- The records enqueued and not passed on. -/
def State.pending (s : State) : Multiset MsgLoggerPair := s.lanes.pending s.loggers

/-- Every `consume` is where its sets say. -/
def Consuming (s : State) : Prop :=
  ∀ t pc next check, Frame.consume pc next check ∈ (s.threads t).stack →
    ConsumeOk s.loggers next check pc

/-- Every record is in one place, at an address of its own. -/
structure Custody (s : State) : Prop where
  consuming : Consuming s
  /-- No two records under way are at one address. -/
  distinct : (s.pending.map fun p => p.1.addr).Nodup
  /-- Nor is one being enqueued at the address of one under way. -/
  flight : ∀ t r, InFlight s t r → ∀ p ∈ s.pending, p.1.addr ≠ r.addr
  /-- Nor are two being enqueued at one address. -/
  flights : ∀ t u r r', InFlight s t r → InFlight s u r' → t ≠ u → r.addr ≠ r'.addr

/-! ## The sets, step by step -/

section Consuming

variable {s s' : State} {t u : ThreadId} {a : Action}

theorem mem_returnLogger {l : Addr} {st : List Frame} {pc : ConsumePc} {next : StdSet pairKey}
    {check : StdSet loggerKey} (h : Frame.consume pc next check ∈ returnLogger l st) :
    Frame.consume pc next check ∈ st := by
  unfold returnLogger at h
  split at h
  · rcases List.mem_cons.1 h with h | h
    · cases h
    · exact List.mem_cons_of_mem _ h
  · exact h

/-- `get_thread_logger` returns over a `consume`. -/
theorem mem_returnLogger_of_mem {l : Addr} {st : List Frame} {pc : ConsumePc}
    {next : StdSet pairKey} {check : StdSet loggerKey} (h : Frame.consume pc next check ∈ st) :
    Frame.consume pc next check ∈ returnLogger l st := by
  unfold returnLogger
  split
  · rcases List.mem_cons.1 h with h | h
    · cases h
    · exact List.mem_cons_of_mem _ h
  · exact h

theorem top_mem_setStack {f : Frame} {st : List Frame} :
    f ∈ ((s.setStack t (f :: st)).threads t).stack := by
  rw [setStack_stack_self]
  exact List.mem_cons_self

/-- A thread that moves in a function it called from `ordered_log` leaves the
`consume` below where it is. -/
theorem mem_stack_step {pc : ConsumePc} {next : StdSet pairKey} {check : StdSet loggerKey}
    (h : Step s t a s') (hf : Frame.consume pc next check ∈ (s.threads t).stack)
    (hcon : ∀ pc next check st, (s.threads t).stack ≠ .consume pc next check :: st)
    (hord : ∀ env st, a = .run t env → (s.threads t).stack ≠ .orderedLog :: st) :
    Frame.consume pc next check ∈ (s'.threads t).stack := by
  cases h with
  | log =>
    rw [setStack_stack_self]
    exact List.mem_cons_of_mem _ (List.mem_cons_of_mem _ hf)
  | consume hst | exit hst => simp [hst] at hf
  | getFast hst =>
    rw [hst] at hf
    rw [setStack_stack_self]
    exact mem_returnLogger_of_mem (by simpa using hf)
  | getUnlock hst =>
    rw [hst] at hf
    change _ ∈ ((s.setStack t _).threads t).stack
    rw [setStack_stack_self]
    exact mem_returnLogger_of_mem (by simpa using hf)
  | getNew hst | getPush hst | stamp hst =>
    rw [hst] at hf
    simpa using hf
  | getLock hst | enqueue hst =>
    rw [hst] at hf
    change _ ∈ ((State.setStack _ t _).threads t).stack
    simpa using hf
  | ordered hst => exact absurd hst (hord _ _ rfl)
  | conLock hst | conOuter hst | conEnd hst | firstHit hst | firstMiss hst | drainCall hst
    | drainEnd hst | recheck hst | recheckEnd hst | againHit hst | againMiss hst
    | conUnlock hst => exact absurd hst (hcon _ _ _ _)

/-- And it puts none there. -/
theorem mem_of_mem_stack_step {pc : ConsumePc} {next : StdSet pairKey} {check : StdSet loggerKey}
    (h : Step s t a s') (hf : Frame.consume pc next check ∈ (s'.threads t).stack)
    (hcall : a ≠ .consume t)
    (hcon : ∀ pc next check st, (s.threads t).stack ≠ .consume pc next check :: st)
    (hord : ∀ env st, a = .run t env → (s.threads t).stack ≠ .orderedLog :: st) :
    Frame.consume pc next check ∈ (s.threads t).stack := by
  cases h with
  | log => simpa using hf
  | consume => exact absurd rfl hcall
  | exit hst => simp [hst] at hf
  | getFast hst =>
    rw [setStack_stack_self] at hf
    exact hst ▸ List.mem_cons_of_mem _ (mem_returnLogger hf)
  | getUnlock hst =>
    change Frame.consume _ _ _ ∈ ((s.setStack t _).threads t).stack at hf
    rw [setStack_stack_self] at hf
    exact hst ▸ List.mem_cons_of_mem _ (mem_returnLogger hf)
  | getNew hst | getPush hst | stamp hst =>
    rw [hst]
    simpa using hf
  | getLock hst | enqueue hst =>
    change Frame.consume _ _ _ ∈ ((State.setStack _ t _).threads t).stack at hf
    rw [hst]
    simpa using hf
  | ordered hst => exact absurd hst (hord _ _ rfl)
  | conLock hst | conOuter hst | conEnd hst | firstHit hst | firstMiss hst | drainCall hst
    | drainEnd hst | recheck hst | recheckEnd hst | againHit hst | againMiss hst
    | conUnlock hst => exact absurd hst (hcon _ _ _ _)

/-- A `consume` that does not iterate waits for the lock with empty sets,
whatever is registered meanwhile. -/
theorem ConsumeOk.of_lock {pc : ConsumePc} {next : StdSet pairKey} {check : StdSet loggerKey}
    {ls ls' : List Addr} (h : ConsumeOk ls next check pc) (hpc : pc.holds? = some false) :
    ConsumeOk ls' next check pc := by
  cases pc with
  | lock => exact h
  | _ => cases hpc

/-- The record at the head of a queue is at an address of its own. -/
theorem key_ne_of_queue (hc : Custody s) (hd : Discipline s) {l : Addr} {r : Record}
    {q : List Record} (hq : s.queue l = r :: q) : ∀ p ∈ s.held, pairKey p ≠ pairKey (r, l) := by
  intro p hp he
  have haddr : p.1.addr = r.addr := congrArg (fun k : ℕ ×ₗ ℕ => (ofLex k).1) he
  have hmem : (r, l) ∈ s.queued := by
    refine List.mem_flatMap.2 ⟨l, hd.registry.mem_of_queue hq, ?_⟩
    rw [hq]
    exact List.mem_cons_self
  have hdistinct := hc.distinct
  unfold State.pending Lanes.pending at hdistinct
  rw [Multiset.map_add, Multiset.nodup_add] at hdistinct
  refine Multiset.disjoint_left.1 hdistinct.2.2 (Multiset.mem_map_of_mem _ hp) ?_
  rw [haddr]
  exact Multiset.mem_map_of_mem (fun p : MsgLoggerPair => p.1.addr) (Multiset.mem_coe.2 hmem)

theorem held_of_holds (h : s.holds t = true) : s.held = (s.threads t).waiting := by
  unfold State.held
  rw [holds_eq_true.1 h]

/-- A `consume` that is about to move is alone on its stack. -/
theorem Consuming.top (hc : Consuming s) (hs : StacksOk s) {pc : ConsumePc}
    {next : StdSet pairKey} {check : StdSet loggerKey} {st : List Frame}
    (hst : (s.threads t).stack = .consume pc next check :: st) :
    st = [] ∧ ConsumeOk s.loggers next check pc := by
  have hok := hs t
  rw [hst] at hok
  exact ⟨hok.inv_consume.2.2, hc t pc next check (hst ▸ List.mem_cons_self)⟩

/-- The one `consume` of a stack that has nothing else on it. -/
theorem ConsumeOk.of_mem {pc : ConsumePc} {next next' : StdSet pairKey}
    {check check' : StdSet loggerKey} {ls : List Addr} (pc' : ConsumePc)
    (h : ConsumeOk ls next' check' pc')
    (hf : Frame.consume pc next check ∈ [Frame.consume pc' next' check']) :
    ConsumeOk ls next check pc := by
  rw [List.mem_singleton, Frame.consume.injEq] at hf
  obtain ⟨rfl, rfl, rfl⟩ := hf
  exact h

/-- **One step keeps the mover's sets.** -/
theorem consumeOk_step (h : Step s t a s') (hd : Discipline s) (hc : Custody s)
    {pc : ConsumePc} {next : StdSet pairKey} {check : StdSet loggerKey}
    (hf : Frame.consume pc next check ∈ (s'.threads t).stack) :
    ConsumeOk s'.loggers next check pc := by
  have hold := hc.consuming t
  have hn := hd.registry.nodup
  have hback := mem_of_mem_stack_step h hf
  cases h with
  | log hlog =>
    refine hold _ _ _ (hback (by simp) (fun pc next check st hst => ?_) (by simp))
    simp [Thread.canLog, hst] at hlog
  | consume =>
    rw [setStack_stack_self] at hf
    exact ConsumeOk.of_mem .lock ⟨rfl, rfl⟩ hf
  | exit hst => simp [hst] at hf
  | getPush hst =>
    have hok := hd.grammar t
    rw [hst] at hok
    obtain ⟨l, c, item, -, -, rfl⟩ := hok.inv_push
    simp at hf
  | getFast hst | getUnlock hst | getNew hst | getLock hst | stamp hst | enqueue hst =>
    exact hold _ _ _ (hback (by simp) (by simp [hst]) (by simp [hst]))
  | @conLock env st next check hst _ =>
    obtain ⟨rfl, hnext, hcheck⟩ := hc.consuming.top hd.grammar hst
    change Frame.consume _ _ _ ∈ ((s.setStack t _).threads t).stack at hf
    rw [setStack_stack_self] at hf
    have hp : Parted s.loggers 0 next check := by simp [Parted, hnext, hcheck]
    exact ConsumeOk.of_mem (.outer 0) ⟨Nat.zero_le _, hnext, hp⟩ hf
  | conOuter hst hl =>
    obtain ⟨rfl, -, hnext, hp⟩ := hc.consuming.top hd.grammar hst
    rw [setStack_stack_self] at hf
    exact ConsumeOk.of_mem (.tryFirst _ _) ⟨hl, hnext, hp⟩ hf
  | conEnd hst hl =>
    obtain ⟨rfl, hi, hnext, hp⟩ := hc.consuming.top hd.grammar hst
    rw [setStack_stack_self] at hf
    rw [List.getElem?_eq_none_iff] at hl
    rw [le_antisymm hi hl] at hp
    exact ConsumeOk.of_mem .unlock ⟨hnext, hp⟩ hf
  | @firstHit env st next check i l r q hst hq =>
    obtain ⟨rfl, hl, hnext, hp⟩ := hc.consuming.top hd.grammar hst
    rw [setStack_stack_self] at hf
    have hins := StdSet.perm_insert (a := (r, l)) (s := next) (by simp [hnext])
    exact ConsumeOk.of_mem (.drain _)
      ⟨(List.getElem?_eq_some_iff.1 hl).1, hp.wait hl rfl hins⟩ hf
  | firstMiss hst hq =>
    obtain ⟨rfl, hl, hnext, hp⟩ := hc.consuming.top hd.grammar hst
    rw [setStack_stack_self] at hf
    exact ConsumeOk.of_mem (.drain _)
      ⟨(List.getElem?_eq_some_iff.1 hl).1, hp.park hn hl⟩ hf
  | drainCall hst hfirst =>
    obtain ⟨rfl, hi, hp⟩ := hc.consuming.top hd.grammar hst
    change Frame.consume _ _ _ ∈ ((s.setStack t _).threads t).stack at hf
    rw [setStack_stack_self] at hf
    refine ConsumeOk.of_mem (.logging _ _) ⟨hi, StdSet.mem_of_first? hfirst, hp⟩ ?_
    simpa using hf
  | drainEnd hst hfirst =>
    obtain ⟨rfl, hi, hp⟩ := hc.consuming.top hd.grammar hst
    rw [setStack_stack_self] at hf
    exact ConsumeOk.of_mem (.outer _) ⟨hi, StdSet.first?_eq_none.1 hfirst, hp⟩ hf
  | ordered hst =>
    have hok := hd.grammar t
    rw [hst] at hok
    obtain ⟨-, -, i, first, next, check, hst'⟩ := hok.inv_ordered
    obtain ⟨hcon, rfl⟩ := List.cons.inj hst'
    obtain ⟨hi, hmem, hp⟩ := hold _ _ _ (hst ▸ List.mem_cons_of_mem _ List.mem_cons_self)
    rw [setStack_stack_self] at hf
    exact ConsumeOk.of_mem (.recheck _ _) ⟨hi, hp.repark hn hmem, List.Sublist.refl _⟩ hf
  | recheck hst =>
    obtain ⟨rfl, hi, hp, hit⟩ := hc.consuming.top hd.grammar hst
    rw [setStack_stack_self] at hf
    exact ConsumeOk.of_mem (.tryAgain _ _ _) ⟨hi, hp, hit⟩ hf
  | recheckEnd hst =>
    obtain ⟨rfl, hi, hp, -⟩ := hc.consuming.top hd.grammar hst
    rw [setStack_stack_self] at hf
    exact ConsumeOk.of_mem (.drain _) ⟨hi, hp⟩ hf
  | @againHit env st next check i l it r q hst hq =>
    obtain ⟨rfl, hi, hp, hit⟩ := hc.consuming.top hd.grammar hst
    rw [setStack_stack_self] at hf
    have hl : l ∈ check.toList := hit.subset List.mem_cons_self
    have hok := hd.grammar t
    rw [hst] at hok
    have hheld : s.held = next.toList := by
      rw [held_of_holds (Option.some.inj hok.inv_consume.2.1).symm, Thread.waiting, hst]
      simp [Frame.waiting]
    have hins := StdSet.perm_insert fun p hpn => key_ne_of_queue hc hd hq p (hheld ▸ hpn)
    -- the loop erases what it has just stepped past
    have hnl : l ∉ it := (List.nodup_cons.1 (check.nodup.sublist hit)).1
    have hkeep : it = it.filter fun b => loggerKey b ≠ loggerKey l :=
      (List.filter_eq_self.2 fun b hb =>
        decide_eq_true (p := b ≠ l) fun he => hnl (he ▸ hb)).symm
    have hsub : it.Sublist (check.erase l).toList := by
      rw [hkeep]
      exact (List.sublist_of_cons_sublist hit).filter _
    exact ConsumeOk.of_mem (.recheck _ _) ⟨hi, hp.unpark hl rfl hins, hsub⟩ hf
  | againMiss hst hq =>
    obtain ⟨rfl, hi, hp, hit⟩ := hc.consuming.top hd.grammar hst
    rw [setStack_stack_self] at hf
    exact ConsumeOk.of_mem (.recheck _ _) ⟨hi, hp, List.sublist_of_cons_sublist hit⟩ hf
  | conUnlock hst =>
    obtain ⟨rfl, -⟩ := hc.consuming.top hd.grammar hst
    change Frame.consume _ _ _ ∈ ((s.setStack t _).threads t).stack at hf
    simp at hf

/-- **One step keeps every `consume` where its sets say.** -/
theorem consuming_step (h : Step s t a s') (hd : Discipline s) (hc : Custody s) :
    Consuming s' := by
  intro u pc next check hf
  by_cases hut : u = t
  · subst hut
    exact consumeOk_step h hd hc hf
  · rw [threads_of_ne h hut] at hf
    have hold := hc.consuming u pc next check hf
    by_cases hpc : pc.holds? = some false
    · exact hold.of_lock hpc
    · rw [loggers_eq_of_iterating hd.grammar h ⟨pc, next, check, hf, hpc⟩]
      exact hold

end Consuming

end Logger

end AppServer
