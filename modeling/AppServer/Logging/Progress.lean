import AppServer.Logging.Delivery

/-!
# Nobody is held up

Each queue is used as it must be, by one thread a side (`single_sided`), so
that all that holds of a queue with one producer and one consumer holds of
it. A thread in a function of a queue can always go on (`accesses_proceed`)
and is back after a few steps of its own, whatever the others do meanwhile
(`access_bounded`): who logs does not wait for `consume`, nor `consume` for
who logs.
-/

namespace AppServer

namespace Logging

open Lib
open Queue (BlockPtr)
open Logger (Addr ThreadId Record Env FreshAddr)

variable {s s' : State} {t u : ThreadId} {l : Addr} {r : Record} {m : BlockPtr}
  {la : Logger.Action} {as : List Action} {acc : Access} {q q' : Blocking.State Record}
  {b : Blocking.Action Record}

/-! ## What a step does to the queues -/

/-- What a step of thread `t` does to the queues. -/
inductive Moves (s : State) (t : ThreadId) (s' : State) : Prop where
  /-- Nothing. -/
  | away (hacc : access (s.logger.threads t).stack = none) (hmessages : s'.messages = s.messages)
  /-- It makes one. -/
  | makes {l : Addr} {mem : ℕ → BlockPtr} {q : Blocking.State Record}
      (hacc : access (s.logger.threads t).stack = none) (hnone : s.messages l = none)
      (hq : Blocking.construct MAX_BLOCK_SIZE maxSize mem = some q)
      (hmessages : s'.messages = Function.update s.messages l (some q))
  /-- It calls `enqueue`, or is in it. -/
  | enqueue {l : Addr} {r : Record} {b : Blocking.Action Record} {q q' : Blocking.State Record}
      (hacc : access (s.logger.threads t).stack = some (.enqueue l r))
      (hq : s.messages l = some q)
      (hs : Blocking.step MAX_BLOCK_SIZE.toNat spins q b = some q')
      (hps : Blocking.ProducerStep MAX_BLOCK_SIZE.toNat q b q')
      (hb : b = .enqueue .canAlloc r ∧ q.producer.calling = false ∨
        ∃ m, b = .produce m ∧ q.producer.calling = true)
      (hback : q'.producer.calling = true ∧ s'.logger = s.logger ∨
        access (s'.logger.threads t).stack = none)
      (hmessages : s'.messages = Function.update s.messages l (some q'))
  /-- It calls `try_dequeue`, or is in it. -/
  | tryDequeue {l : Addr} {b : Blocking.Action Record} {q q' : Blocking.State Record}
      (hacc : access (s.logger.threads t).stack = some (.tryDequeue l))
      (hq : s.messages l = some q)
      (hs : Blocking.step MAX_BLOCK_SIZE.toNat spins q b = some q')
      (hcs : Blocking.ConsumerStep MAX_BLOCK_SIZE.toNat spins q b q')
      (hb : b = .dequeue .tryDequeue ∧ q.consumer.calling = false ∨
        b = .consume ∧ q.consumer.calling = true)
      (hback : q'.consumer.calling = true ∧ s'.logger = s.logger ∨
        access (s'.logger.threads t).stack = none)
      (hmessages : s'.messages = Function.update s.messages l (some q'))

/-- A call has begun, or goes on, if it has an element to put in. -/
theorem calling_of_element {x : Record} {pc : Blocking.ProducerPc Record}
    (h : pc.element = some x) : pc.calling = true := by
  cases pc with
  | idle => cases h
  | returned => cases h
  | _ => rfl

theorem moves (h : Refined s) (hs : Step s t la m s') (ht : la.thread = t) : Moves s t s' := by
  cases hs with
  | plain hacc hnew hlg => exact .away hacc rfl
  | @makes env mem lg' q hla hnew hlg hq =>
    subst hla
    obtain ⟨hnone, -⟩ := getNew_of_allocates (Logger.step_cases hlg) hnew
    have hheap := h.heap env.logger
    rw [hnone, Option.isSome_none, eq_comm, Option.isSome_eq_false_iff,
      Option.isNone_iff_eq_none] at hheap
    exact .makes (access_of_allocates hnew) hheap hq rfl
  | enqueue hacc hq hcalling hqs =>
    have hps := Blocking.enqueue_cases (n := MAX_BLOCK_SIZE.toNat) hqs
    exact .enqueue hacc hq hqs hps (.inl ⟨rfl, hcalling⟩)
      (.inl ⟨calling_of_element hps.entered.1, rfl⟩) rfl
  | enqueueOn hacc hq hcalling hqs hgo =>
    have hok := h.queues _ _ hq
    have hps := Blocking.advanceProducer_cases hqs
    refine .enqueue hacc hq hqs hps (.inr ⟨m, rfl, hcalling⟩) (.inl ⟨?_, rfl⟩) rfl
    cases hps.effect hok.sound hok.tryOnly (hok.element h.discipline hacc hcalling) with
    | on helement => exact calling_of_element helement
    | put hret => exact absurd hret (hgo true)
    | failed hret => exact absurd hret (hgo false)
  | enqueued hla hacc hq hcalling hqs hret hlg =>
    subst ht
    have heffect := queueEffect (Logger.step_cases hlg) h.discipline
    exact .enqueue hacc hq hqs (Blocking.advanceProducer_cases hqs) (.inr ⟨m, rfl, hcalling⟩)
      (.inr (heffect.access_eq hacc)) rfl
  | dropped hla hacc hq hcalling hqs hret =>
    refine .enqueue hacc hq hqs (Blocking.advanceProducer_cases hqs) (.inr ⟨m, rfl, hcalling⟩)
      (.inr ?_) rfl
    obtain ⟨c, item, st, hst⟩ := access_eq_enqueue hacc
    have hok := h.discipline.grammar t
    rw [hst] at hok
    show access ((s.logger.setStack t (s.logger.threads t).stack.tail).threads t).stack = none
    rw [Logger.setStack_stack_self, hst]
    exact access_of_context hok.inv_enqueue.2
  | tryDequeue hacc hq hcalling hqs =>
    obtain ⟨-, hq'⟩ := Option.ite_none_left_eq_some.1 hqs
    obtain rfl := Option.some.inj hq'
    exact .tryDequeue hacc hq hqs (.call hcalling) (.inl ⟨rfl, hcalling⟩) (.inl ⟨rfl, rfl⟩) rfl
  | tryDequeueOn hacc hq hcalling hqs hgo =>
    have hok := h.queues _ _ hq
    have hcs := Blocking.advanceConsumer_cases (n := MAX_BLOCK_SIZE.toNat) hqs
    refine .tryDequeue hacc hq hqs hcs (.inr ⟨rfl, hcalling⟩) (.inl ⟨?_, rfl⟩) rfl
    cases hcs.effect hok.sound hok.tryOnly with
    | on _ hcall => exact hcall
    | took hpc => rw [hpc] at hgo; cases hgo
    | nothing hpc => rw [hpc] at hgo; cases hgo
  | @tryDequeued env l result lg' q q' hla hacc hq hcalling hqs hret hlg =>
    subst hla
    obtain ⟨-, hstep⟩ := h.tryDequeued hacc hq hqs hret hlg
    have heffect := queueEffect (Logger.step_cases hstep) h.discipline
    exact .tryDequeue hacc hq hqs (Blocking.advanceConsumer_cases hqs) (.inr ⟨rfl, hcalling⟩)
      (.inr (heffect.access_eq hacc)) rfl

/-- A thread stays in the function it is in, or comes out of it. -/
theorem Moves.access_eq {acc' : Access} (hm : Moves s t s')
    (hacc : access (s.logger.threads t).stack = some acc)
    (hacc' : access (s'.logger.threads t).stack = some acc') : acc' = acc := by
  have hstays : ∀ {P : Prop}, (P ∧ s'.logger = s.logger ∨
      access (s'.logger.threads t).stack = none) → acc' = acc := by
    rintro P (⟨-, hsame⟩ | hnone)
    · rw [hsame, hacc] at hacc'
      exact (Option.some.inj hacc').symm
    · rw [hnone] at hacc'
      cases hacc'
  cases hm with
  | away hnone => rw [hacc] at hnone; cases hnone
  | makes hnone => rw [hacc] at hnone; cases hnone
  | enqueue _ _ _ _ _ hback => exact hstays hback
  | tryDequeue _ _ _ _ _ hback => exact hstays hback

/-! ## One thread a side -/

/-- Every queue is in a state its two sides bring it to. -/
def Proper (s : State) : Prop :=
  ∀ l q, s.messages l = some q → Blocking.Reachable MAX_BLOCK_SIZE spins q

theorem Proper.update (h : Proper s)
    (hmessages : s'.messages = Function.update s.messages l (some q))
    (hq : Blocking.Reachable MAX_BLOCK_SIZE spins q) : Proper s' := by
  intro l' q' hq'
  rw [hmessages] at hq'
  by_cases hl : l' = l
  · subst hl
    rw [Function.update_self] at hq'
    exact Option.some.inj hq' ▸ hq
  · rw [Function.update_of_ne hl] at hq'
    exact h l' q' hq'

theorem proper_of_moves (h : Proper s) (hm : Moves s t s') : Proper s' := by
  have hnext : ∀ {q b q'}, Blocking.Reachable MAX_BLOCK_SIZE spins q →
      Blocking.step MAX_BLOCK_SIZE.toNat spins q b = some q' →
      Blocking.Reachable MAX_BLOCK_SIZE spins (q' : Blocking.State Record) := by
    rintro q b q' ⟨maxSize, mem, q₀, hq₀, bs, hr⟩ hs
    exact ⟨maxSize, mem, q₀, hq₀, _, hr.snoc trivial hs⟩
  cases hm with
  | away hacc hmessages =>
    intro l q hq
    rw [hmessages] at hq
    exact h l q hq
  | makes hacc hnone hq hmessages =>
    exact h.update hmessages ⟨_, _, _, hq, [], .nil⟩
  | enqueue hacc hq hs hps hb hback hmessages => exact h.update hmessages (hnext (h _ _ hq) hs)
  | tryDequeue hacc hq hs hcs hb hback hmessages => exact h.update hmessages (hnext (h _ _ hq) hs)

/-- **Each queue has one producer and one consumer**, in every run: its state
is one that two threads bring a queue to, each on its side, so that what holds
of such a queue holds of it; at most one thread is in `enqueue` and at most
one in `try_dequeue`; and a call that is not over is that thread's, with its
record. -/
theorem single_sided {guard : State → Action → Prop} (h : Run step guard State.initial as s)
    (hq : s.messages l = some q) :
    Blocking.Reachable MAX_BLOCK_SIZE spins q ∧
    (∀ t u r r', access (s.logger.threads t).stack = some (.enqueue l r) →
      access (s.logger.threads u).stack = some (.enqueue l r') → t = u ∧ r = r') ∧
    (∀ t u, access (s.logger.threads t).stack = some (.tryDequeue l) →
      access (s.logger.threads u).stack = some (.tryDequeue l) → t = u) ∧
    (q.producer.calling = true → ∃ t r,
      access (s.logger.threads t).stack = some (.enqueue l r) ∧ q.producer.element = some r) ∧
    (q.consumer.calling = true → ∃ t,
      access (s.logger.threads t).stack = some (.tryDequeue l)) := by
  have hI := h.invariant (I := fun s => Refined s ∧ Proper s)
    ⟨refined_initial, fun _ _ hq => by cases hq⟩ fun s a s' hI _ hs =>
      ⟨(hI.1.step hs).1, proper_of_moves hI.2 (moves hI.1 (step_cases hs) rfl)⟩
  have hok := hI.1.queues l q hq
  exact ⟨hI.2 l q hq, fun t u r r' ht hu => enqueuer_unique hI.1.discipline ht hu,
    fun t u ht hu => dequeuer_unique hI.1.discipline ht hu, hok.producer, hok.consumer⟩

/-- Thread 0 is in the middle of an `enqueue` and thread 1 of a
`try_dequeue`. -/
def bothRun : List Action :=
  sampleLog 0 :: walk 0 0 15 1 ++ .consume 1 :: walk 1 15 14 1 ++ sampleLog 0 :: walk 0 30 4 1 ++
    walk 1 40 1 1

theorem single_sided_both : ∃ (s : State) (q : Blocking.State Record),
    Run step (fun _ _ => True) State.initial bothRun s ∧ s.messages 100 = some q ∧
    (q.producer.calling = true ∧ q.consumer.calling = true) ∧
    Blocking.Reachable MAX_BLOCK_SIZE spins q ∧
    (∀ t u r r', access (s.logger.threads t).stack = some (.enqueue 100 r) →
      access (s.logger.threads u).stack = some (.enqueue 100 r') → t = u ∧ r = r') ∧
    (∀ t u, access (s.logger.threads t).stack = some (.tryDequeue 100) →
      access (s.logger.threads u).stack = some (.tryDequeue 100) → t = u) ∧
    (q.producer.calling = true → ∃ t r,
      access (s.logger.threads t).stack = some (.enqueue 100 r) ∧
        q.producer.element = some r) ∧
    (q.consumer.calling = true → ∃ t,
      access (s.logger.threads t).stack = some (.tryDequeue 100)) := by
  obtain ⟨s, hrun, hP⟩ : ∃ s, Run step (fun _ _ => True) State.initial bothRun s ∧
      (s.messages 100).any (fun q => q.producer.calling && q.consumer.calling) = true :=
    Run.exists_of_exec (by decide +kernel)
  obtain ⟨q, hq, hcalling⟩ := (Option.any_eq_true _ _).1 hP
  exact ⟨s, q, hrun, hq, Bool.and_eq_true_iff.1 hcalling, single_sided hrun hq⟩

/-! ## They can go on -/

/-- Where a thread is at a queue there is one. -/
theorem exists_of_access (h : Refined s) (hc : Logger.Custody s.logger)
    (hacc : access (s.logger.threads t).stack = some acc) :
    ∃ q, s.messages acc.logger = some q := by
  rw [← Option.isSome_iff_exists, ← h.heap]
  cases acc with
  | enqueue l r =>
    obtain ⟨c, item, st, hst⟩ := access_eq_enqueue hacc
    have howner := Logger.owner_of_enqueuing h.discipline (t := t) (l := l)
      ⟨c, item, r, hst ▸ List.mem_cons_self⟩
    obtain ⟨lgr, hlgr, -⟩ := Option.map_eq_some_iff.1 howner
    exact Option.isSome_iff_exists.2 ⟨lgr, hlgr⟩
  | tryDequeue l =>
    refine h.discipline.registry.isSome_of_mem ?_
    obtain ⟨pc, next, check, st, hst, hpc⟩ := access_eq_tryDequeue hacc
    obtain ⟨-, hok⟩ := hc.consuming.top h.discipline.grammar hst
    cases pc with
    | tryFirst i l' =>
      obtain rfl := Option.some.inj hpc
      exact List.mem_of_getElem? hok.1
    | tryAgain i l' it =>
      obtain rfl := Option.some.inj hpc
      have hmem := hok.2.2.subset List.mem_cons_self
      exact List.mem_of_mem_take (hok.2.1.subset (List.mem_append_left _ hmem))
    | _ => cases hpc

/-- The logger's step is there to be taken. -/
theorem can_advance {lg : Logger.State} (env : Env)
    (hacc : access (lg.threads t).stack = some acc) :
    ∃ lg', Logger.advance lg t env = some lg' := by
  cases acc with
  | enqueue l r =>
    obtain ⟨c, item, st, hst⟩ := access_eq_enqueue hacc
    exact ⟨_, by rw [Logger.advance, hst]; rfl⟩
  | tryDequeue l =>
    obtain ⟨pc, next, check, st, hst, hpc⟩ := access_eq_tryDequeue hacc
    simp only [Logger.advance, hst]
    cases pc with
    | tryFirst i l' =>
      simp only [Logger.advanceConsume]
      split
      · exact ⟨_, rfl⟩
      · exact ⟨_, rfl⟩
    | tryAgain i l' it =>
      simp only [Logger.advanceConsume]
      split
      · exact ⟨_, rfl⟩
      · exact ⟨_, rfl⟩
    | _ => cases hpc

/-- The queue is there, and neither `enqueue` nor `try_dequeue` fails an
assertion or waits. -/
theorem can_go_on (hrefined : Refined s) (hc : Logger.Custody s.logger)
    (hacc : access (s.logger.threads t).stack = some acc) :
    ∃ q, s.messages acc.logger = some q ∧ ∀ env mem,
      mem 0 = Queue.nullptr ∨ q.inner.heap (mem 0) = none →
        ∃ s', step s (.run t env mem) = some s' := by
  obtain ⟨q, hq⟩ := exists_of_access hrefined hc hacc
  refine ⟨q, hq, fun env mem hm => ?_⟩
  have hok := hrefined.queues _ q hq
  show ∃ s', advance s t env mem = some s'
  simp only [advance, hacc]
  cases acc with
  | enqueue l r =>
    have hq : s.messages l = some q := hq
    simp only [advanceEnqueue, hq, Option.bind_some]
    cases hcalling : q.producer.calling with
    | true =>
      obtain ⟨q', hs⟩ : ∃ q', Blocking.step MAX_BLOCK_SIZE.toNat spins q (.produce (mem 0)) =
          some q' := hok.sound.can_produce hcalling hm
      have hadv : Blocking.advanceProducer MAX_BLOCK_SIZE.toNat q (mem 0) = some q' := hs
      rw [if_pos rfl, hadv, Option.bind_some]
      split
      · obtain ⟨lg', hlg⟩ := can_advance env hacc
        have hlg : Logger.advance (s.setMessages l q').logger t env = some lg' := hlg
        exact ⟨_, by rw [hlg]; rfl⟩
      · exact ⟨_, rfl⟩
      · exact ⟨_, rfl⟩
    | false =>
      obtain ⟨q', hs⟩ := hok.sound.can_enqueue .canAlloc r hcalling
      rw [if_neg Bool.false_ne_true, hs]
      exact ⟨_, rfl⟩
  | tryDequeue l =>
    have hq : s.messages l = some q := hq
    simp only [advanceTryDequeue, hq, Option.bind_some]
    cases hcalling : q.consumer.calling with
    | true =>
      have hawake : ¬ q.Asleep := by
        rintro ⟨⟨op, hpc⟩, -⟩
        have htry := hok.tryOnly
        rw [hpc] at htry
        cases htry
      obtain ⟨q', hs⟩ := (hok.sound.can_consume (n := MAX_BLOCK_SIZE.toNat)
        hcalling).resolve_right hawake
      have hadv : Blocking.advanceConsumer spins q = some q' := hs
      rw [if_pos rfl, hadv, Option.bind_some]
      split
      · rename_i result _
        have hacc' : access ((s.logger.setQueue l (found (s.logger.queue l) result)).threads
            t).stack = some (.tryDequeue l) := hacc
        obtain ⟨lg', hlg⟩ := can_advance env hacc'
        have hlg : Logger.advance ((s.setMessages l q').logger.setQueue l
            (found ((s.setMessages l q').logger.queue l) result)) t env = some lg' := hlg
        exact ⟨_, by rw [hlg]; rfl⟩
      · exact ⟨_, rfl⟩
    | false =>
      rw [if_neg Bool.false_ne_true, Blocking.dequeue, hcalling]
      exact ⟨_, rfl⟩

/-! ## And come to an end -/

/-- How many steps a call still takes at most. -/
def remainingAt (q : Blocking.State Record) : Access → ℕ
  | .enqueue _ _ => if q.producer.calling then q.producing else 9
  | .tryDequeue _ => if q.consumer.calling then q.remaining else 11

/-- How many it takes from its beginning. -/
def Access.bound : Access → ℕ
  | .enqueue _ _ => 9
  | .tryDequeue _ => 11

theorem remainingAt_le (q : Blocking.State Record) (acc : Access) :
    remainingAt q acc ≤ acc.bound := by
  cases acc with
  | enqueue l r =>
    simp only [remainingAt]
    split
    · exact q.producing_le.trans (Nat.le_succ 8)
    · exact le_refl _
  | tryDequeue l =>
    simp only [remainingAt]
    split
    · exact q.remaining_le
    · exact le_refl _

/-- A queue just made. -/
theorem remainingAt_construct {mem : ℕ → BlockPtr}
    (hq : Blocking.construct MAX_BLOCK_SIZE maxSize mem = some q) (acc : Access) :
    remainingAt q acc = acc.bound := by
  obtain ⟨-, hprod, hcons, -⟩ := Blocking.contents_construct hq (by decide)
  cases acc with
  | enqueue l r => rw [remainingAt, hprod]; rfl
  | tryDequeue l => rw [remainingAt, hcons]; rfl

/-- How many steps thread `t` still takes at most in this function. -/
def State.remaining (s : State) (t : ThreadId) (acc : Access) : ℕ :=
  if access (s.logger.threads t).stack = some acc then
    ((s.messages acc.logger).map fun q => remainingAt q acc).getD acc.bound
  else 0

theorem State.remaining_le (s : State) (t : ThreadId) (acc : Access) :
    s.remaining t acc ≤ acc.bound := by
  rw [State.remaining]
  split
  · cases s.messages acc.logger with
    | none => exact le_refl _
    | some q => exact remainingAt_le q acc
  · exact Nat.zero_le _

theorem State.remaining_of_access (hacc : access (s.logger.threads t).stack = some acc)
    (hq : s.messages acc.logger = some q) : s.remaining t acc = remainingAt q acc := by
  rw [State.remaining, if_pos hacc, hq]
  rfl

/-- A step of `enqueue` brings its end closer. -/
theorem remainingAt_enqueue {n : ℕ} (hps : Blocking.ProducerStep n q b q')
    (hb : b = .enqueue .canAlloc r ∧ q.producer.calling = false ∨
      ∃ m, b = .produce m ∧ q.producer.calling = true)
    (hcalling : q'.producer.calling = true) :
    remainingAt q' (.enqueue l r) < remainingAt q (.enqueue l r) := by
  rcases hb with ⟨rfl, hidle⟩ | ⟨m, rfl, hcall⟩
  · simp only [remainingAt, hidle, hcalling, if_true, Bool.false_eq_true, if_false]
    exact Nat.lt_succ_of_le q'.producing_le
  · simp only [remainingAt, hcall, hcalling, if_true]
    exact hps.producing

/-- One of `try_dequeue` does. -/
theorem remainingAt_tryDequeue {n : ℕ} (hcs : Blocking.ConsumerStep n spins q b q')
    (htry : q.consumer.tryOnly = true)
    (hb : b = .dequeue .tryDequeue ∧ q.consumer.calling = false ∨
      b = .consume ∧ q.consumer.calling = true)
    (hcalling : q'.consumer.calling = true) :
    remainingAt q' (.tryDequeue l) < remainingAt q (.tryDequeue l) := by
  rcases hb with ⟨rfl, hidle⟩ | ⟨rfl, hcall⟩
  · have hten : q'.remaining = 10 := by
      generalize ha : (.dequeue .tryDequeue : Blocking.Action Record) = a at hcs
      cases hcs with
      | call => rfl
      | _ => cases ha
    simp only [remainingAt, hidle, hcalling, if_true, Bool.false_eq_true, if_false, hten]
    exact Nat.lt_succ_self 10
  · simp only [remainingAt, hcall, hcalling, if_true]
    exact hcs.remaining_tryOnly htry

/-- **A step of the thread's own** brings the end of its function closer. -/
theorem remaining_own (h : Refined s) (hm : Moves s t s')
    (hacc : access (s.logger.threads t).stack = some acc) :
    s'.remaining t acc < s.remaining t acc := by
  cases hm with
  | away hnone => rw [hacc] at hnone; cases hnone
  | makes hnone => rw [hacc] at hnone; cases hnone
  | @enqueue l r b q q' henq hq hs hps hb hback hmessages =>
    obtain rfl := Option.some.inj (hacc.symm.trans henq)
    rw [State.remaining_of_access hacc hq]
    by_cases hin : access (s'.logger.threads t).stack = some (.enqueue l r)
    · have hq' : s'.messages l = some q' := by rw [hmessages, Function.update_self]
      rw [State.remaining_of_access hin hq']
      refine remainingAt_enqueue hps hb (hback.resolve_right fun hnone => ?_).1
      rw [hin] at hnone
      cases hnone
    · rw [State.remaining, if_neg hin]
      simp only [remainingAt]
      split
      · rcases hb with ⟨-, hidle⟩ | ⟨m, rfl, -⟩
        · rename_i hcall
          rw [hidle] at hcall
          cases hcall
        · exact Nat.zero_lt_of_lt hps.producing
      · exact Nat.succ_pos 8
  | @tryDequeue l b q q' hdeq hq hs hcs hb hback hmessages =>
    obtain rfl := Option.some.inj (hacc.symm.trans hdeq)
    rw [State.remaining_of_access hacc hq]
    have htry := (h.queues _ _ hq).tryOnly
    by_cases hin : access (s'.logger.threads t).stack = some (.tryDequeue l)
    · have hq' : s'.messages l = some q' := by rw [hmessages, Function.update_self]
      rw [State.remaining_of_access hin hq']
      refine remainingAt_tryDequeue hcs htry hb (hback.resolve_right fun hnone => ?_).1
      rw [hin] at hnone
      cases hnone
    · rw [State.remaining, if_neg hin]
      simp only [remainingAt]
      split
      · rcases hb with ⟨-, hidle⟩ | ⟨rfl, -⟩
        · rename_i hcall
          rw [hidle] at hcall
          cases hcall
        · exact Nat.zero_lt_of_lt (hcs.remaining_tryOnly htry)
      · exact Nat.succ_pos 10

/-- **A step of another's** leaves it where it is. -/
theorem remaining_other (h : Refined s) (hm : Moves s u s') (hne : u ≠ t)
    (hacc : access (s.logger.threads t).stack = some acc)
    (hstack : s'.logger.threads t = s.logger.threads t) :
    s'.remaining t acc = s.remaining t acc := by
  have hmoved : ∀ {l q q'}, s.messages l = some q →
      s'.messages = Function.update s.messages l (some q') →
      (acc.logger = l → remainingAt q' acc = remainingAt q acc) →
      s'.remaining t acc = s.remaining t acc := by
    intro l q q' hq hmessages hsame
    simp only [State.remaining, hstack, if_pos hacc, hmessages]
    by_cases hl : acc.logger = l
    · rw [hl, Function.update_self, hq, Option.map_some, Option.map_some, hsame hl]
    · rw [Function.update_of_ne hl]
  cases hm with
  | away _ hmessages => simp only [State.remaining, hstack, hmessages]
  | @makes l mem q _ hnone hq hmessages =>
    simp only [State.remaining, hstack, if_pos hacc, hmessages]
    by_cases hl : acc.logger = l
    · rw [hl, Function.update_self, hnone]
      exact remainingAt_construct hq acc
    · rw [Function.update_of_ne hl]
  | @enqueue l r b q q' henq hq hs hps hb hback hmessages =>
    refine hmoved hq hmessages fun hl => ?_
    cases acc with
    | enqueue l' r' =>
      obtain rfl : l' = l := hl
      exact absurd (enqueuer_unique h.discipline henq hacc).1 hne
    | tryDequeue l' =>
      rw [remainingAt, remainingAt, hps.consumer_eq, hps.remaining_eq]
  | @tryDequeue l b q q' hdeq hq hs hcs hb hback hmessages =>
    refine hmoved hq hmessages fun hl => ?_
    obtain ⟨hprod, hinner, -⟩ := hcs.counted
    cases acc with
    | enqueue l' r' =>
      rw [remainingAt, remainingAt, hprod, Blocking.State.producing_congr hprod hinner]
    | tryDequeue l' => exact absurd (dequeuer_unique h.discipline hdeq hacc) hne

/-- A step of thread `t`. -/
def Action.isOf (t : ThreadId) (a : Action) : Bool := a.logger.thread = t

/-- Of whatever happens while thread `t` is in this function of a queue, so
many steps at most are its own. -/
theorem own_steps_le (h : Refined s) {bs : List Action}
    (hr : Run step (fun s _ => access (s.logger.threads t).stack = some acc) s bs s') :
    bs.countP (Action.isOf t) ≤ acc.bound := by
  have hpot := hr.potential (I := Refined) (p := fun s => s.remaining t acc) (c := fun _ => 0)
    (k := Action.isOf t) h (fun s a s' hI _ hs => (hI.step hs).1) fun s a s' hI hacc hs => ?_
  · have hle := s.remaining_le t acc
    omega
  · have hm := moves hI (step_cases hs) rfl
    by_cases ht : a.logger.thread = t
    · have hlt := remaining_own hI (ht ▸ hm) hacc
      rw [Action.isOf, decide_eq_true ht, if_pos rfl]
      omega
    · have hstack := (step_cases hs).threads_of_ne rfl (Ne.symm ht)
      have heq := remaining_other hI hm ht hacc hstack
      rw [Action.isOf, decide_eq_false ht, if_neg Bool.false_ne_true]
      omega

/-- **Nobody waits at a queue**: a thread in `enqueue` or `try_dequeue` can
take its next step whatever the others are in the middle of, and while it is
there at most 9 steps, or 11, of all that happens are its own. -/
theorem accesses_wait_free (h : Run step (Action.Meets FreshAddr) State.initial as s)
    (hacc : access (s.logger.threads t).stack = some acc) :
    (∃ q, s.messages acc.logger = some q ∧ ∀ env mem,
      mem 0 = Queue.nullptr ∨ q.inner.heap (mem 0) = none →
        ∃ s', step s (.run t env mem) = some s') ∧
    ∀ bs s', Run step (fun s _ => access (s.logger.threads t).stack = some acc) s bs s' →
      bs.countP (Action.isOf t) ≤ acc.bound := by
  obtain ⟨bs, hbs⟩ := trace_of_run h
  have hrefined := Refined.of_run h
  exact ⟨can_go_on hrefined (accounted_lossy hbs.run).custody hacc,
    fun _ _ hr => own_steps_le hrefined hr⟩

/-- Thread 0 is in `enqueue` and thread 1 in `try_dequeue`, on one queue. -/
theorem accesses_wait_free_both : ∃ (s : State) (acc : Access),
    Run step (Action.Meets FreshAddr) State.initial bothRun s ∧ acc.logger = 100 ∧
    (access (s.logger.threads 0).stack = some acc ∧
      access (s.logger.threads 1).stack = some (.tryDequeue 100)) ∧
    ((∃ q, s.messages acc.logger = some q ∧ ∀ env mem,
      mem 0 = Queue.nullptr ∨ q.inner.heap (mem 0) = none →
        ∃ s', step s (.run 0 env mem) = some s') ∧
    ∀ bs s', Run step (fun s _ => access (s.logger.threads 0).stack = some acc) s bs s' →
      bs.countP (Action.isOf 0) ≤ acc.bound) := by
  obtain ⟨s, hrun, hlogger, hdeq⟩ : ∃ s, Run step (Action.Meets FreshAddr) State.initial bothRun s ∧
      (access (s.logger.threads 0).stack).map Access.logger = some 100 ∧
      access (s.logger.threads 1).stack = some (.tryDequeue 100) :=
    fresh_of_exec (n := 2) (by decide +kernel)
  obtain ⟨acc, hacc, hl⟩ := Option.map_eq_some_iff.1 hlogger
  exact ⟨s, acc, hrun, hl, ⟨hacc, hdeq⟩, accesses_wait_free hrun hacc⟩

end Logging

end AppServer
