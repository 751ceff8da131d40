import AppServer.Blocking.TryDequeue
import AppServer.Logger.Roles
import AppServer.Logging.Lossy

/-!
# The logger is right about its queues

What the logger's model takes for granted of a queue is so: with one thread
at a time on each side, which the logger sees to itself, an `enqueue` or a
`try_dequeue` on the lock-free queue does as one step of its own would. The
step is the last of the call, and the others change nothing the logger sees.
-/

namespace AppServer

namespace Logging

open Queue (BlockPtr)
open Logger (Addr ThreadId Record Frame Env Discipline)

variable {lg lg' : Logger.State} {la : Logger.Action} {t u : ThreadId} {l : Addr} {r r' : Record}
  {st : List Frame}

/-! ## Who is at a queue -/

/-- The queue an access is to. -/
def Access.logger : Access → Addr
  | .enqueue l _ => l
  | .tryDequeue l => l

theorem allocates_of_access {th : Logger.Thread} {acc : Access}
    (h : access th.stack = some acc) : allocates th = false := by
  unfold allocates
  split
  · rename_i hst
    rw [hst] at h
    cases h
  · rfl

theorem access_of_allocates {th : Logger.Thread} (h : allocates th = true) :
    access th.stack = none := by
  by_contra hne
  obtain ⟨acc, hacc⟩ := Option.ne_none_iff_exists'.1 hne
  rw [allocates_of_access hacc] at h
  cases h

theorem access_eq_tryDequeue (h : access st = some (.tryDequeue l)) :
    ∃ pc next check st', st = .consume pc next check :: st' ∧ pc.dequeues? = some l := by
  unfold access at h
  split at h
  · cases h
  · obtain rfl := Access.tryDequeue.inj (Option.some.inj h)
    exact ⟨_, _, _, _, rfl, rfl⟩
  · obtain rfl := Access.tryDequeue.inj (Option.some.inj h)
    exact ⟨_, _, _, _, rfl, rfl⟩
  · cases h

/-- The stacks a log call is made from are at no queue. -/
theorem access_of_context {g : Logger.Stage} {b : Bool} (hc : Logger.LogContext g b st) :
    access st = none := by
  cases hc with
  | _ => rfl

/-- **One thread at a time enqueues on a queue.** -/
theorem enqueuer_unique (hd : Discipline lg)
    (ht : access (lg.threads t).stack = some (.enqueue l r))
    (hu : access (lg.threads u).stack = some (.enqueue l r')) : t = u ∧ r = r' := by
  have howner : ∀ {t r}, access (lg.threads t).stack = some (.enqueue l r) →
      lg.ownerOf l = some t := by
    intro t r ht
    obtain ⟨c, item, st, hst⟩ := access_eq_enqueue ht
    exact Logger.owner_of_enqueuing hd ⟨c, item, r, hst ▸ List.mem_cons_self⟩
  obtain rfl : t = u := Option.some.inj ((howner ht).symm.trans (howner hu))
  rw [ht] at hu
  exact ⟨rfl, (Access.enqueue.inj (Option.some.inj hu)).2⟩

/-- **One thread at a time dequeues.** -/
theorem dequeuer_unique {l' : Addr} (hd : Discipline lg)
    (ht : access (lg.threads t).stack = some (.tryDequeue l))
    (hu : access (lg.threads u).stack = some (.tryDequeue l')) : t = u := by
  have hmutex : ∀ {t l}, access (lg.threads t).stack = some (.tryDequeue l) →
      lg.mutex = some t := by
    intro t l ht
    obtain ⟨pc, next, check, st, hst, hpc⟩ := access_eq_tryDequeue ht
    exact Logger.mutex_of_iterating hd.grammar
      (Logger.iterating_of_dequeuing ⟨pc, next, check, hst ▸ List.mem_cons_self, hpc⟩)
  exact Option.some.inj ((hmutex ht).symm.trans (hmutex hu))

/-! ## What a step of the logger does to the queues -/

/-- The queues after a step of thread `t`, by where it was. -/
inductive QueueEffect (lg : Logger.State) (t : ThreadId) (lg' : Logger.State) : Prop where
  /-- It was at no queue. -/
  | away (haccess : access (lg.threads t).stack = none) (hqueue : lg'.queue = lg.queue)
  /-- It was to put in a record. -/
  | enqueue {l : Addr} {r : Record} (n : ℕ)
      (haccess : access (lg.threads t).stack = some (.enqueue l r))
      (hback : access (lg'.threads t).stack = none)
      (hqueue : lg'.queue = Function.update lg.queue l (lg.queue l ++ [{ r with serial := n }]))
  /-- It was to take one out. -/
  | tryDequeue {l : Addr} (haccess : access (lg.threads t).stack = some (.tryDequeue l))
      (hback : access (lg'.threads t).stack = none)
      (hqueue : lg'.queue = Function.update lg.queue l (lg.queue l).tail)

theorem queueEffect (h : Logger.Step lg t la lg') (hd : Discipline lg) :
    QueueEffect lg t lg' := by
  have hnone : ∀ {f st}, (lg.threads t).stack = f :: st → access (f :: st) = none →
      lg'.queue = lg.queue → QueueEffect lg t lg' :=
    fun hst haccess hqueue => .away (by rw [hst]; exact haccess) hqueue
  cases h with
  | log hlog => exact .away (access_of_canLog hlog).1 rfl
  | consume hst => exact .away (access_of_nil hst).1 rfl
  | exit hst => exact .away (access_of_nil hst).1 (funext fun l => Logger.closeLogger_queue rfl)
  | getFast hst hi => exact hnone hst rfl rfl
  | @getNew env st hst hi hnew =>
    refine hnone hst rfl (funext fun l => ?_)
    by_cases hl : l = env.logger
    · subst hl
      simp [Logger.State.queue, hnew]
    · simp [Logger.State.queue, hl]
  | getLock hst hm => exact hnone hst rfl rfl
  | getPush hst => exact hnone hst rfl rfl
  | getUnlock hst => exact hnone hst rfl rfl
  | stamp hst => exact hnone hst rfl rfl
  | @enqueue env st c item l r hst =>
    have hback : access st = none := by
      have hok := hd.grammar t
      rw [hst] at hok
      exact access_of_context hok.inv_enqueue.2
    refine .enqueue lg.enqueued.length (l := l) (r := r) (by rw [hst]; rfl) ?_ ?_
    · show access ((Logger.State.setStack _ t st).threads t).stack = none
      rw [Logger.setStack_stack_self]
      exact hback
    refine Logger.queue_setQueue ?_
    have howner := Logger.owner_of_enqueuing hd (t := t) (l := l)
      ⟨c, item, r, hst ▸ List.mem_cons_self⟩
    obtain ⟨lgr, hlgr, -⟩ := Option.map_eq_some_iff.1 howner
    rw [hlgr]
    rfl
  | conLock hst hm => exact hnone hst rfl rfl
  | conOuter hst hl => exact hnone hst rfl rfl
  | conEnd hst hl => exact hnone hst rfl rfl
  | @firstHit env st next check i l r q hst hq =>
    refine .tryDequeue (l := l) (by rw [hst]; rfl) (by rw [Logger.setStack_stack_self]; rfl) ?_
    rw [hq]
    exact Logger.queue_setQueue (Logger.isSome_of_queue (by rw [hq]; exact List.cons_ne_nil _ _))
  | @firstMiss env st next check i l hst hq =>
    refine .tryDequeue (l := l) (by rw [hst]; rfl) (by rw [Logger.setStack_stack_self]; rfl) ?_
    rw [hq, List.tail_nil, ← hq, Function.update_eq_self]
    rfl
  | drainCall hst hf => exact hnone hst rfl rfl
  | drainEnd hst hf => exact hnone hst rfl rfl
  | ordered hst => exact hnone hst rfl rfl
  | recheck hst => exact hnone hst rfl rfl
  | recheckEnd hst => exact hnone hst rfl rfl
  | @againHit env st next check i l it r q hst hq =>
    refine .tryDequeue (l := l) (by rw [hst]; rfl) (by rw [Logger.setStack_stack_self]; rfl) ?_
    rw [hq]
    exact Logger.queue_setQueue (Logger.isSome_of_queue (by rw [hq]; exact List.cons_ne_nil _ _))
  | @againMiss env st next check i l it hst hq =>
    refine .tryDequeue (l := l) (by rw [hst]; rfl) (by rw [Logger.setStack_stack_self]; rfl) ?_
    rw [hq, List.tail_nil, ← hq, Function.update_eq_self]
    rfl
  | conUnlock hst => exact hnone hst rfl rfl

theorem QueueEffect.queue_eq (h : QueueEffect lg t lg')
    (hacc : access (lg.threads t).stack = none) : lg'.queue = lg.queue := by
  cases h with
  | away _ hqueue => exact hqueue
  | enqueue _ henq => rw [hacc] at henq; cases henq
  | tryDequeue hdeq => rw [hacc] at hdeq; cases hdeq

theorem QueueEffect.queue_enqueue (h : QueueEffect lg t lg')
    (hacc : access (lg.threads t).stack = some (.enqueue l r)) :
    ∃ n, lg'.queue = Function.update lg.queue l (lg.queue l ++ [{ r with serial := n }]) := by
  cases h with
  | away hnone => rw [hacc] at hnone; cases hnone
  | @enqueue l' r' n henq hback hqueue =>
    rw [hacc] at henq
    obtain ⟨rfl, rfl⟩ := Access.enqueue.inj (Option.some.inj henq)
    exact ⟨n, hqueue⟩
  | tryDequeue hdeq => rw [hacc] at hdeq; cases hdeq

theorem QueueEffect.queue_tryDequeue (h : QueueEffect lg t lg')
    (hacc : access (lg.threads t).stack = some (.tryDequeue l)) :
    lg'.queue = Function.update lg.queue l (lg.queue l).tail := by
  cases h with
  | away hnone => rw [hacc] at hnone; cases hnone
  | enqueue _ henq => rw [hacc] at henq; cases henq
  | @tryDequeue l' hdeq hback hqueue =>
    rw [hacc] at hdeq
    obtain rfl := Access.tryDequeue.inj (Option.some.inj hdeq)
    exact hqueue

/-- A call of a queue's function that is over is left behind. -/
theorem QueueEffect.access_eq {acc : Access} (h : QueueEffect lg t lg')
    (hacc : access (lg.threads t).stack = some acc) : access (lg'.threads t).stack = none := by
  cases h with
  | away hnone => rw [hacc] at hnone; cases hnone
  | enqueue _ _ hback => exact hback
  | tryDequeue _ hback => exact hback

/-- The loggers there are, after a step of a thread that does not make
one. -/
theorem heap_isSome (h : Logger.Step lg t la lg') (hnew : allocates (lg.threads t) = false) :
    (lg'.heap l).isSome = (lg.heap l).isSome := by
  have hset : ∀ {l' q}, ((lg.setQueue l' q).heap l).isSome = (lg.heap l).isSome := by
    intro l' q
    by_cases hl : l = l'
    · subst hl
      simp [Logger.State.setQueue]
    · simp [Logger.State.setQueue, hl]
  cases h with
  | exit hst =>
    show (Logger.closeLogger lg t l).isSome = _
    rw [Logger.closeLogger_apply, Option.isSome_map]
  | getNew hst hi hheap => simp [allocates, hst, hi] at hnew
  | enqueue hst => exact hset
  | firstHit hst hq => exact hset
  | againHit hst hq => exact hset
  | _ => rfl

/-- A thread that makes a logger is at no queue, and makes it where there is
none. -/
theorem getNew_of_allocates {env : Env} (h : Logger.Step lg t (.run t env) lg')
    (hnew : allocates (lg.threads t) = true) :
    lg.heap env.logger = none ∧
      ∀ l, (lg'.heap l).isSome = (decide (l = env.logger) || (lg.heap l).isSome) := by
  unfold allocates at hnew
  split at hnew
  · rename_i hst
    have hi : (lg.threads t).initialized = false := by simpa using hnew
    generalize hla : Logger.Action.run t env = la at h
    cases h with
    | getFast hst' hi' => rw [hi] at hi'; cases hi'
    | getNew hst' hi' hheap =>
      obtain ⟨-, rfl⟩ := Logger.Action.run.inj hla
      refine ⟨hheap, fun l => ?_⟩
      by_cases hl : l = env.logger
      · simp [hl]
      · simp [hl]
    | log => cases hla
    | consume => cases hla
    | exit => cases hla
    | _ hst' => rw [hst] at hst'; cases hst'
  · cases hnew

/-! ## The invariant -/

/-- A record but for its place among all enqueues. -/
def bare (r : Record) : Record := { r with serial := 0 }

/-- The queue of a logger, as the logger sees it. -/
structure QueueOk (lg : Logger.State) (l : Addr) (q : Blocking.State Record) : Prop where
  sound : Blocking.Sound q
  tryOnly : q.consumer.tryOnly = true
  /-- Nobody calls `try_enqueue`. -/
  mayAlloc : q.inner.producer.mayAlloc = true
  contents : (lg.queue l).map bare = q.contents.map bare
  /-- A call of `enqueue` is some thread's. -/
  producer : q.producer.calling = true → ∃ t r,
    access (lg.threads t).stack = some (.enqueue l r) ∧ q.producer.element = some r
  /-- A call of `try_dequeue` is some thread's. -/
  consumer : q.consumer.calling = true → ∃ t,
    access (lg.threads t).stack = some (.tryDequeue l)

/-- **The invariant.** -/
structure Refined (s : State) : Prop where
  discipline : Discipline s.logger
  heap : ∀ l, (s.logger.heap l).isSome = (s.messages l).isSome
  queues : ∀ l q, s.messages l = some q → QueueOk s.logger l q

variable {s s' : State} {q q' : Blocking.State Record} {env : Env} {result : Option Record}

theorem refined_initial : Refined State.initial where
  discipline := Logger.discipline_initial
  heap _ := rfl
  queues _ _ h := by cases h

/-- A step of a thread that is not in a call of the queue leaves it as it
is. -/
theorem QueueOk.frame (h : QueueOk lg l q) (hothers : ∀ u ≠ t, lg'.threads u = lg.threads u)
    (hqueue : lg'.queue l = lg.queue l)
    (haway : ∀ acc, access (lg.threads t).stack = some acc → acc.logger ≠ l) :
    QueueOk lg' l q := by
  refine ⟨h.sound, h.tryOnly, h.mayAlloc, by rw [hqueue]; exact h.contents, fun hcalling => ?_,
    fun hcalling => ?_⟩
  · obtain ⟨u, r, hu, hr⟩ := h.producer hcalling
    refine ⟨u, r, ?_, hr⟩
    rwa [hothers]
    rintro rfl
    exact haway _ hu rfl
  · obtain ⟨u, hu⟩ := h.consumer hcalling
    refine ⟨u, ?_⟩
    rwa [hothers]
    rintro rfl
    exact haway _ hu rfl

/-- The invariant does not read what was dropped. -/
theorem Refined.of_eq (h : Refined s) (hlogger : s'.logger = s.logger)
    (hmessages : s'.messages = s.messages) : Refined s' := by
  refine ⟨hlogger ▸ h.discipline, fun l => ?_, fun l q hq => ?_⟩
  · rw [hlogger, hmessages]
    exact h.heap l
  · rw [hlogger]
    exact h.queues l q (hmessages ▸ hq)

/-- The other threads stand still. -/
theorem Step.threads_of_ne {m : BlockPtr} (h : Step s t la m s') (ht : la.thread = t)
    (hne : u ≠ t) : s'.logger.threads u = s.logger.threads u := by
  subst ht
  cases h with
  | plain hacc hnew hlg => exact Logger.threads_of_ne (Logger.step_cases hlg) hne
  | makes hla hnew hlg => exact Logger.threads_of_ne (Logger.step_cases hlg) hne
  | enqueued hla hacc hq hcalling hs hret hlg =>
    exact Logger.threads_of_ne (Logger.step_cases hlg) hne
  | dropped hla => simp [State.drop, Logger.State.setStack, State.setMessages, hne]
  | tryDequeued hla hacc hq hcalling hs hret hlg =>
    exact (Logger.threads_of_ne (Logger.step_cases hlg) hne).trans rfl
  | _ => rfl

/-- The queue of one logger has taken a step. -/
theorem Refined.setMessages (h : Refined s) (hq : s.messages l = some q)
    (hok : QueueOk s.logger l q') : Refined (s.setMessages l q') := by
  refine ⟨h.discipline, fun l' => ?_, fun l' q'' hq'' => ?_⟩
  · by_cases hl : l' = l
    · subst hl
      simp [State.setMessages, h.heap, hq]
    · simpa [State.setMessages, hl] using h.heap l'
  · by_cases hl : l' = l
    · subst hl
      simp only [State.setMessages, Function.update_self] at hq''
      obtain rfl := Option.some.inj hq''
      exact hok
    · simp only [State.setMessages, Function.update_of_ne hl] at hq''
      exact h.queues l' q'' hq''

/-! ## Calls of the queues -/

/-- `enqueue` begins, or goes on. -/
theorem QueueOk.produced {b : Blocking.Action Record} (h : QueueOk lg l q)
    (hps : Blocking.ProducerStep MAX_BLOCK_SIZE.toNat q b q')
    (hmay : q'.inner.producer.mayAlloc = true) (hcontents : q'.contents = q.contents)
    (hacc : access (lg.threads t).stack = some (.enqueue l r))
    (helement : q'.producer.element = some r) : QueueOk lg l q' := by
  have hcons := hps.consumer_eq
  exact ⟨hps.sound h.sound, by rw [hcons]; exact h.tryOnly, hmay,
    by rw [hcontents]; exact h.contents, fun _ => ⟨t, r, hacc, helement⟩,
    by rw [hcons]; exact h.consumer⟩

/-- The element of the call is the thread's record. -/
theorem QueueOk.element (h : QueueOk lg l q) (hd : Discipline lg)
    (hacc : access (lg.threads t).stack = some (.enqueue l r))
    (hcalling : q.producer.calling = true) : q.producer.element = some r := by
  obtain ⟨u, r', hu, hr'⟩ := h.producer hcalling
  obtain ⟨rfl, rfl⟩ := enqueuer_unique hd hacc hu
  exact hr'

/-- Two records that differ in their places only. -/
theorem eq_of_bare {x g : Record} (h : bare g = bare x) : { x with serial := g.serial } = g := by
  cases g
  cases x
  simp only [bare, Logger.Record.mk.injEq] at h
  obtain ⟨rfl, rfl, rfl, rfl, rfl, rfl, -⟩ := h
  rfl

/-- What `try_dequeue` returns says how it found the queue. -/
theorem QueueOk.found_eq (h : QueueOk lg l q)
    (hcontents : (result = none ∧ q.contents = []) ∨
      ∃ x xs, result = some x ∧ q.contents = x :: xs) :
    found (lg.queue l) result = lg.queue l := by
  have hwas := h.contents
  rcases hcontents with ⟨rfl, hnil⟩ | ⟨x, xs, rfl, hcons⟩
  · rw [hnil, List.map_nil, List.map_eq_nil_iff] at hwas
    rw [hwas]
    rfl
  · rw [hcons, List.map_cons] at hwas
    obtain ⟨g, gs, hg, hbare, -⟩ := List.map_eq_cons_iff.1 hwas
    rw [hg]
    show { x with serial := g.serial } :: gs = _
    rw [eq_of_bare hbare]

theorem setQueue_self : lg.setQueue l (lg.queue l) = lg := by
  have hheap : Function.update lg.heap l
      ((lg.heap l).map fun x => { x with messages := lg.queue l }) = lg.heap := by
    refine Function.update_eq_iff.2 ⟨?_, fun _ _ => rfl⟩
    cases hl : lg.heap l with
    | none => rfl
    | some x => simp [Logger.State.queue, hl]
  rw [Logger.State.setQueue, hheap]

/-! ## The steps -/

/-- A step of a thread that is at no queue. -/
theorem Refined.plain (h : Refined s) (hstep : Logger.step s.logger la = some lg')
    (hnew : allocates (s.logger.threads la.thread) = false)
    (hacc : access (s.logger.threads la.thread).stack = none) : Refined (s.setLogger lg') := by
  have hcases := Logger.step_cases hstep
  have hqueue := (queueEffect hcases h.discipline).queue_eq hacc
  refine ⟨Logger.discipline_step h.discipline hstep,
    fun l => (heap_isSome hcases hnew).trans (h.heap l), fun l q hq => ?_⟩
  refine (h.queues l q hq).frame (fun u hu => Logger.threads_of_ne hcases hu) (congrFun hqueue l)
    fun acc hat => ?_
  rw [hacc] at hat
  cases hat

/-- A step of a thread that makes a logger. -/
theorem Refined.makes {mem : ℕ → BlockPtr} (h : Refined s)
    (hstep : Logger.step s.logger (.run t env) = some lg')
    (hnew : allocates (s.logger.threads t) = true)
    (hq : Blocking.construct MAX_BLOCK_SIZE maxSize mem = some q) :
    Refined ((s.setLogger lg').setMessages env.logger q) := by
  have hcases : Logger.Step s.logger t (.run t env) lg' := Logger.step_cases hstep
  have hacc := access_of_allocates hnew
  obtain ⟨hnone, hheap⟩ := getNew_of_allocates hcases hnew
  have hqueue := (queueEffect hcases h.discipline).queue_eq hacc
  have hempty : s.logger.queue env.logger = [] := by
    rw [Logger.State.queue, hnone]
  obtain ⟨hcontents, hprod, hcons, hmay⟩ := Blocking.contents_construct hq (by decide)
  refine ⟨Logger.discipline_step h.discipline hstep, fun l => ?_, fun l q' hq' => ?_⟩
  · by_cases hl : l = env.logger
    · subst hl
      simp [State.setMessages, State.setLogger, hheap]
    · simp [State.setMessages, State.setLogger, hheap, hl, h.heap]
  · by_cases hl : l = env.logger
    · subst hl
      simp only [State.setMessages, Function.update_self] at hq'
      obtain rfl := Option.some.inj hq'
      refine ⟨Blocking.sound_construct hq (by decide), by rw [hcons]; rfl, hmay, ?_,
        fun hcall => ?_, fun hcall => ?_⟩
      · show (lg'.queue env.logger).map bare = _
        rw [hqueue, hempty, hcontents]
      · rw [hprod] at hcall
        cases hcall
      · rw [hcons] at hcall
        cases hcall
    · simp only [State.setMessages, Function.update_of_ne hl] at hq'
      refine (h.queues l q' hq').frame (fun u hu => Logger.threads_of_ne hcases hu)
        (congrFun hqueue l) fun acc hat => ?_
      rw [hacc] at hat
      cases hat

/-- A call of a function of the queue of `l` returns. -/
theorem Refined.returns {acc : Access} (h : Refined s) (hq : s.messages l = some q)
    (hd : Discipline lg') (hheap : ∀ l', (lg'.heap l').isSome = (s.logger.heap l').isSome)
    (hothers : ∀ u ≠ t, lg'.threads u = s.logger.threads u)
    (hacc : access (s.logger.threads t).stack = some acc) (hl : acc.logger = l)
    (hqueue : ∀ l' ≠ l, lg'.queue l' = s.logger.queue l') (hok : QueueOk lg' l q') :
    Refined ((s.setMessages l q').setLogger lg') := by
  refine ⟨hd, fun l' => (hheap l').trans ?_, fun l' q'' hq'' => ?_⟩
  · by_cases hne : l' = l
    · subst hne
      simp [State.setMessages, State.setLogger, h.heap, hq]
    · simp [State.setMessages, State.setLogger, hne, h.heap]
  · by_cases hne : l' = l
    · subst hne
      simp only [State.setMessages, State.setLogger, Function.update_self] at hq''
      obtain rfl := Option.some.inj hq''
      exact hok
    · simp only [State.setMessages, State.setLogger, Function.update_of_ne hne] at hq''
      refine (h.queues l' q'' hq'').frame hothers (hqueue l' hne) fun acc' hat hl' => ?_
      rw [hacc] at hat
      obtain rfl := Option.some.inj hat
      exact hne (hl'.symm.trans hl)

/-- `enqueue` returns `true`. -/
theorem Refined.enqueued {m : BlockPtr} (h : Refined s)
    (hacc : access (s.logger.threads t).stack = some (.enqueue l r))
    (hq : s.messages l = some q) (hcalling : q.producer.calling = true)
    (hs : Blocking.step MAX_BLOCK_SIZE.toNat spins q (.produce m) = some q')
    (hret : q'.producer = .returned true)
    (hlg : Logger.step s.logger (.run t env) = some lg') :
    Refined ((s.setMessages l q').setLogger lg') := by
  have hok := h.queues l q hq
  have hps : Blocking.ProducerStep MAX_BLOCK_SIZE.toNat q (.produce m) q' :=
    Blocking.advanceProducer_cases hs
  have hcases : Logger.Step s.logger t (.run t env) lg' := Logger.step_cases hlg
  have hcons := hps.consumer_eq
  cases hps.effect hok.sound hok.tryOnly (hok.element h.discipline hacc hcalling) with
  | on helement => rw [hret] at helement; cases helement
  | failed hfalse => rw [hret] at hfalse; cases hfalse
  | put _ hcontents =>
    obtain ⟨n, hqueue⟩ := (queueEffect hcases h.discipline).queue_enqueue hacc
    refine h.returns hq (Logger.discipline_step h.discipline hlg)
      (fun _ => heap_isSome hcases (allocates_of_access hacc))
      (fun u hu => Logger.threads_of_ne hcases hu) hacc rfl
      (fun l' hl => by rw [hqueue, Function.update_of_ne hl])
      ⟨hps.sound hok.sound, by rw [hcons]; exact hok.tryOnly, (hps.effect_mayAlloc hok.mayAlloc).1,
        ?_, fun hcall => ?_, fun hcall => ?_⟩
    · rw [hqueue, Function.update_self, hcontents, List.map_append, List.map_append, hok.contents]
      rfl
    · rw [hret] at hcall
      cases hcall
    · rw [hcons] at hcall
      obtain ⟨u, hu⟩ := hok.consumer hcall
      refine ⟨u, ?_⟩
      rwa [Logger.threads_of_ne hcases]
      rintro rfl
      rw [hu] at hacc
      cases hacc

/-- `enqueue` returns `false`. -/
theorem Refined.dropped {m : BlockPtr} (h : Refined s)
    (hacc : access (s.logger.threads t).stack = some (.enqueue l r))
    (hq : s.messages l = some q) (hcalling : q.producer.calling = true)
    (hs : Blocking.step MAX_BLOCK_SIZE.toNat spins q (.produce m) = some q')
    (hret : q'.producer = .returned false) :
    Refined ((s.setMessages l q').drop t l r) ∧ m = Queue.nullptr ∧
      lossy s.logger (.drop t) = some ((s.setMessages l q').drop t l r).logger := by
  have hok := h.queues l q hq
  have hps : Blocking.ProducerStep MAX_BLOCK_SIZE.toNat q (.produce m) q' :=
    Blocking.advanceProducer_cases hs
  have hcons := hps.consumer_eq
  have hlossy : lossy s.logger (.drop t) =
      some (s.logger.setStack t (s.logger.threads t).stack.tail) := by
    simp only [lossy, hacc]
  obtain ⟨c, item, st, hst⟩ := access_eq_enqueue hacc
  have hothers : ∀ u ≠ t, (s.logger.setStack t st).threads u = s.logger.threads u := by
    intro u hu
    simp [Logger.State.setStack, hu]
  have hstack : (s.logger.threads t).stack.tail = st := by rw [hst, List.tail_cons]
  refine ⟨?_, (hps.effect_mayAlloc hok.mayAlloc).2 hret, hlossy⟩
  suffices hrefined : Refined ((s.setMessages l q').setLogger (s.logger.setStack t st)) by
    refine hrefined.of_eq ?_ rfl
    show s.logger.setStack t (s.logger.threads t).stack.tail = s.logger.setStack t st
    rw [hstack]
  cases hps.effect hok.sound hok.tryOnly (hok.element h.discipline hacc hcalling) with
  | on helement => rw [hret] at helement; cases helement
  | put htrue => rw [hret] at htrue; cases htrue
  | failed _ hcontents =>
    refine h.returns hq (discipline_drop h.discipline hst) (fun _ => rfl) hothers hacc rfl
      (fun _ _ => rfl) ⟨hps.sound hok.sound, by rw [hcons]; exact hok.tryOnly,
        (hps.effect_mayAlloc hok.mayAlloc).1, ?_, fun hcall => ?_, fun hcall => ?_⟩
    · rw [hcontents]
      exact hok.contents
    · rw [hret] at hcall
      cases hcall
    · rw [hcons] at hcall
      obtain ⟨u, hu⟩ := hok.consumer hcall
      refine ⟨u, ?_⟩
      rwa [hothers]
      rintro rfl
      rw [hu] at hacc
      cases hacc

/-- `try_dequeue` returns. -/
theorem Refined.tryDequeued (h : Refined s)
    (hacc : access (s.logger.threads t).stack = some (.tryDequeue l))
    (hq : s.messages l = some q)
    (hs : Blocking.step MAX_BLOCK_SIZE.toNat spins q .consume = some q')
    (hret : dequeued q'.consumer = some result)
    (hlg : Logger.step (s.logger.setQueue l (found (s.logger.queue l) result)) (.run t env) =
      some lg') :
    Refined ((s.setMessages l q').setLogger lg') ∧
      Logger.step s.logger (.run t env) = some lg' := by
  have hok := h.queues l q hq
  have hcs : Blocking.ConsumerStep MAX_BLOCK_SIZE.toNat spins q .consume q' :=
    Blocking.advanceConsumer_cases hs
  obtain ⟨hprod, hinner, -⟩ := hcs.counted
  have hwas := hok.contents
  -- what is returned, and what is left
  have heffect : found (s.logger.queue l) result = s.logger.queue l ∧
      ((s.logger.queue l).tail).map bare = q'.contents.map bare ∧
      q'.consumer.tryOnly = true ∧ q'.consumer.calling = false := by
    cases hcs.effect hok.sound hok.tryOnly with
    | on htry hcall =>
      cases hpc : q'.consumer with
      | returned => rw [hpc] at hcall; cases hcall
      | _ => rw [hpc] at hret; cases hret
    | @took x hpc hcontents =>
      rw [hpc] at hret ⊢
      obtain rfl := Option.some.inj hret
      refine ⟨hok.found_eq (Or.inr ⟨x, _, rfl, hcontents⟩), ?_, rfl, rfl⟩
      rw [List.map_tail, hwas, hcontents]
      rfl
    | nothing hpc hnil hnil' =>
      rw [hpc] at hret ⊢
      obtain rfl := Option.some.inj hret
      refine ⟨hok.found_eq (Or.inl ⟨rfl, hnil⟩), ?_, rfl, rfl⟩
      rw [List.map_tail, hwas, hnil, hnil']
      rfl
  obtain ⟨hfound, hcontents, htry, hback⟩ := heffect
  rw [hfound, setQueue_self] at hlg
  have hcases : Logger.Step s.logger t (.run t env) lg' := Logger.step_cases hlg
  have hqueue := (queueEffect hcases h.discipline).queue_tryDequeue hacc
  refine ⟨h.returns hq (Logger.discipline_step h.discipline hlg)
    (fun _ => heap_isSome hcases (allocates_of_access hacc))
    (fun u hu => Logger.threads_of_ne hcases hu) hacc rfl
    (fun l' hl => by rw [hqueue, Function.update_of_ne hl])
    ⟨hcs.sound hok.sound, htry, by rw [hinner]; exact hok.mayAlloc, ?_, fun hcall => ?_,
      fun hcall => ?_⟩, hlg⟩
  · rw [hqueue, Function.update_self]
    exact hcontents
  · rw [hprod] at hcall ⊢
    obtain ⟨u, r, hu, hr⟩ := hok.producer hcall
    refine ⟨u, r, ?_, hr⟩
    rwa [Logger.threads_of_ne hcases]
    rintro rfl
    rw [hu] at hacc
    cases hacc
  · rw [hback] at hcall
    cases hcall

/-- What a step is of the logger's. -/
inductive Stands (s : State) (a : Action) (s' : State) : Prop where
  /-- None: a queue has moved, in the middle of a call. -/
  | still (hlogger : s'.logger = s.logger) (hdropped : s'.dropped = s.dropped)
  /-- The step of the same name. -/
  | act (hlogger : Logger.step s.logger a.logger = some s'.logger)
      (hdropped : s'.dropped = s.dropped)
  /-- There is no memory, and a record is dropped. -/
  | drop {t : ThreadId} (hmem : a.hasMemory = false)
      (hlogger : lossy s.logger (.drop t) = some s'.logger)
      (hdropped : s'.dropped.length = s.dropped.length + 1)

/-- **One step.** -/
theorem Refined.step {a : Action} (h : Refined s) (hs : Logging.step s a = some s') :
    Refined s' ∧ Stands s a s' := by
  have hcases := step_cases hs
  generalize hla' : a.logger = la at hcases
  generalize ht : la.thread = t at hcases
  cases hcases with
  | plain hacc hnew hlg =>
    subst ht
    exact ⟨h.plain hlg hnew hacc, .act (hla'.symm ▸ hlg) rfl⟩
  | makes hla hnew hlg hq =>
    subst hla
    exact ⟨h.makes hlg hnew hq, .act (hla'.symm ▸ hlg) rfl⟩
  | @enqueue l newmsg q q' hacc hq hcalling hqs =>
    have hok := h.queues l q hq
    have hps : Blocking.ProducerStep MAX_BLOCK_SIZE.toNat q (.enqueue .canAlloc newmsg) q' :=
      Blocking.enqueue_cases hqs
    obtain ⟨helement, hcontents⟩ := hps.entered
    exact ⟨h.setMessages hq (hok.produced hps hps.entered_mayAlloc hcontents hacc helement),
      .still rfl rfl⟩
  | @enqueueOn l newmsg q q' hacc hq hcalling hqs hgo =>
    have hok := h.queues l q hq
    have hps : Blocking.ProducerStep MAX_BLOCK_SIZE.toNat q (.produce _) q' :=
      Blocking.advanceProducer_cases hqs
    cases hps.effect hok.sound hok.tryOnly (hok.element h.discipline hacc hcalling) with
    | on helement hcontents =>
      have hmay := (hps.effect_mayAlloc hok.mayAlloc).1
      exact ⟨h.setMessages hq (hok.produced hps hmay hcontents hacc helement), .still rfl rfl⟩
    | put hret => exact absurd hret (hgo true)
    | failed hret => exact absurd hret (hgo false)
  | enqueued hla hacc hq hcalling hqs hret hlg =>
    subst hla
    exact ⟨h.enqueued hacc hq hcalling hqs hret hlg, .act (hla'.symm ▸ hlg) rfl⟩
  | dropped hla hacc hq hcalling hqs hret =>
    have hrun := hla'.trans hla
    obtain ⟨hrefined, hmem, hlossy⟩ := h.dropped hacc hq hcalling hqs hret
    exact ⟨hrefined, .drop (hasMemory_of_malloc hrun hmem) hlossy List.length_append⟩
  | @tryDequeue l q q' hacc hq hcalling hqs =>
    have hok := h.queues l q hq
    have hsound := hok.sound.step hqs
    obtain ⟨-, hq'⟩ := Option.ite_none_left_eq_some.1 hqs
    obtain rfl := Option.some.inj hq'
    exact ⟨h.setMessages hq
      ⟨hsound, rfl, hok.mayAlloc, hok.contents, hok.producer, fun _ => ⟨t, hacc⟩⟩,
      .still rfl rfl⟩
  | @tryDequeueOn l q q' hacc hq hcalling hqs hgo =>
    have hok := h.queues l q hq
    have hcs : Blocking.ConsumerStep MAX_BLOCK_SIZE.toNat spins q .consume q' :=
      Blocking.advanceConsumer_cases hqs
    cases hcs.effect hok.sound hok.tryOnly with
    | on htry hcall hcontents =>
      obtain ⟨hprod, hinner, -⟩ := hcs.counted
      exact ⟨h.setMessages hq ⟨hcs.sound hok.sound, htry, by rw [hinner]; exact hok.mayAlloc,
        by rw [hcontents]; exact hok.contents, by rw [hprod]; exact hok.producer,
        fun _ => ⟨t, hacc⟩⟩, .still rfl rfl⟩
    | took hpc => rw [hpc] at hgo; cases hgo
    | nothing hpc => rw [hpc] at hgo; cases hgo
  | tryDequeued hla hacc hq hcalling hqs hret hlg =>
    subst hla
    obtain ⟨hrefined, hstep⟩ := h.tryDequeued hacc hq hqs hret hlg
    exact ⟨hrefined, .act (hla'.symm ▸ hstep) rfl⟩

end Logging

end AppServer
