import AppServer.Logger.Provenance

/-!
# One producer and one consumer a queue

What the discipline gives the queues: only the thread that allocated a
logger enqueues on it, one enqueue at a time; one thread at a time dequeues,
from any queue; and `loggers` stands still while it is iterated over.
-/

namespace AppServer

namespace Logger

open Lib

variable {s s' : State} {t u : ThreadId} {l l' : Addr}

/-- In the middle of an `enqueue`. -/
def Frame.isEnqueue : Frame → Bool
  | .realLogMsg _ _ (.enqueue _ _) => true
  | _ => false

/-- Thread `t` has started an `enqueue` on the queue of `l` and not finished
it. -/
def Enqueuing (s : State) (t : ThreadId) (l : Addr) : Prop :=
  ∃ c item r, Frame.realLogMsg c item (.enqueue l r) ∈ (s.threads t).stack

/-- How many enqueues thread `t` has started and not finished. -/
def activeEnqueues (s : State) (t : ThreadId) : ℕ := (s.threads t).stack.countP Frame.isEnqueue

/-- The queue a point of `consume` is dequeuing from. -/
def ConsumePc.dequeues? : ConsumePc → Option Addr
  | .tryFirst _ l => some l
  | .tryAgain _ l _ => some l
  | _ => none

/-- Thread `t` has started a `try_dequeue` on the queue of `l` and not
finished it. -/
def Dequeuing (s : State) (t : ThreadId) (l : Addr) : Prop :=
  ∃ pc next check, Frame.consume pc next check ∈ (s.threads t).stack ∧ pc.dequeues? = some l

/-- Thread `t` is in `consume`, between its lock and its unlock. -/
def Iterating (s : State) (t : ThreadId) : Prop :=
  ∃ pc next check, Frame.consume pc next check ∈ (s.threads t).stack ∧ pc.holds? ≠ some false

/-- Thread `t` has logged. -/
def HasLogged (s : State) (t : ThreadId) : Prop := ∃ p ∈ s.enqueued, p.1.thread = t

/-! ## Read off the grammar -/

/-- No context a log call is made from is itself in an enqueue. -/
theorem LogContext.not_isEnqueue {g : Stage} {h : Bool} {st : List Frame}
    (hc : LogContext g h st) : ∀ f ∈ st, f.isEnqueue = false := by
  cases hc <;> simp [Frame.isEnqueue]

/-- An enqueue is the innermost call of its thread, on the thread's own
logger. -/
theorem StackOk.of_isEnqueue {g : Stage} {h : Bool} {st : List Frame} {f : Frame}
    (hok : StackOk g h st) (hf : f ∈ st) (he : f.isEnqueue = true) :
    ∃ c item l r st', st = .realLogMsg c item (.enqueue l r) :: st' ∧
      f = .realLogMsg c item (.enqueue l r) ∧ g = .registered l ∧
      ∀ f' ∈ st', f'.isEnqueue = false := by
  have hcontext : ∀ {g h st}, LogContext g h st → f ∈ st → False := by
    intro g h st hc hf
    rw [hc.not_isEnqueue f hf] at he
    cases he
  cases hok with
  | context _ hc => exact (hcontext hc hf).elim
  | consume _ _ =>
    rw [List.mem_singleton] at hf
    subst hf
    cases he
  | push =>
    simp only [List.mem_cons, List.not_mem_nil, or_false] at hf
    rcases hf with rfl | rfl <;> cases he
  | test _ hc | lock hc =>
    simp only [List.mem_cons] at hf
    rcases hf with rfl | rfl | hf
    · cases he
    · cases he
    · exact (hcontext hc hf).elim
  | stamp hc =>
    rcases List.mem_cons.1 hf with rfl | hf
    · cases he
    · exact (hcontext hc hf).elim
  | enqueue hc =>
    rcases List.mem_cons.1 hf with rfl | hf
    · exact ⟨_, _, _, _, _, rfl, rfl, rfl, hc.not_isEnqueue⟩
    · exact (hcontext hc hf).elim

/-- Between its lock and its unlock `consume` runs on a stack marked as
holding. -/
theorem StackOk.holds_of_consume {g : Stage} {h : Bool} {st : List Frame} {pc : ConsumePc}
    {next : StdSet pairKey} {check : StdSet loggerKey} (hok : StackOk g h st)
    (hf : Frame.consume pc next check ∈ st) (hpc : pc.holds? ≠ some false) : h = true := by
  have hcontext : ∀ {g h st}, LogContext g h st → Frame.consume pc next check ∈ st →
      h = true := by
    intro g h st hc hf
    cases hc with
    | idle => cases hf
    | ordered => rfl
    | registering => simp at hf
  cases hok with
  | context _ hc => exact hcontext hc hf
  | consume _ hh =>
    rw [List.mem_singleton] at hf
    cases hf
    rw [hh] at hpc
    cases h with
    | true => rfl
    | false => exact absurd rfl hpc
  | push => rfl
  | test _ hc | lock hc =>
    simp only [List.mem_cons, reduceCtorEq, false_or] at hf
    exact hcontext hc hf
  | stamp hc | enqueue hc =>
    simp only [List.mem_cons, reduceCtorEq, false_or] at hf
    exact hcontext hc hf

/-- A thread about to register is not in `consume` past its lock. -/
theorem not_iterating_of_push {st : List Frame} (hs : StacksOk s)
    (hst : (s.threads t).stack = .getThreadLogger .push :: st) : ¬ Iterating s t := by
  rintro ⟨pc, next, check, hf, -⟩
  have hok := hs t
  rw [hst] at hok hf
  obtain ⟨l, c, item, -, -, rfl⟩ := hok.inv_push
  simp at hf

/-! ## The roles -/

/-- **Whoever iterates holds the lock.** -/
theorem mutex_of_iterating (hs : StacksOk s) (h : Iterating s t) : s.mutex = some t := by
  obtain ⟨pc, next, check, hf, hpc⟩ := h
  exact holds_eq_true.1 ((hs t).holds_of_consume hf hpc)

/-- A dequeue is between the lock and the unlock. -/
theorem iterating_of_dequeuing (h : Dequeuing s t l) : Iterating s t := by
  obtain ⟨pc, next, check, hf, hpc⟩ := h
  refine ⟨pc, next, check, hf, ?_⟩
  cases pc <;> simp [ConsumePc.dequeues?, ConsumePc.holds?] at hpc ⊢

/-- **The only producer of a queue is its owner.** -/
theorem owner_of_enqueuing (hd : Discipline s) (h : Enqueuing s t l) : s.ownerOf l = some t := by
  obtain ⟨c, item, r, hf⟩ := h
  obtain ⟨c', item', l', r', st, -, heq, hg, -⟩ := (hd.grammar t).of_isEnqueue hf rfl
  cases heq
  exact (hd.registry.owns t l).1 (by rw [hg]; rfl)

/-- **A thread is in one enqueue at a time.** -/
theorem activeEnqueues_le_one (hs : StacksOk s) (t : ThreadId) : activeEnqueues s t ≤ 1 := by
  unfold activeEnqueues
  by_cases h : ∃ f ∈ (s.threads t).stack, f.isEnqueue = true
  · obtain ⟨f, hf, he⟩ := h
    obtain ⟨c, item, l, r, st, hst, -, -, hrest⟩ := (hs t).of_isEnqueue hf he
    rw [hst, List.countP_cons, List.countP_eq_zero.2 fun f' hf' => by simp [hrest f' hf']]
    simp [Frame.isEnqueue]
  · rw [List.countP_eq_zero.2 fun f hf he => h ⟨f, hf, he⟩]
    exact Nat.zero_le 1

/-- A registered thread's logger is listed once. -/
theorem count_loggers (hr : Registry s) (h : (s.threads t).stage = .registered l) :
    s.loggers.count l = 1 :=
  List.count_eq_one_of_mem hr.nodup ((hr.listed l).2 ⟨t, h⟩)

/-- `loggers` grows only where a registering thread holds the lock. -/
theorem loggers_step {a : Action} (h : Step s t a s') :
    s'.loggers = s.loggers ∨ ∃ st, (s.threads t).stack = .getThreadLogger .push :: st := by
  cases h with
  | getPush hst => exact Or.inr ⟨_, hst⟩
  | _ => exact Or.inl rfl

/-- **`loggers` stands still while anyone iterates over it.** -/
theorem loggers_eq_of_iterating {a : Action} (hs : StacksOk s) (h : Step s t a s')
    (hu : Iterating s u) : s'.loggers = s.loggers := by
  rcases loggers_step h with he | ⟨st, hst⟩
  · exact he
  · have hok := hs t
    rw [hst] at hok
    obtain ⟨-, -, -, -, hh, -⟩ := hok.inv_push
    have hut : u = t := by
      have := mutex_of_iterating hs hu
      rw [holds_eq_true.1 hh] at this
      exact (Option.some.inj this).symm
    subst hut
    exact absurd hu (not_iterating_of_push hs hst)

/-- **The single-producer single-consumer discipline**, in every reachable
state: a thread that has logged owns exactly one logger, listed once;
enqueues are the owner's, one at a time; one thread at a time dequeues; and
no step changes `loggers` while a `consume` iterates over it. -/
theorem single_producer_single_consumer (h : Reachable s) :
    (∀ t, HasLogged s t → (∃! l, s.ownerOf l = some t) ∧
      ∀ l, s.ownerOf l = some t → s.loggers.count l = 1) ∧
    (∀ t l, Enqueuing s t l → s.ownerOf l = some t) ∧
    (∀ t, activeEnqueues s t ≤ 1) ∧
    (∀ t u l l', Dequeuing s t l → Dequeuing s u l' → t = u) ∧
    (∀ a s', step s a = some s' → (∃ t, Iterating s t) → s'.loggers = s.loggers) := by
  have hd := discipline h
  refine ⟨fun t ht => ?_, fun t l => owner_of_enqueuing hd, activeEnqueues_le_one hd.grammar,
    fun t u l l' ht hu => ?_, fun a s' hs ⟨t, ht⟩ => ?_⟩
  · obtain ⟨p, hp, rfl⟩ := ht
    have hstage := ((provenance h).enqueued p hp).2
    have hone : ∀ l, s.ownerOf l = some p.1.thread → l = p.2 := by
      intro l hl
      have := (hd.registry.owns p.1.thread l).2 hl
      rw [hstage] at this
      exact (Option.some.inj this).symm
    refine ⟨⟨p.2, (hd.registry.owns _ _).1 (by rw [hstage]; rfl), hone⟩, fun l hl => ?_⟩
    rw [hone l hl]
    exact count_loggers hd.registry hstage
  · have h₁ := mutex_of_iterating hd.grammar (iterating_of_dequeuing ht)
    have h₂ := mutex_of_iterating hd.grammar (iterating_of_dequeuing hu)
    rw [h₁] at h₂
    exact Option.some.inj h₂
  · exact loggers_eq_of_iterating hd.grammar (step_cases hs) ht

/-- In the middle of the first dequeue, say. -/
theorem single_producer_single_consumer_sample :
    ∃ s, Reachable s ∧ HasLogged s 0 ∧ Dequeuing s 1 100 ∧ s.loggers.count 100 = 1 := by
  have hexec : (exec step State.initial (sampleRun 9 2)).isSome := by rfl
  obtain ⟨s, hs⟩ := Option.isSome_iff_exists.1 hexec
  have hr : Reachable s := Lib.Reachable.of_exec hs
  have hlogged : HasLogged s 0 := by
    obtain rfl := Option.some.inj hs
    exact ⟨_, List.mem_cons_self, rfl⟩
  have howner : s.ownerOf 100 = some 0 := by
    obtain rfl := Option.some.inj hs
    rfl
  refine ⟨s, hr, hlogged, ?_, ((single_producer_single_consumer hr).1 0 hlogged).2 100 howner⟩
  obtain rfl := Option.some.inj hs
  exact ⟨_, _, _, List.mem_cons_self, rfl⟩

end Logger

end AppServer
