import AppServer.Blocking.Model
import AppServer.Queue.Step

/-!
# What a step of the waiting queue can do

As for the queue inside: one constructor a branch of the source, and
`step_cases` for that there are no others. A permit is taken in three places
of the source with one access each, and comes from the semaphore in two;
these have a constructor in common.
-/

namespace AppServer

namespace Blocking

open Queue (BlockPtr AllocationMode ConsumerOp ConsumerResult)

variable {α : Type*}

/-- The steps of the producer. -/
inductive ProducerStep (n : ℕ) (s : State α) : Action α → State α → Prop where
  /-- A call begins. -/
  | call {alloc : AllocationMode} {x : α} {inner : Queue.State α}
      (hpc : s.producer.calling = false) (hin : Queue.step n s.inner (alloc.call x) = some inner) :
      ProducerStep n s (.enqueue alloc x)
        { (s.setInner inner).produceAt (.enqueue alloc x) with
          history := s.history ++ [.enqueue alloc x] }
  /-- The queue inside goes on. -/
  | on {alloc : AllocationMode} {x : α} {m : BlockPtr} {inner : Queue.State α}
      (hpc : s.producer = .enqueue alloc x) (hin : Queue.step n s.inner (.produce m) = some inner)
      (hgo : ∀ b, inner.producer ≠ .returned b) :
      ProducerStep n s (.produce m) (s.setInner inner)
  /-- It has taken the element. -/
  | put {alloc : AllocationMode} {x : α} {m : BlockPtr} {inner : Queue.State α}
      (hpc : s.producer = .enqueue alloc x) (hin : Queue.step n s.inner (.produce m) = some inner)
      (hret : inner.producer = .returned true) :
      ProducerStep n s (.produce m) ((s.setInner inner).produceAt (.signal x))
  /-- It has not. -/
  | failed {alloc : AllocationMode} {x : α} {m : BlockPtr} {inner : Queue.State α}
      (hpc : s.producer = .enqueue alloc x) (hin : Queue.step n s.inner (.produce m) = some inner)
      (hret : inner.producer = .returned false) :
      ProducerStep n s (.produce m) ((s.setInner inner).returnEnqueue false)
  /-- The element is counted. -/
  | signal {x : α} {m : BlockPtr} (hpc : s.producer = .signal x) (hcount : 0 ≤ s.count) :
      ProducerStep n s (.produce m) ({ s with count := s.count + 1 }.returnEnqueue true)
  /-- It is, and the consumer is to be woken. -/
  | wake {x : α} {m : BlockPtr} (hpc : s.producer = .signal x) (hcount : s.count = -1) :
      ProducerStep n s (.produce m) ({ s with count := s.count + 1 }.produceAt .post)
  /-- It is woken. -/
  | post {m : BlockPtr} (hpc : s.producer = .post) :
      ProducerStep n s (.produce m) ({ s with sema := s.sema + 1 }.returnEnqueue true)

/-- The steps of the consumer. -/
inductive ConsumerStep (n spins : ℕ) (s : State α) : Action α → State α → Prop where
  /-- A call begins. -/
  | call {op : Op} (hpc : s.consumer.calling = false) :
      ConsumerStep n spins s (.dequeue op)
        { s.consumeAt (.tryWait op) with history := s.history ++ [.dequeue op] }
  /-- `tryWait` sees a permit. -/
  | tryFound {op : Op} (hpc : s.consumer = .tryWait op) (hcount : 0 < s.count) :
      ConsumerStep n spins s .consume (s.consumeAt (.tryTake op))
  /-- It sees none, and the call is over. -/
  | tryNothing {op : Op} (hpc : s.consumer = .tryWait op) (hcount : s.count ≤ 0)
      (htimeout : op.timeout = none) :
      ConsumerStep n spins s .consume (s.returnDequeue op.inner.nothing)
  /-- It sees none, and the call waits. -/
  | trySpin {op : Op} {t : ℤ} (hpc : s.consumer = .tryWait op) (hcount : s.count ≤ 0)
      (htimeout : op.timeout = some t) :
      ConsumerStep n spins s .consume (s.consumeAt (nextSpin op spins))
  /-- The loop sees a permit. -/
  | spinFound {op : Op} {spin : ℕ} (hpc : s.consumer = .spinning op spin) (hcount : 0 < s.count) :
      ConsumerStep n spins s .consume (s.consumeAt (.spinTake op))
  /-- It sees none. -/
  | spinOn {op : Op} {spin : ℕ} (hpc : s.consumer = .spinning op spin) (hcount : s.count ≤ 0) :
      ConsumerStep n spins s .consume (s.consumeAt (nextSpin op spin))
  /-- A permit is taken. -/
  | take {op : Op} {inner : Queue.State α}
      (hpc : s.consumer = .tryTake op ∨ s.consumer = .spinTake op ∨
        s.consumer = .take op ∧ 0 < s.count)
      (hin : Queue.step n s.inner op.inner.call = some inner) :
      ConsumerStep n spins s .consume
        (({ s with count := s.count - 1 }.setInner inner).consumeAt (.dequeue op))
  /-- There is none, and the consumer is to sleep. -/
  | sleep {op : Op} (hpc : s.consumer = .take op) (hcount : s.count ≤ 0) :
      ConsumerStep n spins s .consume
        ({ s with count := s.count - 1 }.consumeAt (.semaWait op))
  /-- The semaphore gives one. -/
  | woken {op : Op} {inner : Queue.State α}
      (hpc : s.consumer = .semaWait op ∨ s.consumer = .semaTryWait op) (hsema : 0 < s.sema)
      (hin : Queue.step n s.inner op.inner.call = some inner) :
      ConsumerStep n spins s .consume
        (({ s with sema := s.sema - 1 }.setInner inner).consumeAt (.dequeue op))
  /-- The time is up. -/
  | timeOut {op : Op} {t : ℤ} (hpc : s.consumer = .semaWait op) (htimeout : op.timeout = some t)
      (ht : 0 ≤ t) : ConsumerStep n spins s .timeOut (s.consumeAt (.restore op))
  /-- Nothing was signalled: the call is over. -/
  | giveUp {op : Op} (hpc : s.consumer = .restore op) (hcount : s.count < 0) :
      ConsumerStep n spins s .consume
        ({ s with count := s.count + 1 }.returnDequeue op.inner.nothing)
  /-- Something was. -/
  | signalled {op : Op} (hpc : s.consumer = .restore op) (hcount : 0 ≤ s.count) :
      ConsumerStep n spins s .consume ({ s with count := s.count + 1 }.consumeAt (.retake op))
  /-- The permit is taken again. -/
  | retake {op : Op} (hpc : s.consumer = .retake op) (hcount : 0 < s.count) :
      ConsumerStep n spins s .consume ({ s with count := s.count - 1 }.consumeAt (.semaTryWait op))
  /-- There is none any more. -/
  | retry {op : Op} (hpc : s.consumer = .retake op) (hcount : s.count ≤ 0) :
      ConsumerStep n spins s .consume ({ s with count := s.count - 1 }.consumeAt (.restore op))
  /-- The semaphore is not up yet. -/
  | notYet {op : Op} (hpc : s.consumer = .semaTryWait op) (hsema : s.sema = 0) :
      ConsumerStep n spins s .consume (s.consumeAt (.restore op))
  /-- The queue inside goes on. -/
  | on {op : Op} {inner : Queue.State α} (hpc : s.consumer = .dequeue op)
      (hin : Queue.step n s.inner .consume = some inner)
      (hgo : ∀ r, inner.consumer ≠ .returned r) :
      ConsumerStep n spins s .consume (s.setInner inner)
  /-- It has given an element. -/
  | done {op : Op} {inner : Queue.State α} {r : ConsumerResult α} (hpc : s.consumer = .dequeue op)
      (hin : Queue.step n s.inner .consume = some inner) (hret : inner.consumer = .returned r)
      (hsuccess : success r = true) :
      ConsumerStep n spins s .consume ((s.setInner inner).returnDequeue r)
  /-- A call of `peek` begins. -/
  | peek {inner : Queue.State α} (hpc : s.consumer.calling = false)
      (hin : Queue.step n s.inner .peek = some inner) :
      ConsumerStep n spins s .peek (afterPeek s inner)
  /-- It goes on. -/
  | peekOn {inner : Queue.State α} (hpc : s.consumer = .peek)
      (hin : Queue.step n s.inner .consume = some inner) :
      ConsumerStep n spins s .consume (afterPeek s inner)

variable {n spins : ℕ} {s s' : State α} {a : Action α}

/-! ## There are no others -/

theorem step_call (inner : Queue.State α) (alloc : AllocationMode) (x : α) :
    Queue.step n inner (alloc.call x) = Queue.innerEnqueue inner alloc x := by
  cases alloc with
  | _ => rfl

theorem step_call_op (inner : Queue.State α) (op : ConsumerOp) :
    Queue.step n inner op.call = Queue.enterConsumer inner op := by
  cases op with
  | _ => rfl

theorem enqueue_cases {alloc : AllocationMode} {x : α} (h : enqueue s alloc x = some s') :
    ProducerStep n s (.enqueue alloc x) s' := by
  rw [enqueue] at h
  obtain ⟨hpc, h⟩ := Option.ite_none_left_eq_some.1 h
  obtain ⟨inner, hin, rfl⟩ := Option.map_eq_some_iff.1 h
  exact .call (Bool.eq_false_iff.2 hpc) ((step_call _ _ _).trans hin)

theorem advanceProducer_cases {m : BlockPtr} (h : advanceProducer n s m = some s') :
    ProducerStep n s (.produce m) s' := by
  cases hpc : s.producer with
  | idle => simp [hpc, advanceProducer] at h
  | enqueue alloc x =>
    simp only [hpc, advanceProducer, Option.map_eq_some_iff] at h
    obtain ⟨inner, hin, rfl⟩ := h
    split
    · exact .put hpc hin ‹_›
    · exact .failed hpc hin ‹_›
    · rename_i htrue hfalse
      refine .on hpc hin fun b hb => ?_
      cases b with
      | true => exact htrue hb
      | false => exact hfalse hb
  | signal x =>
    simp only [hpc, advanceProducer] at h
    obtain ⟨hle, h⟩ := Option.ite_none_right_eq_some.1 h
    split at h
    · obtain rfl := Option.some.inj h
      exact .wake hpc (by omega)
    · obtain rfl := Option.some.inj h
      exact .signal hpc (by omega)
  | post =>
    simp only [hpc, advanceProducer] at h
    obtain rfl := Option.some.inj h
    exact .post hpc
  | returned success => simp [hpc, advanceProducer] at h

/-- The queue inside is called. -/
theorem dequeueInner_eq_some {op : Op} :
    dequeueInner s op = some s' ↔ ∃ inner, Queue.step n s.inner op.inner.call = some inner ∧
      s' = (s.setInner inner).consumeAt (.dequeue op) := by
  rw [dequeueInner, Option.map_eq_some_iff, step_call_op]
  simp only [eq_comm]

theorem advanceConsumer_cases (h : advanceConsumer spins s = some s') :
    ConsumerStep n spins s .consume s' := by
  cases hpc : s.consumer with
  | idle => simp [hpc, advanceConsumer] at h
  | tryWait op =>
    simp only [hpc, advanceConsumer] at h
    split at h
    · obtain rfl := Option.some.inj h
      exact .tryFound hpc ‹_›
    · have hcount := not_lt.1 ‹¬ 0 < s.count›
      cases htimeout : op.timeout with
      | none =>
        rw [htimeout] at h
        obtain rfl := Option.some.inj h
        exact .tryNothing hpc hcount htimeout
      | some t =>
        rw [htimeout] at h
        obtain rfl := Option.some.inj h
        exact .trySpin hpc hcount htimeout
  | tryTake op =>
    simp only [hpc, advanceConsumer] at h
    obtain ⟨inner, hin, rfl⟩ := (dequeueInner_eq_some (n := n)).1 h
    exact .take (Or.inl hpc) hin
  | spinning op spin =>
    simp only [hpc, advanceConsumer] at h
    split at h
    · obtain rfl := Option.some.inj h
      exact .spinFound hpc ‹_›
    · obtain rfl := Option.some.inj h
      exact .spinOn hpc (not_lt.1 ‹_›)
  | spinTake op =>
    simp only [hpc, advanceConsumer] at h
    obtain ⟨inner, hin, rfl⟩ := (dequeueInner_eq_some (n := n)).1 h
    exact .take (Or.inr (Or.inl hpc)) hin
  | take op =>
    simp only [hpc, advanceConsumer] at h
    split at h
    · obtain ⟨inner, hin, rfl⟩ := (dequeueInner_eq_some (n := n)).1 h
      exact .take (Or.inr (Or.inr ⟨hpc, ‹_›⟩)) hin
    · obtain rfl := Option.some.inj h
      exact .sleep hpc (not_lt.1 ‹_›)
  | semaWait op =>
    simp only [hpc, advanceConsumer] at h
    obtain ⟨hsema, h⟩ := Option.ite_none_right_eq_some.1 h
    obtain ⟨inner, hin, rfl⟩ := (dequeueInner_eq_some (n := n)).1 h
    exact .woken (Or.inl hpc) hsema hin
  | restore op =>
    simp only [hpc, advanceConsumer] at h
    split at h
    · obtain rfl := Option.some.inj h
      exact .giveUp hpc ‹_›
    · obtain rfl := Option.some.inj h
      exact .signalled hpc (not_lt.1 ‹_›)
  | retake op =>
    simp only [hpc, advanceConsumer] at h
    split at h
    · obtain rfl := Option.some.inj h
      exact .retake hpc ‹_›
    · obtain rfl := Option.some.inj h
      exact .retry hpc (not_lt.1 ‹_›)
  | semaTryWait op =>
    simp only [hpc, advanceConsumer] at h
    split at h
    · obtain ⟨inner, hin, rfl⟩ := (dequeueInner_eq_some (n := n)).1 h
      exact .woken (Or.inr hpc) ‹_› hin
    · obtain rfl := Option.some.inj h
      exact .notYet hpc (Nat.eq_zero_of_not_pos ‹_›)
  | dequeue op =>
    simp only [hpc, advanceConsumer, Option.bind_eq_some_iff] at h
    obtain ⟨inner, hin, h⟩ := h
    cases hret : inner.consumer with
    | returned r =>
      simp only [hret] at h
      obtain ⟨hsuccess, h⟩ := Option.ite_none_right_eq_some.1 h
      obtain rfl := Option.some.inj h
      exact .done hpc hin hret hsuccess
    | _ =>
      simp only [hret] at h
      obtain rfl := Option.some.inj h
      exact .on hpc hin (by rw [hret]; exact nofun)
  | peek =>
    simp only [hpc, advanceConsumer, Option.map_eq_some_iff] at h
    obtain ⟨inner, hin, rfl⟩ := h
    exact .peekOn hpc hin
  | returned r => simp [hpc, advanceConsumer] at h

/-- **A step is one of these.** -/
theorem step_cases (h : step n spins s a = some s') :
    ProducerStep n s a s' ∨ ConsumerStep n spins s a s' := by
  cases a with
  | enqueue alloc x => exact Or.inl (enqueue_cases h)
  | dequeue op =>
    simp only [step, dequeue] at h
    obtain ⟨hpc, h⟩ := Option.ite_none_left_eq_some.1 h
    obtain rfl := Option.some.inj h
    exact Or.inr (.call (Bool.eq_false_iff.2 hpc))
  | peek =>
    simp only [step, peek] at h
    obtain ⟨hpc, h⟩ := Option.ite_none_left_eq_some.1 h
    obtain ⟨inner, hin, rfl⟩ := Option.map_eq_some_iff.1 h
    exact Or.inr (.peek (Bool.eq_false_iff.2 hpc) hin)
  | produce m => exact Or.inl (advanceProducer_cases h)
  | consume => exact Or.inr (advanceConsumer_cases h)
  | timeOut =>
    simp only [step, timeOut] at h
    cases hpc : s.consumer with
    | semaWait op =>
      cases htimeout : op.timeout with
      | none => simp [hpc, htimeout] at h
      | some t =>
        simp only [hpc, htimeout] at h
        obtain ⟨ht, h⟩ := Option.ite_none_left_eq_some.1 h
        obtain rfl := Option.some.inj h
        exact Or.inr (.timeOut hpc htimeout (not_lt.1 ht))
    | _ => simp [hpc] at h

end Blocking

end AppServer
