import AppServer.Queue.Construct

/-!
# The queue one can wait on

`BlockingReaderWriterQueue` (`readerwriterqueue.h`) is a `ReaderWriterQueue`
with a `LightweightSemaphore` (`atomicops.h`) that counts what is in it: the
producer signals after each element, the consumer takes a permit before each.
The semaphore is a counter, `m_count`, which a waiting consumer brings down
to -1, and a semaphore of the system, `m_sema`, on which it sleeps then.

A step is an access to `m_count` or a call on `m_sema`, or a step of the
queue inside. The count is of 64 bits; it stands for elements there are, and
does not come near to them. `timed_wait` may run out at any time.
-/

namespace AppServer

namespace Blocking

open Queue (BlockPtr AllocationMode ConsumerOp ConsumerResult)

/-- The functions of the consumer, but for `peek`. -/
inductive Op where
  | tryDequeue
  | pop
  | waitDequeue
  | waitDequeueTimed (timeoutUsecs : ℤ)
  deriving DecidableEq, Repr

/-- The function they call of the queue inside. -/
def Op.inner : Op → ConsumerOp
  | .pop => .pop
  | _ => .tryDequeue

/-- The `timeout_usecs` of `waitWithPartialSpinning`, in those that call
it. -/
def Op.timeout : Op → Option ℤ
  | .tryDequeue => none
  | .pop => none
  | .waitDequeue => some (-1)
  | .waitDequeueTimed timeoutUsecs => some timeoutUsecs

/-- Where a call of `try_enqueue` or `enqueue` stands. -/
inductive ProducerPc (α : Type*) where
  /-- Not in a call. -/
  | idle
  /-- In `inner.try_enqueue(element)` or `inner.enqueue(element)`. -/
  | enqueue (alloc : AllocationMode) (element : α)
  /-- In `m_count.fetch_add_release(count)`. -/
  | signal (element : α)
  /-- In `m_sema.signal(1)`. -/
  | post
  /-- Back from the call. -/
  | returned (success : Bool)
  deriving DecidableEq, Repr

/-- Where a call of the consumer stands. -/
inductive ConsumerPc (α : Type*) where
  /-- Not in a call. -/
  | idle
  /-- In `m_count.load()`, in `tryWait`. -/
  | tryWait (op : Op)
  /-- In `m_count.fetch_add_acquire(-1)` there. -/
  | tryTake (op : Op)
  /-- In `m_count.load()`, in the loop of `waitWithPartialSpinning`. -/
  | spinning (op : Op) (spin : ℕ)
  /-- In `m_count.fetch_add_acquire(-1)` there. -/
  | spinTake (op : Op)
  /-- In `oldCount = m_count.fetch_add_acquire(-1)` after it. -/
  | take (op : Op)
  /-- In `m_sema.wait()`, or `m_sema.timed_wait(timeout_usecs)`. -/
  | semaWait (op : Op)
  /-- In `oldCount = m_count.fetch_add_release(1)`. -/
  | restore (op : Op)
  /-- In `oldCount = m_count.fetch_add_acquire(-1)` after it. -/
  | retake (op : Op)
  /-- In `m_sema.try_wait()`. -/
  | semaTryWait (op : Op)
  /-- In `inner.try_dequeue(result)` or `inner.pop()`. -/
  | dequeue (op : Op)
  /-- In `inner.peek()`. -/
  | peek
  /-- Back from the call. -/
  | returned (result : ConsumerResult α)
  deriving DecidableEq, Repr

/-- What the callers see, but for `peek`. -/
inductive Event (α : Type*) where
  /-- A call of `try_enqueue` or `enqueue`. -/
  | enqueue (alloc : AllocationMode) (element : α)
  /-- Its return. -/
  | enqueued (success : Bool)
  /-- A call of the consumer. -/
  | dequeue (op : Op)
  /-- Its return. -/
  | dequeued (result : ConsumerResult α)
  deriving DecidableEq, Repr

/-- The queue and the two threads; `history` is history. -/
structure State (α : Type*) where
  inner : Queue.State α
  count : ℤ
  sema : ℕ
  producer : ProducerPc α
  consumer : ConsumerPc α
  history : List (Event α)

/-- What can happen. -/
inductive Action (α : Type*) where
  /-- `try_enqueue`, or `enqueue`, is called. -/
  | enqueue (alloc : AllocationMode) (element : α)
  /-- A function of the consumer is called. -/
  | dequeue (op : Op)
  | peek
  /-- The producer goes on; `malloc` is what `malloc` would return. -/
  | produce (malloc : BlockPtr)
  /-- The consumer goes on. -/
  | consume
  /-- The time of `timed_wait` is up. -/
  | timeOut
  deriving DecidableEq, Repr

variable {α : Type*}

/-- In a call. -/
def ProducerPc.calling : ProducerPc α → Bool
  | .idle => false
  | .returned _ => false
  | _ => true

/-- In a call. -/
def ConsumerPc.calling : ConsumerPc α → Bool
  | .idle => false
  | .returned _ => false
  | _ => true

namespace State

/-- The producer goes to `pc`. -/
def produceAt (s : State α) (pc : ProducerPc α) : State α := { s with producer := pc }

/-- The consumer goes to `pc`. -/
def consumeAt (s : State α) (pc : ConsumerPc α) : State α := { s with consumer := pc }

/-- The queue inside has taken a step. -/
def setInner (s : State α) (inner : Queue.State α) : State α := { s with inner := inner }

/-- A call of the producer returns. -/
def returnEnqueue (s : State α) (success : Bool) : State α :=
  { s with producer := .returned success, history := s.history ++ [.enqueued success] }

/-- A call of the consumer returns. -/
def returnDequeue (s : State α) (result : ConsumerResult α) : State α :=
  { s with consumer := .returned result, history := s.history ++ [.dequeued result] }

end State

/-! ## The producer -/

/-- A call of `try_enqueue` or `enqueue`. -/
def enqueue (s : State α) (alloc : AllocationMode) (element : α) : Option (State α) :=
  if s.producer.calling then none
  else
    (Queue.innerEnqueue s.inner alloc element).map fun inner =>
      { (s.setInner inner).produceAt (.enqueue alloc element) with
        history := s.history ++ [.enqueue alloc element] }

/-- The next step of the producer. -/
def advanceProducer (maxBlockSize : ℕ) (s : State α) (malloc : BlockPtr) : Option (State α) :=
  match s.producer with
  | .idle => none
  | .enqueue _ element =>
    (Queue.advanceProducer maxBlockSize s.inner malloc s.inner.producer).map fun inner =>
      let s := s.setInner inner
      match inner.producer with
      | .returned true => s.produceAt (.signal element)
      | .returned false => s.returnEnqueue false
      | _ => s
  | .signal _ =>
    -- `assert(oldCount >= -1)`
    if -1 ≤ s.count then
      let s' := { s with count := s.count + 1 }
      if s.count < 0 then some (s'.produceAt .post) else some (s'.returnEnqueue true)
    else none
  | .post => some ({ s with sema := s.sema + 1 }.returnEnqueue true)
  | .returned _ => none

/-! ## The consumer -/

/-- With a permit, the queue inside is called. -/
def dequeueInner (s : State α) (op : Op) : Option (State α) :=
  (Queue.enterConsumer s.inner op.inner).map fun inner =>
    (s.setInner inner).consumeAt (.dequeue op)

/-- `while (--spin >= 0)`. -/
def nextSpin (op : Op) : ℕ → ConsumerPc α
  | 0 => .take op
  | spin + 1 => .spinning op spin

/-- `success`, what the queue inside has returned. -/
def success : ConsumerResult α → Bool
  | .dequeued result => result.isSome
  | .popped success => success
  | .peeked element => element.isSome

/-- A call of a function of the consumer. -/
def dequeue (s : State α) (op : Op) : Option (State α) :=
  if s.consumer.calling then none
  else some { s.consumeAt (.tryWait op) with history := s.history ++ [.dequeue op] }

/-- `peek` returns what the queue inside does. -/
def afterPeek (s : State α) (inner : Queue.State α) : State α :=
  let s := s.setInner inner
  match inner.consumer with
  | .returned result => s.consumeAt (.returned result)
  | _ => s.consumeAt .peek

/-- A call of `peek`. -/
def peek (s : State α) : Option (State α) :=
  if s.consumer.calling then none
  else (Queue.enterConsumer s.inner .peek).map (afterPeek s)

/-- The next step of the consumer. `spins` is what `spin` is set to. -/
def advanceConsumer (spins : ℕ) (s : State α) : Option (State α) :=
  match s.consumer with
  | .idle => none
  | .tryWait op =>
    if 0 < s.count then some (s.consumeAt (.tryTake op))
    else
      match op.timeout with
      | none => some (s.returnDequeue op.inner.nothing)
      | some _ => some (s.consumeAt (nextSpin op spins))
  | .tryTake op => dequeueInner { s with count := s.count - 1 } op
  | .spinning op spin =>
    if 0 < s.count then some (s.consumeAt (.spinTake op))
    else some (s.consumeAt (nextSpin op spin))
  | .spinTake op => dequeueInner { s with count := s.count - 1 } op
  | .take op =>
    let s' := { s with count := s.count - 1 }
    if 0 < s.count then dequeueInner s' op else some (s'.consumeAt (.semaWait op))
  | .semaWait op =>
    -- asleep where there is nothing to take
    if 0 < s.sema then dequeueInner { s with sema := s.sema - 1 } op else none
  | .restore op =>
    let s' := { s with count := s.count + 1 }
    if s.count < 0 then some (s'.returnDequeue op.inner.nothing)
    else some (s'.consumeAt (.retake op))
  | .retake op =>
    let s' := { s with count := s.count - 1 }
    if 0 < s.count then some (s'.consumeAt (.semaTryWait op))
    else some (s'.consumeAt (.restore op))
  | .semaTryWait op =>
    if 0 < s.sema then dequeueInner { s with sema := s.sema - 1 } op
    else some (s.consumeAt (.restore op))
  | .dequeue _ =>
    (Queue.advanceConsumer s.inner s.inner.consumer).bind fun inner =>
      let s := s.setInner inner
      match inner.consumer with
      -- `assert(success)`
      | .returned result => if success result then some (s.returnDequeue result) else none
      | _ => some s
  | .peek => (Queue.advanceConsumer s.inner s.inner.consumer).map (afterPeek s)
  | .returned _ => none

/-- `timed_wait` returns `false`. A negative `timeout_usecs` never comes to
it. -/
def timeOut (s : State α) : Option (State α) :=
  match s.consumer with
  | .semaWait op =>
    match op.timeout with
    | some timeoutUsecs =>
      if timeoutUsecs < 0 then none else some (s.consumeAt (.restore op))
    | none => none
  | _ => none

/-! ## The two together -/

/-- **The step function.** -/
def step (maxBlockSize spins : ℕ) (s : State α) : Action α → Option (State α)
  | .enqueue alloc element => enqueue s alloc element
  | .dequeue op => dequeue s op
  | .peek => peek s
  | .produce malloc => advanceProducer maxBlockSize s malloc
  | .consume => advanceConsumer spins s
  | .timeOut => timeOut s

/-- The constructor. -/
def construct (maxBlockSize maxSize : UInt64) (mem : ℕ → BlockPtr) : Option (State α) :=
  (Queue.construct maxBlockSize maxSize mem).map fun inner => ⟨inner, 0, 0, .idle, .idle, []⟩

/-- `size_approx`, which is `availableApprox`. -/
def State.sizeApprox (s : State α) : ℤ := if 0 < s.count then s.count else 0

end Blocking

end AppServer
