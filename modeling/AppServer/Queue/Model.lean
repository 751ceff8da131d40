import AppServer.Lib.Transition
import Mathlib.Logic.Function.Basic

/-!
# The queue of a thread, one access at a time

`ReaderWriterQueue` (`readerwriterqueue.h`) is a circular list of blocks,
each a circular buffer. One thread, the producer, puts elements in; another,
the consumer, takes them out; there is no lock. The producer owns
`tailBlock`, `largestBlockSize` and of each block `tail`, `localFront` and
`next`; the consumer owns `frontBlock` and of each block `front` and
`localTail`.

A step is one access to memory that both use — a load of what the other
thread owns, a store to what it reads, the construction or the destruction of
an element in its slot — together with the statements around it on what the
thread owns itself. Steps of the two interleave at will and take effect in
the order they are taken.

There is no step where the code would fail: where an assertion does not
hold, where a pointer leads to no block, where an element is constructed
over another one or moved out of an empty slot.
-/

namespace AppServer

namespace Queue

/-- A `Block *`. -/
abbrev BlockPtr := ℕ

/-- `nullptr`. -/
def nullptr : BlockPtr := 0

/-- `struct Block`. A slot of `data` is `none` where there is no element. -/
structure Block (α : Type*) where
  front : ℕ
  localTail : ℕ
  tail : ℕ
  localFront : ℕ
  next : BlockPtr
  data : ℕ → Option α
  sizeMask : ℕ

/-- `make_block`, where `malloc` finds the memory. -/
def makeBlock (α : Type*) (capacity : ℕ) : Block α where
  front := 0
  localTail := 0
  tail := 0
  localFront := 0
  next := nullptr
  data := fun _ => none
  sizeMask := capacity - 1

/-- `enum AllocationMode`. -/
inductive AllocationMode where
  | canAlloc
  | cannotAlloc
  deriving DecidableEq, Repr

/-- Where a call of `inner_enqueue` stands, with the local variables it will
still use. -/
inductive ProducerPc (α : Type*) where
  /-- Not in a call. -/
  | idle
  /-- In `tailBlock_->localFront = tailBlock_->front.load()`. -/
  | readFront (alloc : AllocationMode) (element : α) (tailBlock_ : BlockPtr)
      (blockTail nextBlockTail : ℕ)
  /-- In `new (location) T(…)`, there being room in the tail block. -/
  | construct (element : α) (tailBlock_ : BlockPtr) (blockTail nextBlockTail : ℕ)
  /-- In `tailBlock_->tail = nextBlockTail`. -/
  | storeTail (element : α) (tailBlock_ : BlockPtr) (nextBlockTail : ℕ)
  /-- In `tailBlock_->next.load() != frontBlock`. -/
  | readFrontBlock (alloc : AllocationMode) (element : α) (tailBlock_ : BlockPtr)
  /-- In `tailBlockNext->localFront = tailBlockNext->front.load()`. -/
  | readNextFront (element : α) (tailBlockNext : BlockPtr)
  /-- In `new (location) T(…)`, in the block ahead. -/
  | constructNext (element : α) (tailBlockNext : BlockPtr) (nextBlockTail : ℕ)
  /-- In `tailBlockNext->tail = …`. -/
  | storeNextTail (element : α) (tailBlockNext : BlockPtr) (nextBlockTail : ℕ)
  /-- In `make_block(newBlockSize)`. -/
  | allocate (element : α) (tailBlock_ : BlockPtr)
  /-- In `tailBlock_->next = newBlock`. -/
  | linkNext (element : α) (tailBlock_ newBlock : BlockPtr)
  /-- In `tailBlock = tailBlockNext`, or `tailBlock = newBlock`. -/
  | storeTailBlock (element : α) (block : BlockPtr)
  /-- Back from the call. -/
  | returned (success : Bool)
  deriving DecidableEq, Repr

/-- The functions of the consumer. `try_dequeue` and `pop` differ in what
they do with the element, and `peek` leaves it where it is. -/
inductive ConsumerOp where
  | tryDequeue
  | pop
  | peek
  deriving DecidableEq, Repr

/-- What the functions of the consumer return. `peek` returns the address of
an element, which is a block and a slot of it. -/
inductive ConsumerResult (α : Type*) where
  | dequeued (result : Option α)
  | popped (success : Bool)
  | peeked (element : Option (BlockPtr × ℕ))
  deriving DecidableEq, Repr

/-- Where a call of `try_dequeue`, `pop` or `peek` stands. -/
inductive ConsumerPc (α : Type*) where
  /-- Not in a call. -/
  | idle
  /-- In `frontBlock_->localTail = frontBlock_->tail.load()`, the first
  time. -/
  | readTail (op : ConsumerOp) (frontBlock_ : BlockPtr) (blockFront : ℕ)
  /-- In `frontBlock_ != tailBlock.load()`. -/
  | readTailBlock (op : ConsumerOp) (frontBlock_ : BlockPtr)
  /-- In `frontBlock_->localTail = frontBlock_->tail.load()`, the second
  time. -/
  | rereadTail (op : ConsumerOp)
  /-- In `frontBlock_->next`. -/
  | readNext (op : ConsumerOp) (frontBlock_ : BlockPtr)
  /-- In `nextBlock->tail.load()`. -/
  | readNextTail (op : ConsumerOp) (nextBlock : BlockPtr)
  /-- In `frontBlock = frontBlock_ = nextBlock`. -/
  | storeFrontBlock (op : ConsumerOp) (nextBlock : BlockPtr) (nextBlockFront : ℕ)
  /-- In `result = std::move(*element); element->~T()`. -/
  | take (op : ConsumerOp) (frontBlock_ : BlockPtr) (blockFront : ℕ)
  /-- In `frontBlock_->front = blockFront`. -/
  | storeFront (op : ConsumerOp) (frontBlock_ : BlockPtr) (blockFront : ℕ) (element : α)
  /-- Back from the call. -/
  | returned (result : ConsumerResult α)
  deriving DecidableEq, Repr

/-- The queue and the two threads. `accepted` and `removed` are history: the
arguments of the calls that returned `true`, and the elements that calls of
`try_dequeue` and `pop` took out, as they returned. -/
structure State (α : Type*) where
  frontBlock : BlockPtr
  tailBlock : BlockPtr
  largestBlockSize : ℕ
  heap : BlockPtr → Option (Block α)
  producer : ProducerPc α
  consumer : ConsumerPc α
  accepted : List α
  removed : List α

/-- What can happen. -/
inductive Action (α : Type*) where
  | tryEnqueue (element : α)
  | enqueue (element : α)
  | tryDequeue
  | pop
  | peek
  /-- The producer goes on; `malloc` is what `malloc` would return. -/
  | produce (malloc : BlockPtr)
  /-- The consumer goes on. -/
  | consume
  deriving DecidableEq, Repr

variable {α : Type*}

/-- `enqueuing`, which the `ReentrantGuard` sets. -/
def ProducerPc.enqueuing : ProducerPc α → Bool
  | .idle => false
  | .returned _ => false
  | _ => true

/-- `dequeuing`. -/
def ConsumerPc.dequeuing : ConsumerPc α → Bool
  | .idle => false
  | .returned _ => false
  | _ => true

namespace State

/-- Change a block. -/
def setBlock (s : State α) (p : BlockPtr) (b : Block α) : State α :=
  { s with heap := Function.update s.heap p (some b) }

/-- The producer goes to `pc`. -/
def produceAt (s : State α) (pc : ProducerPc α) : State α := { s with producer := pc }

/-- The consumer goes to `pc`. -/
def consumeAt (s : State α) (pc : ConsumerPc α) : State α := { s with consumer := pc }

end State

/-! ## The producer -/

/-- A call of `inner_enqueue`, up to its first load of what the consumer
owns. -/
def innerEnqueue (s : State α) (alloc : AllocationMode) (element : α) : Option (State α) :=
  if s.producer.enqueuing then none
  else
    match s.heap s.tailBlock with
    | none => none
    | some b =>
      let blockTail := b.tail
      let nextBlockTail := (blockTail + 1) &&& b.sizeMask
      if nextBlockTail ≠ b.localFront then
        some (s.produceAt (.construct element s.tailBlock blockTail nextBlockTail))
      else
        some (s.produceAt (.readFront alloc element s.tailBlock blockTail nextBlockTail))

/-- `new (location) T(…)` in a slot that must be free. -/
def constructAt (b : Block α) (i : ℕ) (element : α) : Option (Block α) :=
  if (b.data i).isSome then none
  else some { b with data := Function.update b.data i (some element) }

/-- `largestBlockSize >= MAX_BLOCK_SIZE ? largestBlockSize : largestBlockSize * 2`. -/
def newBlockSize (maxBlockSize largestBlockSize : ℕ) : ℕ :=
  if maxBlockSize ≤ largestBlockSize then largestBlockSize else largestBlockSize * 2

/-- The new block, before it is linked in: `element` in its first slot. -/
def newBlock (size : ℕ) (element : α) (next : BlockPtr) : Option (Block α) :=
  let b := makeBlock α size
  match constructAt b 0 element with
  | none => none
  | some b => if b.front = 0 then some { b with tail := 1, localTail := 1, next := next } else none

/-- The next step of `inner_enqueue`. -/
def advanceProducer (maxBlockSize : ℕ) (s : State α) (malloc : BlockPtr) :
    ProducerPc α → Option (State α)
  | .idle => none
  | .readFront alloc element tailBlock_ blockTail nextBlockTail =>
    (s.heap tailBlock_).map fun b =>
      let s := s.setBlock tailBlock_ { b with localFront := b.front }
      if nextBlockTail ≠ b.front then
        s.produceAt (.construct element tailBlock_ blockTail nextBlockTail)
      else s.produceAt (.readFrontBlock alloc element tailBlock_)
  | .construct element tailBlock_ blockTail nextBlockTail =>
    (s.heap tailBlock_).bind fun b =>
      (constructAt b blockTail element).map fun b =>
        (s.setBlock tailBlock_ b).produceAt (.storeTail element tailBlock_ nextBlockTail)
  | .storeTail element tailBlock_ nextBlockTail =>
    (s.heap tailBlock_).map fun b =>
      { (s.setBlock tailBlock_ { b with tail := nextBlockTail }).produceAt (.returned true) with
        accepted := s.accepted ++ [element] }
  | .readFrontBlock alloc element tailBlock_ =>
    (s.heap tailBlock_).map fun b =>
      if b.next ≠ s.frontBlock then s.produceAt (.readNextFront element b.next)
      else
        match alloc with
        | .canAlloc => s.produceAt (.allocate element tailBlock_)
        | .cannotAlloc => s.produceAt (.returned false)
  | .readNextFront element tailBlockNext =>
    (s.heap tailBlockNext).bind fun b =>
      -- `assert(nextBlockFront == nextBlockTail)`
      if b.front = b.tail then
        some ((s.setBlock tailBlockNext { b with localFront := b.front }).produceAt
          (.constructNext element tailBlockNext b.tail))
      else none
  | .constructNext element tailBlockNext nextBlockTail =>
    (s.heap tailBlockNext).bind fun b =>
      (constructAt b nextBlockTail element).map fun b =>
        (s.setBlock tailBlockNext b).produceAt (.storeNextTail element tailBlockNext nextBlockTail)
  | .storeNextTail element tailBlockNext nextBlockTail =>
    (s.heap tailBlockNext).map fun b =>
      (s.setBlock tailBlockNext { b with tail := (nextBlockTail + 1) &&& b.sizeMask }).produceAt
        (.storeTailBlock element tailBlockNext)
  | .allocate element tailBlock_ =>
    (s.heap tailBlock_).bind fun b =>
      if malloc = nullptr then some (s.produceAt (.returned false))
      else if (s.heap malloc).isSome then none -- memory in use is not handed out again
      else
        let size := newBlockSize maxBlockSize s.largestBlockSize
        (newBlock size element b.next).map fun nb =>
          { (s.setBlock malloc nb).produceAt (.linkNext element tailBlock_ malloc) with
            largestBlockSize := size }
  | .linkNext element tailBlock_ newBlock =>
    (s.heap tailBlock_).map fun b =>
      (s.setBlock tailBlock_ { b with next := newBlock }).produceAt
        (.storeTailBlock element newBlock)
  | .storeTailBlock element block =>
    some { s.produceAt (.returned true) with
      tailBlock := block
      accepted := s.accepted ++ [element] }
  | .returned _ => none

/-! ## The consumer -/

/-- What the functions return where there is no element. -/
def ConsumerOp.nothing : ConsumerOp → ConsumerResult α
  | .tryDequeue => .dequeued none
  | .pop => .popped false
  | .peek => .peeked none

/-- What `try_dequeue` and `pop` return with an element taken out. -/
def ConsumerOp.gives : ConsumerOp → α → ConsumerResult α
  | .tryDequeue, x => .dequeued (some x)
  | .pop, _ => .popped true
  | .peek, _ => .peeked none

/-- `non_empty_front_block`: what is done about the element in a slot. -/
def ConsumerOp.atElement (op : ConsumerOp) (frontBlock_ : BlockPtr) (blockFront : ℕ) :
    ConsumerPc α :=
  match op with
  | .peek => .returned (.peeked (some (frontBlock_, blockFront)))
  | _ => .take op frontBlock_ blockFront

/-- A call of `try_dequeue`, `pop` or `peek`, up to its first load of what
the producer owns. -/
def enterConsumer (s : State α) (op : ConsumerOp) : Option (State α) :=
  if s.consumer.dequeuing then none
  else
    (s.heap s.frontBlock).map fun b =>
      if b.front ≠ b.localTail then s.consumeAt (op.atElement s.frontBlock b.front)
      else s.consumeAt (.readTail op s.frontBlock b.front)

/-- The next step of `try_dequeue`, `pop` or `peek`. -/
def advanceConsumer (s : State α) : ConsumerPc α → Option (State α)
  | .idle => none
  | .readTail op frontBlock_ blockFront =>
    (s.heap frontBlock_).map fun b =>
      let s := s.setBlock frontBlock_ { b with localTail := b.tail }
      if blockFront ≠ b.tail then s.consumeAt (op.atElement frontBlock_ blockFront)
      else s.consumeAt (.readTailBlock op frontBlock_)
  | .readTailBlock op frontBlock_ =>
    if frontBlock_ ≠ s.tailBlock then some (s.consumeAt (.rereadTail op))
    else some (s.consumeAt (.returned op.nothing))
  | .rereadTail op =>
    (s.heap s.frontBlock).map fun b =>
      let s' := s.setBlock s.frontBlock { b with localTail := b.tail }
      if b.front ≠ b.tail then s'.consumeAt (op.atElement s.frontBlock b.front)
      else s'.consumeAt (.readNext op s.frontBlock)
  | .readNext op frontBlock_ =>
    (s.heap frontBlock_).map fun b => s.consumeAt (.readNextTail op b.next)
  | .readNextTail op nextBlock =>
    (s.heap nextBlock).bind fun b =>
      -- `assert(nextBlockFront != nextBlockTail)`
      if b.front ≠ b.tail then
        match op with
        | .peek => some (s.consumeAt (.returned (.peeked (some (nextBlock, b.front)))))
        | _ =>
          some ((s.setBlock nextBlock { b with localTail := b.tail }).consumeAt
            (.storeFrontBlock op nextBlock b.front))
      else none
  | .storeFrontBlock op nextBlock nextBlockFront =>
    some { s.consumeAt (.take op nextBlock nextBlockFront) with frontBlock := nextBlock }
  | .take op frontBlock_ blockFront =>
    (s.heap frontBlock_).bind fun b =>
      (b.data blockFront).map fun element =>
        (s.setBlock frontBlock_
          { b with data := Function.update b.data blockFront none }).consumeAt
          (.storeFront op frontBlock_ ((blockFront + 1) &&& b.sizeMask) element)
  | .storeFront op frontBlock_ blockFront element =>
    (s.heap frontBlock_).map fun b =>
      { (s.setBlock frontBlock_ { b with front := blockFront }).consumeAt
          (.returned (op.gives element)) with
        removed := s.removed ++ [element] }
  | .returned _ => none

/-! ## The two together -/

/-- **The step function.** -/
def step (maxBlockSize : ℕ) (s : State α) : Action α → Option (State α)
  | .tryEnqueue element => innerEnqueue s .cannotAlloc element
  | .enqueue element => innerEnqueue s .canAlloc element
  | .tryDequeue => enterConsumer s .tryDequeue
  | .pop => enterConsumer s .pop
  | .peek => enterConsumer s .peek
  | .produce malloc => advanceProducer maxBlockSize s malloc s.producer
  | .consume => advanceConsumer s s.consumer

end Queue

end AppServer
