import AppServer.Lib.CircularList
import AppServer.Queue.Block
import AppServer.Queue.Step

/-!
# The shape of the queue

At any time the blocks form one circle: those in use, from the front block to
the tail block, and behind the tail block the spare ones. The elements of the
queue are those of the blocks in use, block by block; a spare block holds
nothing, but for the element of a producer about to move `tailBlock` on to it
(`Core`).

`ConsumerAt` and `ProducerAt` say what a thread knows where it stands. The
other thread leaves that true: `ProducerAt.of_consumerMove` and
`ConsumerAt.of_producerMove` say so of any step that does no more than
`ConsumerMove` and `ProducerMove` allow.
-/

namespace AppServer

namespace Queue

open Lib

variable {α : Type*}

/-- 1 while the consumer has moved an element out of the block and not given
its slot back. -/
def ConsumerPc.taken : ConsumerPc α → BlockPtr → ℕ
  | .storeFront _ q _ _, p => if p = q then 1 else 0
  | _, _ => 0

/-- The element moved out. -/
def ConsumerPc.inFlight : ConsumerPc α → List α
  | .storeFront _ _ _ x => [x]
  | _ => []

/-- The element constructed in the block behind its `tail`. -/
def ProducerPc.built : ProducerPc α → BlockPtr → List α
  | .storeTail x q _, p => if p = q then [x] else []
  | .storeNextTail x q _, p => if p = q then [x] else []
  | _, _ => []

/-- The element in the block ahead of the tail block. -/
def ProducerPc.ahead : ProducerPc α → BlockPtr → List α
  | .storeTailBlock x q, p => if p = q then [x] else []
  | _, _ => []

/-- The block that is made but not yet linked in. -/
def ProducerPc.fresh : ProducerPc α → Option BlockPtr
  | .linkNext _ _ q => some q
  | _ => none

/-- The block linked in behind this one. -/
def State.next (s : State α) (p : BlockPtr) : BlockPtr :=
  match s.heap p with
  | some b => b.next
  | none => nullptr

/-- **The shape of the queue**: the blocks in use, the spare ones, and what
each holds. -/
structure Core (s : State α) (used spare : List BlockPtr) (held : BlockPtr → List α) : Prop where
  nodup : (used ++ spare).Nodup
  head : used.head? = some s.frontBlock
  last : used.getLast? = some s.tailBlock
  circular : Circular s.next (used ++ spare)
  block : ∀ p ∈ used ++ spare, ∃ b, s.heap p = some b ∧
    b.Sound (s.consumer.taken p) (held p) (s.producer.built p)
  nonempty : ∀ p ∈ used.tail, held p ≠ []
  unused : ∀ p ∈ spare, held p = s.producer.ahead p
  tailSeen : ∀ b, s.heap s.frontBlock = some b →
    b.TailSeen (s.consumer.taken s.frontBlock) (held s.frontBlock) 0
  frontSeen : ∀ b, s.heap s.tailBlock = some b →
    b.FrontSeen (s.consumer.taken s.tailBlock) (held s.tailBlock) (s.producer.built s.tailBlock) 0
  history : s.accepted = s.removed ++ (s.consumer.inFlight ++ used.flatMap held)
  largest : ∃ e, s.largestBlockSize = 2 ^ (e + 1)
  allocated : ∀ p b, s.heap p = some b → p ∈ used ++ spare ∨ s.producer.fresh = some p

/-- What the consumer knows. -/
def ConsumerAt (s : State α) (used : List BlockPtr) (held : BlockPtr → List α) :
    ConsumerPc α → Prop
  | .idle => True
  | .readTail _ p i => p = s.frontBlock ∧ ∀ b, s.heap p = some b → i = b.front
  | .readTailBlock _ p => p = s.frontBlock
  | .rereadTail _ => 2 ≤ used.length
  | .readNext _ p => p = s.frontBlock ∧ held p = [] ∧ 2 ≤ used.length
  | .readNextTail _ q => held s.frontBlock = [] ∧ used[1]? = some q
  | .storeFrontBlock op q i => op ≠ .peek ∧ held s.frontBlock = [] ∧ used[1]? = some q ∧
      ∀ b, s.heap q = some b → i = b.front ∧ b.TailSeen 0 (held q) 1
  | .take op p i => op ≠ .peek ∧ p = s.frontBlock ∧
      ∀ b, s.heap p = some b → i = b.front ∧ b.TailSeen 0 (held p) 1
  | .storeFront op p i _ => op ≠ .peek ∧ p = s.frontBlock ∧
      ∀ b, s.heap p = some b → i = (b.front + 1) &&& b.sizeMask
  | .returned (.dequeued (some x)) => s.removed.getLast? = some x
  | .returned (.peeked (some (p, i))) => held p ≠ [] ∧
      (p = s.frontBlock ∨ held s.frontBlock = [] ∧ used[1]? = some p) ∧
      ∀ b, s.heap p = some b → i = b.front
  | .returned _ => True

/-- What the producer knows. -/
def ProducerAt (s : State α) (used spare : List BlockPtr) (held : BlockPtr → List α) :
    ProducerPc α → Prop
  | .idle => True
  | .readFront _ _ p i j => p = s.tailBlock ∧
      ∀ b, s.heap p = some b → i = b.tail ∧ j = (b.tail + 1) &&& b.sizeMask
  | .construct _ p i j => p = s.tailBlock ∧ ∀ b, s.heap p = some b →
      i = b.tail ∧ j = (b.tail + 1) &&& b.sizeMask ∧
        b.FrontSeen (s.consumer.taken p) (held p) [] 1
  | .storeTail _ p j => p = s.tailBlock ∧
      ∀ b, s.heap p = some b → j = (b.tail + 1) &&& b.sizeMask
  | .readFrontBlock _ _ p => p = s.tailBlock
  | .readNextFront _ q => spare.head? = some q
  | .constructNext _ q i => spare.head? = some q ∧
      ∀ b, s.heap q = some b → i = b.tail ∧ b.FrontSeen 0 [] [] 1
  | .storeNextTail x q i => spare.head? = some q ∧
      ∀ b, s.heap q = some b → i = b.tail ∧ b.FrontSeen 0 [] [x] 0
  | .allocate _ p => p = s.tailBlock
  | .linkNext x p q => p = s.tailBlock ∧ q ∉ used ++ spare ∧
      ∃ b, s.heap q = some b ∧ b.Sound 0 [x] [] ∧ b.FrontSeen 0 [x] [] 0 ∧ b.next = s.next p
  | .storeTailBlock x q => spare.head? = some q ∧
      ∀ b, s.heap q = some b → b.FrontSeen 0 [x] [] 0
  | .returned _ => True

/-- **The invariant.** -/
def Sound (s : State α) : Prop :=
  ∃ used spare held, Core s used spare held ∧ ConsumerAt s used held s.consumer ∧
    ProducerAt s used spare held s.producer

variable {s s' : State α} {used spare used' spare' : List BlockPtr} {held held' : BlockPtr → List α}
  {p q : BlockPtr} {b b' : Block α}

/-! ## Reading the shape -/

namespace Core

theorem exists_cons (h : Core s used spare held) : ∃ l, used = s.frontBlock :: l := by
  have hhead := h.head
  cases used with
  | nil => cases hhead
  | cons p l => exact ⟨l, by rw [Option.some.inj hhead]⟩

theorem exists_snoc (h : Core s used spare held) : ∃ l, used = l ++ [s.tailBlock] :=
  List.getLast?_eq_some_iff.1 h.last

theorem front_mem (h : Core s used spare held) : s.frontBlock ∈ used := by
  obtain ⟨l, rfl⟩ := h.exists_cons
  exact List.mem_cons_self

theorem tail_mem (h : Core s used spare held) : s.tailBlock ∈ used :=
  List.mem_of_getLast? h.last

theorem front_mem_ring (h : Core s used spare held) : s.frontBlock ∈ used ++ spare :=
  List.mem_append_left _ h.front_mem

theorem tail_mem_ring (h : Core s used spare held) : s.tailBlock ∈ used ++ spare :=
  List.mem_append_left _ h.tail_mem

/-- A block in use is not spare. -/
theorem not_spare (h : Core s used spare held) (hp : p ∈ used) : p ∉ spare := by
  intro hs
  exact (List.nodup_append.1 h.nodup).2.2 p hp p hs rfl

/-- The front block is the tail block where no other is in use. -/
theorem front_eq_tail_iff (h : Core s used spare held) :
    s.frontBlock = s.tailBlock ↔ ¬ 2 ≤ used.length := by
  obtain ⟨l, hl⟩ := h.exists_cons
  have hnd : used.Nodup := (List.nodup_append.1 h.nodup).1
  have hlast := h.last
  subst hl
  cases l with
  | nil => simpa using hlast
  | cons p l =>
    have hne : s.frontBlock ≠ s.tailBlock := by
      intro he
      have hmem : s.tailBlock ∈ p :: l := by
        rw [List.getLast?_cons_cons] at hlast
        exact List.mem_of_getLast? hlast
      exact (List.nodup_cons.1 hnd).1 (he ▸ hmem)
    simp [hne]

/-- The block behind the front block. -/
theorem next_front (h : Core s used spare held) (hu : 2 ≤ used.length) :
    ∃ q l, used = s.frontBlock :: q :: l ∧ s.next s.frontBlock = q := by
  obtain ⟨l, rfl⟩ := h.exists_cons
  cases l with
  | nil => simp at hu
  | cons q l => exact ⟨q, l, rfl, Circular.next_head (l := l ++ spare) h.circular⟩

/-- The block behind the tail block: a spare one, or the front block where
there is none. -/
theorem next_tail (h : Core s used spare held) :
    (spare = [] ∧ s.next s.tailBlock = s.frontBlock) ∨
      ∃ q l, spare = q :: l ∧ s.next s.tailBlock = q ∧ q ≠ s.frontBlock := by
  obtain ⟨l, hl⟩ := h.exists_snoc
  cases hsp : spare with
  | nil =>
    refine Or.inl ⟨rfl, ?_⟩
    have hcirc := h.circular
    rw [hsp, List.append_nil] at hcirc
    exact hcirc.next_getLast h.head h.last
  | cons q m =>
    refine Or.inr ⟨q, m, rfl, ?_, ?_⟩
    · have hcirc := h.circular
      rw [hl, hsp, List.append_assoc] at hcirc
      exact Circular.next_mid hcirc
    · rintro rfl
      exact h.not_spare h.front_mem (by rw [hsp]; exact List.mem_cons_self)

theorem next_eq (h : s.heap p = some b) : s.next p = b.next := by
  rw [State.next, h]

theorem next_congr (h : s'.heap p = s.heap p) : s'.next p = s.next p := by
  rw [State.next, State.next, h]

/-- What is found in a block of the circle. -/
theorem sound (h : Core s used spare held) (hp : p ∈ used ++ spare) (hb : s.heap p = some b) :
    b.Sound (s.consumer.taken p) (held p) (s.producer.built p) := by
  obtain ⟨b', hb', hs⟩ := h.block p hp
  rw [hb] at hb'
  exact Option.some.inj hb' ▸ hs

end Core

/-- What is found in a block that was just written. -/
theorem eq_of_update (hb : Function.update s.heap p (some b') p = some b) : b = b' := by
  rw [Function.update_self] at hb
  exact (Option.some.inj hb).symm

/-- What a block holds matters only where the block is. -/
theorem flatMap_update {l : List BlockPtr} {ys : List α} (hp : p ∉ l) :
    l.flatMap (Function.update held p ys) = l.flatMap held := by
  refine List.flatMap_congr fun q hq => Function.update_of_ne ?_ _ _
  rintro rfl
  exact hp hq

/-- The consumer has a slot of the front block at most. -/
theorem ConsumerAt.taken_of_ne (h : ConsumerAt s used held s.consumer) (hp : p ≠ s.frontBlock) :
    s.consumer.taken p = 0 := by
  cases hpc : s.consumer with
  | storeFront op q i x =>
    rw [hpc] at h
    exact if_neg fun hpq => hp (hpq.trans h.2.1)
  | _ => rfl

/-- It has no slot of a block that is not in use. -/
theorem ConsumerAt.taken_eq_zero (h : ConsumerAt s used held s.consumer)
    (hcore : Core s used spare held) (hp : p ∉ used) : s.consumer.taken p = 0 := by
  refine h.taken_of_ne ?_
  rintro rfl
  exact hp hcore.front_mem

/-- Nothing is ahead in a block in use. -/
theorem ProducerAt.ahead_eq_nil (h : ProducerAt s used spare held s.producer)
    (hcore : Core s used spare held) (hp : p ∈ used) : s.producer.ahead p = [] := by
  cases hpc : s.producer with
  | storeTailBlock x q =>
    rw [hpc] at h
    refine if_neg ?_
    rintro rfl
    exact hcore.not_spare hp (List.mem_of_head? h.1)
  | _ => rfl

/-! ## A step that changes no block -/

/-- Where the threads stand is only of interest for the elements they have
in hand. -/
theorem Core.of_pc (h : Core s used spare held) (hfront : s'.frontBlock = s.frontBlock)
    (htail : s'.tailBlock = s.tailBlock) (hheap : ∀ p ∈ used ++ spare, s'.heap p = s.heap p)
    (htaken : s'.consumer.taken = s.consumer.taken)
    (hflight : s'.consumer.inFlight = s.consumer.inFlight)
    (hbuilt : s'.producer.built = s.producer.built)
    (hahead : s'.producer.ahead = s.producer.ahead) (hacc : s'.accepted = s.accepted)
    (hrem : s'.removed = s.removed) (hlargest : ∃ e, s'.largestBlockSize = 2 ^ (e + 1))
    (halloc : ∀ p b, s'.heap p = some b → p ∈ used ++ spare ∨ s'.producer.fresh = some p) :
    Core s' used spare held where
  nodup := h.nodup
  head := by rw [hfront]; exact h.head
  last := by rw [htail]; exact h.last
  circular := by
    exact h.circular.congr fun p hp => next_congr (hheap p hp)
  block p hp := by rw [hheap p hp, htaken, hbuilt]; exact h.block p hp
  nonempty := h.nonempty
  unused p hp := by rw [hahead]; exact h.unused p hp
  tailSeen b hb := by
    rw [hfront] at hb ⊢
    rw [hheap _ h.front_mem_ring] at hb
    rw [htaken]
    exact h.tailSeen b hb
  frontSeen b hb := by
    rw [htail] at hb ⊢
    rw [hheap _ h.tail_mem_ring] at hb
    rw [htaken, hbuilt]
    exact h.frontSeen b hb
  history := by rw [hacc, hrem, hflight]; exact h.history
  largest := hlargest
  allocated := halloc

/-! ## A step that changes one block -/

/-- **One block changes.** -/
theorem Core.of_update (b' : Block α) (h : Core s used spare held) (hp : p ∈ used ++ spare)
    (hb : s.heap p = some b) (hheap : s'.heap = Function.update s.heap p (some b'))
    (hheld : ∀ q, q ≠ p → held' q = held q)
    (hfront : s'.frontBlock = s.frontBlock) (htail : s'.tailBlock = s.tailBlock)
    (hnext : b'.next = b.next)
    (htaken : ∀ q, q ≠ p → s'.consumer.taken q = s.consumer.taken q)
    (hbuilt : ∀ q, q ≠ p → s'.producer.built q = s.producer.built q)
    (hahead : ∀ q, q ≠ p → s'.producer.ahead q = s.producer.ahead q)
    (hsound : b'.Sound (s'.consumer.taken p) (held' p) (s'.producer.built p))
    (hne : p ∈ used.tail → held' p ≠ []) (hun : p ∈ spare → held' p = s'.producer.ahead p)
    (hts : p = s.frontBlock → b'.TailSeen (s'.consumer.taken p) (held' p) 0)
    (hfs : p = s.tailBlock →
      b'.FrontSeen (s'.consumer.taken p) (held' p) (s'.producer.built p) 0)
    (hhist : s'.accepted = s'.removed ++ (s'.consumer.inFlight ++ used.flatMap held'))
    (hlargest : s'.largestBlockSize = s.largestBlockSize)
    (hfresh : s'.producer.fresh = s.producer.fresh) : Core s' used spare held' where
  nodup := h.nodup
  head := by rw [hfront]; exact h.head
  last := by rw [htail]; exact h.last
  circular := by
    refine h.circular.congr fun q _ => ?_
    rw [State.next, State.next, hheap]
    by_cases hq : q = p
    · subst hq
      rw [Function.update_self, hb]
      exact hnext
    · rw [Function.update_of_ne hq]
  block q hq := by
    rw [hheap]
    by_cases hqp : q = p
    · subst hqp
      rw [Function.update_self]
      exact ⟨b', rfl, hsound⟩
    · rw [Function.update_of_ne hqp, hheld q hqp, htaken q hqp, hbuilt q hqp]
      exact h.block q hq
  nonempty q hq := by
    by_cases hqp : q = p
    · subst hqp
      exact hne hq
    · rw [hheld q hqp]
      exact h.nonempty q hq
  unused q hq := by
    by_cases hqp : q = p
    · subst hqp
      exact hun hq
    · rw [hheld q hqp, hahead q hqp]
      exact h.unused q hq
  tailSeen b₁ hb₁ := by
    rw [hfront] at hb₁ ⊢
    rw [hheap] at hb₁
    by_cases hqp : s.frontBlock = p
    · rw [hqp, Function.update_self] at hb₁
      rw [hqp]
      exact Option.some.inj hb₁ ▸ hts hqp.symm
    · rw [Function.update_of_ne hqp] at hb₁
      rw [htaken _ hqp, hheld _ hqp]
      exact h.tailSeen b₁ hb₁
  frontSeen b₁ hb₁ := by
    rw [htail] at hb₁ ⊢
    rw [hheap] at hb₁
    by_cases hqp : s.tailBlock = p
    · rw [hqp, Function.update_self] at hb₁
      rw [hqp]
      exact Option.some.inj hb₁ ▸ hfs hqp.symm
    · rw [Function.update_of_ne hqp] at hb₁
      rw [htaken _ hqp, hbuilt _ hqp, hheld _ hqp]
      exact h.frontSeen b₁ hb₁
  history := hhist
  largest := by rw [hlargest]; exact h.largest
  allocated q b₁ hb₁ := by
    rw [hfresh]
    rw [hheap] at hb₁
    by_cases hqp : q = p
    · subst hqp
      exact Or.inl hp
    · rw [Function.update_of_ne hqp] at hb₁
      exact h.allocated q b₁ hb₁

/-! ## What one thread does to the other -/

/-- **All the consumer does**, as the producer sees it: it changes the front
block, or leaves it behind. -/
structure ConsumerMove (s s' : State α) (used spare used' spare' : List BlockPtr)
    (held held' : BlockPtr → List α) : Prop where
  producer : s'.producer = s.producer
  tailBlock : s'.tailBlock = s.tailBlock
  accepted : s'.accepted = s.accepted
  removed : s.removed <+: s'.removed
  largest : s'.largestBlockSize = s.largestBlockSize
  next : s'.next = s.next
  shift : (s'.frontBlock = s.frontBlock ∧ used' = used ∧ spare' = spare) ∨
    (used = s.frontBlock :: used' ∧ spare' = spare ++ [s.frontBlock])
  block : ∀ p b', s'.heap p = some b' → ∃ b, s.heap p = some b ∧ b'.tail = b.tail ∧
    b'.sizeMask = b.sizeMask ∧ ∀ built room,
      b.FrontSeen (s.consumer.taken p) (held p) built room →
      b'.FrontSeen (s'.consumer.taken p) (held' p) built room
  outside : ∀ p, p ∉ used → s'.heap p = s.heap p
  settled : ∀ p, p ≠ s.frontBlock → held' p = held p

/-- **All the producer does**, as the consumer sees it: it changes the tail
block and what is behind it, or moves on. -/
structure ProducerMove (s s' : State α) (used spare used' spare' : List BlockPtr)
    (held held' : BlockPtr → List α) : Prop where
  consumer : s'.consumer = s.consumer
  frontBlock : s'.frontBlock = s.frontBlock
  removed : s'.removed = s.removed
  shift : (s'.tailBlock = s.tailBlock ∧ used' = used ∧ spare' = spare) ∨
    (∃ x q, s.producer = .linkNext x s.tailBlock q ∧ s'.tailBlock = s.tailBlock ∧ used' = used ∧
      spare' = q :: spare) ∨
    ∃ x q, s.producer = .storeTailBlock x q ∧ used' = used ++ [q] ∧ spare = q :: spare'
  block : ∀ p ∈ used ++ spare, ∀ b', s'.heap p = some b' → ∃ b, s.heap p = some b ∧
    b'.front = b.front ∧ b'.sizeMask = b.sizeMask ∧ b'.localTail = b.localTail
  filled : ∀ p ∈ used, ∃ xs, held' p = held p ++ xs
  settled : ∀ p ∈ used, p ≠ s.tailBlock → held' p = held p

theorem ConsumerMove.used_subset (h : ConsumerMove s s' used spare used' spare' held held') :
    ∀ p ∈ used', p ∈ used := by
  rcases h.shift with ⟨-, rfl, -⟩ | ⟨rfl, -⟩
  · exact fun p hp => hp
  · exact fun p hp => List.mem_cons_of_mem _ hp

theorem ConsumerMove.freed (h : ConsumerMove s s' used spare used' spare' held held') :
    ∃ l, spare' = spare ++ l ∧ ∀ p ∈ l, p ∈ used := by
  rcases h.shift with ⟨-, -, rfl⟩ | ⟨rfl, rfl⟩
  · exact ⟨[], by rw [List.append_nil], nofun⟩
  · refine ⟨[s.frontBlock], rfl, fun p hp => ?_⟩
    rw [List.mem_singleton.1 hp]
    exact List.mem_cons_self

theorem ProducerMove.grown (h : ProducerMove s s' used spare used' spare' held held') :
    ∃ l, used' = used ++ l := by
  rcases h.shift with ⟨-, rfl, -⟩ | ⟨_, _, -, -, rfl, -⟩ | ⟨_, q, -, rfl, -⟩
  · exact ⟨[], by rw [List.append_nil]⟩
  · exact ⟨[], by rw [List.append_nil]⟩
  · exact ⟨[q], rfl⟩

theorem ProducerAt.of_consumerMove (h : ProducerAt s used spare held s.producer)
    (hcore : Core s used spare held)
    (hm : ConsumerMove s s' used spare used' spare' held held') :
    ProducerAt s' used' spare' held' s'.producer := by
  have hhead : ∀ q, spare.head? = some q → spare'.head? = some q := by
    intro q hq
    obtain ⟨l, hl, -⟩ := hm.freed
    cases hs : spare with
    | nil => rw [hs] at hq; cases hq
    | cons r m =>
      rw [hl, hs]
      rw [hs] at hq
      exact hq
  -- what the producer has not linked in is not in use, and a spare block neither
  have hout : ∀ q, spare.head? = some q → s'.heap q = s.heap q := by
    intro q hq
    refine hm.outside q fun hu => hcore.not_spare hu (List.mem_of_head? hq)
  rw [hm.producer]
  cases hpc : s.producer with
  | idle => trivial
  | returned _ => trivial
  | readFront mode x p i j =>
    rw [hpc] at h
    refine ⟨h.1.trans hm.tailBlock.symm, fun b' hb' => ?_⟩
    obtain ⟨b, hb, htail, hmask, -⟩ := hm.block _ b' hb'
    rw [htail, hmask]
    exact h.2 b hb
  | construct x p i j =>
    rw [hpc] at h
    refine ⟨h.1.trans hm.tailBlock.symm, fun b' hb' => ?_⟩
    obtain ⟨b, hb, htail, hmask, hseen⟩ := hm.block _ b' hb'
    obtain ⟨hi, hj, hroom⟩ := h.2 b hb
    rw [htail, hmask]
    exact ⟨hi, hj, hseen _ _ hroom⟩
  | storeTail x p j =>
    rw [hpc] at h
    refine ⟨h.1.trans hm.tailBlock.symm, fun b' hb' => ?_⟩
    obtain ⟨b, hb, htail, hmask, -⟩ := hm.block _ b' hb'
    rw [htail, hmask]
    exact h.2 b hb
  | readFrontBlock mode x p =>
    rw [hpc] at h
    exact Eq.trans h hm.tailBlock.symm
  | readNextFront x q =>
    rw [hpc] at h
    exact hhead q h
  | constructNext x q i =>
    rw [hpc] at h
    refine ⟨hhead q h.1, fun b hb => h.2 b ?_⟩
    rw [← hout q h.1]
    exact hb
  | storeNextTail x q i =>
    rw [hpc] at h
    refine ⟨hhead q h.1, fun b hb => h.2 b ?_⟩
    rw [← hout q h.1]
    exact hb
  | allocate x p =>
    rw [hpc] at h
    exact Eq.trans h hm.tailBlock.symm
  | linkNext x p q =>
    rw [hpc] at h
    obtain ⟨hp, hq, b, hb, hrest⟩ := h
    have hqu : q ∉ used := fun hu => hq (List.mem_append_left _ hu)
    refine ⟨hp.trans hm.tailBlock.symm, fun hmem => ?_, b, ?_, ?_⟩
    · obtain ⟨l, rfl, hl⟩ := hm.freed
      rcases List.mem_append.1 hmem with hu | hs
      · exact hqu (hm.used_subset q hu)
      · rcases List.mem_append.1 hs with hs | hs
        · exact hq (List.mem_append_right _ hs)
        · exact hqu (hl q hs)
    · rw [hm.outside q hqu, hb]
    · rw [hm.next]
      exact hrest
  | storeTailBlock x q =>
    rw [hpc] at h
    refine ⟨hhead q h.1, fun b hb => h.2 b ?_⟩
    rw [← hout q h.1]
    exact hb

theorem ConsumerAt.of_producerMove (h : ConsumerAt s used held s.consumer)
    (hcore : Core s used spare held)
    (hm : ProducerMove s s' used spare used' spare' held held') :
    ConsumerAt s' used' held' s'.consumer := by
  have hlen : 2 ≤ used.length → 2 ≤ used'.length := by
    obtain ⟨l, rfl⟩ := hm.grown
    intro hu
    rw [List.length_append]
    omega
  have hsecond : ∀ q, used[1]? = some q → used'[1]? = some q := by
    obtain ⟨l, rfl⟩ := hm.grown
    intro q hq
    obtain ⟨hlt, -⟩ := List.getElem?_eq_some_iff.1 hq
    rw [List.getElem?_append_left hlt]
    exact hq
  have hmem : ∀ q, used[1]? = some q → q ∈ used := fun q hq => List.mem_of_getElem? hq
  have htwo : ∀ q, used[1]? = some q → 2 ≤ used.length := by
    intro q hq
    obtain ⟨hlt, -⟩ := List.getElem?_eq_some_iff.1 hq
    exact hlt
  -- with another block in use the front block is not the one that grows
  have hempty : 2 ≤ used.length → held s.frontBlock = [] → held' s'.frontBlock = [] := by
    intro hu he
    rw [hm.frontBlock, hm.settled _ hcore.front_mem, he]
    exact fun hft => hcore.front_eq_tail_iff.1 hft hu
  have hseen : ∀ p ∈ used, ∀ i, (∀ b, s.heap p = some b → i = b.front ∧ b.TailSeen 0 (held p) 1) →
      ∀ b, s'.heap p = some b → i = b.front ∧ b.TailSeen 0 (held' p) 1 := by
    intro p hp i h b' hb'
    obtain ⟨b, hb, hfront, hmask, hlocal⟩ := hm.block p (List.mem_append_left _ hp) b' hb'
    obtain ⟨xs, hxs⟩ := hm.filled p hp
    obtain ⟨hi, hseen⟩ := h b hb
    rw [hfront, hxs]
    exact ⟨hi, hseen.append hfront hlocal hmask⟩
  rw [hm.consumer]
  cases hpc : s.consumer with
  | idle => trivial
  | readTail op p i =>
    rw [hpc] at h
    refine ⟨h.1.trans hm.frontBlock.symm, fun b' hb' => ?_⟩
    obtain ⟨b, hb, hfront, -⟩ := hm.block p (List.mem_append_left _ (h.1 ▸ hcore.front_mem)) b' hb'
    rw [hfront]
    exact h.2 b hb
  | readTailBlock op p =>
    rw [hpc] at h
    exact Eq.trans h hm.frontBlock.symm
  | rereadTail op =>
    rw [hpc] at h
    exact hlen h
  | readNext op p =>
    rw [hpc] at h
    obtain ⟨rfl, he, hu⟩ := h
    refine ⟨hm.frontBlock.symm, ?_, hlen hu⟩
    rw [← hm.frontBlock]
    exact hempty hu he
  | readNextTail op q =>
    rw [hpc] at h
    exact ⟨hempty (htwo q h.2) h.1, hsecond q h.2⟩
  | storeFrontBlock op q i =>
    rw [hpc] at h
    obtain ⟨hop, he, hq, hb⟩ := h
    exact ⟨hop, hempty (htwo q hq) he, hsecond q hq, hseen q (hmem q hq) i hb⟩
  | take op p i =>
    rw [hpc] at h
    obtain ⟨hop, rfl, hb⟩ := h
    exact ⟨hop, hm.frontBlock.symm, hseen _ hcore.front_mem i hb⟩
  | storeFront op p i x =>
    rw [hpc] at h
    obtain ⟨hop, rfl, h⟩ := h
    refine ⟨hop, hm.frontBlock.symm, fun b' hb' => ?_⟩
    obtain ⟨b, hb, hfront, hmask, -⟩ :=
      hm.block _ hcore.front_mem_ring b' hb'
    rw [hfront, hmask]
    exact h b hb
  | returned r =>
    rw [hpc] at h
    cases r with
    | popped _ => trivial
    | dequeued r =>
      cases r with
      | none => trivial
      | some x =>
        show s'.removed.getLast? = some x
        rw [hm.removed]
        exact h
    | peeked r =>
      cases r with
      | none => trivial
      | some e =>
        obtain ⟨p, i⟩ := e
        obtain ⟨hne, hp, hi⟩ := h
        have hpu : p ∈ used := by
          rcases hp with rfl | ⟨-, hq⟩
          · exact hcore.front_mem
          · exact hmem p hq
        refine ⟨?_, ?_, fun b' hb' => ?_⟩
        · obtain ⟨xs, hxs⟩ := hm.filled p hpu
          rw [hxs]
          exact List.append_ne_nil_of_left_ne_nil hne xs
        · rcases hp with rfl | ⟨he, hq⟩
          · exact Or.inl hm.frontBlock.symm
          · exact Or.inr ⟨hempty (htwo p hq) he, hsecond p hq⟩
        · obtain ⟨b, hb, hfront, -⟩ := hm.block p (List.mem_append_left _ hpu) b' hb'
          rw [hfront]
          exact hi b hb

end Queue

end AppServer
