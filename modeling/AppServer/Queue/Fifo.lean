import AppServer.Queue.Construct
import AppServer.Queue.Consumer
import AppServer.Queue.Producer

/-!
# First in, first out

The invariant holds in every state the two threads reach from a constructed
queue. What was taken out is then a prefix of what was put in (`fifo`), and a
call, once begun, is never held up: each thread can always take its next
step, whatever the other is in the middle of, and is back after a few of its
own (`wait_free`).
-/

namespace AppServer

namespace Queue

open Lib

variable {α : Type*} {maxBlockSize : UInt64} {s s' : State α} {a : Action α}

/-- States the two threads reach from a queue just constructed. -/
def Reachable (maxBlockSize : UInt64) (s : State α) : Prop :=
  ∃ maxSize mem s₀, construct maxBlockSize maxSize mem = some s₀ ∧
    Lib.Reachable (step maxBlockSize.toNat) s₀ s

/-- **Every step keeps the invariant.** -/
theorem Sound.step {n : ℕ} (h : Sound s) (hs : step n s a = some s') : Sound s' := by
  obtain ⟨used, spare, held, hcore, hcons, hprod⟩ := h
  rcases step_cases hs with hs | hs
  · obtain ⟨used', spare', held', hcore', hprod', hmove⟩ := hs.sound hcore hprod hcons
    exact ⟨used', spare', held', hcore', hcons.of_producerMove hcore hmove, hprod'⟩
  · obtain ⟨used', spare', held', hcore', hcons', hmove⟩ := hs.sound hcore hcons hprod
    exact ⟨used', spare', held', hcore', hcons', hprod.of_consumerMove hcore hmove⟩

/-- It holds of a queue just constructed. -/
theorem sound_construct {maxSize : UInt64} {mem : ℕ → BlockPtr}
    (h : construct maxBlockSize maxSize mem = some s) (hmax : maxBlockSize.toNat < 2 ^ 63) :
    Sound s := by
  obtain ⟨f, ps, c, -, hs, hcore, -⟩ := construct_core h hmax
  refine ⟨[f], ps, _, hcore, ?_, ?_⟩
  · rw [hs]
    trivial
  · rw [hs]
    trivial

theorem Reachable.sound (h : Reachable maxBlockSize s) (hmax : maxBlockSize.toNat < 2 ^ 63) :
    Sound s := by
  obtain ⟨_, _, s₀, hs₀, hr⟩ := h
  exact hr.invariant (sound_construct hs₀ hmax) fun _ _ _ hI hs => hI.step hs

/-- A state found by replay, with what was looked up in it. -/
theorem Reachable.exists_of_exec (maxBlockSize maxSize : UInt64) (mem : ℕ → BlockPtr)
    (as : List (Action α)) {P : State α → Prop} [DecidablePred P]
    (h : ((construct maxBlockSize maxSize mem).bind fun s₀ =>
      exec (Queue.step maxBlockSize.toNat) s₀ as).any (fun s => decide (P s)) = true) :
    ∃ s, Reachable maxBlockSize s ∧ P s := by
  obtain ⟨s, hs, hP⟩ := (Option.any_eq_true _ _).1 h
  obtain ⟨s₀, hs₀, hexec⟩ := Option.bind_eq_some_iff.1 hs
  exact ⟨s, ⟨_, _, s₀, hs₀, Lib.Reachable.of_exec hexec⟩, of_decide_eq_true hP⟩

/-- What is in the queue, and in the consumer's hands. -/
theorem Sound.history_split (h : Sound s) :
    ∃ rest, s.accepted = s.removed ++ (s.consumer.inFlight ++ rest) := by
  obtain ⟨used, spare, held, hcore, -⟩ := h
  exact ⟨_, hcore.history⟩

/-- **First in, first out.** However the two threads interleave, the elements
taken out are, in this order, the first of those that were put in. -/
theorem fifo (h : Reachable maxBlockSize s) (hmax : maxBlockSize.toNat < 2 ^ 63) :
    s.removed <+: s.accepted := by
  obtain ⟨rest, hrest⟩ := (h.sound hmax).history_split
  rw [hrest]
  exact List.prefix_append _ _

/-- Three elements in blocks of two slots, the second block linked in while
the first element is taken out and the third while the second is. -/
theorem fifo_three : ∃ s : State ℕ, Reachable 2 s ∧
    (s.accepted = [1, 2, 3] ∧ s.removed = [1, 2]) ∧
    s.removed <+: s.accepted := by
  obtain ⟨s, hs, hP⟩ := Reachable.exists_of_exec 2 1 (fun _ => 1)
    [.enqueue 1, .produce 0, .produce 0, .tryDequeue, .enqueue 2, .produce 0, .consume,
      .produce 0, .produce 7, .produce 0, .produce 0, .consume, .consume, .enqueue 3, .produce 0,
      .produce 0, .produce 9, .tryDequeue, .consume, .produce 0, .consume, .consume, .consume,
      .produce 0, .consume, .consume, .consume, .consume]
    (P := fun s : State ℕ => s.accepted = [1, 2, 3] ∧ s.removed = [1, 2]) (by decide +kernel)
  exact ⟨s, hs, hP, fifo hs (by decide)⟩

/-! ## Nobody waits -/

/-- How many steps of its own a call of `inner_enqueue` still takes at
most. -/
def ProducerPc.remaining : ProducerPc α → ℕ
  | .idle => 0
  | .readFront .. => 6
  | .construct .. => 2
  | .storeTail .. => 1
  | .readFrontBlock .. => 5
  | .readNextFront .. => 4
  | .constructNext .. => 3
  | .storeNextTail .. => 2
  | .allocate .. => 3
  | .linkNext .. => 2
  | .storeTailBlock .. => 1
  | .returned _ => 0

/-- The same for `try_dequeue`, `pop` and `peek`. -/
def ConsumerPc.remaining : ConsumerPc α → ℕ
  | .idle => 0
  | .readTail .. => 8
  | .readTailBlock .. => 7
  | .rereadTail _ => 6
  | .readNext .. => 5
  | .readNextTail .. => 4
  | .storeFrontBlock .. => 3
  | .take .. => 2
  | .storeFront .. => 1
  | .returned _ => 0

/-- A step of the producer in a call. -/
def Action.isProduce : Action α → Bool
  | .produce _ => true
  | _ => false

/-- A step of the consumer in a call. -/
def Action.isConsume : Action α → Bool
  | .consume => true
  | _ => false

/-- The producer calls nothing new. -/
def NoEnqueue (_ : State α) (a : Action α) : Prop := ∀ mode x, a ≠ AllocationMode.call mode x

/-- The consumer calls nothing new. -/
def NoDequeue (_ : State α) (a : Action α) : Prop := ∀ op, a ≠ ConsumerOp.call op

theorem AllocationMode.isConsume_call (mode : AllocationMode) (x : α) :
    (mode.call x).isConsume = false ∧ (mode.call x).isProduce = false := by
  cases mode with
  | _ => exact ⟨rfl, rfl⟩

theorem ConsumerOp.isProduce_call (op : ConsumerOp) :
    (op.call : Action α).isProduce = false ∧ (op.call : Action α).isConsume = false := by
  cases op with
  | _ => exact ⟨rfl, rfl⟩

theorem ConsumerOp.remaining_atElement (op : ConsumerOp) (p : BlockPtr) (i : ℕ) :
    (op.atElement p i : ConsumerPc α).remaining ≤ 2 := by
  cases op with
  | peek => exact Nat.zero_le 2
  | _ => exact le_refl 2

/-- A step of the consumer in a call brings it nearer to its end, and leaves
the producer where it is. -/
theorem ConsumerStep.remaining (h : ConsumerStep s a s') :
    s'.producer = s.producer ∧ a.isProduce = false ∧
      (a.isConsume = true → s'.consumer.remaining < s.consumer.remaining) ∧
      (a.isConsume = false → ∃ op, a = ConsumerOp.call op) := by
  have hat : ∀ (op : ConsumerOp) (p : BlockPtr) (i : ℕ),
      (op.atElement p i : ConsumerPc α).remaining < 3 :=
    fun op p i => Nat.lt_succ_of_le (op.remaining_atElement p i)
  cases h with
  | @callElement op b hpc hb hne =>
    obtain ⟨hp, hc⟩ := ConsumerOp.isProduce_call (α := α) op
    exact ⟨rfl, hp, fun h => absurd (hc.symm.trans h) nofun, fun _ => ⟨op, rfl⟩⟩
  | @callEmpty op b hpc hb heq =>
    obtain ⟨hp, hc⟩ := ConsumerOp.isProduce_call (α := α) op
    exact ⟨rfl, hp, fun h => absurd (hc.symm.trans h) nofun, fun _ => ⟨op, rfl⟩⟩
  | @readElement op p i b hpc hb hne =>
    refine ⟨rfl, rfl, fun _ => ?_, nofun⟩
    rw [hpc]
    exact (hat op p i).trans_le (by decide : 3 ≤ 8)
  | @rereadElement op b hpc hb hne =>
    refine ⟨rfl, rfl, fun _ => ?_, nofun⟩
    rw [hpc]
    exact (hat op s.frontBlock b.front).trans_le (by decide : 3 ≤ 6)
  | readEmpty hpc hb heq =>
    exact ⟨rfl, rfl, fun _ => by rw [hpc]; exact Nat.le_of_ble_eq_true rfl, nofun⟩
  | goAhead hpc hne =>
    exact ⟨rfl, rfl, fun _ => by rw [hpc]; exact Nat.le_of_ble_eq_true rfl, nofun⟩
  | nothing hpc heq =>
    exact ⟨rfl, rfl, fun _ => by rw [hpc]; exact Nat.le_of_ble_eq_true rfl, nofun⟩
  | rereadEmpty hpc hb heq =>
    exact ⟨rfl, rfl, fun _ => by rw [hpc]; exact Nat.le_of_ble_eq_true rfl, nofun⟩
  | readNext hpc hb =>
    exact ⟨rfl, rfl, fun _ => by rw [hpc]; exact Nat.le_of_ble_eq_true rfl, nofun⟩
  | peekNext hpc hb hne =>
    exact ⟨rfl, rfl, fun _ => by rw [hpc]; exact Nat.le_of_ble_eq_true rfl, nofun⟩
  | readNextTail hpc hb hne hop =>
    exact ⟨rfl, rfl, fun _ => by rw [hpc]; exact Nat.le_of_ble_eq_true rfl, nofun⟩
  | storeFrontBlock hpc =>
    exact ⟨rfl, rfl, fun _ => by rw [hpc]; exact Nat.le_of_ble_eq_true rfl, nofun⟩
  | take hpc hb hx => exact ⟨rfl, rfl, fun _ => by rw [hpc]; exact Nat.le_of_ble_eq_true rfl, nofun⟩
  | storeFront hpc hb =>
    exact ⟨rfl, rfl, fun _ => by rw [hpc]; exact Nat.le_of_ble_eq_true rfl, nofun⟩

/-- The same of the producer. -/
theorem ProducerStep.remaining {n : ℕ} (h : ProducerStep n s a s') :
    s'.consumer = s.consumer ∧ a.isConsume = false ∧
      (a.isProduce = true → s'.producer.remaining < s.producer.remaining) ∧
      (a.isProduce = false → ∃ mode x, a = AllocationMode.call mode x) := by
  cases h with
  | @callRoom mode x b hpc hb hroom =>
    obtain ⟨hc, hp⟩ := mode.isConsume_call x
    exact ⟨rfl, hc, fun h => absurd (hp.symm.trans h) nofun, fun _ => ⟨mode, x, rfl⟩⟩
  | @callFull mode x b hpc hb hfull =>
    obtain ⟨hc, hp⟩ := mode.isConsume_call x
    exact ⟨rfl, hc, fun h => absurd (hp.symm.trans h) nofun, fun _ => ⟨mode, x, rfl⟩⟩
  | readRoom hpc hb hroom =>
    exact ⟨rfl, rfl, fun _ => by rw [hpc]; exact Nat.le_of_ble_eq_true rfl, nofun⟩
  | readFull hpc hb hfull =>
    exact ⟨rfl, rfl, fun _ => by rw [hpc]; exact Nat.le_of_ble_eq_true rfl, nofun⟩
  | construct hpc hb hfree =>
    exact ⟨rfl, rfl, fun _ => by rw [hpc]; exact Nat.le_of_ble_eq_true rfl, nofun⟩
  | storeTail hpc hb =>
    exact ⟨rfl, rfl, fun _ => by rw [hpc]; exact Nat.le_of_ble_eq_true rfl, nofun⟩
  | goAhead hpc hb hfree =>
    exact ⟨rfl, rfl, fun _ => by rw [hpc]; exact Nat.le_of_ble_eq_true rfl, nofun⟩
  | goAllocate hpc hb hring =>
    exact ⟨rfl, rfl, fun _ => by rw [hpc]; exact Nat.le_of_ble_eq_true rfl, nofun⟩
  | refuse hpc hb hring =>
    exact ⟨rfl, rfl, fun _ => by rw [hpc]; exact Nat.le_of_ble_eq_true rfl, nofun⟩
  | readNextFront hpc hb heq =>
    exact ⟨rfl, rfl, fun _ => by rw [hpc]; exact Nat.le_of_ble_eq_true rfl, nofun⟩
  | constructNext hpc hb hfree =>
    exact ⟨rfl, rfl, fun _ => by rw [hpc]; exact Nat.le_of_ble_eq_true rfl, nofun⟩
  | storeNextTail hpc hb =>
    exact ⟨rfl, rfl, fun _ => by rw [hpc]; exact Nat.le_of_ble_eq_true rfl, nofun⟩
  | noMemory hpc => exact ⟨rfl, rfl, fun _ => by rw [hpc]; exact Nat.le_of_ble_eq_true rfl, nofun⟩
  | allocate hpc hb hm hnew =>
    exact ⟨rfl, rfl, fun _ => by rw [hpc]; exact Nat.le_of_ble_eq_true rfl, nofun⟩
  | linkNext hpc hb =>
    exact ⟨rfl, rfl, fun _ => by rw [hpc]; exact Nat.le_of_ble_eq_true rfl, nofun⟩
  | storeTailBlock hpc =>
    exact ⟨rfl, rfl, fun _ => by rw [hpc]; exact Nat.le_of_ble_eq_true rfl, nofun⟩

/-- In a run the consumer calls nothing new in, it takes no more steps than
it had left. -/
theorem countP_isConsume_le {n : ℕ} {as : List (Action α)}
    (h : Run (step n) NoDequeue s as s') : as.countP Action.isConsume ≤ s.consumer.remaining := by
  have hpot := h.potential (I := fun _ => True) (p := fun s => s.consumer.remaining)
    (c := fun _ => 0) (k := Action.isConsume) trivial (fun _ _ _ _ _ _ => trivial) ?_
  · omega
  · intro s a s' _ hok hs
    rcases step_cases hs with hs | hs
    · obtain ⟨hcons, hcount, -⟩ := hs.remaining
      simp [hcons, hcount]
    · obtain ⟨-, -, hless, hcall⟩ := hs.remaining
      cases hcount : a.isConsume with
      | false =>
        obtain ⟨op, rfl⟩ := hcall hcount
        exact absurd rfl (hok op)
      | true =>
        have hlt := hless hcount
        simp only [if_true]
        omega

/-- The same of the producer. -/
theorem countP_isProduce_le {n : ℕ} {as : List (Action α)}
    (h : Run (step n) NoEnqueue s as s') : as.countP Action.isProduce ≤ s.producer.remaining := by
  have hpot := h.potential (I := fun _ => True) (p := fun s => s.producer.remaining)
    (c := fun _ => 0) (k := Action.isProduce) trivial (fun _ _ _ _ _ _ => trivial) ?_
  · omega
  · intro s a s' _ hok hs
    rcases step_cases hs with hs | hs
    · obtain ⟨-, -, hless, hcall⟩ := hs.remaining
      cases hcount : a.isProduce with
      | false =>
        obtain ⟨mode, x, rfl⟩ := hcall hcount
        exact absurd rfl (hok mode x)
      | true =>
        have hlt := hless hcount
        simp only [if_true]
        omega
    · obtain ⟨hprod, hcount, -⟩ := hs.remaining
      simp [hprod, hcount]

/-- **The consumer can go on**: the block it looks into is there, the
assertion holds, and the slot it empties has an element. -/
theorem Sound.can_consume {n : ℕ} (h : Sound s) (hpc : s.consumer.dequeuing = true) :
    ∃ s', Queue.step n s .consume = some s' := by
  obtain ⟨used, spare, held, hcore, hat, -⟩ := h
  have hring : ∀ p ∈ used, ∃ b, s.heap p = some b ∧
      b.Sound (s.consumer.taken p) (held p) (s.producer.built p) :=
    fun p hp => hcore.block p (List.mem_append_left _ hp)
  obtain ⟨f, hf, hfs⟩ := hring _ hcore.front_mem
  show ∃ s', advanceConsumer s s.consumer = some s'
  cases hc : s.consumer with
  | idle => rw [hc] at hpc; cases hpc
  | returned r => rw [hc] at hpc; cases hpc
  | readTail op p i =>
    rw [hc] at hat
    obtain ⟨rfl, -⟩ := hat
    exact ⟨_, by rw [advanceConsumer, hf]; rfl⟩
  | readTailBlock op p =>
    rw [advanceConsumer]
    split
    · exact ⟨_, rfl⟩
    · exact ⟨_, rfl⟩
  | rereadTail op => exact ⟨_, by rw [advanceConsumer, hf]; rfl⟩
  | readNext op p =>
    rw [hc] at hat
    obtain ⟨rfl, -⟩ := hat
    exact ⟨_, by rw [advanceConsumer, hf]; rfl⟩
  | readNextTail op q =>
    rw [hc] at hat
    obtain ⟨-, hq⟩ := hat
    obtain ⟨b, hb, hs⟩ := hring q (List.mem_of_getElem? hq)
    -- a block behind the front block holds an element
    have hheld : held q ≠ [] := by
      refine hcore.nonempty q ?_
      obtain ⟨l, hl⟩ := hcore.exists_cons
      rw [hl] at hq ⊢
      exact List.mem_of_getElem? (i := 0) hq
    have hne : b.front ≠ b.tail := by
      rw [hc] at hs
      exact fun he => hheld (hs.tail_eq_front_iff.1 he.symm)
    rw [advanceConsumer, hb, Option.bind_some, if_pos hne]
    cases op with
    | _ => exact ⟨_, rfl⟩
  | storeFrontBlock op q i => exact ⟨_, rfl⟩
  | take op p i =>
    rw [hc] at hat hfs
    obtain ⟨-, rfl, hfacts⟩ := hat
    obtain ⟨rfl, hseen⟩ := hfacts f hf
    obtain ⟨x, xs, hheld⟩ := List.exists_cons_of_ne_nil hseen.ne_nil
    rw [hheld] at hfs
    have hx : f.data f.front = some x := hfs.first
    exact ⟨_, by rw [advanceConsumer, hf, Option.bind_some, hx]; rfl⟩
  | storeFront op p i x =>
    rw [hc] at hat
    obtain ⟨-, rfl, -⟩ := hat
    exact ⟨_, by rw [advanceConsumer, hf]; rfl⟩

/-- A call of the consumer can begin. -/
theorem Sound.can_enter (h : Sound s) (op : ConsumerOp) (hpc : s.consumer.dequeuing = false) :
    ∃ s', enterConsumer s op = some s' := by
  obtain ⟨used, spare, held, hcore, -⟩ := h
  obtain ⟨b, hb, -⟩ := hcore.block _ hcore.front_mem_ring
  exact ⟨_, by rw [enterConsumer, hpc, hb]; rfl⟩

/-- A call of the producer can begin. -/
theorem Sound.can_call (h : Sound s) (alloc : AllocationMode) (x : α)
    (hpc : s.producer.enqueuing = false) : ∃ s', innerEnqueue s alloc x = some s' := by
  obtain ⟨used, spare, held, hcore, -⟩ := h
  obtain ⟨b, hb, -⟩ := hcore.block _ hcore.tail_mem_ring
  simp only [innerEnqueue, hpc, hb, Bool.false_eq_true, if_false]
  split
  · exact ⟨_, rfl⟩
  · exact ⟨_, rfl⟩

/-- **The producer can go on**: the block it looks into is there, the
assertions hold, and the slot it fills is free. -/
theorem Sound.can_produce {n : ℕ} {m : BlockPtr} (h : Sound s)
    (hpc : s.producer.enqueuing = true) (hm : m = nullptr ∨ s.heap m = none) :
    ∃ s', Queue.step n s (.produce m) = some s' := by
  obtain ⟨used, spare, held, hcore, hcons, hat⟩ := h
  have hring : ∀ p ∈ used ++ spare, ∃ b, s.heap p = some b ∧
      b.Sound (s.consumer.taken p) (held p) (s.producer.built p) := hcore.block
  obtain ⟨t, ht, hts⟩ := hring _ hcore.tail_mem_ring
  have hspare : ∀ q, spare.head? = some q → ∃ b, s.heap q = some b ∧
      b.Sound 0 (held q) (s.producer.built q) := by
    intro q hq
    have hqs := List.mem_of_head? hq
    obtain ⟨b, hb, hs⟩ := hring q (List.mem_append_right _ hqs)
    rw [hcons.taken_eq_zero hcore (hcore.spare_ne hqs).1] at hs
    exact ⟨b, hb, hs⟩
  have hheld : ∀ q, spare.head? = some q → held q = s.producer.ahead q :=
    fun q hq => hcore.unused q (List.mem_of_head? hq)
  show ∃ s', advanceProducer n s m s.producer = some s'
  cases hp : s.producer with
  | idle => rw [hp] at hpc; cases hpc
  | returned r => rw [hp] at hpc; cases hpc
  | readFront mode x p i j =>
    rw [hp] at hat
    obtain ⟨rfl, -⟩ := hat
    exact ⟨_, by rw [advanceProducer, ht]; rfl⟩
  | construct x p i j =>
    rw [hp] at hat hts
    obtain ⟨rfl, hfacts⟩ := hat
    obtain ⟨rfl, -⟩ := hfacts t ht
    have hfree : t.data t.tail = none := hts.free
    exact ⟨_, by rw [advanceProducer, ht, Option.bind_some, constructAt, hfree]; rfl⟩
  | storeTail x p j =>
    rw [hp] at hat
    obtain ⟨rfl, -⟩ := hat
    exact ⟨_, by rw [advanceProducer, ht]; rfl⟩
  | readFrontBlock mode x p =>
    rw [hp] at hat
    obtain rfl : p = s.tailBlock := hat
    cases mode with
    | _ => exact ⟨_, by rw [advanceProducer, ht]; rfl⟩
  | readNextFront x q =>
    rw [hp] at hat
    obtain ⟨b, hb, hs⟩ := hspare q hat
    rw [hheld q hat, hp] at hs
    have heq : b.front = b.tail := (hs.tail_eq_front_iff.2 rfl).symm
    exact ⟨_, by rw [advanceProducer, hb, Option.bind_some, if_pos heq]⟩
  | constructNext x q i =>
    rw [hp] at hat
    obtain ⟨hq, hfacts⟩ := hat
    obtain ⟨b, hb, hs⟩ := hspare q hq
    obtain ⟨rfl, -⟩ := hfacts b hb
    rw [hp] at hs
    have hfree : b.data b.tail = none := hs.free
    exact ⟨_, by rw [advanceProducer, hb, Option.bind_some, constructAt, hfree]; rfl⟩
  | storeNextTail x q i =>
    rw [hp] at hat
    obtain ⟨b, hb, -⟩ := hspare q hat.1
    exact ⟨_, by rw [advanceProducer, hb]; rfl⟩
  | allocate x p =>
    rw [hp] at hat
    obtain rfl : p = s.tailBlock := hat
    rw [advanceProducer, ht, Option.bind_some]
    split
    · exact ⟨_, rfl⟩
    · rw [hm.resolve_left ‹_›]
      exact ⟨_, rfl⟩
  | linkNext x p q =>
    rw [hp] at hat
    obtain ⟨rfl, -⟩ := hat
    exact ⟨_, by rw [advanceProducer, ht]; rfl⟩
  | storeTailBlock x q => exact ⟨_, rfl⟩

theorem ProducerPc.remaining_le (pc : ProducerPc α) : pc.remaining ≤ 6 := by
  cases pc with
  | _ => exact Nat.le_of_ble_eq_true rfl

theorem ConsumerPc.remaining_le (pc : ConsumerPc α) : pc.remaining ≤ 8 := by
  cases pc with
  | _ => exact Nat.le_of_ble_eq_true rfl

/-- **Nobody waits and nothing fails.** Whatever the other thread is in the
middle of, a thread in a call can take its next step — no assertion fails, no
null pointer is followed, no element is constructed over another or moved out
of an empty slot — and is back from the call within 8 steps of the
consumer's, or 6 of the producer's. -/
theorem wait_free (h : Reachable maxBlockSize s) (hmax : maxBlockSize.toNat < 2 ^ 63) :
    (s.consumer.dequeuing = true → ∃ s', step maxBlockSize.toNat s .consume = some s') ∧
    (s.producer.enqueuing = true → ∀ m, m = nullptr ∨ s.heap m = none →
      ∃ s', step maxBlockSize.toNat s (.produce m) = some s') ∧
    (∀ as s', Run (step maxBlockSize.toNat) NoDequeue s as s' →
      as.countP Action.isConsume ≤ 8) ∧
    ∀ as s', Run (step maxBlockSize.toNat) NoEnqueue s as s' →
      as.countP Action.isProduce ≤ 6 := by
  have hsound := h.sound hmax
  refine ⟨hsound.can_consume, fun hpc m hm => hsound.can_produce hpc hm, fun as s' hr => ?_,
    fun as s' hr => ?_⟩
  · exact (countP_isConsume_le hr).trans s.consumer.remaining_le
  · exact (countP_isProduce_le hr).trans s.producer.remaining_le

/-- Both threads in the middle of a call. -/
theorem wait_free_both : ∃ s : State ℕ, Reachable 2 s ∧
    (s.consumer = .readNext .tryDequeue 1 ∧ s.producer = .linkNext 3 7 9) ∧
    ((s.consumer.dequeuing = true → ∃ s', step (UInt64.toNat 2) s .consume = some s') ∧
    (s.producer.enqueuing = true → ∀ m, m = nullptr ∨ s.heap m = none →
      ∃ s', step (UInt64.toNat 2) s (.produce m) = some s') ∧
    (∀ as s', Run (step (UInt64.toNat 2)) NoDequeue s as s' → as.countP Action.isConsume ≤ 8) ∧
    ∀ as s', Run (step (UInt64.toNat 2)) NoEnqueue s as s' → as.countP Action.isProduce ≤ 6) := by
  obtain ⟨s, hs, hP⟩ := Reachable.exists_of_exec 2 1 (fun _ => 1)
    [.enqueue 1, .produce 0, .produce 0, .enqueue 2, .produce 0, .produce 0, .produce 7,
      .produce 0, .produce 0, .tryDequeue, .consume, .consume, .consume, .enqueue 3, .tryDequeue,
      .consume, .produce 0, .produce 0, .produce 9, .consume, .consume]
    (P := fun s : State ℕ => s.consumer = .readNext .tryDequeue 1 ∧ s.producer = .linkNext 3 7 9)
    (by decide +kernel)
  exact ⟨s, hs, hP, wait_free hs (by decide)⟩

end Queue

end AppServer
