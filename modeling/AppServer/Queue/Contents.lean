import AppServer.Queue.Capacity

/-!
# What is left in the queue

`peek` gives the address of the oldest element, and it stays where it is
until the consumer takes it out (`peek_oldest`). The destructor, run when
both threads are done, destroys the elements that were put in and not taken
out, each once and in this order, and gives back every block
(`destroy_rest`); `size_approx` counts them then (`sizeApprox_rest`).
-/

namespace AppServer

namespace Queue

open Lib Lib.CircularBuffer

variable {α : Type*} {maxBlockSize : UInt64} {s : State α} {used spare : List BlockPtr}
  {held : BlockPtr → List α} {p : BlockPtr}

/-! ## The destructor -/

/-- `for (i = blockFront; i != blockTail; i = (i + 1) & sizeMask)`: the
elements destroyed. None can be destroyed where there is none. -/
def destroyElements : ℕ → Block α → ℕ → Option (List α)
  | 0, _, _ => none
  | fuel + 1, block, i =>
    if i = block.tail then some []
    else
      (block.data i).bind fun element =>
        (destroyElements fuel { block with data := Function.update block.data i none }
          ((i + 1) &&& block.sizeMask)).map fun rest => element :: rest

/-- `do … while (block != frontBlock_)`: the elements destroyed, and the heap
without the blocks. -/
def destroyBlocks (frontBlock_ : BlockPtr) :
    ℕ → (BlockPtr → Option (Block α)) → BlockPtr → Option (List α × (BlockPtr → Option (Block α)))
  | 0, _, _ => none
  | fuel + 1, heap, block =>
    (heap block).bind fun b =>
      (destroyElements (b.sizeMask + 1) b b.front).bind fun elements =>
        let heap := Function.update heap block none
        if b.next = frontBlock_ then some (elements, heap)
        else
          (destroyBlocks frontBlock_ fuel heap b.next).map fun rest =>
            (elements ++ rest.1, rest.2)

/-- `~ReaderWriterQueue`. -/
def State.destroy (fuel : ℕ) (s : State α) :
    Option (List α × (BlockPtr → Option (Block α))) :=
  destroyBlocks s.frontBlock fuel s.heap s.frontBlock

/-! ## `size_approx` -/

/-- `(blockTail - blockFront) & sizeMask`, in 64 bits. -/
def Block.sizeApprox (b : Block α) : ℕ := ((b.tail + 2 ^ 64 - b.front) % 2 ^ 64) &&& b.sizeMask

/-- `do … while (block != frontBlock_)`, with nobody about. -/
def sizeBlocks (heap : BlockPtr → Option (Block α)) (frontBlock_ : BlockPtr) :
    ℕ → BlockPtr → Option ℕ
  | 0, _ => none
  | fuel + 1, block =>
    (heap block).bind fun b =>
      if b.next = frontBlock_ then some b.sizeApprox
      else (sizeBlocks heap frontBlock_ fuel b.next).map fun rest => b.sizeApprox + rest

/-- `size_approx`. -/
def State.sizeApprox (fuel : ℕ) (s : State α) : Option ℕ :=
  sizeBlocks s.heap s.frontBlock fuel s.frontBlock

/-! ## One block -/

/-- **The elements of a block are destroyed in order**, whatever fuel there
is more than there are elements. -/
theorem destroyElements_eq {fuel e i : ℕ} {b : Block α} {xs : List α}
    (hsize : b.size = 2 ^ e) (hi : i < b.size) (htail : b.tail = (i + xs.length) % b.size)
    (h : Holds b.size b.data i xs) (hfuel : xs.length < fuel) :
    destroyElements fuel b i = some xs := by
  induction xs generalizing fuel b i with
  | nil =>
    obtain ⟨fuel, rfl⟩ := Nat.exists_eq_succ_of_ne_zero (Nat.ne_zero_of_lt hfuel)
    rw [List.length_nil, Nat.add_zero, Nat.mod_eq_of_lt hi] at htail
    exact if_pos htail.symm
  | cons x xs ih =>
    obtain ⟨fuel, rfl⟩ := Nat.exists_eq_succ_of_ne_zero (Nat.ne_zero_of_lt hfuel)
    have hne : i ≠ b.tail := by
      intro he
      have hlen : (x :: xs).length = 0 := (advance_eq_iff hi h.1).1 (htail.symm.trans he.symm)
      cases hlen
    have hfirst : b.data i = some x := by
      have hfirst := h.first
      rwa [Nat.mod_eq_of_lt hi] at hfirst
    have hpop := h.pop
    rw [Nat.mod_eq_of_lt hi] at hpop
    have hnext : (i + 1) &&& b.sizeMask = (i + 1) % b.size := and_mask hsize (i + 1)
    have hrest : destroyElements fuel { b with data := Function.update b.data i none }
        ((i + 1) % b.size) = some xs := by
      refine ih hsize (Nat.mod_lt _ b.size_pos) ?_ hpop (Nat.lt_of_succ_lt_succ hfuel)
      show b.tail = ((i + 1) % b.size + xs.length) % b.size
      rw [htail, Nat.mod_add_mod, List.length_cons, Nat.add_assoc, Nat.add_comm 1]
    rw [destroyElements, if_neg hne, hfirst, Option.bind_some, hnext, hrest]
    rfl

theorem Block.Sound.destroyElements_eq {b : Block α} {xs : List α} (h : b.Sound 0 xs []) :
    destroyElements (b.sizeMask + 1) b b.front = some xs := by
  obtain ⟨e, he⟩ := h.size
  have hholds := h.holds
  rw [Nat.add_zero, List.append_nil] at hholds
  refine Queue.destroyElements_eq he h.front_lt ?_ hholds hholds.1
  rw [h.tail, Nat.zero_add]

/-- **The elements of a block are counted**, where the indices fit in 64
bits. -/
theorem Block.Sound.sizeApprox_eq {b : Block α} {xs : List α} (h : b.Sound 0 xs [])
    (hsmall : b.size ≤ 2 ^ 64) : b.sizeApprox = xs.length := by
  obtain ⟨e, he⟩ := h.size
  have hdvd : b.size ∣ 2 ^ 64 := by
    rw [he] at hsmall ⊢
    exact Nat.pow_dvd_pow 2 ((Nat.pow_le_pow_iff_right Nat.one_lt_two).1 hsmall)
  have hfront := h.front_lt
  have hlen : xs.length < b.size := by
    have hfits := h.fits
    simpa using hfits
  have hsub : b.tail + 2 ^ 64 - b.front = b.tail + (2 ^ 64 - b.front) := by omega
  have hmask : b.sizeApprox = (b.tail + 2 ^ 64 - b.front) % 2 ^ 64 % b.size := and_mask he _
  rw [hmask, Nat.mod_mod_of_dvd _ hdvd, hsub, h.tail, Nat.zero_add, Nat.mod_add_mod]
  have hcancel : b.front + xs.length + (2 ^ 64 - b.front) = xs.length + 2 ^ 64 := by omega
  rw [hcancel, Nat.add_mod, Nat.mod_eq_zero_of_dvd hdvd, Nat.add_zero, Nat.mod_mod,
    Nat.mod_eq_of_lt hlen]

/-! ## All blocks -/

/-- The blocks from some block of the circle on are destroyed and freed. -/
theorem destroyBlocks_eq {f : BlockPtr} {l : List BlockPtr} {fuel : ℕ}
    {heap : BlockPtr → Option (Block α)}
    (hchain : List.IsChain (fun p q => s.next p = q) (p :: l ++ [f])) (hnd : (p :: l).Nodup)
    (hf : f ∉ l) (hheap : ∀ q ∈ p :: l, heap q = s.heap q) (hout : ∀ q, q ∉ p :: l → heap q = none)
    (hblock : ∀ q ∈ p :: l, ∃ b, s.heap q = some b ∧ b.Sound 0 (held q) [])
    (hfuel : l.length < fuel) :
    destroyBlocks f fuel heap p = some ((p :: l).flatMap held, fun _ => none) := by
  induction l generalizing p fuel heap with
  | nil =>
    obtain ⟨fuel, rfl⟩ := Nat.exists_eq_succ_of_ne_zero (Nat.ne_zero_of_lt hfuel)
    obtain ⟨b, hb, hs⟩ := hblock p List.mem_cons_self
    have hnext : b.next = f := by
      rw [← Core.next_eq hb]
      exact (List.isChain_cons_cons.1 hchain).1
    rw [destroyBlocks, hheap p List.mem_cons_self, hb, Option.bind_some, hs.destroyElements_eq,
      Option.bind_some]
    have hempty : Function.update heap p none = fun _ => none := by
      funext q
      by_cases hq : q = p
      · rw [hq, Function.update_self]
      · rw [Function.update_of_ne hq]
        exact hout q (fun hmem => hq (List.mem_singleton.1 hmem))
    dsimp only
    rw [if_pos hnext, hempty, List.flatMap_singleton]
  | cons q l ih =>
    obtain ⟨fuel, rfl⟩ := Nat.exists_eq_succ_of_ne_zero (Nat.ne_zero_of_lt hfuel)
    obtain ⟨b, hb, hs⟩ := hblock p List.mem_cons_self
    obtain ⟨hpq, hchain⟩ := List.isChain_cons_cons.1 hchain
    have hnext : b.next = q := by
      rw [← Core.next_eq hb]
      exact hpq
    have hqf : q ≠ f := fun he => hf (he ▸ List.mem_cons_self)
    obtain ⟨hpl, hnd⟩ := List.nodup_cons.1 hnd
    have hrest : destroyBlocks f fuel (Function.update heap p none) q =
        some ((q :: l).flatMap held, fun _ => none) := by
      refine ih hchain hnd (fun hmem => hf (List.mem_cons_of_mem q hmem)) ?_ ?_ ?_
        (Nat.lt_of_succ_lt_succ hfuel)
      · intro r hr
        have hrp : r ≠ p := fun he => hpl (he ▸ hr)
        rw [Function.update_of_ne hrp]
        exact hheap r (List.mem_cons_of_mem p hr)
      · intro r hr
        by_cases hrp : r = p
        · rw [hrp, Function.update_self]
        · rw [Function.update_of_ne hrp]
          refine hout r fun hmem => ?_
          rcases List.mem_cons.1 hmem with he | hmem
          · exact hrp he
          · exact hr hmem
      · exact fun r hr => hblock r (List.mem_cons_of_mem p hr)
    rw [destroyBlocks, hheap p List.mem_cons_self, hb, Option.bind_some, hs.destroyElements_eq,
      Option.bind_some]
    dsimp only
    rw [hnext, if_neg hqf, hrest, List.flatMap_cons]
    rfl

/-- They are counted. -/
theorem sizeBlocks_eq {f : BlockPtr} {l : List BlockPtr} {fuel : ℕ}
    (hchain : List.IsChain (fun p q => s.next p = q) (p :: l ++ [f])) (hf : f ∉ l)
    (hblock : ∀ q ∈ p :: l, ∃ b, s.heap q = some b ∧ b.Sound 0 (held q) [] ∧ b.size ≤ 2 ^ 64)
    (hfuel : l.length < fuel) :
    sizeBlocks s.heap f fuel p = some ((p :: l).flatMap held).length := by
  induction l generalizing p fuel with
  | nil =>
    obtain ⟨fuel, rfl⟩ := Nat.exists_eq_succ_of_ne_zero (Nat.ne_zero_of_lt hfuel)
    obtain ⟨b, hb, hs, hsmall⟩ := hblock p List.mem_cons_self
    have hnext : b.next = f := by
      rw [← Core.next_eq hb]
      exact (List.isChain_cons_cons.1 hchain).1
    rw [sizeBlocks, hb, Option.bind_some, if_pos hnext, hs.sizeApprox_eq hsmall,
      List.flatMap_singleton]
  | cons q l ih =>
    obtain ⟨fuel, rfl⟩ := Nat.exists_eq_succ_of_ne_zero (Nat.ne_zero_of_lt hfuel)
    obtain ⟨b, hb, hs, hsmall⟩ := hblock p List.mem_cons_self
    obtain ⟨hpq, hchain⟩ := List.isChain_cons_cons.1 hchain
    have hnext : b.next = q := by
      rw [← Core.next_eq hb]
      exact hpq
    have hqf : q ≠ f := fun he => hf (he ▸ List.mem_cons_self)
    have hrest := ih hchain (fun hmem => hf (List.mem_cons_of_mem q hmem))
      (fun r hr => hblock r (List.mem_cons_of_mem p hr)) (Nat.lt_of_succ_lt_succ hfuel)
    rw [sizeBlocks, hb, Option.bind_some, hnext, if_neg hqf, hrest, hs.sizeApprox_eq hsmall]
    show _ = some (held p ++ (q :: l).flatMap held).length
    rw [List.length_append]
    rfl

/-! ## With both threads done -/

/-- Nobody is in a call. -/
def State.Quiet (s : State α) : Prop :=
  s.producer.enqueuing = false ∧ s.consumer.dequeuing = false

/-- What is left then: the circle from the front block on, with nothing half
done in any block. -/
theorem Core.quiet (h : Core s used spare held) (hquiet : s.Quiet) :
    ∃ l, used ++ spare = s.frontBlock :: l ∧
      List.IsChain (fun p q => s.next p = q) (s.frontBlock :: l ++ [s.frontBlock]) ∧
      (s.frontBlock :: l).Nodup ∧ (∀ p, p ∉ s.frontBlock :: l → s.heap p = none) ∧
      (∀ q ∈ s.frontBlock :: l, ∃ b, s.heap q = some b ∧ b.Sound 0 (held q) []) ∧
      s.accepted = s.removed ++ (s.frontBlock :: l).flatMap held := by
  have hprod := ProducerPc.EmptyHanded.of_not_enqueuing hquiet.1
  have hcons := ConsumerPc.EmptyHanded.of_not_dequeuing hquiet.2
  obtain ⟨m, hm⟩ := h.exists_cons
  have hring : used ++ spare = s.frontBlock :: (m ++ spare) := by
    rw [hm]
    rfl
  have hcirc := h.circular
  have hnd := h.nodup
  have hhist := h.history
  have hspare : spare.flatMap held = [] := by
    refine List.flatMap_eq_nil_iff.2 fun p hp => ?_
    rw [h.unused p hp, hprod.ahead]
  rw [hcons.inFlight, List.nil_append, ← List.append_nil (used.flatMap held), ← hspare,
    ← List.flatMap_append] at hhist
  refine ⟨m ++ spare, hring, ?_, ?_, fun p hp => ?_, fun q hq => ?_, ?_⟩
  · rwa [hring] at hcirc
  · rwa [hring] at hnd
  · by_contra hne
    obtain ⟨b, hb⟩ := Option.ne_none_iff_exists'.1 hne
    rcases h.allocated p b hb with hmem | hfresh
    · exact hp (hring ▸ hmem)
    · rw [hprod.fresh] at hfresh
      cases hfresh
  · rw [← hring] at hq
    obtain ⟨b, hb, hs⟩ := h.block q hq
    rw [hcons.taken, hprod.built] at hs
    exact ⟨b, hb, hs⟩
  · rw [hhist, hring]

/-- **The destructor** destroys what was put in and not taken out, in order,
each element once, and frees every block once: no other is left. -/
theorem destroy_rest (h : Reachable maxBlockSize s) (hmax : maxBlockSize.toNat < 2 ^ 63)
    (hquiet : s.Quiet) :
    ∃ blocks elements, s.accepted = s.removed ++ elements ∧
      ∀ fuel, blocks < fuel → s.destroy fuel = some (elements, fun _ => none) := by
  obtain ⟨used, spare, held, hcore, -, -⟩ := h.sound hmax
  obtain ⟨l, -, hchain, hnd, hout, hblock, hhist⟩ := hcore.quiet hquiet
  refine ⟨l.length, _, hhist, fun fuel hfuel => ?_⟩
  exact destroyBlocks_eq hchain hnd (List.nodup_cons.1 hnd).1 (fun _ _ => rfl) hout hblock hfuel

/-- Four elements are left in two blocks, those of the first with the end of
its slots passed. -/
theorem destroy_rest_two : ∃ s : State ℕ, Reachable 2 s ∧
    (s.accepted = [1, 2, 3, 4, 5] ∧ s.removed = [1] ∧ s.frontBlock ≠ s.tailBlock) ∧
    ∃ blocks elements, s.accepted = s.removed ++ elements ∧
      ∀ fuel, blocks < fuel → s.destroy fuel = some (elements, fun _ => none) := by
  obtain ⟨s, hs, hP⟩ := Reachable.exists_of_exec 2 3 (fun _ => 1)
    [.enqueue 1, .produce 0, .produce 0, .enqueue 2, .produce 0, .produce 0,
      .enqueue 3, .produce 0, .produce 0, .tryDequeue, .consume, .consume, .consume,
      .enqueue 4, .produce 0, .produce 0, .produce 0, .enqueue 5, .produce 0, .produce 0,
      .produce 9, .produce 0, .produce 0]
    (P := fun s : State ℕ => (s.accepted = [1, 2, 3, 4, 5] ∧ s.removed = [1] ∧
      s.frontBlock ≠ s.tailBlock) ∧ s.producer.enqueuing = false ∧ s.consumer.dequeuing = false)
    (by decide +kernel)
  exact ⟨s, hs, hP.1, destroy_rest hs (by decide) hP.2⟩

/-! ## Sizes in 64 bits -/

theorem construct_largest {maxSize : UInt64} {mem : ℕ → BlockPtr}
    (h : construct maxBlockSize maxSize mem = some s) : s.largestBlockSize < 2 ^ 64 := by
  rw [construct] at h
  obtain ⟨-, h⟩ := Option.ite_none_right_eq_some.1 h
  dsimp only at h
  split at h
  · obtain ⟨c, -, rfl⟩ := Option.map_eq_some_iff.1 h
    exact UInt64.toNat_lt _
  · obtain ⟨c, -, rfl⟩ := Option.map_eq_some_iff.1 h
    exact UInt64.toNat_lt _

theorem ProducerStep.largest {n : ℕ} {s' : State α} {a : Action α} (h : ProducerStep n s a s') :
    s'.largestBlockSize = s.largestBlockSize ∨
      s'.largestBlockSize = newBlockSize n s.largestBlockSize := by
  cases h with
  | allocate hpc hb hm hnew => exact Or.inr rfl
  | _ => exact Or.inl rfl

theorem ConsumerStep.largest {s' : State α} {a : Action α} (h : ConsumerStep s a s') :
    s'.largestBlockSize = s.largestBlockSize := by
  cases h with
  | _ => rfl

/-- No block is too large for its indices to fit in 64 bits. -/
theorem Reachable.largest_le (h : Reachable maxBlockSize s) (hmax : maxBlockSize.toNat < 2 ^ 63) :
    s.largestBlockSize ≤ 2 ^ 64 := by
  obtain ⟨_, _, s₀, hs₀, hr⟩ := h
  refine hr.invariant (I := fun s => s.largestBlockSize ≤ 2 ^ 64)
    (construct_largest hs₀).le fun s a s' hI hs => ?_
  rcases step_cases hs with hs | hs
  · rcases hs.largest with heq | heq
    · rw [heq]
      exact hI
    · rw [heq, newBlockSize]
      split
      · exact hI
      · omega
  · rw [hs.largest]
    exact hI

/-- **`size_approx`** is exact when both threads are done. -/
theorem sizeApprox_rest (h : Reachable maxBlockSize s) (hmax : maxBlockSize.toNat < 2 ^ 63)
    (hquiet : s.Quiet) :
    ∃ blocks, ∀ fuel, blocks < fuel →
      s.sizeApprox fuel = some (s.accepted.length - s.removed.length) := by
  obtain ⟨n, note, used, spare, held, hcore, hroomy⟩ := h.roomy hmax
  obtain ⟨l, hring, hchain, hnd, -, hblock, hhist⟩ := hcore.quiet hquiet
  refine ⟨l.length, fun fuel hfuel => ?_⟩
  have hlen : s.accepted.length - s.removed.length =
      ((s.frontBlock :: l).flatMap held).length := by
    rw [hhist, List.length_append, Nat.add_sub_cancel_left]
  rw [hlen]
  refine sizeBlocks_eq hchain (List.nodup_cons.1 hnd).1 (fun q hq => ?_) hfuel
  obtain ⟨b, hb, hs⟩ := hblock q hq
  refine ⟨b, hb, hs, ?_⟩
  have hlt := hroomy.largest q (hring ▸ hq)
  have hle := h.largest_le hmax
  rw [State.slots_eq hb] at hlt
  rw [Block.size]
  omega

/-- Two elements, the second behind the end of the slots: `tail` is less than
`front`. -/
theorem sizeApprox_rest_wrapped : ∃ s : State ℕ, Reachable 2 s ∧
    (s.accepted = [1, 2, 3, 4] ∧ s.removed = [1, 2]) ∧
    ∃ blocks, ∀ fuel, blocks < fuel →
      s.sizeApprox fuel = some (s.accepted.length - s.removed.length) := by
  obtain ⟨s, hs, hP⟩ := Reachable.exists_of_exec 2 3 (fun _ => 1)
    [.enqueue 1, .produce 0, .produce 0, .enqueue 2, .produce 0, .produce 0,
      .enqueue 3, .produce 0, .produce 0, .tryDequeue, .consume, .consume, .consume,
      .pop, .consume, .consume, .enqueue 4, .produce 0, .produce 0, .produce 0]
    (P := fun s : State ℕ => (s.accepted = [1, 2, 3, 4] ∧ s.removed = [1, 2]) ∧
      s.producer.enqueuing = false ∧ s.consumer.dequeuing = false)
    (by decide +kernel)
  exact ⟨s, hs, hP.1, sizeApprox_rest hs (by decide) hP.2⟩

/-! ## `peek` -/

/-- **What `peek` returns.** As long as the consumer calls nothing else, the
oldest element that was not taken out is where the pointer points, whatever
the producer does. -/
theorem peek_oldest {i : ℕ} (h : Reachable maxBlockSize s) (hmax : maxBlockSize.toNat < 2 ^ 63)
    (hpc : s.consumer = .returned (.peeked (some (p, i)))) :
    ∃ b x, s.heap p = some b ∧ b.data i = some x ∧ s.accepted[s.removed.length]? = some x := by
  obtain ⟨used, spare, held, hcore, hat, -⟩ := h.sound hmax
  have hempty : s.consumer.EmptyHanded := by
    rw [hpc]
    exact ⟨rfl, rfl⟩
  rw [hpc] at hat
  obtain ⟨hne, hp, hi⟩ := hat
  have hpu : p ∈ used := by
    rcases hp with rfl | ⟨-, hq⟩
    · exact hcore.front_mem
    · exact List.mem_of_getElem? hq
  obtain ⟨b, hb, -⟩ := hcore.block p (List.mem_append_left _ hpu)
  have hs := hcore.taken_zero hempty (List.mem_append_left _ hpu) hb
  obtain ⟨x, xs, hx⟩ := List.exists_cons_of_ne_nil hne
  rw [hx] at hs
  refine ⟨b, x, hb, by rw [hi b hb]; exact hs.first, ?_⟩
  -- nothing comes before it
  have hfirst : ∃ rest, used.flatMap held = x :: rest := by
    obtain ⟨l, hl⟩ := hcore.exists_cons
    rcases hp with rfl | ⟨hnil, hq⟩
    · rw [hl, List.flatMap_cons, hx]
      exact ⟨_, rfl⟩
    · rw [hl] at hq ⊢
      cases l with
      | nil => cases hq
      | cons q l =>
        obtain rfl := Option.some.inj hq
        rw [List.flatMap_cons, List.flatMap_cons, hnil, hx]
        exact ⟨_, rfl⟩
  obtain ⟨rest, hrest⟩ := hfirst
  rw [hcore.history, hempty.inFlight, hrest, List.nil_append,
    List.getElem?_append_right (le_refl _), Nat.sub_self]
  rfl

/-- The element `peek` found in the second block, with the producer halfway
through another one. -/
theorem peek_oldest_second : ∃ (s : State ℕ) (p : BlockPtr) (i : ℕ), Reachable 2 s ∧
    (s.consumer = .returned (.peeked (some (p, i))) ∧ p ≠ s.frontBlock) ∧
    ∃ b x, s.heap p = some b ∧ b.data i = some x ∧ s.accepted[s.removed.length]? = some x := by
  obtain ⟨s, hs, hP⟩ := Reachable.exists_of_exec 2 1 (fun _ => 1)
    [.enqueue 1, .produce 0, .produce 0, .enqueue 2, .produce 0, .produce 0, .produce 7,
      .produce 0, .produce 0, .tryDequeue, .consume, .consume, .consume, .peek, .consume, .consume,
      .consume, .consume, .consume, .enqueue 3, .produce 0, .produce 0, .produce 9]
    (P := fun s : State ℕ => s.consumer = .returned (.peeked (some (7, 0))) ∧ 7 ≠ s.frontBlock)
    (by decide +kernel)
  exact ⟨s, 7, 0, hs, hP, peek_oldest hs (by decide) hP.1⟩

end Queue

end AppServer
