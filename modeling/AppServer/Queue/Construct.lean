import AppServer.Lib.PowerOfTwo
import AppServer.Queue.Shape
import Mathlib.Data.Nat.Basic

/-!
# The constructor

`ReaderWriterQueue(maxSize)` reserves one block, or a circle of blocks of
`MAX_BLOCK_SIZE` slots each. What it leaves has the shape of an empty queue,
and the blocks are enough for `maxSize` elements (`construct_sound`).
-/

namespace AppServer

namespace Queue

open Lib

variable {α : Type*}

/-! ## Rounding up -/

/-- One assignment `x |= x >> k`. -/
def orShift (x k : UInt64) : UInt64 := x ||| (x >>> k)

/-- `ceilToPow2`. The loop runs with `i` equal to 1, 2 and 4, all that is less
than `sizeof(size_t)`. -/
def ceilToPow2 (x : UInt64) : UInt64 :=
  let x := x - 1
  let x := orShift x 1
  let x := orShift x 2
  let x := orShift x 4
  let x := ([1, 2, 4] : List UInt64).foldl (fun x i => orShift x (i <<< (3 : UInt64))) x
  x + 1

theorem orShift_covers {x y k : UInt64} {d : ℕ} (h : Covers x.toNat y.toNat d)
    (hk : k.toNat % 64 = d) : Covers x.toNat (orShift y k).toNat (d + d) := by
  rw [orShift, UInt64.toNat_or, UInt64.toNat_shiftRight, hk]
  exact h.double

/-- **Rounding up to a power of two**, in 64 bits. -/
theorem toNat_ceilToPow2 {x : UInt64} (hx : 0 < x.toNat) :
    (ceilToPow2 x).toNat = 2 ^ Nat.size (x.toNat - 1) % 2 ^ 64 := by
  have hle : (1 : UInt64) ≤ x := hx
  have hpred : (x - 1).toNat = x.toNat - 1 := UInt64.toNat_sub_of_le x 1 hle
  have hlt : (x - 1).toNat < 2 ^ 64 := UInt64.toNat_lt _
  have h₁ : Covers (x - 1).toNat (orShift (x - 1) 1).toNat 2 := orShift_covers Covers.refl rfl
  have h₂ := orShift_covers (k := 2) h₁ rfl
  have h₄ := orShift_covers (k := 4) h₂ rfl
  have h₈ := orShift_covers (k := (1 : UInt64) <<< (3 : UInt64)) h₄ rfl
  have h₁₆ := orShift_covers (k := (2 : UInt64) <<< (3 : UInt64)) h₈ rfl
  have h₃₂ := orShift_covers (k := (4 : UInt64) <<< (3 : UInt64)) h₁₆ rfl
  have hones := h₃₂.all_ones hlt
  rw [hpred] at hones
  have hpos : 0 < 2 ^ Nat.size (x.toNat - 1) := Nat.two_pow_pos _
  rw [ceilToPow2]
  simp only [List.foldl_cons, List.foldl_nil]
  rw [UInt64.toNat_add, hones]
  show (2 ^ Nat.size (x.toNat - 1) - 1 + 1) % 2 ^ 64 = _
  rw [Nat.sub_add_cancel hpos]

theorem ceilToPow2_zero : ceilToPow2 0 = 0 := by
  decide +kernel

theorem size_pred_le (x : UInt64) : Nat.size (x.toNat - 1) ≤ 64 := by
  have hlt := UInt64.toNat_lt x
  exact Nat.size_le.2 (by omega)

/-- Where it does not come out as 0, the argument was at most `2 ^ 63` and it
is a power of two that is not less. -/
theorem ceilToPow2_spec {x : UInt64} (h : 0 < (ceilToPow2 x).toNat) :
    ∃ e, e ≤ 63 ∧ (ceilToPow2 x).toNat = 2 ^ e ∧ x.toNat ≤ 2 ^ e ∧ 0 < x.toNat := by
  have hx : 0 < x.toNat := by
    by_contra hx
    have hzero : x = 0 := UInt64.toNat_inj.1 (Nat.eq_zero_of_not_pos hx)
    rw [hzero, ceilToPow2_zero] at h
    exact Nat.lt_irrefl 0 h
  have hval := toNat_ceilToPow2 hx
  have hle : Nat.size (x.toNat - 1) ≤ 63 := by
    have hsize := size_pred_le x
    by_contra hgt
    have heq : Nat.size (x.toNat - 1) = 64 := by omega
    rw [hval, heq, Nat.mod_self] at h
    exact Nat.lt_irrefl 0 h
  refine ⟨_, hle, ?_, le_two_pow_size_pred, hx⟩
  rw [hval, Nat.mod_eq_of_lt (Nat.pow_lt_pow_right Nat.one_lt_two (by omega))]

/-- **The least power of two that is not less**, for all the arguments that
have one in 64 bits, and 0 for the others. -/
theorem ceilToPow2_least (x : UInt64) :
    (0 < x.toNat ∧ x.toNat ≤ 2 ^ 63 → ∃ e, (ceilToPow2 x).toNat = 2 ^ e ∧ x.toNat ≤ 2 ^ e ∧
      ∀ k, x.toNat ≤ 2 ^ k → 2 ^ e ≤ 2 ^ k) ∧
    (x.toNat = 0 ∨ 2 ^ 63 < x.toNat → ceilToPow2 x = 0) := by
  constructor
  · rintro ⟨hx, hle⟩
    have hsize : Nat.size (x.toNat - 1) ≤ 63 := Nat.size_le.2 (by omega)
    refine ⟨_, ?_, le_two_pow_size_pred, fun k => two_pow_size_pred_le hx⟩
    rw [toNat_ceilToPow2 hx,
      Nat.mod_eq_of_lt (Nat.pow_lt_pow_right Nat.one_lt_two (by omega))]
  · rintro (hx | hx)
    · have hzero : x = 0 := UInt64.toNat_inj.1 hx
      rw [hzero, ceilToPow2_zero]
    · have hge : 63 < Nat.size (x.toNat - 1) := Nat.lt_size.2 (by omega)
      have hle := size_pred_le x
      have hsize : Nat.size (x.toNat - 1) = 64 := by omega
      refine UInt64.toNat_inj.1 ?_
      rw [toNat_ceilToPow2 (by omega), hsize, Nat.mod_self]
      rfl

/-! ## Linking the first blocks -/

/-- The blocks made so far: `firstBlock`, `lastBlock` and the heap. -/
structure Chain (α : Type*) where
  firstBlock : BlockPtr
  lastBlock : BlockPtr
  heap : BlockPtr → Option (Block α)

/-- No block yet. -/
def Chain.empty : Chain α := ⟨nullptr, nullptr, fun _ => none⟩

/-- `lastBlock->next = block`. -/
def Chain.linkLast (c : Chain α) (block : BlockPtr) : BlockPtr → Option (Block α) :=
  if c.firstBlock = nullptr then c.heap
  else
    Function.update c.heap c.lastBlock
      ((c.heap c.lastBlock).map fun b => { b with next := block })

/-- One more block, linked in at the end. `block` is what `malloc` returns.
`Block` asks for a size greater than 0, which the code does not test: for a
`maxSize` from 2^63 on `ceilToPow2` wraps to 0, and the code goes on with a
block of no slots where the first branch here gives no queue. -/
def Chain.addBlock (size : ℕ) (c : Chain α) (block : BlockPtr) : Option (Chain α) :=
  if size = 0 then none
  else if block = nullptr then none -- `throw std::bad_alloc()`
  else if (c.heap block).isSome then none
  else
    let firstBlock := if c.firstBlock = nullptr then block else c.firstBlock
    some {
      firstBlock := firstBlock
      lastBlock := block
      heap := Function.update (c.linkLast block) block
        (some { makeBlock α size with next := firstBlock }) }

/-- A queue with these blocks. -/
def Chain.queue (c : Chain α) (largestBlockSize : ℕ) : State α where
  frontBlock := c.firstBlock
  tailBlock := c.firstBlock
  largestBlockSize := largestBlockSize
  heap := c.heap
  producer := .idle
  consumer := .idle
  accepted := []
  removed := []

/-- `initialBlockCount`. -/
def initialBlockCount (maxBlockSize maxSize : UInt64) : UInt64 :=
  (maxSize + maxBlockSize * 2 - 3) / (maxBlockSize - 1)

/-- **The constructor**, for a `maxSize` below 2^63: from there on there is no
queue, by the first branch of `Chain.addBlock`. `mem i` is what `malloc`
returns the `i`th time. One block by itself is linked as the loop links its
first. -/
def construct (maxBlockSize maxSize : UInt64) (mem : ℕ → BlockPtr) : Option (State α) :=
  if 0 < maxSize ∧ maxBlockSize = ceilToPow2 maxBlockSize ∧ 2 ≤ maxBlockSize then
    let largestBlockSize := ceilToPow2 (maxSize + 1)
    if maxBlockSize * 2 < largestBlockSize then
      ((List.range (initialBlockCount maxBlockSize maxSize).toNat).foldlM
        (fun (c : Chain α) i => c.addBlock maxBlockSize.toNat (mem i)) Chain.empty).map
        fun c => c.queue maxBlockSize.toNat
    else
      (Chain.empty.addBlock largestBlockSize.toNat (mem 0)).map
        fun c => c.queue largestBlockSize.toNat
  else none

/-- The blocks are `ps`, linked in a circle, each empty and of this size. -/
structure Chain.Sound (c : Chain α) (size : ℕ) (ps : List BlockPtr) : Prop where
  nodup : ps.Nodup
  null : nullptr ∉ ps
  first : c.firstBlock = ps.head?.getD nullptr
  last : ps ≠ [] → ps.getLast? = some c.lastBlock
  block : ∀ p ∈ ps, ∃ next, c.heap p = some { makeBlock α size with next := next }
  outside : ∀ p, p ∉ ps → c.heap p = none
  circular : ps ≠ [] → Circular
    (fun p => match c.heap p with | some b => b.next | none => nullptr) ps

variable {c c' : Chain α} {size : ℕ} {ps : List BlockPtr} {p : BlockPtr}

theorem Chain.sound_empty : (Chain.empty : Chain α).Sound size [] where
  nodup := List.nodup_nil
  null := List.not_mem_nil
  first := rfl
  last h := absurd rfl h
  block _ hp := absurd hp List.not_mem_nil
  outside _ _ := rfl
  circular h := absurd rfl h

/-- The first block is linked to itself. -/
theorem Chain.Sound.addFirst (h : c.Sound size []) (hnull : p ≠ nullptr) :
    Chain.Sound ⟨p, p, Function.update c.heap p (some { makeBlock α size with next := p })⟩
      size [p] := by
  refine ⟨List.nodup_singleton p, ?_, rfl, fun _ => rfl, fun q hq => ?_, fun q hq => ?_,
    fun _ => ?_⟩
  · rw [List.mem_singleton]
    exact hnull.symm
  · obtain rfl := List.mem_singleton.1 hq
    exact ⟨q, Function.update_self _ _ _⟩
  · have hqp : q ≠ p := fun he => hq (by rw [he]; exact List.mem_singleton_self p)
    exact (Function.update_of_ne hqp _ _).trans (h.outside q List.not_mem_nil)
  · refine Circular.singleton ?_
    simp

/-- What each block is once `p` is linked in behind `last`. -/
theorem Chain.linked {heap' : BlockPtr → Option (Block α)} {last n : BlockPtr}
    (hheap : heap' = Function.update (c.linkLast p) p
      (some { makeBlock α size with next := c.firstBlock }))
    (hfirst : c.firstBlock ≠ nullptr) (hlast : c.lastBlock = last) (hne : last ≠ p)
    (hn : c.heap last = some { makeBlock α size with next := n }) :
    heap' p = some { makeBlock α size with next := c.firstBlock } ∧
      heap' last = some { makeBlock α size with next := p } ∧
      ∀ q, q ≠ p → q ≠ last → heap' q = c.heap q := by
  rw [Chain.linkLast, if_neg hfirst, hlast, hn] at hheap
  rw [hheap]
  refine ⟨Function.update_self _ _ _, ?_, fun q hqp hql => ?_⟩
  · rw [Function.update_of_ne hne, Function.update_self]
    rfl
  · rw [Function.update_of_ne hqp, Function.update_of_ne hql]

theorem Chain.Sound.head {l : List BlockPtr} {last : BlockPtr} (h : c.Sound size (l ++ [last])) :
    (l ++ [last]).head? = some c.firstBlock := by
  rw [h.first]
  cases l with
  | nil => rfl
  | cons f m => rfl

/-- Another is linked in between the last block and the first. -/
theorem Chain.Sound.addNext {l : List BlockPtr} {last : BlockPtr}
    (h : c.Sound size (l ++ [last])) (hnull : p ≠ nullptr) (hp : p ∉ l ++ [last])
    (hfirst : c.firstBlock ≠ nullptr) :
    Chain.Sound ⟨c.firstBlock, p, Function.update (c.linkLast p) p
      (some { makeBlock α size with next := c.firstBlock })⟩ size (l ++ [last] ++ [p]) := by
  have hne : l ++ [last] ≠ [] := List.append_ne_nil_of_right_ne_nil l (List.cons_ne_nil last [])
  have hlast : c.lastBlock = last := by
    have hl := h.last hne
    rw [List.getLast?_concat] at hl
    exact (Option.some.inj hl).symm
  have hlmem : last ∈ l ++ [last] := List.mem_append_right _ (List.mem_singleton_self last)
  obtain ⟨n, hn⟩ := h.block last hlmem
  have hlp : last ≠ p := fun he => hp (he ▸ hlmem)
  generalize hheap : Function.update (c.linkLast p) p
    (some { makeBlock α size with next := c.firstBlock }) = heap'
  obtain ⟨hat_p, hat_last, hat⟩ := Chain.linked hheap.symm hfirst hlast hlp hn
  refine ⟨?_, ?_, ?_, fun _ => List.getLast?_concat, fun q hq => ?_, fun q hq => ?_, fun _ => ?_⟩
  · rw [List.nodup_append]
    refine ⟨h.nodup, List.nodup_singleton p, fun q hq r hr he => hp ?_⟩
    rw [← List.mem_singleton.1 hr, ← he]
    exact hq
  · rw [List.mem_append, List.mem_singleton]
    rintro (hmem | he)
    · exact h.null hmem
    · exact hnull he.symm
  · rw [List.head?_append_of_ne_nil _ hne, h.head]
    rfl
  · by_cases hqp : q = p
    · exact ⟨_, hqp ▸ hat_p⟩
    · by_cases hql : q = last
      · exact ⟨_, hql ▸ hat_last⟩
      · show ∃ next, heap' q = some { makeBlock α size with next := next }
        rw [hat q hqp hql]
        refine h.block q ?_
        rcases List.mem_append.1 hq with hq | hq
        · exact hq
        · exact absurd (List.mem_singleton.1 hq) hqp
  · have hqp : q ≠ p := fun he => hq (he ▸ List.mem_append_right _ (List.mem_singleton_self q))
    have hql : q ≠ last := fun he => hq (List.mem_append_left _ (he ▸ hlmem))
    exact (hat q hqp hql).trans (h.outside q fun hmem => hq (List.mem_append_left _ hmem))
  · refine (Circular.snoc (h.circular hne) h.nodup hp h.head).congr fun q _ => ?_
    by_cases hql : q = last
    · rw [hql, Function.update_self]
      show (match heap' last with | some b => b.next | none => nullptr) = p
      rw [hat_last]
    · rw [Function.update_of_ne hql]
      by_cases hqp : q = p
      · rw [hqp, Function.update_self]
        show (match heap' p with | some b => b.next | none => nullptr) = c.firstBlock
        rw [hat_p]
      · rw [Function.update_of_ne hqp]
        show (match heap' q with | some b => b.next | none => nullptr) = _
        rw [hat q hqp hql]

theorem Chain.Sound.addBlock (h : c.Sound size ps) (hadd : c.addBlock size p = some c') :
    c'.Sound size (ps ++ [p]) ∧ size ≠ 0 := by
  rw [Chain.addBlock] at hadd
  obtain ⟨hsize, hadd⟩ := Option.ite_none_left_eq_some.1 hadd
  obtain ⟨hnull, hadd⟩ := Option.ite_none_left_eq_some.1 hadd
  obtain ⟨hnew, hadd⟩ := Option.ite_none_left_eq_some.1 hadd
  obtain rfl := Option.some.inj hadd
  refine ⟨?_, hsize⟩
  have hp : p ∉ ps := by
    intro hmem
    obtain ⟨next, hb⟩ := h.block p hmem
    rw [hb] at hnew
    exact hnew rfl
  rcases List.eq_nil_or_concat ps with rfl | ⟨l, last, hps⟩
  · have hfirst : c.firstBlock = nullptr := h.first
    have hlink : c.linkLast p = c.heap := if_pos hfirst
    rw [if_pos hfirst, hlink]
    exact h.addFirst hnull
  · rw [List.concat_eq_append] at hps
    subst hps
    have hfirst : c.firstBlock ≠ nullptr := by
      intro hfirst
      exact h.null (hfirst ▸ List.mem_of_head? h.head)
    rw [if_neg hfirst]
    exact h.addNext hnull hp hfirst

/-- The loop. -/
theorem Chain.Sound.foldlM {is : List ℕ} {mem : ℕ → BlockPtr} (h : c.Sound size ps)
    (hloop : is.foldlM (fun (c : Chain α) i => c.addBlock size (mem i)) c = some c') :
    ∃ qs, qs.length = is.length ∧ c'.Sound size (ps ++ qs) := by
  induction is generalizing c ps with
  | nil =>
    obtain rfl := Option.some.inj hloop
    exact ⟨[], rfl, by rw [List.append_nil]; exact h⟩
  | cons i is ih =>
    rw [List.foldlM_cons, Option.bind_eq_bind, Option.bind_eq_some_iff] at hloop
    obtain ⟨c₁, h₁, hloop⟩ := hloop
    obtain ⟨qs, hlen, hqs⟩ := ih (h.addBlock h₁).1 hloop
    refine ⟨mem i :: qs, by rw [List.length_cons, hlen, List.length_cons], ?_⟩
    rwa [List.append_assoc] at hqs

/-! ## The queue it leaves -/

/-- A block as the constructor makes it. -/
theorem makeBlock_sound (next : BlockPtr) {size e : ℕ} (hsize : size = 2 ^ (e + 1)) :
    ({ makeBlock α size with next := next } : Block α).Sound 0 [] [] ∧
      ({ makeBlock α size with next := next } : Block α).TailSeen 0 [] 0 ∧
      ({ makeBlock α size with next := next } : Block α).FrontSeen 0 [] [] 0 := by
  have hpos : 0 < size := by
    rw [hsize]
    exact Nat.two_pow_pos _
  have hsz : size - 1 + 1 = size := Nat.sub_add_cancel hpos
  refine ⟨⟨⟨e, hsz.trans hsize⟩, Nat.succ_pos _, (Nat.zero_mod _).symm, Nat.succ_pos _, ?_⟩,
    ⟨0, le_refl _, le_refl _, (Nat.zero_mod _).symm⟩,
    ⟨0, Nat.succ_pos _, (Nat.zero_mod _).symm, Nat.succ_pos _⟩⟩
  exact CircularBuffer.holds_nil (Nat.succ_pos _)

/-- **A circle of empty blocks is an empty queue**, the first block in use
and the others spare. -/
theorem Chain.Sound.core {f : BlockPtr} {e : ℕ} (h : c.Sound size (f :: ps))
    (hsize : size = 2 ^ (e + 1)) : Core (c.queue size) [f] ps fun _ => [] := by
  have hfirst : c.firstBlock = f := h.first
  have hblock : ∀ p ∈ f :: ps, ∀ b, c.heap p = some b →
      ∃ next, b = { makeBlock α size with next := next } := by
    intro p hp b hb
    obtain ⟨next, hn⟩ := h.block p hp
    exact ⟨next, Option.some.inj (hb.symm.trans hn)⟩
  have hf : ∀ b, c.heap c.firstBlock = some b →
      ∃ next, b = { makeBlock α size with next := next } := by
    rw [hfirst]
    exact hblock f List.mem_cons_self
  refine ⟨h.nodup, by rw [← hfirst]; rfl, by rw [← hfirst]; rfl, h.circular (List.cons_ne_nil f ps),
    fun p hp => ?_, nofun, fun p _ => rfl, fun b hb => ?_, fun b hb => ?_, rfl, ⟨e, hsize⟩,
    fun p b hb => Or.inl ?_⟩
  · obtain ⟨next, hn⟩ := h.block p hp
    exact ⟨_, hn, (makeBlock_sound next hsize).1⟩
  · obtain ⟨next, rfl⟩ := hf b hb
    exact (makeBlock_sound next hsize).2.1
  · obtain ⟨next, rfl⟩ := hf b hb
    exact (makeBlock_sound next hsize).2.2
  · by_contra hp
    rw [show (c.queue size).heap p = none from h.outside p hp] at hb
    cases hb

/-- Enough blocks: all but one of them hold `maxSize` elements. -/
theorem initialBlockCount_spec {maxBlockSize maxSize : UInt64} (hm : 0 < maxSize.toNat)
    (hlt : maxSize.toNat < 2 ^ 63) (hmax : maxBlockSize.toNat ≤ 2 ^ 62)
    (htwo : 2 ≤ maxBlockSize.toNat) :
    ∃ n, (initialBlockCount maxBlockSize maxSize).toNat = n + 2 ∧
      maxSize.toNat ≤ (n + 1) * (maxBlockSize.toNat - 1) := by
  obtain ⟨d, hd⟩ : ∃ d, maxBlockSize.toNat = d + 1 := ⟨maxBlockSize.toNat - 1, by omega⟩
  have hmul : (maxBlockSize * 2).toNat = 2 * d + 2 := by
    rw [UInt64.toNat_mul, hd]
    show (d + 1) * 2 % 2 ^ 64 = _
    omega
  have hadd : (maxSize + maxBlockSize * 2).toNat = maxSize.toNat + (2 * d + 2) := by
    rw [UInt64.toNat_add, hmul]
    omega
  have hsub : (maxSize + maxBlockSize * 2 - 3).toNat = maxSize.toNat + d - 1 + d := by
    rw [UInt64.toNat_sub_of_le, hadd]
    · show _ - 3 = _
      omega
    · show 3 ≤ (maxSize + maxBlockSize * 2).toNat
      omega
  have hpred : (maxBlockSize - 1).toNat = d := by
    rw [UInt64.toNat_sub_of_le, hd]
    · rfl
    · show 1 ≤ maxBlockSize.toNat
      omega
  have hdpos : 0 < d := by omega
  have hone : 1 ≤ (maxSize.toNat + d - 1) / d := (Nat.one_le_div_iff hdpos).2 (by omega)
  refine ⟨(maxSize.toNat + d - 1) / d - 1, ?_, ?_⟩
  · rw [initialBlockCount, UInt64.toNat_div, hsub, hpred, Nat.add_div_right _ hdpos]
    omega
  · rw [hd, Nat.sub_add_cancel hone, Nat.add_sub_cancel]
    have hdiv := Nat.div_add_mod (maxSize.toNat + d - 1) d
    have hmod := Nat.mod_lt (maxSize.toNat + d - 1) hdpos
    rw [Nat.mul_comm]
    omega

/-- **What the constructor leaves**: an empty queue whose blocks, but for one
where there are several, have slots enough for `maxSize` elements. -/
theorem construct_core {maxBlockSize maxSize : UInt64} {mem : ℕ → BlockPtr} {s : State α}
    (h : construct maxBlockSize maxSize mem = some s) (hmax : maxBlockSize.toNat < 2 ^ 63) :
    ∃ (f : BlockPtr) (ps : List BlockPtr) (c : Chain α),
      c.Sound s.largestBlockSize (f :: ps) ∧ s = c.queue s.largestBlockSize ∧
      Core s [f] ps (fun _ => []) ∧ (ps = [] → maxSize.toNat < s.largestBlockSize) ∧
      (ps ≠ [] → maxSize.toNat ≤ ps.length * (s.largestBlockSize - 1)) := by
  rw [construct] at h
  obtain ⟨⟨hpos, hpow, htwo⟩, h⟩ := Option.ite_none_right_eq_some.1 h
  have hm : 0 < maxSize.toNat := hpos
  have htwo : 2 ≤ maxBlockSize.toNat := htwo
  have hround : ∀ {largest}, largest = (ceilToPow2 (maxSize + 1)).toNat → largest ≠ 0 →
      ∃ e, largest = 2 ^ (e + 1) ∧ maxSize.toNat < 2 ^ (e + 1) ∧ maxSize.toNat < 2 ^ 63 := by
    rintro _ rfl hne
    obtain ⟨e, he, hval, hle, hx⟩ := ceilToPow2_spec (Nat.pos_of_ne_zero hne)
    have hadd : (maxSize + 1).toNat = maxSize.toNat + 1 := by
      have hlt := UInt64.toNat_lt maxSize
      rw [UInt64.toNat_add] at hx ⊢
      have hone : (1 : UInt64).toNat = 1 := rfl
      rw [hone] at hx ⊢
      omega
    rw [hadd] at hle
    have hpow63 : 2 ^ e ≤ 2 ^ 63 := Nat.pow_le_pow_right Nat.two_pos he
    cases e with
    | zero => omega
    | succ e => exact ⟨e, hval, by omega, by omega⟩
  dsimp only at h
  split at h
  · rename_i hlarge
    obtain ⟨c, hloop, rfl⟩ := Option.map_eq_some_iff.1 h
    have hlarge : (maxBlockSize * 2).toNat < (ceilToPow2 (maxSize + 1)).toNat := hlarge
    obtain ⟨-, -, -, hlt⟩ := hround rfl (by omega)
    -- the assertion on `MAX_BLOCK_SIZE`
    have hmaxpos : 0 < (ceilToPow2 maxBlockSize).toNat := by
      rw [← hpow]
      omega
    obtain ⟨e, -, hval, -⟩ := ceilToPow2_spec hmaxpos
    rw [← hpow] at hval
    have he62 : e ≤ 62 := by
      rw [hval, Nat.pow_lt_pow_iff_right Nat.one_lt_two] at hmax
      omega
    have hmax62 : maxBlockSize.toNat ≤ 2 ^ 62 := by
      rw [hval]
      exact Nat.pow_le_pow_right Nat.two_pos he62
    obtain ⟨n, hcount, henough⟩ := initialBlockCount_spec hm hlt hmax62 htwo
    obtain ⟨qs, hlen, hsound⟩ := Chain.sound_empty.foldlM hloop
    rw [List.length_range, hcount] at hlen
    cases qs with
    | nil => cases hlen
    | cons f ps =>
      obtain ⟨e, rfl⟩ : ∃ e', e = e' + 1 := by
        cases e with
        | zero => omega
        | succ e => exact ⟨e, rfl⟩
      have hps : ps.length = n + 1 := Nat.succ.inj hlen
      refine ⟨f, ps, c, hsound, rfl, hsound.core hval, fun hnil => ?_, fun _ => ?_⟩
      · rw [hnil] at hps
        cases hps
      · rw [hps]
        exact henough
  · obtain ⟨c, hadd, rfl⟩ := Option.map_eq_some_iff.1 h
    obtain ⟨hsound, hne⟩ := Chain.sound_empty.addBlock hadd
    obtain ⟨e, hval, hlt, -⟩ := hround rfl hne
    refine ⟨mem 0, [], c, hsound, rfl, hsound.core hval, fun _ => ?_, fun hnil => absurd rfl hnil⟩
    rw [← hval] at hlt
    exact hlt

end Queue

end AppServer
