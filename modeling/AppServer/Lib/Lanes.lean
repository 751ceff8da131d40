import Mathlib.Data.Multiset.Filter
import Mathlib.Data.Multiset.UnionInter
import Mathlib.Data.List.Flatten
import Mathlib.Data.List.Nodup
import Mathlib.Logic.Function.Basic
import Mathlib.Logic.Relation

/-!
# Items in lanes

Senders put items in lanes, each lane a queue; a carrier takes an item off
the head of a lane's queue, holds it for a while, and gives it on. It never
holds two items of one lane. Which of the items it holds it gives on next is
its own business.

Then no item is lost or made up (`InOrder.conservation`), and what has been
given on of a lane is a prefix of what was sent in it (`InOrder.got_prefix`).
-/

namespace AppServer

namespace Lib

variable {ρ ι : Type*}

/-- The items of one lane, in order. -/
def lane [DecidableEq ι] (l : ι) (ps : List (ρ × ι)) : List ρ :=
  (ps.filter fun p => p.2 = l).map Prod.fst

/-- The contents of some lanes' queues, each item with its lane. -/
def queued (ls : List ι) (queue : ι → List ρ) : List (ρ × ι) :=
  ls.flatMap fun l => (queue l).map fun r => (r, l)

section Lane

variable [DecidableEq ι] {l : ι} {p : ρ × ι} {ps qs : List (ρ × ι)} {ls : List ι}
  {queue : ι → List ρ}

@[simp] theorem lane_append : lane l (ps ++ qs) = lane l ps ++ lane l qs := by
  simp [lane]

@[simp] theorem lane_singleton : lane l [p] = if p.2 = l then [p.1] else [] := by
  by_cases h : p.2 = l <;> simp [lane, h]

theorem lane_cons : lane l (p :: ps) = (if p.2 = l then [p.1] else []) ++ lane l ps := by
  rw [← lane_singleton, ← lane_append, List.singleton_append]

theorem mem_of_mem_lane {r : ρ} (h : r ∈ lane l ps) : (r, l) ∈ ps := by
  obtain ⟨p, hp, rfl⟩ := List.mem_map.1 h
  obtain ⟨hm, hl⟩ := List.mem_filter.1 hp
  rw [decide_eq_true_eq] at hl
  exact hl ▸ hm

theorem mem_lane_of_mem (h : p ∈ ps) : p.1 ∈ lane p.2 ps :=
  List.mem_map_of_mem (List.mem_filter.2 ⟨h, decide_eq_true rfl⟩)

/-- Lane by lane, lists are permutations of one another where they are. -/
theorem perm_of_lane (h : ∀ l, (lane l ps).Perm (lane l qs)) : ps.Perm qs := by
  classical
  have hcount : ∀ (xs : List (ρ × ι)) (r : ρ) (l : ι), xs.count (r, l) = (lane l xs).count r := by
    intro xs r l
    induction xs with
    | nil => rfl
    | cons x xs ih =>
      rw [lane_cons, List.count_append, List.count_cons, ih]
      by_cases hl : x.2 = l
      · subst hl
        by_cases hr : x.1 = r
        · subst hr; simp [Nat.add_comm]
        · have hx : x ≠ (r, x.2) := fun he => hr (congrArg Prod.fst he)
          simp [hr, hx]
      · have hx : x ≠ (r, l) := fun he => hl (congrArg Prod.snd he)
        simp [hl, hx]
  refine List.perm_iff_count.2 fun p => ?_
  rw [hcount, hcount]
  exact (h p.2).count_eq p.1

theorem lane_queue : lane l ((queue l).map fun r => (r, l)) = queue l := by
  simp [lane, List.filter_map, Function.comp_def]

theorem lane_queue_of_ne {l' : ι} (h : l' ≠ l) :
    lane l ((queue l').map fun r => (r, l')) = [] := by
  simp [lane, List.filter_map, Function.comp_def, h]

/-- A lane of the queues is its queue. -/
theorem lane_queued (hn : ls.Nodup) (he : l ∉ ls → queue l = []) :
    lane l (queued ls queue) = queue l := by
  induction ls with
  | nil => exact (he List.not_mem_nil).symm
  | cons l' ls ih =>
    obtain ⟨hnot, hn⟩ := List.nodup_cons.1 hn
    rw [queued, List.flatMap_cons, lane_append]
    by_cases hl : l' = l
    · subst hl
      have hrest : lane l' (queued ls queue) = [] := by
        simp only [lane, queued, List.map_eq_nil_iff, List.filter_eq_nil_iff, List.mem_flatMap,
          List.mem_map]
        rintro p ⟨x, hx, r, -, rfl⟩
        simpa using fun he : x = l' => hnot (he ▸ hx)
      rw [lane_queue]
      change _ ++ lane l' (queued ls queue) = _
      rw [hrest, List.append_nil]
    · rw [lane_queue_of_ne hl, List.nil_append]
      exact ih hn fun hnot' => he fun hm => by
        rcases List.mem_cons.1 hm with rfl | hm
        · exact hl rfl
        · exact hnot' hm

/-- Changing one queue changes the contents by that queue. -/
theorem queued_update {x : List ρ} (hn : ls.Nodup) (hl : l ∈ ls) :
    (queued ls (Function.update queue l x)).Perm
      ((x.map fun r => (r, l)) ++ queued (ls.erase l) queue) := by
  have hperm : (queued ls (Function.update queue l x)).Perm
      (queued (l :: ls.erase l) (Function.update queue l x)) :=
    (List.perm_cons_erase hl).flatMap_right _
  refine hperm.trans (List.Perm.of_eq ?_)
  rw [queued, List.flatMap_cons, Function.update_self, queued]
  congr 1
  refine List.flatMap_congr fun l' hl' => ?_
  have hne : l' ≠ l := by
    rintro rfl
    exact (hn.mem_erase_iff.1 hl').1 rfl
  rw [Function.update_of_ne hne]

/-- One queue, and the others. -/
theorem queued_of_mem (hn : ls.Nodup) (hl : l ∈ ls) :
    (queued ls queue).Perm (((queue l).map fun r => (r, l)) ++ queued (ls.erase l) queue) := by
  have h : (queued ls (Function.update queue l (queue l))).Perm _ := queued_update hn hl
  rwa [Function.update_eq_self] at h

/-- The head of a queue, and the rest. -/
theorem queued_of_cons {r : ρ} {q : List ρ} (hn : ls.Nodup) (hl : l ∈ ls) (hq : queue l = r :: q) :
    (queued ls queue).Perm ((r, l) :: queued ls (Function.update queue l q)) := by
  have hold : (queued ls queue).Perm _ := queued_of_mem hn hl
  rw [hq, List.map_cons, List.cons_append] at hold
  exact hold.trans ((queued_update hn hl).symm.cons _)

end Lane

/-- Items in lanes: what was sent and what was given on, in order, with each
item its lane; what is held; and the queues. -/
structure Lanes (ρ ι : Type*) where
  sent : List (ρ × ι)
  got : List (ρ × ι)
  held : Multiset (ρ × ι)
  queue : ι → List ρ

namespace Lanes

/-- Nothing sent yet. -/
def initial : Lanes ρ ι := ⟨[], [], 0, fun _ => []⟩

/-- What has been sent in some lanes and not given on. -/
def pending (ls : List ι) (s : Lanes ρ ι) : Multiset (ρ × ι) :=
  s.held + ↑(queued ls s.queue)

variable {s s' : Lanes ρ ι} {ls : List ι} {r : ρ} {l : ι}

/-- A lane with nothing in it adds nothing. -/
theorem pending_concat (he : s.queue l = []) : s.pending (ls ++ [l]) = s.pending ls := by
  simp [pending, queued, he]

variable [DecidableEq ι]

/-- An item is sent. -/
def send (s : Lanes ρ ι) (r : ρ) (l : ι) : Lanes ρ ι :=
  { s with
    sent := s.sent ++ [(r, l)]
    queue := Function.update s.queue l (s.queue l ++ [r]) }

/-- What can happen to items. -/
inductive Step (s : Lanes ρ ι) : Lanes ρ ι → Prop
  /-- An item is sent. -/
  | send (r : ρ) (l : ι) : Step s (s.send r l)
  /-- The head of a lane's queue is taken, none of the lane being held. -/
  | take {r : ρ} {l : ι} {q : List ρ} (hq : s.queue l = r :: q) (hl : ∀ p ∈ s.held, p.2 ≠ l) :
      Step s { s with held := (r, l) ::ₘ s.held, queue := Function.update s.queue l q }
  /-- An item that is held is given on. -/
  | give {p : ρ × ι} {h : Multiset (ρ × ι)} (hp : s.held = p ::ₘ h) :
      Step s { s with got := s.got ++ [p], held := h }

/-- What is held of a lane. -/
def heldOf (l : ι) (held : Multiset (ρ × ι)) : Multiset ρ :=
  (held.filter fun p => p.2 = l).map Prod.fst

theorem heldOf_cons {l : ι} {p : ρ × ι} {m : Multiset (ρ × ι)} :
    heldOf l (p ::ₘ m) = if p.2 = l then p.1 ::ₘ heldOf l m else heldOf l m := by
  unfold heldOf
  split
  · rename_i hl
    rw [Multiset.filter_cons_of_pos (p := fun p => p.2 = l) m hl, Multiset.map_cons]
  · rename_i hl
    rw [Multiset.filter_cons_of_neg (p := fun p => p.2 = l) m hl]

/-- **In every lane**, what was sent is what was given on, then the one item
held if there is one, then what is queued. -/
def InOrder (s : Lanes ρ ι) : Prop :=
  ∀ l, ∃ h : List ρ, h.length ≤ 1 ∧ heldOf l s.held = ↑h ∧
    lane l s.sent = lane l s.got ++ h ++ s.queue l

theorem inOrder_initial : (initial : Lanes ρ ι).InOrder :=
  fun _ => ⟨[], Nat.zero_le 1, rfl, rfl⟩

/-- **One step keeps the lanes in order.** -/
theorem InOrder.step (hs : s.InOrder) (h : Step s s') : s'.InOrder := by
  intro l
  obtain ⟨hd, hlen, hheld, hsent⟩ := hs l
  cases h with
  | send r l' =>
    refine ⟨hd, hlen, hheld, ?_⟩
    simp only [Lanes.send, lane_append, lane_singleton, hsent]
    by_cases hl : l' = l
    · subst hl; simp
    · simp [hl, Function.update_of_ne (Ne.symm hl)]
  | @take r l' q hq hnone =>
    by_cases hl : l' = l
    · subst hl
      have hempty : heldOf l' s.held = 0 := by
        rw [heldOf, Multiset.filter_eq_nil.2 hnone, Multiset.map_zero]
      have hnil : hd = [] := by
        rw [hempty] at hheld
        exact (Multiset.coe_eq_zero hd).1 hheld.symm
      subst hnil
      refine ⟨[r], le_refl 1, ?_, ?_⟩
      · simp only [heldOf_cons, if_true, hempty]
        rfl
      · simp only [hsent, hq, Function.update_self]
        simp
    · refine ⟨hd, hlen, ?_, ?_⟩
      · simpa only [heldOf_cons, if_neg hl] using hheld
      · simp only [hsent, Function.update_of_ne (Ne.symm hl)]
  | @give p m hp =>
    rw [hp, heldOf_cons] at hheld
    split at hheld
    · rename_i hl
      -- the lane has one item in the hand, and it is the one given on
      have hcard := congrArg Multiset.card hheld
      rw [Multiset.card_cons, Multiset.coe_card] at hcard
      have hzero : heldOf l m = 0 := Multiset.card_eq_zero.1 (by omega)
      rw [hzero, ← Multiset.coe_nil, Multiset.cons_coe, Multiset.coe_eq_coe] at hheld
      have hone : hd = [p.1] := List.perm_singleton.1 hheld.symm
      subst hone
      refine ⟨[], Nat.zero_le 1, hzero, ?_⟩
      simp [hsent, hl]
    · rename_i hl
      exact ⟨hd, hlen, hheld, by simp [hsent, hl]⟩

/-- The lanes stay in order. -/
theorem inOrder_of_steps (h : Relation.ReflTransGen Step initial s) : s.InOrder := by
  induction h with
  | refl => exact inOrder_initial
  | tail _ hs ih => exact ih.step hs

/-- **Nothing is reordered within a lane.** -/
theorem InOrder.got_prefix (h : s.InOrder) (l : ι) : lane l s.got <+: lane l s.sent := by
  obtain ⟨hd, -, -, hsent⟩ := h l
  rw [hsent, List.append_assoc]
  exact List.prefix_append _ _

/-- The one item held, by a list of all that is. -/
theorem InOrder.lane_sent (h : s.InOrder) {held : List (ρ × ι)} (hh : s.held = ↑held) (l : ι) :
    (lane l held).length ≤ 1 ∧ lane l s.sent = lane l s.got ++ lane l held ++ s.queue l := by
  obtain ⟨hd, hlen, hheld, hsent⟩ := h l
  have hperm : (lane l held).Perm hd := by
    rw [← Multiset.coe_eq_coe, ← hheld, heldOf, hh]
    rfl
  have heq : lane l held = hd := by
    cases hd with
    | nil => exact List.perm_nil.1 hperm
    | cons x xs =>
      obtain rfl := List.eq_nil_of_length_eq_zero (Nat.le_zero.1 (Nat.le_of_succ_le_succ hlen))
      exact List.perm_singleton.1 hperm
  rw [heq]
  exact ⟨hlen, hsent⟩

/-- **Nothing is lost and nothing made up**: what was sent is what was given
on, what is held and what is queued. -/
theorem InOrder.conservation (h : s.InOrder) {ls : List ι} (hn : ls.Nodup)
    (he : ∀ l ∉ ls, s.queue l = []) {held : List (ρ × ι)} (hh : s.held = ↑held) :
    s.sent.Perm (s.got ++ held ++ queued ls s.queue) := by
  refine perm_of_lane fun l => ?_
  obtain ⟨hd, -, hheld, hsent⟩ := h l
  have hlane : hd.Perm (lane l held) := by
    rw [← Multiset.coe_eq_coe, ← hheld, heldOf, hh]
    rfl
  rw [hsent, lane_append, lane_append, lane_queued hn (he l)]
  exact (hlane.append_left _).append_right _

/-- **Nothing is held** exactly where in every lane what was sent is what was
given on, then what is queued. -/
theorem InOrder.held_eq_zero_iff (h : s.InOrder) :
    s.held = 0 ↔ ∀ l, lane l s.sent = lane l s.got ++ s.queue l := by
  constructor
  · intro hzero l
    obtain ⟨hd, -, hheld, hsent⟩ := h l
    rw [hzero] at hheld
    obtain rfl := (Multiset.coe_eq_zero hd).1 hheld.symm
    rw [hsent, List.append_nil]
  · intro hall
    refine Multiset.eq_zero_of_forall_notMem fun p hp => ?_
    obtain ⟨hd, -, hheld, hsent⟩ := h p.2
    rw [hall p.2, List.append_cancel_right_eq, List.self_eq_append_right] at hsent
    subst hsent
    have hmem : p.1 ∈ heldOf p.2 s.held :=
      Multiset.mem_map_of_mem Prod.fst (Multiset.mem_filter.2 ⟨hp, rfl⟩)
    rw [hheld] at hmem
    cases hmem

/-! ## What is under way -/

theorem queued_send (hn : ls.Nodup) (hl : l ∈ ls) :
    (queued ls (s.send r l).queue).Perm ((r, l) :: queued ls s.queue) := by
  refine (queued_update hn hl).trans (List.Perm.trans ?_ ((queued_of_mem hn hl).symm.cons _))
  rw [List.map_append, List.map_singleton, List.append_assoc, ← List.cons_append]
  exact List.perm_middle

theorem pending_send (hn : ls.Nodup) (hl : l ∈ ls) :
    (s.send r l).pending ls = (r, l) ::ₘ s.pending ls := by
  rw [pending, Multiset.coe_eq_coe.2 (queued_send hn hl), ← Multiset.cons_coe, Multiset.add_cons]
  rfl

/-- Only a sending adds to a queue. -/
theorem Step.mem_queue (h : Step s s') (hsent : s'.sent = s.sent) (hr : r ∈ s'.queue l) :
    r ∈ s.queue l := by
  cases h with
  | send r l => simp [Lanes.send] at hsent
  | @take r' l' q hq _ =>
    by_cases hl : l = l'
    · subst hl
      simp only [Function.update_self] at hr
      rw [hq]
      exact List.mem_cons_of_mem _ hr
    · simpa only [Function.update_of_ne hl] using hr
  | give => exact hr

/-- Only a sending makes the queues longer. -/
theorem Step.queued_length_le (h : Step s s') (hsent : s'.sent = s.sent) (hn : ls.Nodup)
    (he : ∀ l ∉ ls, s.queue l = []) :
    (queued ls s'.queue).length ≤ (queued ls s.queue).length := by
  cases h with
  | send r l => simp [Lanes.send] at hsent
  | @take r l q hq _ =>
    have hl : l ∈ ls := by
      by_contra hnot
      rw [he l hnot] at hq
      cases hq
    rw [(queued_of_cons hn hl hq).length_eq]
    exact Nat.le_succ _
  | give => exact le_refl _

/-- Only a sending adds to what is under way. -/
theorem Step.pending_le (h : Step s s') (hsent : s'.sent = s.sent) (hn : ls.Nodup)
    (he : ∀ l ∉ ls, s.queue l = []) : s'.pending ls ≤ s.pending ls := by
  cases h with
  | send r l => simp [Lanes.send] at hsent
  | @take r l q hq _ =>
    have hl : l ∈ ls := by
      by_contra hnot
      rw [he l hnot] at hq
      cases hq
    simp only [pending]
    rw [Multiset.coe_eq_coe.2 (queued_of_cons hn hl hq), ← Multiset.cons_coe, Multiset.add_cons,
      Multiset.cons_add]
  | @give p m hp =>
    simp only [pending, hp]
    exact Multiset.add_le_add_right (Multiset.le_cons_self m p)

end Lanes

end Lib

end AppServer
