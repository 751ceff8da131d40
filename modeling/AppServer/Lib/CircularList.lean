import Mathlib.Data.List.Chain
import Mathlib.Data.List.Nodup
import Mathlib.Logic.Function.Basic

/-!
# Circular linked lists

`Circular next l` says that following `next` from the head of `l` leads
through `l` in order and back to the head. Where one starts does not matter
(`Circular.rotate`), and a new node is linked in behind any other by two
assignments (`Circular.insert`).
-/

namespace AppServer

namespace Lib

variable {β : Type*} {next next' : β → β} {a b : β} {l l₁ l₂ : List β}

/-- Following `next` leads through the list and back to its head. -/
def Circular (next : β → β) : List β → Prop
  | [] => False
  | a :: l => List.IsChain (fun x y => next x = y) (a :: (l ++ [a]))

namespace Circular

/-- A node by itself. -/
theorem singleton (h : next a = a) : Circular next [a] :=
  List.isChain_pair.2 h

/-- From the head to the second node. -/
theorem next_head (h : Circular next (a :: b :: l)) : next a = b :=
  (List.isChain_cons_cons.1 h).1

/-- From the only node to itself. -/
theorem next_self (h : Circular next [a]) : next a = a :=
  (List.isChain_cons_cons.1 h).1

/-- One may start at the second node. -/
theorem rotate (h : Circular next (a :: l)) : Circular next (l ++ [a]) := by
  cases l with
  | nil => exact h
  | cons b l =>
    obtain ⟨hab, hl⟩ := List.isChain_cons_cons.1 h
    have hlast : List.IsChain (fun x y => next x = y) [a, b] := List.isChain_pair.2 hab
    have hsplit : List.IsChain (fun x y => next x = y) ((b :: l) ++ a :: [b]) :=
      List.isChain_split.2 ⟨hl, hlast⟩
    simpa [Circular] using hsplit

/-- One may start anywhere. -/
theorem rotate_append (h : Circular next (l₁ ++ l₂)) : Circular next (l₂ ++ l₁) := by
  induction l₁ generalizing l₂ with
  | nil => simpa using h
  | cons a l₁ ih =>
    have hr : Circular next (l₁ ++ (l₂ ++ [a])) := by simpa using rotate h
    simpa using ih hr

/-- From a node to the one behind it. -/
theorem next_mid (h : Circular next (l₁ ++ a :: b :: l₂)) : next a = b :=
  next_head (rotate_append h)

/-- From the last node to the head. -/
theorem next_last (h : Circular next (a :: (l ++ [b]))) : next b = a := by
  have h' : Circular next ((a :: l) ++ [b]) := h
  exact next_head (rotate_append h')

/-- The same, however many there are. -/
theorem next_getLast (h : Circular next l) (hhead : l.head? = some a)
    (hlast : l.getLast? = some b) : next b = a := by
  obtain ⟨m, rfl⟩ := List.getLast?_eq_some_iff.1 hlast
  cases m with
  | nil =>
    obtain rfl := Option.some.inj hhead
    exact next_self h
  | cons c m =>
    obtain rfl := Option.some.inj hhead
    exact next_last h

/-- Only the links out of the nodes before the last matter to a chain. -/
theorem chain_congr (h : List.IsChain (fun x y => next x = y) (l ++ [b]))
    (heq : ∀ x ∈ l, next' x = next x) : List.IsChain (fun x y => next' x = y) (l ++ [b]) := by
  induction l with
  | nil => exact List.isChain_singleton b
  | cons a l ih =>
    have ha := heq a List.mem_cons_self
    cases l with
    | nil => exact List.isChain_pair.2 (ha.trans (List.isChain_cons_cons.1 h).1)
    | cons c l =>
      obtain ⟨hac, hl⟩ := List.isChain_cons_cons.1 h
      exact List.isChain_cons_cons.2
        ⟨ha.trans hac, ih hl fun x hx => heq x (List.mem_cons_of_mem a hx)⟩

/-- Only the links of the nodes in the list matter. -/
theorem congr (h : Circular next l) (heq : ∀ x ∈ l, next' x = next x) : Circular next' l := by
  cases l with
  | nil => exact h
  | cons a l => exact chain_congr (l := a :: l) h heq

variable [DecidableEq β] {n : β}

/-- **A new node linked in** behind `a`. -/
theorem insert (h : Circular next (l₁ ++ a :: l₂)) (hnd : (l₁ ++ a :: l₂).Nodup)
    (hn : n ∉ l₁ ++ a :: l₂) (hnext : next n = next a) :
    Circular (Function.update next a n) (l₁ ++ a :: n :: l₂) := by
  have hrot : Circular next (a :: (l₂ ++ l₁)) := rotate_append h
  have hna : n ≠ a := by
    rintro rfl
    exact hn (by simp)
  have hal : a ∉ l₂ ++ l₁ := by
    have hperm : (l₁ ++ a :: l₂).Perm (a :: (l₂ ++ l₁)) := List.perm_append_comm
    exact (List.nodup_cons.1 (hperm.nodup_iff.1 hnd)).1
  have hgoal : Circular (Function.update next a n) (a :: n :: (l₂ ++ l₁)) := by
    have hupd : ∀ x, x ≠ a → Function.update next a n x = next x :=
      fun x hx => Function.update_of_ne hx _ _
    refine List.isChain_cons_cons.2 ⟨Function.update_self _ _ _, ?_⟩
    generalize l₂ ++ l₁ = l at hrot hal
    cases l with
    | nil => exact List.isChain_pair.2 (by rw [hupd n hna, hnext, next_self hrot])
    | cons b l =>
      obtain ⟨hab, htail⟩ := List.isChain_cons_cons.1 hrot
      refine List.isChain_cons_cons.2 ⟨by rw [hupd n hna, hnext, hab], ?_⟩
      exact chain_congr (l := b :: l) htail fun x hx => hupd x fun hxa => hal (hxa ▸ hx)
  have hgoal : Circular (Function.update next a n) ((a :: n :: l₂) ++ l₁) := hgoal
  exact rotate_append hgoal

/-- A new node linked in at the end. -/
theorem snoc (h : Circular next (l ++ [a])) (hnd : (l ++ [a]).Nodup) (hn : n ∉ l ++ [a])
    (hhead : (l ++ [a]).head? = some b) :
    Circular (Function.update (Function.update next n b) a n) (l ++ [a] ++ [n]) := by
  have hna : n ≠ a := by
    rintro rfl
    exact hn (List.mem_append_right _ (List.mem_singleton_self n))
  have hkept : Circular (Function.update next n b) (l ++ [a]) := by
    refine h.congr fun x hx => Function.update_of_ne ?_ _ _
    rintro rfl
    exact hn hx
  have hback : Function.update next n b n = Function.update next n b a := by
    rw [Function.update_self, Function.update_of_ne hna.symm]
    exact (h.next_getLast hhead List.getLast?_concat).symm
  rw [List.append_assoc]
  exact hkept.insert hnd hn hback

end Circular

end Lib

end AppServer
