import AppServer.Lib.Transition
import Mathlib.Order.Nat
import Mathlib.Data.Nat.Init

/-!
# Executions that never end

An `Execution` is an infinite sequence of states, each reached from the one
before by a guarded step or by standing idle, so that a system that has
finished has executions too. A party of the system, given by the actions
that are its own, is treated fairly if it keeps moving for as long as it can
(`Fair`).

The rule for liveness is `leaves`: a party that can always move while `P`
holds, and whose moves always bring a rank down that no other step raises,
does not stay in `P`.
-/

namespace AppServer

namespace Lib

variable {σ α : Type*} {step : σ → α → Option σ} {ok : σ → α → Prop}

/-- An infinite execution, with idle steps. -/
structure Execution (step : σ → α → Option σ) (ok : σ → α → Prop) where
  state : ℕ → σ
  action : ℕ → Option α
  /-- Each state comes of the one before. -/
  next : ∀ n, (action n = none ∧ state (n + 1) = state n) ∨
    ∃ a, action n = some a ∧ ok (state n) a ∧ step (state n) a = some (state (n + 1))

/-- A party whose actions are `mine` can move. -/
def Enabled (step : σ → α → Option σ) (mine : α → Prop) (s : σ) : Prop :=
  ∃ a s', mine a ∧ step s a = some s'

namespace Execution

variable {e : Execution step ok} {mine : α → Prop} {P I : σ → Prop} {n m : ℕ}

/-- The party is never left able to move for ever without moving. -/
def Fair (e : Execution step ok) (mine : α → Prop) : Prop :=
  ∀ n, ∃ m, n ≤ m ∧ ((∃ a, e.action m = some a ∧ mine a) ∨ ¬ Enabled step mine (e.state m))

/-- What every guarded step keeps is kept from then on. -/
theorem invariant (h₀ : I (e.state n))
    (hstep : ∀ s a s', I s → ok s a → step s a = some s' → I s') (hm : n ≤ m) :
    I (e.state m) := by
  induction m, hm using Nat.le_induction with
  | base => exact h₀
  | succ m _ ih =>
    rcases e.next m with ⟨-, he⟩ | ⟨a, -, hok, hs⟩
    · exact he ▸ ih
    · exact hstep _ _ _ ih hok hs

/-- What holds at a step goes on holding, or stops at some later one. -/
theorem stays_or_exits (h₀ : P (e.state n)) (hm : n ≤ m) :
    (∀ j, n ≤ j → j ≤ m → P (e.state j)) ∨
    ∃ k a, n ≤ k ∧ k < m ∧ (∀ j, n ≤ j → j ≤ k → P (e.state j)) ∧ ¬ P (e.state (k + 1)) ∧
      ok (e.state k) a ∧ step (e.state k) a = some (e.state (k + 1)) := by
  induction m, hm using Nat.le_induction with
  | base =>
    refine Or.inl fun j hj hjn => ?_
    rwa [le_antisymm hjn hj]
  | succ m hnm ih =>
    obtain hstay | ⟨k, a, hnk, hkm, h⟩ := ih
    · by_cases hP : P (e.state (m + 1))
      · refine Or.inl fun j hj hjm => ?_
        rcases Nat.le_succ_iff.1 hjm with hle | rfl
        · exact hstay j hj hle
        · exact hP
      · rcases e.next m with ⟨-, he⟩ | ⟨a, -, hok, hs⟩
        · rw [he] at hP
          exact absurd (hstay m hnm (le_refl m)) hP
        · exact Or.inr ⟨m, a, hnm, Nat.lt_succ_self m, hstay, hP, hok, hs⟩
    · exact Or.inr ⟨k, a, hnk, Nat.lt_succ_of_lt hkm, h⟩

/-- Whatever stops holding holds up to some step and stops there. -/
theorem exit (h₀ : P (e.state n)) (hm : n ≤ m) (hnot : ¬ P (e.state m)) :
    ∃ k a, n ≤ k ∧ k < m ∧ (∀ j, n ≤ j → j ≤ k → P (e.state j)) ∧ ¬ P (e.state (k + 1)) ∧
      ok (e.state k) a ∧ step (e.state k) a = some (e.state (k + 1)) :=
  (stays_or_exits h₀ hm).resolve_left fun hstay => hnot (hstay m hm (le_refl m))

/-- **The liveness rule.** A party treated fairly that can always move while
`P` holds leaves `P`, if a rank that no step raises comes down with each of
its moves. -/
theorem leaves_of_action {r : σ → ℕ} (hfair : e.Fair mine)
    (hen : ∀ m, n ≤ m → P (e.state m) → Enabled step mine (e.state m))
    (hstep : ∀ m a, n ≤ m → P (e.state m) → P (e.state (m + 1)) → e.action m = some a →
      ok (e.state m) a → step (e.state m) a = some (e.state (m + 1)) →
      r (e.state (m + 1)) ≤ r (e.state m) ∧ (mine a → r (e.state (m + 1)) < r (e.state m))) :
    ∃ m, n ≤ m ∧ ¬ P (e.state m) := by
  by_contra hcon
  have hP : ∀ m, n ≤ m → P (e.state m) := fun m hm => by_contra fun h => hcon ⟨m, hm, h⟩
  have hmono : ∀ k m, n ≤ k → k ≤ m → r (e.state m) ≤ r (e.state k) := by
    intro k m hk hm
    induction m, hm using Nat.le_induction with
    | base => exact le_refl _
    | succ m hkm ih =>
      rcases e.next m with ⟨-, he⟩ | ⟨a, ha, hok, hs⟩
      · rw [he]; exact ih
      · have hnm := hk.trans hkm
        exact ((hstep m a hnm (hP m hnm) (hP _ (Nat.le_succ_of_le hnm)) ha hok hs).1).trans ih
  -- each time round, the party moves and the rank comes down
  have hdown : ∀ b k, n ≤ k → r (e.state k) = b → False := by
    intro b
    induction b using Nat.strong_induction_on with
    | _ b ih =>
      intro k hk hr
      obtain ⟨m, hm, ⟨a, ha, hmine⟩ | hdis⟩ := hfair k
      · have hnm := hk.trans hm
        rcases e.next m with ⟨hidle, -⟩ | ⟨a', ha', hok, hs⟩
        · rw [hidle] at ha
          cases ha
        · obtain rfl := Option.some.inj (ha'.symm.trans ha)
          have hlt := (hstep m a' hnm (hP m hnm) (hP _ (Nat.le_succ_of_le hnm)) ha hok hs).2 hmine
          have hle := hmono k m hk hm
          exact ih _ (by omega) (m + 1) (Nat.le_succ_of_le hnm) rfl
      · exact hdis (hen m (hk.trans hm) (hP m (hk.trans hm)))
  exact hdown _ n (le_refl n) rfl

/-- The same, where it does not matter which action the step was of. -/
theorem leaves {r : σ → ℕ} (hfair : e.Fair mine)
    (hen : ∀ m, n ≤ m → P (e.state m) → Enabled step mine (e.state m))
    (hstep : ∀ m a, n ≤ m → P (e.state m) → P (e.state (m + 1)) → ok (e.state m) a →
      step (e.state m) a = some (e.state (m + 1)) →
      r (e.state (m + 1)) ≤ r (e.state m) ∧ (mine a → r (e.state (m + 1)) < r (e.state m))) :
    ∃ m, n ≤ m ∧ ¬ P (e.state m) :=
  leaves_of_action hfair hen fun m a hm hP hP' _ hok hs => hstep m a hm hP hP' hok hs

/-- A counter that no step lowers and that stays bounded comes to rest. -/
theorem comes_to_rest {c : σ → ℕ} {b : ℕ}
    (hmono : ∀ s a s', ok s a → step s a = some s' → c s ≤ c s')
    (hb : ∀ m, n ≤ m → c (e.state m) ≤ b) :
    ∃ k, n ≤ k ∧ ∀ m, k ≤ m → c (e.state m) = c (e.state k) := by
  -- by induction on how far the counter is from its bound
  generalize hd : b - c (e.state n) = d
  induction d using Nat.strong_induction_on generalizing n with
  | _ d ih =>
    by_cases hup : ∃ m, n ≤ m ∧ c (e.state n) < c (e.state m)
    · obtain ⟨m, hm, hlt⟩ := hup
      have hbm := hb m hm
      obtain ⟨k, hk, hrest⟩ := ih (b - c (e.state m)) (by omega)
        (fun j hj => hb j (hm.trans hj)) rfl
      exact ⟨k, hm.trans hk, hrest⟩
    · refine ⟨n, le_refl n, fun m hm => le_antisymm ?_ ?_⟩
      · exact not_lt.1 fun hlt => hup ⟨m, hm, hlt⟩
      · exact e.invariant (I := fun s => c (e.state n) ≤ c s) (le_refl _)
          (fun s a s' hI hok hs => hI.trans (hmono s a s' hok hs)) hm

/-- The guard weakens. -/
def mono {ok' : σ → α → Prop} (e : Execution step ok) (h : ∀ s a, ok s a → ok' s a) :
    Execution step ok' where
  state := e.state
  action := e.action
  next n := (e.next n).imp_right fun ⟨a, ha, hok, hs⟩ => ⟨a, ha, h _ _ hok, hs⟩

/-- A run, and then nothing more. -/
theorem of_run {s₀ s : σ} {as : List α} (h : Run step ok s₀ as s) :
    ∃ e : Execution step ok, e.state 0 = s₀ ∧ ∀ n, as.length ≤ n → e.state n = s := by
  induction h with
  | nil =>
    exact ⟨⟨fun _ => s₀, fun _ => none, fun _ => Or.inl ⟨rfl, rfl⟩⟩, rfl, fun _ _ => rfl⟩
  | @snoc as s s' a _ hok hs ih =>
    obtain ⟨e, he₀, he⟩ := ih
    refine ⟨⟨fun n => if n ≤ as.length then e.state n else s',
      fun n => if n < as.length then e.action n else if n = as.length then some a else none,
      fun n => ?_⟩, ?_, fun n hn => ?_⟩
    · rcases lt_trichotomy n as.length with hlt | heq | hgt
      · simp only [if_pos hlt, if_pos hlt.le, if_pos (Nat.succ_le_of_lt hlt)]
        exact e.next n
      · refine Or.inr ⟨a, ?_⟩
        simp only [heq, lt_irrefl, if_false, if_true, le_refl, Nat.not_succ_le_self]
        exact ⟨trivial, he _ (le_refl _) ▸ hok, he _ (le_refl _) ▸ hs⟩
      · refine Or.inl ?_
        simp only [if_neg (not_lt.2 hgt.le), if_neg hgt.ne', if_neg (not_le.2 hgt),
          if_neg (not_le.2 (Nat.lt_succ_of_lt hgt)), and_self]
    · simp only [Nat.zero_le, if_true]
      exact he₀
    · rw [List.length_append, List.length_singleton] at hn
      exact if_neg (by omega)

end Execution

end Lib

end AppServer
