import AppServer.Lib.Execution

/-!
# Executions seen from further off

A system whose steps are, through a map of the states, steps of a coarser
system or none of its steps at all. Its executions are executions of the
coarser system that stand idle now and then (`coarsen`), and they stay fair
to a party that does not spend for ever on steps the coarser system does not
see (`coarsen_fair`). What is bound to happen in the coarser system's fair
executions is then bound to happen here.
-/

namespace AppServer

namespace Lib

namespace Execution

variable {σ τ α β : Type*} {step : σ → α → Option σ} {step' : τ → β → Option τ}
  {ok : σ → α → Prop} {ok' : τ → β → Prop} {f : σ → τ} {g : α → β}

/-- A step the coarser system sees, with the guard met. -/
def Acts (step' : τ → β → Option τ) (ok' : τ → β → Prop) (f : σ → τ) (g : α → β) (s : σ) (a : α)
    (s' : σ) : Prop :=
  ok' (f s) (g a) ∧ step' (f s) (g a) = some (f s')

open Classical in
/-- The execution of the coarser system. -/
noncomputable def coarsen (e : Execution step ok) (f : σ → τ) (g : α → β)
    (h : ∀ n a, ok (e.state n) a → step (e.state n) a = some (e.state (n + 1)) →
      Acts step' ok' f g (e.state n) a (e.state (n + 1)) ∨
        f (e.state (n + 1)) = f (e.state n)) : Execution step' ok' where
  state n := f (e.state n)
  action n := (e.action n).bind fun a =>
    if Acts step' ok' f g (e.state n) a (e.state (n + 1)) then some (g a) else none
  next n := by
    rcases e.next n with ⟨hidle, hsame⟩ | ⟨a, ha, hok, hs⟩
    · refine Or.inl ⟨?_, by rw [hsame]⟩
      rw [hidle, Option.bind_none]
    · by_cases hact : Acts step' ok' f g (e.state n) a (e.state (n + 1))
      · refine Or.inr ⟨g a, ?_, hact.1, hact.2⟩
        rw [ha, Option.bind_some, if_pos hact]
      · refine Or.inl ⟨?_, (h n a hok hs).resolve_left hact⟩
        rw [ha, Option.bind_some, if_neg hact]

variable {e : Execution step ok}
  {h : ∀ n a, ok (e.state n) a → step (e.state n) a = some (e.state (n + 1)) →
    Acts step' ok' f g (e.state n) a (e.state (n + 1)) ∨ f (e.state (n + 1)) = f (e.state n)}

theorem coarsen_action {n : ℕ} {a : α} (ha : e.action n = some a)
    (hact : Acts step' ok' f g (e.state n) a (e.state (n + 1))) :
    (e.coarsen f g h).action n = some (g a) := by
  simp only [coarsen, ha, Option.bind_some, if_pos hact]

/-- **Fairness carries over** to a party that can move wherever the coarser
system says so, if a rank that the other steps do not raise comes down with
each of its moves that the coarser system does not see. -/
theorem coarsen_fair {mine : α → Prop} {mine' : β → Prop} {r : σ → ℕ} (hfair : e.Fair mine)
    (hmine : ∀ a, mine a → mine' (g a))
    (hen : ∀ n, Enabled step' mine' (f (e.state n)) → Enabled step mine (e.state n))
    (hrank : ∀ n a, ok (e.state n) a → step (e.state n) a = some (e.state (n + 1)) →
      ¬ (mine a ∧ Acts step' ok' f g (e.state n) a (e.state (n + 1))) →
        r (e.state (n + 1)) ≤ r (e.state n) ∧
          (mine a → r (e.state (n + 1)) < r (e.state n))) :
    (e.coarsen f g h).Fair mine' := by
  intro n
  by_contra hcon
  have hnot : ∀ m, n ≤ m → (∀ b, (e.coarsen f g h).action m = some b → ¬ mine' b) ∧
      Enabled step' mine' (f (e.state m)) := by
    refine fun m hm => ⟨fun b hb hmine' => hcon ⟨m, hm, Or.inl ⟨b, hb, hmine'⟩⟩, ?_⟩
    exact by_contra fun hdis => hcon ⟨m, hm, Or.inr hdis⟩
  have hunseen : ∀ m a, n ≤ m → e.action m = some a →
      ¬ (mine a ∧ Acts step' ok' f g (e.state m) a (e.state (m + 1))) := by
    rintro m a hm ha ⟨hown, hact⟩
    exact (hnot m hm).1 (g a) (coarsen_action ha hact) (hmine a hown)
  obtain ⟨m, -, hfalse⟩ := leaves_of_action (P := fun _ => True) hfair
    (fun m hm _ => hen m (hnot m hm).2)
    fun m a hm _ _ ha hok hs => hrank m a hok hs (hunseen m a hm ha)
  exact hfalse trivial

end Execution

end Lib

end AppServer
