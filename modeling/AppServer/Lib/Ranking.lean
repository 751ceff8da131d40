import AppServer.Lib.Transition
import Mathlib.Order.WellFounded

/-!
# What is bound to end

A system ends whichever way it goes if a rank comes down with every step, in
any well-founded order (`Inevitable.of_rank`). The rank may read what the
states do not record: a `monitored` system carries notes on its own run that
no step depends on, so that its runs are the runs of the system itself
(`Run.of_monitored`, `Run.exists_monitored`).
-/

namespace AppServer

namespace Lib

variable {σ α μ : Type*} {step : σ → α → Option σ}

/-! ## The ranking rule -/

/-- **The ranking rule**: where `P` does not hold yet the system can go on,
and each step it may take brings the rank down. -/
theorem Inevitable.of_rank {β : Type*} [LT β] [WellFoundedLT β] {I P : σ → Prop} {r : σ → β}
    {s : σ} (h₀ : I s) (hen : ∀ s, I s → ¬ P s → ∃ a s', step s a = some s')
    (hstep : ∀ s a s', I s → ¬ P s → step s a = some s' → I s' ∧ r s' < r s) :
    Inevitable step P s := by
  induction s using WellFounded.induction (InvImage.wf r wellFounded_lt) with
  | _ s ih =>
    by_cases hP : P s
    · exact .now hP
    · obtain ⟨a, s', hs⟩ := hen s h₀ hP
      refine .next hs fun b s'' hb => ?_
      obtain ⟨hI, hlt⟩ := hstep s b s'' h₀ hP hb
      exact ih s'' hlt hI

/-! ## Monitors -/

/-- A system with a monitor, which notes what happens. -/
def monitored (step : σ → α → Option σ) (note : σ → μ → α → μ) (x : σ × μ) (a : α) :
    Option (σ × μ) :=
  (step x.1 a).map fun s' => (s', note x.1 x.2 a)

variable {note : σ → μ → α → μ} {ok : σ × μ → α → Prop} {x y : σ × μ} {as : List α}

theorem monitored_eq_some {a : α} :
    monitored step note x a = some y ↔ step x.1 a = some y.1 ∧ y.2 = note x.1 x.2 a := by
  rw [monitored, Option.map_eq_some_iff]
  constructor
  · rintro ⟨s', hs, rfl⟩
    exact ⟨hs, rfl⟩
  · rintro ⟨hs, hy⟩
    exact ⟨y.1, hs, Prod.ext rfl hy.symm⟩

/-- A monitored run is one of the system. -/
theorem Run.of_monitored (h : Run (monitored step note) ok x as y) :
    Run step anyStep x.1 as y.1 := by
  induction h with
  | nil => exact .nil
  | snoc _ _ hs ih => exact .snoc ih trivial (monitored_eq_some.1 hs).1

/-- Any run of the system can be monitored. -/
theorem Run.exists_monitored {s s' : σ} (h : Run step anyStep s as s') (m : μ) :
    ∃ m', Run (monitored step note) anyStep (s, m) as (s', m') := by
  induction h with
  | nil => exact ⟨m, .nil⟩
  | snoc _ _ hs ih =>
    obtain ⟨m', hrun⟩ := ih
    exact ⟨_, .snoc hrun trivial (monitored_eq_some.2 ⟨hs, rfl⟩)⟩

end Lib

end AppServer
