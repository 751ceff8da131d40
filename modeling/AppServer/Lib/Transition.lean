import Mathlib.Data.List.Basic
import Mathlib.Algebra.BigOperators.Group.List.Basic
import Mathlib.Logic.Relation

/-!
# Guarded executable transition systems

A system is a step function: `step s a` is the state the action `a` leads
to, and `none` where `a` is not enabled. One definition serves replay
(`exec`, on a concrete list of actions) and proof (`Run`, an inductive
relation).

A `Run` carries a guard `ok` that every step of it meets. The guard is
where an assumption about the environment goes, and where "every state
visited satisfies `P`" goes too (`Lands`), so that a condition on the steps
and a property of the states visited are compared by comparing two guards
(`Run.lands_iff`).
-/

namespace AppServer

namespace Lib

variable {σ α : Type*} {step : σ → α → Option σ}

/-- Replay a list of actions. -/
def exec (step : σ → α → Option σ) (s : σ) (as : List α) : Option σ :=
  as.foldlM step s

/-- **Runs**: `Run step ok s₀ as s` when the actions `as` lead from `s₀` to
`s` and each of them met `ok` where it was taken. -/
inductive Run (step : σ → α → Option σ) (ok : σ → α → Prop) (s₀ : σ) : List α → σ → Prop
  /-- Nothing has happened. -/
  | nil : Run step ok s₀ [] s₀
  /-- One more step, at the end. -/
  | snoc {as : List α} {s s' : σ} {a : α} :
      Run step ok s₀ as s → ok s a → step s a = some s' → Run step ok s₀ (as ++ [a]) s'

/-- The guard that asks nothing. -/
abbrev anyStep : σ → α → Prop := fun _ _ => True

/-- The guard that the step lands in `P`. -/
def Lands (step : σ → α → Option σ) (P : σ → Prop) : σ → α → Prop :=
  fun s a => ∀ s', step s a = some s' → P s'

/-- Reachable by some run, whatever its steps. -/
def Reachable (step : σ → α → Option σ) (s₀ s : σ) : Prop :=
  ∃ as, Run step anyStep s₀ as s

/-- `step` with the guard made part of it. -/
def guarded (step : σ → α → Option σ) (ok : σ → α → Prop) [∀ s a, Decidable (ok s a)] :
    σ → α → Option σ :=
  fun s a => if ok s a then step s a else none

theorem guarded_eq_some {ok : σ → α → Prop} [∀ s a, Decidable (ok s a)] {s s' : σ} {a : α} :
    guarded step ok s a = some s' ↔ ok s a ∧ step s a = some s' :=
  Option.ite_none_right_eq_some

namespace Run

variable {ok ok' : σ → α → Prop} {s₀ s s' : σ} {as : List α}

/-- One step is a run. -/
theorem single {a : α} (hok : ok s₀ a) (h : step s₀ a = some s) : Run step ok s₀ [a] s := by
  have hr : Run step ok s₀ ([] ++ [a]) s := Run.snoc Run.nil hok h
  simpa using hr

/-- Runs compose. -/
theorem append {bs : List α} (h₁ : Run step ok s₀ as s) (h₂ : Run step ok s bs s') :
    Run step ok s₀ (as ++ bs) s' := by
  induction h₂ with
  | nil => simpa using h₁
  | snoc _ hok hs ih => rw [← List.append_assoc]; exact Run.snoc ih hok hs

/-- **The invariant rule**: what holds at the start and survives every
guarded step holds at the end. -/
theorem invariant {I : σ → Prop} (h : Run step ok s₀ as s) (h₀ : I s₀)
    (hstep : ∀ s a s', I s → ok s a → step s a = some s' → I s') : I s := by
  induction h with
  | nil => exact h₀
  | snoc _ hok hs ih => exact hstep _ _ _ ih hok hs

/-- A run under a guard is one under a weaker guard; the run's own invariant
may be used to weaken it. -/
theorem mono_of_invariant {I : σ → Prop} (h : Run step ok s₀ as s) (h₀ : I s₀)
    (hstep : ∀ s a s', I s → ok s a → step s a = some s' → I s')
    (hok : ∀ s a s', I s → ok s a → step s a = some s' → ok' s a) :
    Run step ok' s₀ as s := by
  induction h with
  | nil => exact Run.nil
  | snoc hr ho hs ih =>
    exact Run.snoc ih (hok _ _ _ (hr.invariant h₀ hstep) ho hs) hs

/-- The guard weakens. -/
theorem mono (h : Run step ok s₀ as s) (hok : ∀ s a, ok s a → ok' s a) :
    Run step ok' s₀ as s :=
  h.mono_of_invariant (I := fun _ => True) trivial (fun _ _ _ _ _ _ => trivial)
    fun s a _ _ ho _ => hok s a ho

/-- Any run reaches its end. -/
theorem reachable (h : Run step ok s₀ as s) : Reachable step s₀ s :=
  ⟨as, h.mono fun _ _ _ => trivial⟩

/-- **Two guards that agree wherever the invariant holds admit the same
runs.** -/
theorem congr {I : σ → Prop} (h₀ : I s₀)
    (hstep : ∀ s a s', I s → ok s a → step s a = some s' → I s')
    (hiff : ∀ s a s', I s → step s a = some s' → (ok s a ↔ ok' s a)) :
    Run step ok s₀ as s ↔ Run step ok' s₀ as s := by
  constructor
  · exact fun h => h.mono_of_invariant h₀ hstep fun s a s' hI ho hs => (hiff s a s' hI hs).1 ho
  · refine fun h => h.mono_of_invariant h₀ (fun s a s' hI ho hs => ?_)
      fun s a s' hI ho hs => (hiff s a s' hI hs).2 ho
    exact hstep s a s' hI ((hiff s a s' hI hs).2 ho) hs

/-- **When every state is good.** Where a step from a good state meets `ok`
just when it leads to a good one, the steps of a run all meet `ok` exactly
when every state it visits is good. `J` is what holds of them all anyway. -/
theorem lands_iff {J P : σ → Prop} (hJ₀ : J s₀) (hP₀ : P s₀)
    (hJ : ∀ s a s', J s → step s a = some s' → J s')
    (hiff : ∀ s a s', J s → P s → step s a = some s' → (ok s a ↔ P s')) :
    Run step ok s₀ as s ↔ Run step (Lands step P) s₀ as s := by
  refine congr (I := fun s => J s ∧ P s) ⟨hJ₀, hP₀⟩ ?_ ?_
  · exact fun s a s' hI hok hs => ⟨hJ s a s' hI.1 hs, (hiff s a s' hI.1 hI.2 hs).1 hok⟩
  · intro s a s' hI hs
    rw [hiff s a s' hI.1 hI.2 hs]
    constructor
    · intro hP s'' hs''
      rw [hs] at hs''
      exact Option.some.inj hs'' ▸ hP
    · exact fun hlands => hlands s' hs

/-- **The potential rule**: where each step of a kind is paid for out of the
potential `p` and what the counter `c` gains, there are no more of them in a
run than the run can pay for. -/
theorem potential {I : σ → Prop} {p c : σ → ℕ} {k : α → Bool} (h : Run step ok s₀ as s)
    (h₀ : I s₀) (hstep : ∀ s a s', I s → ok s a → step s a = some s' → I s')
    (hp : ∀ s a s', I s → ok s a → step s a = some s' →
      p s' + (if k a then 1 else 0) + c s ≤ p s + c s') :
    p s + as.countP k + c s₀ ≤ p s₀ + c s := by
  induction h with
  | nil => simp
  | snoc hr ho hs ih =>
    have hlast := hp _ _ _ (hr.invariant h₀ hstep) ho hs
    rw [List.countP_append, List.countP_singleton]
    omega

/-- **The simulation rule**: where each step is, through `f`, a step of the
abstract relation or none at all, the run is an abstract one. -/
theorem simulates {τ : Type*} {R : τ → τ → Prop} {f : σ → τ} {I : σ → Prop}
    (h : Run step ok s₀ as s) (h₀ : I s₀)
    (hstep : ∀ s a s', I s → ok s a → step s a = some s' → I s')
    (hR : ∀ s a s', I s → ok s a → step s a = some s' → R (f s) (f s') ∨ f s = f s') :
    Relation.ReflTransGen R (f s₀) (f s) := by
  induction h with
  | nil => exact Relation.ReflTransGen.refl
  | snoc hr ho hs ih =>
    rcases hR _ _ _ (hr.invariant h₀ hstep) ho hs with hR | heq
    · exact ih.tail hR
    · rw [← heq]; exact ih

theorem cons {a : α} {s₁ : σ} (hok : ok s₀ a) (hs : step s₀ a = some s₁)
    (h : Run step ok s₁ as s) : Run step ok s₀ (a :: as) s :=
  (single hok hs).append h

/-- **Replay is a run**, under any guard it was replayed with. -/
theorem of_exec [∀ s a, Decidable (ok s a)] :
    ∀ {as : List α} {s₀ s : σ}, exec (guarded step ok) s₀ as = some s → Run step ok s₀ as s := by
  intro as
  induction as with
  | nil =>
    intro s₀ s h
    simp only [exec, List.foldlM_nil, Option.pure_def, Option.some.injEq] at h
    exact h ▸ Run.nil
  | cons a as ih =>
    intro s₀ s h
    simp only [exec, List.foldlM_cons, Option.bind_eq_bind, Option.bind_eq_some_iff] at h
    obtain ⟨s₁, h₁, h⟩ := h
    obtain ⟨hok, h₁⟩ := guarded_eq_some.1 h₁
    exact Run.cons hok h₁ (ih h)

/-- A run found by replay, with what was looked up in its last state. -/
theorem exists_of_exec [∀ s a, Decidable (ok s a)] {P : σ → Prop} [DecidablePred P]
    (h : (exec (guarded step ok) s₀ as).any (fun s => decide (P s)) = true) :
    ∃ s, Run step ok s₀ as s ∧ P s := by
  obtain ⟨s, hs, hP⟩ := (Option.any_eq_true _ _).1 h
  exact ⟨s, of_exec hs, of_decide_eq_true hP⟩

end Run

/-- Replay reaches its end. -/
theorem Reachable.of_exec {s₀ s : σ} {as : List α} (h : exec step s₀ as = some s) :
    Reachable step s₀ s := by
  have hg : guarded step (@anyStep σ α) = step := by
    funext s a; simp [guarded]
  exact ⟨as, Run.of_exec (by rw [hg]; exact h)⟩

/-- **What is bound to happen**: `P` holds, or the system can go on and comes
to it whichever way it does. -/
inductive Inevitable (step : σ → α → Option σ) (P : σ → Prop) : σ → Prop
  /-- It has happened. -/
  | now {s : σ} : P s → Inevitable step P s
  /-- It is still to come. -/
  | next {s s' : σ} {a : α} : step s a = some s' →
      (∀ b s'', step s b = some s'' → Inevitable step P s'') → Inevitable step P s

/-- Where only one step can be taken, what is inevitable after it is
inevitable now. -/
theorem Inevitable.of_only {P : σ → Prop} {s s' : σ} {a : α} (hs : step s a = some s')
    (honly : ∀ b s'', step s b = some s'' → b = a) (h : Inevitable step P s') :
    Inevitable step P s := by
  refine .next hs fun b s'' hb => ?_
  obtain rfl := honly b s'' hb
  exact Option.some.inj (hs.symm.trans hb) ▸ h

namespace Reachable

variable {s₀ s : σ}

/-- The invariant rule, for reachable states. -/
theorem invariant {I : σ → Prop} (h : Reachable step s₀ s) (h₀ : I s₀)
    (hstep : ∀ s a s', I s → step s a = some s' → I s') : I s := by
  obtain ⟨as, hr⟩ := h
  exact hr.invariant h₀ fun s a s' hI _ hs => hstep s a s' hI hs

end Reachable

end Lib

end AppServer
