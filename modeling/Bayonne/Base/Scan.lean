import Mathlib.Tactic.TypeStar

/-! Scans that ask the members of a list in turn and stop at the first answer of one kind.
Asking changes the state that the later members answer in. -/
namespace Bayonne.Scan

variable {σ τ α : Type*} (ask : σ → α → Bool × σ)

def upTo (stop : Bool) : List α → σ → Bool × σ
  | [], s => (false, s)
  | a :: as, s =>
    let out := ask s a
    if out.1 = stop then (true, out.2) else upTo stop as out.2

def answers : List α → σ → List Bool
  | [], _ => []
  | a :: as, s => (ask s a).1 :: answers as (ask s a).2

variable {ask} {stop : Bool} {as : List α} {s : σ}

theorem upTo_iff : (upTo ask stop as s).1 = true ↔ stop ∈ answers ask as s := by
  induction as generalizing s with
  | nil => simp [upTo, answers]
  | cons a as ih =>
    by_cases here : (ask s a).1 = stop
    · simp [upTo, answers, here]
    · simp [upTo, answers, here, Ne.symm here, ih]

theorem not_upTo_iff : (upTo ask stop as s).1 = false ↔ stop ∉ answers ask as s := by
  rw [← upTo_iff, Bool.not_eq_true]

theorem answers_eq_nil_iff : answers ask as s = [] ↔ as = [] := by
  cases as <;> simp [answers]

/-- Two ways of asking that agree on related states get the same answers. -/
theorem answers_congr {ask' : τ → α → Bool × τ} {R : σ → τ → Prop}
    (agree : ∀ s t a, R s t → (ask s a).1 = (ask' t a).1 ∧ R (ask s a).2 (ask' t a).2) {t : τ}
    (related : R s t) : answers ask as s = answers ask' as t := by
  induction as generalizing s t with
  | nil => rfl
  | cons a as ih =>
    obtain ⟨same, related⟩ := agree s t a related
    rw [answers, answers, same, ih related]

end Bayonne.Scan
