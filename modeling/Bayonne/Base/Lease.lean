import Mathlib.Logic.Function.Basic
import Mathlib.Data.List.Basic

/-! Leases that are granted, confirmed and ended. A lease ends once. It is given back if it was
confirmed or its holder ends it, and dropped if it is lost before it was confirmed. -/
namespace Lease

universe u
variable {ι : Type u}

inductive Phase where
  | unknown | waiting | running | returned | dropped
  deriving DecidableEq, Repr

namespace Phase

def grant : Phase → Phase
  | unknown => waiting
  | p => p

def confirm : Phase → Phase
  | waiting => running
  | p => p

def lose : Phase → Phase
  | waiting => dropped
  | running => returned
  | p => p

def surrender : Phase → Phase
  | waiting | running => returned
  | p => p

end Phase

inductive Act (ι : Type u) where
  | grant (i : ι)
  | confirm (i : ι)
  | lose (i : ι)
  | surrender (i : ι)

abbrev Book (ι : Type u) := ι → Phase

section Runs
variable [DecidableEq ι]

def next (b : Book ι) : Act ι → Book ι
  | .grant i => Function.update b i (b i).grant
  | .confirm i => Function.update b i (b i).confirm
  | .lose i => Function.update b i (b i).lose
  | .surrender i => Function.update b i (b i).surrender

def run (b : Book ι) (acts : List (Act ι)) : Book ι := acts.foldl next b

@[simp] theorem run_nil (b : Book ι) : run b [] = b := rfl

@[simp] theorem run_cons (b : Book ι) (a : Act ι) (acts : List (Act ι)) :
    run b (a :: acts) = run (next b a) acts := rfl

theorem run_append (b : Book ι) (as bs : List (Act ι)) :
    run b (as ++ bs) = run (run b as) bs := List.foldl_append

/-- What every act keeps of one lease, every run keeps. -/
theorem run_keeps {P : Phase → Prop} (grant : ∀ p, P p → P p.grant)
    (confirm : ∀ p, P p → P p.confirm) (lose : ∀ p, P p → P p.lose)
    (surrender : ∀ p, P p → P p.surrender) (acts : List (Act ι)) {b : Book ι} {i : ι}
    (start : P (b i)) : P (run b acts i) := by
  induction acts generalizing b with
  | nil => exact start
  | cons a acts ih =>
    refine ih ?_
    cases a with
    | grant j =>
      by_cases same : i = j
      · subst same
        simpa [next] using grant _ start
      · simpa [next, Function.update_of_ne same] using start
    | confirm j =>
      by_cases same : i = j
      · subst same
        simpa [next] using confirm _ start
      · simpa [next, Function.update_of_ne same] using start
    | lose j =>
      by_cases same : i = j
      · subst same
        simpa [next] using lose _ start
      · simpa [next, Function.update_of_ne same] using start
    | surrender j =>
      by_cases same : i = j
      · subst same
        simpa [next] using surrender _ start
      · simpa [next, Function.update_of_ne same] using start

theorem run_known (acts : List (Act ι)) {b : Book ι} {i : ι} (known : b i ≠ .unknown) :
    run b acts i ≠ .unknown := by
  refine run_keeps (P := fun p => p ≠ .unknown) ?_ ?_ ?_ ?_ acts known
  all_goals
    intro p known
    cases p
    all_goals simp_all [Phase.grant, Phase.confirm, Phase.lose, Phase.surrender]

/-- A confirmed lease is never dropped: it runs on or has been given back. -/
theorem run_running (acts : List (Act ι)) {b : Book ι} {i : ι} (running : b i = .running) :
    run b acts i = .running ∨ run b acts i = .returned := by
  refine run_keeps (P := fun p => p = .running ∨ p = .returned) ?_ ?_ ?_ ?_ acts (.inl running)
  all_goals
    rintro p (rfl | rfl)
    all_goals simp [Phase.grant, Phase.confirm, Phase.lose, Phase.surrender]

end Runs

end Lease
