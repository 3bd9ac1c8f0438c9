import Mathlib.Logic.Function.Basic
import Mathlib.Order.Basic

/-! Threads that run their code statement by statement, each on an object it has to
itself. A statement reads and writes what the other threads see of its object; all they
can do to the object of another is to take its view down in an order. Then the weakest
precondition of the code a thread has still to run is an invariant of every interleaving. -/
namespace Threads

universe u v w
variable {S : Type u} {C : Type v}

inductive Code (S : Type u) (C : Type v) where
  | done
  | step (s : S) (rest : Code S C)
  | test (c : C) (yes no : Code S C)

namespace Code

def steps : List S → Code S C → Code S C
  | [], rest => rest
  | s :: ss, rest => .step s (steps ss rest)

def guarded (c : C) (s : S) (rest : Code S C) : Code S C := .test c (.step s rest) rest

def run {σ : Type w} (exec : S → σ → σ) (eval : C → σ → Bool) : Code S C → σ → σ
  | .done, x => x
  | .step s rest, x => rest.run exec eval (exec s x)
  | .test c yes no, x => if eval c x then yes.run exec eval x else no.run exec eval x

end Code

variable {L V : Type w} [Preorder V]

/-- What the statements and tests do to the locals of a thread and to the view of its
object. What holds of a view holds of each view below it. -/
structure Spec (S : Type u) (C : Type v) (L V : Type w) [Preorder V] where
  pre : S → L → V → Prop
  note : S → L → V → L
  effect : S → L → V → V
  can : C → V → Bool → Prop
  pre_mono : ∀ {s l v v'}, v' ≤ v → pre s l v → pre s l v'
  note_eq : ∀ {s l v v'}, v' ≤ v → note s l v' = note s l v
  effect_mono : ∀ {s l v v'}, v' ≤ v → effect s l v' ≤ effect s l v
  can_mono : ∀ {c v v' b}, v' ≤ v → can c v' b → can c v b

/-- The weakest precondition of code that has to leave its object in `Q`. -/
def Code.wp (sp : Spec S C L V) (Q : V → Prop) : Code S C → L → V → Prop
  | .done, _, v => Q v
  | .step s rest, l, v => sp.pre s l v ∧ rest.wp sp Q (sp.note s l v) (sp.effect s l v)
  | .test c yes no, l, v =>
    (sp.can c v true → yes.wp sp Q l v) ∧ (sp.can c v false → no.wp sp Q l v)

theorem Code.wp_mono {sp : Spec S C L V} {Q : V → Prop}
    (closed : ∀ {v v'}, v' ≤ v → Q v → Q v') :
    ∀ {code : Code S C} {l : L} {v v' : V}, v' ≤ v → code.wp sp Q l v → code.wp sp Q l v'
  | .done, _, _, _, le, h => closed le h
  | .step s rest, l, v, v', le, ⟨pre, h⟩ => by
    refine ⟨sp.pre_mono le pre, ?_⟩
    rw [sp.note_eq le]
    exact rest.wp_mono closed (sp.effect_mono le) h
  | .test c yes no, l, v, v', le, ⟨hyes, hno⟩ =>
    ⟨fun can => yes.wp_mono closed le (hyes (sp.can_mono le can)),
      fun can => no.wp_mono closed le (hno (sp.can_mono le can))⟩

variable {ι τ : Type w}

abbrev Job (ι L : Type w) (S : Type u) (C : Type v) := Option (ι × L × Code S C)

def Code.job (i : ι) (l : L) : Code S C → Job ι L S C
  | .done => none
  | code => some (i, l, code)

def Clear (job : τ → Job ι L S C) (t : τ) (i : ι) : Prop :=
  ∀ t' l c, job t' = some (i, l, c) → t' = t

/-- No two threads are at one object, each can run its code to the end, and an object that
no thread is at is in `Q`. -/
structure Owned (sp : Spec S C L V) (Q : V → Prop) (job : τ → Job ι L S C) (view : ι → V) :
    Prop where
  alone : ∀ {t i l c}, job t = some (i, l, c) → Clear job t i
  ready : ∀ {t i l c}, job t = some (i, l, c) → c.wp sp Q l (view i)
  quiet : ∀ {i}, (∀ t l c, job t ≠ some (i, l, c)) → Q (view i)

variable {sp : Spec S C L V} {Q : V → Prop} {job : τ → Job ι L S C} {view view' : ι → V}

variable [DecidableEq τ]

theorem Owned.move (h : Owned sp Q job view) (closed : ∀ {v v'}, v' ≤ v → Q v → Q v')
    {t : τ} {i : ι} {l : L} {code : Code S C} (clear : Clear job t i)
    (mine : ∀ j l c, job t = some (j, l, c) → j = i) (le : ∀ j, j ≠ i → view' j ≤ view j)
    (wp : code.wp sp Q l (view' i)) :
    Owned sp Q (Function.update job t (code.job i l)) view' := by
  have mine' : ∀ {j l' c}, code.job i l = some (j, l', c) → j = i ∧ l' = l ∧ c = code := by
    intro j l' c at_j
    cases code <;> simp only [Code.job] at at_j <;> cases at_j <;> exact ⟨rfl, rfl, rfl⟩
  -- the thread at an object after the step is `t` at `i`, or was there before
  have origin : ∀ {t' j l' c}, Function.update job t (code.job i l) t' = some (j, l', c) →
      (t' = t ∧ j = i ∧ l' = l ∧ c = code) ∨ (j ≠ i ∧ t' ≠ t ∧ job t' = some (j, l', c)) := by
    intro t' j l' c at_j
    by_cases same : t' = t
    · subst same
      rw [Function.update_self] at at_j
      exact .inl ⟨rfl, mine' at_j⟩
    · rw [Function.update_of_ne same] at at_j
      refine .inr ⟨?_, same, at_j⟩
      rintro rfl
      exact same (clear t' l' c at_j)
  constructor
  · intro t₁ j l₁ c₁ at₁ t₂ l₂ c₂ at₂
    rcases origin at₁ with ⟨rfl, rfl, -, -⟩ | ⟨ne, -, old₁⟩ <;>
      rcases origin at₂ with ⟨rfl, e, -, -⟩ | ⟨ne', -, old₂⟩
    · rfl
    · exact absurd rfl ne'
    · exact absurd e ne
    · exact h.alone old₁ _ _ _ old₂
  · intro t' j l' c at_j
    rcases origin at_j with ⟨-, rfl, rfl, rfl⟩ | ⟨ne, -, old⟩
    · exact wp
    · exact Code.wp_mono closed (le j ne) (h.ready old)
  · intro j free
    by_cases hj : j = i
    · subst hj
      -- nobody is at the object: the code has come to its end
      cases code with
      | done => exact wp
      | _ => exact absurd (Function.update_self t _ job) (free t _ _)
    · refine closed (le j hj) (h.quiet fun t' l' c at_j => ?_)
      have other : t' ≠ t := fun same => hj (mine j l' c (same ▸ at_j))
      exact free t' l' c (by rw [Function.update_of_ne other]; exact at_j)

end Threads
