import Mathlib.Data.Finset.Card
import Mathlib.Data.Finset.Insert
import Mathlib.Logic.Function.Basic

/-! Reference counts. Each holder refers to one object at most, and finitely many holders
refer to any. A count is kept apart from the references and moves by one with each. -/
namespace Refcount

variable {η μ : Type*} [DecidableEq μ]

/-- Each count is the number of holders that refer to the object. -/
def Counts (ref : η → Option μ) (count : μ → Nat) : Prop :=
  ∃ S : Finset η, (∀ h, ref h ≠ none → h ∈ S) ∧ ∀ m, count m = (S.filter (ref · = some m)).card

variable {ref : η → Option μ} {count : μ → Nat}

theorem Counts.zero_iff (c : Counts ref count) (m : μ) : count m = 0 ↔ ∀ h, ref h ≠ some m := by
  obtain ⟨S, support, card⟩ := c
  rw [card, Finset.card_eq_zero, Finset.filter_eq_empty_iff]
  constructor
  · intro none h held
    exact none (support h (by simp [held])) held
  · intro none h _
    exact none h

theorem Counts.pos (c : Counts ref count) {h : η} {m : μ} (held : ref h = some m) :
    0 < count m :=
  Nat.pos_of_ne_zero fun zero => (c.zero_iff m).mp zero h held

theorem Counts.empty : Counts (fun _ : η => (none : Option μ)) fun _ => 0 :=
  ⟨∅, fun _ held => absurd rfl held, fun _ => rfl⟩

theorem Counts.congr (c : Counts ref count) {ref' : η → Option μ} {count' : μ → Nat}
    (refs : ∀ h, ref' h = ref h) (counts : ∀ m, count' m = count m) : Counts ref' count' := by
  rwa [funext refs, funext counts]

variable [DecidableEq η]

theorem Counts.acquire (c : Counts ref count) {h : η} (free : ref h = none) (m : μ) :
    Counts (Function.update ref h (some m)) (Function.update count m (count m + 1)) := by
  obtain ⟨S, support, card⟩ := c
  refine ⟨insert h S, fun k held => ?_, fun k => ?_⟩
  · by_cases hk : k = h
    · exact hk ▸ Finset.mem_insert_self h S
    · rw [Function.update_of_ne hk] at held
      exact Finset.mem_insert_of_mem (support k held)
  · have old : ((insert h S).filter (ref · = some k)).card = count k := by
      rw [card, Finset.filter_insert, if_neg (by simp [free])]
    by_cases hk : k = m
    · subst hk
      have more : (insert h S).filter (Function.update ref h (some k) · = some k) =
          insert h ((insert h S).filter (ref · = some k)) := by
        ext j
        by_cases hj : j = h
        · simp [hj]
        · simp [hj]
      have fresh : h ∉ (insert h S).filter (ref · = some k) := by simp [free]
      rw [Function.update_self, more, Finset.card_insert_of_notMem fresh, old]
    · rw [Function.update_of_ne hk, ← old]
      refine congrArg _ (Finset.filter_congr fun j _ => ?_)
      by_cases hj : j = h
      · subst hj
        simp [free, Ne.symm hk]
      · rw [Function.update_of_ne hj]

theorem Counts.drop (c : Counts ref count) {h : η} {m : μ} (held : ref h = some m) :
    Counts (Function.update ref h none) (Function.update count m (count m - 1)) := by
  obtain ⟨S, support, card⟩ := c
  have inside : h ∈ S := support h (by simp [held])
  refine ⟨S, fun k taken => ?_, fun k => ?_⟩
  · by_cases hk : k = h
    · exact hk ▸ inside
    · rw [Function.update_of_ne hk] at taken
      exact support k taken
  · by_cases hk : k = m
    · subst hk
      have less : S.filter (Function.update ref h none · = some k) =
          (S.filter (ref · = some k)).erase h := by
        ext j
        by_cases hj : j = h
        · simp [hj]
        · simp [hj]
      rw [Function.update_self, less, Finset.card_erase_of_mem (by simp [inside, held]), card]
    · rw [Function.update_of_ne hk, card]
      refine congrArg _ (Finset.filter_congr fun j _ => ?_)
      by_cases hj : j = h
      · subst hj
        simp [held, Ne.symm hk]
      · rw [Function.update_of_ne hj]

end Refcount
