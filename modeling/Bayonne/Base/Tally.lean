import Mathlib.Data.Fintype.Card
import Mathlib.Data.Finset.Card

/-! Counting the members of a finite type that have a property, when one of them
changes. -/
namespace Tally

variable {ι : Type*} [Fintype ι]

def tally (p : ι → Prop) [DecidablePred p] : Nat := (Finset.univ.filter p).card

theorem tally_le (p : ι → Prop) [DecidablePred p] : tally p ≤ Fintype.card ι :=
  Finset.card_filter_le _ _

theorem tally_congr {p q : ι → Prop} [DecidablePred p] [DecidablePred q]
    (same : ∀ j, p j ↔ q j) : tally p = tally q := by
  simp only [tally, same]

theorem tally_mono {p q : ι → Prop} [DecidablePred p] [DecidablePred q]
    (imp : ∀ j, p j → q j) : tally p ≤ tally q :=
  Finset.card_le_card fun j hj => by
    simp only [Finset.mem_filter, Finset.mem_univ, true_and] at hj ⊢
    exact imp j hj

theorem tally_pos {p : ι → Prop} [DecidablePred p] {i : ι} (hi : p i) : 0 < tally p :=
  Finset.card_pos.mpr ⟨i, by simpa using hi⟩

theorem tally_eq_zero {p : ι → Prop} [DecidablePred p] (none : ∀ i, ¬ p i) : tally p = 0 := by
  rw [tally, Finset.card_eq_zero, Finset.filter_eq_empty_iff]
  exact fun i _ => none i

theorem tally_eq_card {p : ι → Prop} [DecidablePred p] (all : ∀ i, p i) :
    tally p = Fintype.card ι := by
  rw [tally, Finset.filter_true_of_mem fun i _ => all i, Finset.card_univ]

theorem all_of_tally_eq_card {p : ι → Prop} [DecidablePred p] (full : tally p = Fintype.card ι)
    (i : ι) : p i := by
  have whole := (Finset.card_eq_iff_eq_univ _).mp full
  exact Finset.filter_eq_self.mp whole i (Finset.mem_univ i)

variable [DecidableEq ι]

theorem tally_add {p q : ι → Prop} [DecidablePred p] [DecidablePred q] {i : ι}
    (others : ∀ j, j ≠ i → (p j ↔ q j)) (before : ¬ p i) (after : q i) :
    tally q = tally p + 1 := by
  have split : Finset.univ.filter q = insert i (Finset.univ.filter p) := by
    ext j
    simp only [Finset.mem_filter, Finset.mem_univ, true_and, Finset.mem_insert]
    by_cases hj : j = i
    · subst hj; simp [after]
    · simp [hj, others j hj]
  have fresh : i ∉ Finset.univ.filter p := by simpa using before
  rw [tally, split, Finset.card_insert_of_notMem fresh, tally]

theorem tally_same {p q : ι → Prop} [DecidablePred p] [DecidablePred q] {i : ι}
    (others : ∀ j, j ≠ i → (p j ↔ q j)) (here : p i ↔ q i) : tally p = tally q :=
  tally_congr fun j => by
    by_cases hj : j = i
    · exact hj ▸ here
    · exact others j hj

theorem tally_cons {p : ι → Prop} [DecidablePred p] {i : ι} {is : List ι} (fresh : i ∉ is) :
    tally (fun j => j ∈ i :: is ∧ p j) = tally (fun j => j ∈ is ∧ p j) + if p i then 1 else 0 := by
  have others : ∀ j, j ≠ i → (j ∈ is ∧ p j ↔ j ∈ i :: is ∧ p j) := fun j hj => by
    rw [List.mem_cons, or_iff_right hj]
  by_cases hi : p i
  · rw [if_pos hi]
    exact tally_add others (fun h => fresh h.1) ⟨List.mem_cons_self, hi⟩
  · rw [if_neg hi]
    exact (tally_same others (iff_of_false (fun h => hi h.2) fun h => hi h.2)).symm

end Tally
