import Mathlib.Data.List.Infix

/-! A list read as the words between separators. -/
namespace Bayonne.Words

variable {α : Type*} (sep : α → Bool)

/-- The words of a list. Two separators in a row have an empty word between them. -/
def words : List α → List (List α)
  | [] => [[]]
  | c :: s => if sep c then [] :: words s else (words s).modifyHead (c :: ·)

variable {sep} {w s : List α} {x : α}

theorem words_clean (clean : ∀ c ∈ w, sep c = false) : words sep w = [w] := by
  induction w with
  | nil => rfl
  | cons c w ih =>
    have here := clean c List.mem_cons_self
    rw [words, here, ih fun d hd => clean d (List.mem_cons_of_mem c hd)]
    rfl

theorem words_append (clean : ∀ c ∈ w, sep c = false) (last : sep x = true) :
    words sep (w ++ x :: s) = w :: words sep s := by
  induction w with
  | nil => rw [List.nil_append, words, if_pos last]
  | cons c w ih =>
    have here := clean c List.mem_cons_self
    rw [List.cons_append, words, here, ih fun d hd => clean d (List.mem_cons_of_mem c hd)]
    rfl

theorem word_cases (s : List α) : (∀ c ∈ s, sep c = false) ∨
    ∃ w x t, s = w ++ x :: t ∧ (∀ c ∈ w, sep c = false) ∧ sep x = true := by
  induction s with
  | nil => exact .inl nofun
  | cons c s ih =>
    cases here : sep c with
    | true => exact .inr ⟨[], c, s, rfl, nofun, here⟩
    | false =>
      rcases ih with clean | ⟨w, x, t, rfl, clean, last⟩
      · exact .inl (List.forall_mem_cons.mpr ⟨here, clean⟩)
      · exact .inr ⟨c :: w, x, t, rfl, List.forall_mem_cons.mpr ⟨here, clean⟩, last⟩

theorem words_induction {P : List α → Prop} (one : ∀ s, (∀ c ∈ s, sep c = false) → P s)
    (more : ∀ w x s, (∀ c ∈ w, sep c = false) → sep x = true → P s → P (w ++ x :: s))
    (s : List α) : P s := by
  induction size : s.length using Nat.strongRecOn generalizing s with
  | ind n ih =>
    rcases @word_cases _ sep s with clean | ⟨w, x, t, rfl, clean, last⟩
    · exact one s clean
    · refine more w x t clean last (ih t.length ?_ t rfl)
      rw [← size, List.length_append, List.length_cons]
      omega

theorem prefix_append {name : List α} (other : x ∉ name) :
    name <+: w ++ x :: s ↔ name <+: w := by
  constructor
  · intro h
    by_cases short : name.length ≤ w.length
    · exact (List.isPrefix_append_of_length short).mp h
    · have whole : w ++ [x] <+: w ++ x :: s := ⟨s, by simp⟩
      have inside : w ++ [x] <+: name := by
        refine List.prefix_of_prefix_length_le whole h ?_
        rw [List.length_append, List.length_singleton]
        omega
      exact absurd (inside.subset (by simp)) other
  · exact fun h => h.trans (List.prefix_append w _)

end Bayonne.Words
