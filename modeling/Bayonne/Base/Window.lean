import Mathlib.Order.Bounds.Basic

/-! What a quantity was at the points of a history since the last boundary in it. -/
namespace Window

variable {α β : Type*} (boundary : α → Prop) (keep : List α → Prop) (value : List α → β)

/-- The history ends with a boundary and what came after it. -/
def Closed (history done later : List α) : Prop :=
  ∃ b, boundary b ∧ history = done ++ b :: later ∧ ∀ a ∈ later, ¬ boundary a

/-- The values at the points that count, from the last boundary on. The point right after
the boundary is one of them, and so is the start if there is no boundary. -/
def values (history : List α) : Set β :=
  { v | ∃ past later, history = past ++ later ∧ (∀ a ∈ later, ¬ boundary a) ∧ keep past ∧
    value past = v }

variable {boundary keep value} {h : List α} {a : α}

theorem closed_boundary (last : boundary a) {done later : List α} :
    Closed boundary (h ++ [a]) done later ↔ done = h ∧ later = [] := by
  constructor
  · rintro ⟨b, -, split, clear⟩
    rcases List.eq_nil_or_concat later with rfl | ⟨front, x, rfl⟩
    · exact ⟨(List.append_inj_left' split rfl).symm, rfl⟩
    · have same : [a] = [x] := by
        have split : h ++ [a] = (done ++ b :: front) ++ [x] := by simpa using split
        exact List.append_inj_right' split rfl
      cases same
      exact absurd last (clear a (by simp))
  · rintro ⟨rfl, rfl⟩
    exact ⟨a, last, rfl, nofun⟩

theorem closed_other (other : ¬ boundary a) {done later : List α} :
    Closed boundary (h ++ [a]) done later ↔
      ∃ front, later = front ++ [a] ∧ Closed boundary h done front := by
  constructor
  · rintro ⟨b, bound, split, clear⟩
    rcases List.eq_nil_or_concat later with rfl | ⟨front, x, rfl⟩
    · have same : [a] = [b] := List.append_inj_right' split rfl
      cases same
      exact absurd bound other
    · have split : h ++ [a] = (done ++ b :: front) ++ [x] := by simpa using split
      have same : [a] = [x] := List.append_inj_right' split rfl
      cases same
      exact ⟨front, List.concat_eq_append, b, bound, List.append_inj_left' split rfl,
        fun y hy => clear y (by simp [hy])⟩
  · rintro ⟨front, rfl, b, bound, rfl, clear⟩
    refine ⟨b, bound, by simp, fun y hy => ?_⟩
    rcases List.mem_append.mp hy with before | last
    · exact clear y before
    · rwa [List.mem_singleton.mp last]

theorem not_closed_nil {done later : List α} : ¬ Closed boundary [] done later := by
  rintro ⟨b, -, split, -⟩
  cases done <;> cases split

theorem values_nil (start : keep []) : values boundary keep value [] = {value []} := by
  ext v
  constructor
  · rintro ⟨past, later, split, -, -, rfl⟩
    rw [(List.append_eq_nil_iff.mp split.symm).1]
    rfl
  · rintro rfl
    exact ⟨[], [], rfl, nofun, start, rfl⟩

theorem mem_values_concat {v : β} : v ∈ values boundary keep value (h ++ [a]) ↔
    keep (h ++ [a]) ∧ value (h ++ [a]) = v ∨ ¬ boundary a ∧ v ∈ values boundary keep value h := by
  constructor
  · rintro ⟨past, later, split, clear, kept, rfl⟩
    rcases List.eq_nil_or_concat later with rfl | ⟨front, x, rfl⟩
    · rw [List.append_nil] at split
      exact .inl ⟨split ▸ kept, split ▸ rfl⟩
    · have split : h ++ [a] = (past ++ front) ++ [x] := by simpa using split
      have same : [a] = [x] := List.append_inj_right' split rfl
      cases same
      exact .inr ⟨clear a (by simp), past, front, List.append_inj_left' split rfl,
        fun y hy => clear y (by simp [hy]), kept, rfl⟩
  · rintro (⟨kept, rfl⟩ | ⟨other, past, later, rfl, clear, kept, rfl⟩)
    · exact ⟨h ++ [a], [], by simp, nofun, kept, rfl⟩
    · refine ⟨past, later ++ [a], by simp, fun y hy => ?_, kept, rfl⟩
      rcases List.mem_append.mp hy with before | last
      · exact clear y before
      · rwa [List.mem_singleton.mp last]

theorem values_boundary (last : boundary a) (kept : keep (h ++ [a])) :
    values boundary keep value (h ++ [a]) = {value (h ++ [a])} := by
  ext v
  rw [mem_values_concat]
  constructor
  · rintro (⟨-, rfl⟩ | ⟨other, -⟩)
    · rfl
    · exact absurd last other
  · rintro rfl
    exact .inl ⟨kept, rfl⟩

theorem values_kept (other : ¬ boundary a) (kept : keep (h ++ [a])) :
    values boundary keep value (h ++ [a]) =
      insert (value (h ++ [a])) (values boundary keep value h) := by
  ext v
  rw [mem_values_concat, Set.mem_insert_iff]
  constructor
  · rintro (⟨-, rfl⟩ | ⟨-, old⟩)
    · exact .inl rfl
    · exact .inr old
  · rintro (rfl | old)
    · exact .inl ⟨kept, rfl⟩
    · exact .inr ⟨other, old⟩

theorem values_skipped (other : ¬ boundary a) (skipped : ¬ keep (h ++ [a])) :
    values boundary keep value (h ++ [a]) = values boundary keep value h := by
  ext v
  rw [mem_values_concat]
  constructor
  · rintro (⟨kept, -⟩ | ⟨-, old⟩)
    · exact absurd kept skipped
    · exact old
  · exact fun old => .inr ⟨other, old⟩

end Window
