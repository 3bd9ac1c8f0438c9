import Mathlib.Data.List.Nodup
import Mathlib.Logic.Function.Basic

/-! A list of entries that is kept in buckets, each with the entries whose keys have one hash.
A value has one entry at most, a key any number. -/
namespace Buckets

universe u v w
variable {κ : Type u} {β : Type v} {ι : Type w} [DecidableEq β] [DecidableEq ι]
variable (hash : κ → β)

def bucket (es : List (κ × ι)) (b : β) : List ι := (es.filter fun e => hash e.1 = b).map Prod.snd

def drop (es : List (κ × ι)) (x : ι) : List (κ × ι) := es.filter fun e => e.2 ≠ x

variable {hash} {es : List (κ × ι)} {k : κ} {x : ι} {b : β}

omit [DecidableEq ι] in
theorem mem_bucket : x ∈ bucket hash es b ↔ ∃ k, (k, x) ∈ es ∧ hash k = b := by
  simp only [bucket, List.mem_map, List.mem_filter, decide_eq_true_eq, Prod.exists]
  constructor
  · rintro ⟨k, y, ⟨mem, here⟩, rfl⟩
    exact ⟨k, mem, here⟩
  · rintro ⟨k, mem, here⟩
    exact ⟨k, x, ⟨mem, here⟩, rfl⟩

omit [DecidableEq ι] in
theorem bucket_cons (k : κ) (x : ι) (es : List (κ × ι)) : bucket hash ((k, x) :: es) =
    Function.update (bucket hash es) (hash k) (x :: bucket hash es (hash k)) := by
  funext b
  by_cases here : b = hash k
  · rw [here, Function.update_self, bucket, List.filter_cons_of_pos (by simp)]
    rfl
  · rw [Function.update_of_ne here, bucket, List.filter_cons_of_neg (by simp [Ne.symm here])]
    rfl

theorem mem_drop {e : κ × ι} : e ∈ drop es x ↔ e ∈ es ∧ e.2 ≠ x := by
  rw [drop, List.mem_filter, decide_eq_true_eq]

theorem drop_once (once : (es.map Prod.snd).Nodup) (x : ι) :
    ((drop es x).map Prod.snd).Nodup :=
  once.sublist (List.filter_sublist.map Prod.snd)

omit [DecidableEq β] [DecidableEq ι] in
theorem entry_unique (once : (es.map Prod.snd).Nodup) {k' : κ} (mem : (k, x) ∈ es)
    (mem' : (k', x) ∈ es) : k' = k := by
  induction es with
  | nil => cases mem
  | cons e es ih =>
    obtain ⟨fresh, once⟩ := List.nodup_cons.mp once
    rcases List.mem_cons.mp mem with rfl | mem <;> rcases List.mem_cons.mp mem' with here | mem'
    · exact congrArg Prod.fst here
    · exact absurd (List.mem_map_of_mem mem') fresh
    · have again : x ∈ es.map Prod.snd := List.mem_map_of_mem mem
      exact absurd (congrArg Prod.snd here ▸ again) fresh
    · exact ih once mem mem'

/-- To drop a value is to take it out of the bucket that its key belongs to. -/
theorem bucket_drop (once : (es.map Prod.snd).Nodup) (mem : (k, x) ∈ es) : bucket hash (drop es x) =
    Function.update (bucket hash es) (hash k) ((bucket hash es (hash k)).erase x) := by
  have sub : ∀ b, bucket hash (drop es x) b = (bucket hash es b).filter (· ≠ x) := fun b => by
    rw [bucket, bucket, drop, List.filter_map, List.filter_filter, List.filter_filter]
    exact congrArg _ (List.filter_congr fun e _ => Bool.and_comm _ _)
  have nodup : ∀ b, (bucket hash es b).Nodup := fun b =>
    once.sublist (List.filter_sublist.map Prod.snd)
  funext b
  by_cases here : b = hash k
  · rw [here, Function.update_self, sub, (nodup _).erase_eq_filter]
    exact List.filter_congr fun y _ => decide_not.trans (by rw [bne, beq_eq_decide])
  · rw [Function.update_of_ne here, sub, List.filter_eq_self]
    intro y other
    obtain ⟨k', mem', away⟩ := mem_bucket.mp other
    have ne : y ≠ x := by
      rintro rfl
      exact here (away.symm.trans (congrArg hash (entry_unique once mem mem')))
    exact decide_eq_true ne

omit [DecidableEq ι] in
theorem find_bucket [DecidableEq κ] {key : ι → κ} (own : ∀ e ∈ es, key e.2 = e.1) (k : κ) :
    (bucket hash es (hash k)).find? (fun x => key x = k) = es.lookup k := by
  induction es with
  | nil => rfl
  | cons e es ih =>
    obtain ⟨k', x⟩ := e
    have rest := ih fun e mem => own e (List.mem_cons_of_mem _ mem)
    have its : key x = k' := own (k', x) List.mem_cons_self
    rw [bucket_cons, List.lookup_cons]
    by_cases same : k = k'
    · cases same
      rw [Function.update_self, List.find?_cons_of_pos (by simp [its]), beq_self_eq_true]
    · rw [beq_eq_false_iff_ne.mpr same]
      have away : ¬ key x = k := fun equal => same (equal.symm.trans its)
      by_cases here : hash k = hash k'
      · rw [here, Function.update_self, List.find?_cons_of_neg (by simp [away]), ← here]
        exact rest
      · rw [Function.update_of_ne here]
        exact rest

end Buckets
