import Mathlib.Data.List.Induction

/-! One pass over a list that keeps a leader and gives it up for every member that beats it.
`beats` is any relation, so that the leader at the end may have beaten a better one. -/
namespace Bayonne.Leader

variable {α : Type*} (beats : α → α → Bool)

def pick (node : Option α) (np : α) : Option α :=
  match node with
  | none => some np
  | some n => if beats np n then some np else some n

def leader (l : List α) : Option α := l.foldl (pick beats) none

variable {beats} {l : List α}

theorem leader_concat (l : List α) (x : α) :
    leader beats (l ++ [x]) = pick beats (leader beats l) x := by
  rw [leader, List.foldl_append]
  rfl

theorem pick_some (node : Option α) (np : α) : ∃ n, pick beats node np = some n ∧
    (n = np ∨ node = some n) := by
  cases node with
  | none => exact ⟨np, rfl, .inl rfl⟩
  | some n =>
    by_cases wins : beats np n = true
    · exact ⟨np, if_pos wins, .inl rfl⟩
    · exact ⟨n, if_neg wins, .inr rfl⟩

theorem leader_mem {a : α} (h : leader beats l = some a) : a ∈ l := by
  induction l using List.reverseRecOn generalizing a with
  | nil => cases h
  | append_singleton l x ih =>
    obtain ⟨n, picked, old⟩ := @pick_some _ beats (leader beats l) x
    rw [leader_concat, picked] at h
    cases h
    rcases old with rfl | old
    · simp
    · exact List.mem_append_left _ (ih old)

theorem leader_eq_none : leader beats l = none ↔ l = [] := by
  cases l using List.reverseRecOn with
  | nil => simp [leader]
  | append_singleton l x =>
    obtain ⟨n, picked, -⟩ := @pick_some _ beats (leader beats l) x
    rw [leader_concat, picked]
    simp

theorem leader_map {β : Type*} (f : β → α) (l : List β) :
    (leader (fun x y => beats (f x) (f y)) l).map f = leader beats (l.map f) := by
  induction l using List.reverseRecOn with
  | nil => rfl
  | append_singleton l x ih =>
    rw [List.map_append, List.map_singleton, leader_concat, leader_concat, ← ih]
    cases leader (fun x y => beats (f x) (f y)) l with
    | none => rfl
    | some n =>
      simp only [Option.map_some, pick]
      split_ifs <;> rfl

section Top
variable {Top : α → Prop}

/-- If the top members beat all others and are beaten by the same ones, one of them leads at
the end just when nothing that comes after one of them beats it. -/
theorem leader_top (win : ∀ a ∈ l, ∀ b ∈ l, Top a → ¬ Top b → beats a b = true)
    (alike : ∀ a b s, Top a → Top b → beats s a = beats s b) :
    (∃ a, leader beats l = some a ∧ Top a) ↔
      ∃ pre b post, l = pre ++ b :: post ∧ Top b ∧ ∀ s ∈ post, ¬ Top s → beats s b = false := by
  induction l using List.reverseRecOn with
  | nil => simp [leader]
  | append_singleton l x ih =>
    have ih := ih fun a ha b hb =>
      win a (List.mem_append_left _ ha) b (List.mem_append_left _ hb)
    rw [leader_concat]
    by_cases top : Top x
    · constructor
      · intro _
        exact ⟨l, x, [], rfl, top, by simp⟩
      · intro _
        obtain ⟨n, picked, old⟩ := @pick_some _ beats (leader beats l) x
        refine ⟨n, picked, ?_⟩
        rcases old with rfl | old
        · exact top
        · by_contra low
          have wins := win x (by simp) n (List.mem_append_left _ (leader_mem old)) top low
          rw [old, pick, if_pos wins] at picked
          cases picked
          exact low top
    · constructor
      · rintro ⟨a, picked, ha⟩
        cases led : leader beats l with
        | none =>
          rw [led] at picked
          cases picked
          exact absurd ha top
        | some n =>
          rw [led, pick] at picked
          have kept : beats x n = false ∧ n = a := by
            by_cases wins : beats x n = true
            · rw [if_pos wins] at picked
              cases picked
              exact absurd ha top
            · rw [if_neg wins] at picked
              cases picked
              exact ⟨by simpa using wins, rfl⟩
          obtain ⟨lost, rfl⟩ := kept
          obtain ⟨pre, b, post, rfl, hb, later⟩ := ih.mp ⟨n, led, ha⟩
          refine ⟨pre, b, post ++ [x], by simp, hb, ?_⟩
          intro s hs low
          rcases List.mem_append.mp hs with old | new
          · exact later s old low
          · rw [List.mem_singleton.mp new, alike b n x hb ha]
            exact lost
      · rintro ⟨pre, b, post, split, hb, later⟩
        cases post using List.reverseRecOn with
        | nil =>
          obtain ⟨-, rfl⟩ := List.append_singleton_inj.mp split
          exact absurd hb top
        | append_singleton front y =>
          obtain ⟨rfl, rfl⟩ : l = pre ++ b :: front ∧ x = y := by
            have regroup : pre ++ b :: (front ++ [y]) = (pre ++ b :: front) ++ [y] := by simp
            exact List.append_singleton_inj.mp (split.trans regroup)
          obtain ⟨a, led, ha⟩ := ih.mpr ⟨pre, b, front, rfl, hb,
            fun s hs low => later s (List.mem_append_left _ hs) low⟩
          have lost := later x (by simp) top
          rw [alike b a x hb ha] at lost
          refine ⟨a, ?_, ha⟩
          rw [led, pick, lost]
          rfl

end Top

end Bayonne.Leader
