import Bayonne.Base.Run

/-! Schedules that give everybody a turn, in a system where a party may find that it cannot move,
and ranks that show how many turns are enough. -/
namespace Fair

universe u v w
variable {σ : Type u} {α : Type v} {ι : Type w}

/-- A move that is not possible leaves the system as it is. -/
def offer (f : σ → α → Option σ) (s : σ) (a : α) : σ := (f s a).getD s

def offers (f : σ → α → Option σ) (s : σ) (as : List α) : σ := as.foldl (offer f) s

def Round (who : α → Option ι) (as : List α) : Prop := ∀ i, ∃ a ∈ as, who a = some i

/-- In every state that is not final some party helps: each move of it brings the rank down, and
it goes on helping as long as the rank stays. -/
structure Ranked (f : σ → α → Option σ) (who : α → Option ι) (I F : σ → Prop)
    (helps : σ → ι → Prop) (rank : σ → Nat) : Prop where
  keeps : ∀ s a, I s → I (offer f s a)
  final : ∀ s a, I s → F s → F (offer f s a)
  helper : ∀ s, I s → ¬ F s → ∃ i, helps s i
  down : ∀ s a i, I s → ¬ F s → helps s i → who a = some i →
    F (offer f s a) ∨ rank (offer f s a) < rank s
  stays : ∀ s a i, I s → ¬ F s → helps s i →
    F (offer f s a) ∨ rank (offer f s a) < rank s ∨
      rank (offer f s a) = rank s ∧ helps (offer f s a) i

section Offers
variable {f : σ → α → Option σ}

theorem offer_some {s t : σ} {a : α} (moved : f s a = some t) : offer f s a = t := by
  rw [offer, moved, Option.getD_some]

theorem offer_none {s : σ} {a : α} (blocked : f s a = none) : offer f s a = s := by
  rw [offer, blocked, Option.getD_none]

theorem offers_append (s : σ) (as bs : List α) :
    offers f s (as ++ bs) = offers f (offers f s as) bs := List.foldl_append

theorem offer_keeps {I : σ → Prop} (step : ∀ s a t, I s → f s a = some t → I t) {s : σ} (a : α)
    (start : I s) : I (offer f s a) := by
  cases moved : f s a with
  | none => rwa [offer_none moved]
  | some t =>
    rw [offer_some moved]
    exact step s a t start moved

theorem offers_keeps {I : σ → Prop} (step : ∀ s a, I s → I (offer f s a)) {s : σ}
    (as : List α) (start : I s) : I (offers f s as) := by
  induction as generalizing s with
  | nil => exact start
  | cons a as ih => exact ih (step s a start)

end Offers

namespace Ranked
variable {f : σ → α → Option σ} {who : α → Option ι} {I F : σ → Prop} {helps : σ → ι → Prop}
  {rank : σ → Nat} {s : σ} {as : List α}

theorem offers_final (h : Ranked f who I F helps rank) (as : List α) (start : I s)
    (final : F s) : F (offers f s as) := by
  have both : I (offers f s as) ∧ F (offers f s as) :=
    offers_keeps (I := fun s => I s ∧ F s)
      (fun s a at' => ⟨h.keeps s a at'.1, h.final s a at'.1 at'.2⟩) as ⟨start, final⟩
  exact both.2

theorem offers_le (h : Ranked f who I F helps rank) (as : List α) (start : I s) :
    F (offers f s as) ∨ rank (offers f s as) ≤ rank s := by
  induction as generalizing s with
  | nil => exact .inr (Nat.le_refl _)
  | cons a as ih =>
    by_cases final : F s
    · exact .inl (h.offers_final (a :: as) start final)
    obtain ⟨i, helps⟩ := h.helper s start final
    have next := h.keeps s a start
    rcases h.stays s a i start final helps with done | less | ⟨same, -⟩
    · exact .inl (h.offers_final as next done)
    · exact (ih next).imp_right fun le => Nat.le_trans le (Nat.le_of_lt less)
    · exact (ih next).imp_right fun le => Nat.le_trans le (Nat.le_of_eq same)

theorem turn (h : Ranked f who I F helps rank) {i : ι} (start : I s) (final : ¬ F s)
    (helping : helps s i) (turns : ∃ a ∈ as, who a = some i) :
    F (offers f s as) ∨ rank (offers f s as) < rank s := by
  induction as generalizing s with
  | nil =>
    obtain ⟨a, mem, -⟩ := turns
    cases mem
  | cons a as ih =>
    have next := h.keeps s a start
    have lower : F (offer f s a) ∨ rank (offer f s a) < rank s →
        F (offers f s (a :: as)) ∨ rank (offers f s (a :: as)) < rank s := by
      rintro (done | less)
      · exact .inl (h.offers_final as next done)
      · exact (h.offers_le as next).imp_right fun le => Nat.lt_of_le_of_lt le less
    by_cases own : who a = some i
    · exact lower (h.down s a i start final helping own)
    have later : ∃ b ∈ as, who b = some i := by
      obtain ⟨b, mem, its⟩ := turns
      rcases List.mem_cons.mp mem with rfl | mem
      · exact absurd its own
      · exact ⟨b, mem, its⟩
    rcases h.stays s a i start final helping with done | less | ⟨same, still⟩
    · exact lower (.inl done)
    · exact lower (.inr less)
    · by_cases done : F (offer f s a)
      · exact lower (.inl done)
      · exact (ih next done still later).imp_right fun less => Nat.lt_of_lt_of_eq less same

/-- As many rounds as the rank says are enough. -/
theorem reaches (h : Ranked f who I F helps rank) {rounds : List (List α)} (start : I s)
    (fair : ∀ r ∈ rounds, Round who r) (many : rank s < rounds.length) :
    F (offers f s rounds.flatten) := by
  induction rounds generalizing s with
  | nil => cases many
  | cons r rounds ih =>
    rw [List.flatten_cons, offers_append]
    have next : I (offers f s r) := offers_keeps h.keeps r start
    by_cases final : F s
    · exact h.offers_final _ next (h.offers_final r start final)
    obtain ⟨i, helping⟩ := h.helper s start final
    rcases h.turn start final helping (fair r List.mem_cons_self i) with done | less
    · exact h.offers_final _ next done
    · refine ih next (fun r mem => fair r (List.mem_cons_of_mem _ mem)) ?_
      exact Nat.lt_of_lt_of_le less (Nat.le_of_lt_succ many)

end Ranked

end Fair
