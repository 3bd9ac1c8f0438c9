import Mathlib.Data.Option.Basic
import Mathlib.Data.List.Basic

/-! Runs of a step function that may refuse an action. A sequential program and an
interleaving of threads are both such a function: the action says who moves. -/
namespace Run

universe u v
variable {σ : Type u} {α : Type v} (f : σ → α → Option σ)

/-- The state after the actions, if none of them is refused. -/
def exec : σ → List α → Option σ
  | s, [] => some s
  | s, a :: as => (f s a).bind (exec · as)

/-- Each action of the run meets a condition on the state before it. -/
def Along (ok : σ → α → Prop) : σ → List α → Prop
  | _, [] => True
  | s, a :: as => ok s a ∧ ∀ t, f s a = some t → Along ok t as

def Always (P : σ → Prop) : σ → List α → Prop
  | s, [] => P s
  | s, a :: as => P s ∧ ∀ t, f s a = some t → Always P t as

def Safe (P : σ → Prop) : σ → List α → Prop
  | s, [] => P s
  | s, a :: as => P s ∧ ∃ t, f s a = some t ∧ Safe P t as

variable {f}

instance Along.decidable {ok : σ → α → Prop} [∀ s a, Decidable (ok s a)] :
    ∀ (as : List α) (s : σ), Decidable (Along f ok s as)
  | [], _ => isTrue trivial
  | a :: as, s =>
    have : ∀ t, Decidable (Along f ok t as) := Along.decidable as
    inferInstanceAs (Decidable (ok s a ∧ ∀ t ∈ f s a, Along f ok t as))

@[simp] theorem exec_nil (s : σ) : exec f s [] = some s := rfl

theorem exec_cons {s u : σ} {a : α} {as : List α} :
    exec f s (a :: as) = some u ↔ ∃ t, f s a = some t ∧ exec f t as = some u :=
  Option.bind_eq_some_iff

theorem exec_append (s : σ) (as bs : List α) :
    exec f s (as ++ bs) = (exec f s as).bind (exec f · bs) := by
  induction as generalizing s with
  | nil => rfl
  | cons a as ih =>
    simp only [List.cons_append, exec, ih, Option.bind_assoc]

/-- The run rule: what each admissible step preserves holds at the end. -/
theorem preserved {ok : σ → α → Prop} {I : σ → Prop}
    (step : ∀ s a t, I s → ok s a → f s a = some t → I t)
    {as : List α} {s u : σ} (start : I s) (along : Along f ok s as)
    (run : exec f s as = some u) : I u := by
  induction as generalizing s with
  | nil => cases run; exact start
  | cons a as ih =>
    obtain ⟨t, ht, run⟩ := exec_cons.mp run
    exact ih (step s a t start along.1 ht) (along.2 t ht) run

theorem invariant {I : σ → Prop} (step : ∀ s a t, I s → f s a = some t → I t)
    {as : List α} {s u : σ} (start : I s) (run : exec f s as = some u) : I u := by
  induction as generalizing s with
  | nil => cases run; exact start
  | cons a as ih =>
    obtain ⟨t, ht, run⟩ := exec_cons.mp run
    exact ih (step s a t start ht) run

theorem Along.mono {ok ok' : σ → α → Prop} (imp : ∀ s a, ok s a → ok' s a) :
    ∀ {as : List α} {s : σ}, Along f ok s as → Along f ok' s as
  | [], _, _ => trivial
  | _ :: _, _, h => ⟨imp _ _ h.1, fun t ht => (h.2 t ht).mono imp⟩

theorem Along.of_all {ok : α → Prop} :
    ∀ {as : List α} {s : σ}, (∀ a ∈ as, ok a) → Along f (fun _ a => ok a) s as
  | [], _, _ => trivial
  | a :: _, _, all =>
    ⟨all a List.mem_cons_self, fun _ _ => of_all fun b hb => all b (List.mem_cons_of_mem a hb)⟩

theorem Along.and {ok ok' : σ → α → Prop} :
    ∀ {as : List α} {s : σ}, Along f ok s as → Along f ok' s as →
      Along f (fun s a => ok s a ∧ ok' s a) s as
  | [], _, _, _ => trivial
  | _ :: _, _, h, h' => ⟨⟨h.1, h'.1⟩, fun t ht => (h.2 t ht).and (h'.2 t ht)⟩

theorem preserved_of_all {ok : α → Prop} {I : σ → Prop}
    (step : ∀ s a t, I s → ok a → f s a = some t → I t)
    {as : List α} {s u : σ} (start : I s) (all : ∀ a ∈ as, ok a)
    (run : exec f s as = some u) : I u :=
  preserved step start (.of_all all) run

theorem Along.strengthen {ok ok' : σ → α → Prop} {I : σ → Prop}
    (step : ∀ s a t, I s → ok s a → f s a = some t → I t)
    (imp : ∀ s a, I s → ok s a → ok' s a) :
    ∀ {as : List α} {s : σ}, I s → Along f ok s as → Along f ok' s as
  | [], _, _, _ => trivial
  | _ :: _, _, start, h =>
    ⟨imp _ _ start h.1,
      fun t ht => (h.2 t ht).strengthen step imp (step _ _ t start h.1 ht)⟩

theorem along_iff {ok ok' : σ → α → Prop} (same : ∀ s a, ok s a ↔ ok' s a)
    (as : List α) (s : σ) : Along f ok s as ↔ Along f ok' s as :=
  ⟨Along.mono fun s a => (same s a).mp, Along.mono fun s a => (same s a).mpr⟩

theorem along_iff_of_invariant {ok ok' : σ → α → Prop} {I : σ → Prop}
    (step : ∀ s a t, I s → f s a = some t → I t) (same : ∀ s a, I s → (ok s a ↔ ok' s a)) :
    ∀ (as : List α) {s : σ}, I s → (Along f ok s as ↔ Along f ok' s as)
  | [], _, _ => Iff.rfl
  | a :: as, s, start =>
    and_congr (same s a start)
      (forall_congr' fun _ => imp_congr_right fun ht =>
        along_iff_of_invariant step same as (step _ _ _ start ht))

theorem Always.head {P : σ → Prop} : ∀ {as : List α} {s : σ}, Always f P s as → P s
  | [], _, h => h
  | _ :: _, _, h => h.1

theorem Always.of_forall {P : σ → Prop} (all : ∀ s, P s) :
    ∀ {as : List α} {s : σ}, Always f P s as
  | [], s => all s
  | _ :: _, s => ⟨all s, fun _ _ => of_forall all⟩

theorem Always.along {P : σ → Prop} : ∀ {as : List α} {s : σ}, Always f P s as →
    Along f (fun s a => ∀ t, f s a = some t → P t) s as
  | [], _, _ => trivial
  | _ :: _, _, h => ⟨fun t ht => (h.2 t ht).head, fun t ht => (h.2 t ht).along⟩

theorem Always.last {P : σ → Prop} {as : List α} {s u : σ} (h : Always f P s as)
    (run : exec f s as = some u) : P u := by
  induction as generalizing s with
  | nil => cases run; exact h
  | cons a as ih =>
    obtain ⟨t, ht, run⟩ := exec_cons.mp run
    exact ih (h.2 t ht) run

theorem Always.of_invariant {ok : σ → α → Prop} {I P : σ → Prop}
    (step : ∀ s a t, I s → ok s a → f s a = some t → I t) (imp : ∀ s, I s → P s) :
    ∀ {as : List α} {s : σ}, I s → Along f ok s as → Always f P s as
  | [], s, start, _ => imp s start
  | _ :: _, s, start, h =>
    ⟨imp s start, fun t ht => of_invariant step imp (step _ _ t start h.1 ht) (h.2 t ht)⟩

theorem Always.of_steps {I P : σ → Prop} (step : ∀ s a t, I s → f s a = some t → I t)
    (imp : ∀ s, I s → P s) : ∀ {as : List α} {s : σ}, I s → Always f P s as
  | [], s, start => imp s start
  | _ :: _, s, start =>
    ⟨imp s start, fun _ ht => of_steps step imp (step _ _ _ start ht)⟩

/-- A property that each admissible step keeps and every other step breaks holds
throughout a run exactly when all its steps are admissible. -/
theorem always_iff_along {ok : σ → α → Prop} {I P : σ → Prop}
    (step : ∀ s a t, I s → ok s a → f s a = some t → I t) (imp : ∀ s, I s → P s)
    (broken : ∀ s a t, I s → ¬ ok s a → f s a = some t → ¬ P t)
    {as : List α} {s u : σ} (start : I s) (run : exec f s as = some u) :
    Always f P s as ↔ Along f ok s as := by
  constructor
  · intro always
    induction as generalizing s with
    | nil => trivial
    | cons a as ih =>
      obtain ⟨t, ht, run⟩ := exec_cons.mp run
      have good : ok s a := by
        by_contra bad
        exact broken s a t start bad ht (always.2 t ht).head
      refine ⟨good, fun t' ht' => ?_⟩
      cases ht.symm.trans ht'
      exact ih (step s a t start good ht) run (always.2 t ht)
  · exact Always.of_invariant step imp start

theorem along_or_broken {ok : σ → α → Prop} {I J : σ → Prop}
    (step : ∀ s a t, I s → ok s a → f s a = some t → I t)
    (broken : ∀ s a t, I s → ¬ ok s a → f s a = some t → J t)
    (stays : ∀ s a t, J s → f s a = some t → J t)
    {as : List α} {s u : σ} (start : I s) (run : exec f s as = some u) :
    Along f ok s as ∧ I u ∨ J u := by
  induction as generalizing s with
  | nil => cases run; exact .inl ⟨trivial, start⟩
  | cons a as ih =>
    obtain ⟨t, ht, rest⟩ := exec_cons.mp run
    by_cases good : ok s a
    · rcases ih (step s a t start good ht) rest with ⟨along, kept⟩ | lost
      · refine .inl ⟨⟨good, fun t' ht' => ?_⟩, kept⟩
        cases ht.symm.trans ht'
        exact along
      · exact .inr lost
    · exact .inr (invariant stays (broken s a t start good ht) rest)

theorem safe_iff_along {ok : σ → α → Prop} {I P : σ → Prop} (imp : ∀ s, I s → P s)
    (step : ∀ s a, I s → ok s a → ∃ t, f s a = some t ∧ I t)
    (broken : ∀ s a t, I s → ¬ ok s a → f s a = some t → ¬ P t)
    {as : List α} {s : σ} (start : I s) : Safe f P s as ↔ Along f ok s as := by
  induction as generalizing s with
  | nil => exact ⟨fun _ => trivial, fun _ => imp s start⟩
  | cons a as ih =>
    constructor
    · rintro ⟨-, t, ht, safe⟩
      have good : ok s a := by
        by_contra bad
        refine broken s a t start bad ht ?_
        cases as with
        | nil => exact safe
        | cons b as => exact safe.1
      refine ⟨good, fun t' ht' => ?_⟩
      obtain ⟨u, hu, kept⟩ := step s a start good
      cases ht.symm.trans ht'
      cases ht.symm.trans hu
      exact (ih kept).mp safe
    · rintro ⟨good, along⟩
      obtain ⟨t, ht, kept⟩ := step s a start good
      exact ⟨imp s start, t, ht, (ih kept).mpr (along t ht)⟩

section Settled
universe w
variable {κ : Type w}

def Settles (opens closes : α → κ → Prop) : List α → Prop
  | [] => True
  | a :: as => (∀ k, opens a k → ∃ b ∈ as, closes b k) ∧ Settles opens closes as

/-- Where only actions open and every action closes what it should, nothing stays open. -/
theorem settled {ok : σ → α → Prop} {I : σ → Prop} {left : σ → κ → Prop}
    {opens closes : α → κ → Prop} (step : ∀ s a t, I s → ok s a → f s a = some t → I t)
    (kept : ∀ s a t, I s → ok s a → f s a = some t → ∀ k, left t k →
      (left s k ∨ opens a k) ∧ ¬ closes a k)
    {as : List α} {s u : σ} (start : I s) (along : Along f ok s as) (run : exec f s as = some u)
    (owed : ∀ k, left s k → ∃ a ∈ as, closes a k) (settles : Settles opens closes as) (k : κ) :
    ¬ left u k := by
  induction as generalizing s with
  | nil =>
    cases run
    intro still
    obtain ⟨a, mem, -⟩ := owed k still
    cases mem
  | cons a as ih =>
    obtain ⟨t, ht, run⟩ := exec_cons.mp run
    refine ih (step s a t start along.1 ht) (along.2 t ht) run (fun k still => ?_) settles.2
    obtain ⟨since, unclosed⟩ := kept s a t start along.1 ht k still
    rcases since with before | opened
    · obtain ⟨b, mem, closed⟩ := owed k before
      rcases List.mem_cons.mp mem with rfl | later
      · exact absurd closed unclosed
      · exact ⟨b, later, closed⟩
    · exact settles.1 k opened

end Settled

end Run
