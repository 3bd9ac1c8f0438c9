import Bayonne.Base.Run

/-! Two levels of one design: a system whose steps may be refused, and a simple one that gives the
same replies to the same requests. -/
namespace Refine

universe u v w x y
variable {σ : Type u} {α : Type v} {τ : Type w} {β : Type x} {ω : Type y}

/-- What is to be seen of each action of a run in the state before it. -/
def observe {γ : Type y} (f : σ → α → Option σ) (look : σ → α → γ) : σ → List α → List γ
  | _, [] => []
  | s, a :: as => look s a :: (f s a).elim [] (observe f look · as)

def answers (g : τ → β → τ) (reply : τ → β → ω) : τ → List β → List ω
  | _, [] => []
  | t, b :: bs => reply t b :: answers g reply (g t b) bs

/-- Related states go to related states, with the reply that the simple system gives to what the
action asks for. -/
def Simulates (f : σ → α → Option σ) (reply : σ → α → ω) (g : τ → β → τ) (reply' : τ → β → ω)
    (ask : σ → α → β) (ok : σ → α → Prop) (R : σ → τ → Prop) : Prop :=
  ∀ s t a s', R s t → ok s a → f s a = some s' →
    R s' (g t (ask s a)) ∧ reply s a = reply' t (ask s a)

variable {f : σ → α → Option σ} {reply : σ → α → ω} {g : τ → β → τ} {reply' : τ → β → ω}
  {ask : σ → α → β} {ok : σ → α → Prop} {R : σ → τ → Prop}

theorem Simulates.run (h : Simulates f reply g reply' ask ok R) {as : List α} {s u : σ} {t : τ}
    (start : R s t) (along : Run.Along f ok s as) (run : Run.exec f s as = some u) :
    R u ((observe f ask s as).foldl g t) ∧
      observe f reply s as = answers g reply' t (observe f ask s as) := by
  induction as generalizing s t with
  | nil =>
    cases run
    exact ⟨start, rfl⟩
  | cons a as ih =>
    obtain ⟨s', moved, run⟩ := Run.exec_cons.mp run
    obtain ⟨next, same⟩ := h s t a s' start along.1 moved
    obtain ⟨last, replies⟩ := ih next (along.2 s' moved) run
    simp only [observe, moved, Option.elim_some, List.foldl_cons, answers]
    exact ⟨last, congrArg₂ List.cons same replies⟩

end Refine
