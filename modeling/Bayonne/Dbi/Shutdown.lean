import Bayonne.Dbi

/-! `dbi::stop`. The thread looks at `running` before it looks at the queue, except at the end
of its wait. -/
namespace Bayonne
namespace DbiThread
open Linked

def Action.posted : Action → List Nat
  | .post _ r _ => [r]
  | _ => []

theorem step_posted {s t : State} {a : Action} (hs : step s a = some t) (p : List Nat) :
    t.posted = s.posted ++ a.posted ∧
      step { s with posted := p } a = some { t with posted := p ++ a.posted } := by
  cases a with
  | get t' =>
    cases hs
    cases free : s.freelist <;> simp [State.get, free, step, Action.posted]
  | post t' r type =>
    simp only [step] at hs
    split at hs <;> cases hs
    rename_i holds
    cases last : s.runlast <;> by_cases stop : type = .stop <;>
      simp [State.post, last, stop, step, Action.posted, holds]
  | stop =>
    cases hs
    simp [step, Action.posted]
  | next opens =>
    simp only [Action.posted, List.append_nil]
    rw [step_next] at hs ⊢
    cases hs with
    | up pc => exact ⟨rfl, .up pc⟩
    | quit pc down => exact ⟨rfl, .quit pc down⟩
    | wait pc up empty => exact ⟨rfl, .wait pc up empty⟩
    | drain idle => exact ⟨rfl, .drain idle⟩
    | visit cp pc => exact ⟨rfl, .visit cp pc⟩
    | turn pc => exact ⟨rfl, .turn pc⟩
    | recycle cp next pc => exact ⟨rfl, .recycle cp next pc⟩

section Cut
variable {s : State} {batch run free : List Nat} {l : Nat}

def State.cut (s : State) (l : Nat) (p : List Nat) : State :=
  { s with next := Function.update s.next l none, posted := p }

theorem Inv.cut (h : Inv s batch (l :: run) free) :
    Inv (s.cut l (s.drained ++ batch ++ [l])) batch [l] free := by
  have kept : ∀ x ∈ s.kept batch [l] free, x ∈ s.kept batch (l :: run) free := by
    simp only [State.kept, List.mem_append, List.mem_cons, List.not_mem_nil]
    grind
  have sub : (s.kept batch [l] free).Sublist (s.kept batch (l :: run) free) := by
    simp only [State.kept]
    exact ((List.Sublist.refl _).append (List.Sublist.cons_cons l (List.nil_sublist run))).append
      (List.Sublist.refl free)
  have apart : ∀ x, x ∈ batch ∨ x ∈ free → x ≠ l := by
    have all := h.nodup
    simp only [State.kept, List.nodup_append, List.mem_append, List.mem_cons] at all
    grind
  obtain ⟨head, -⟩ := chain_cons.mp h.queued
  refine ⟨?_, ?_, ?_, rfl, h.last, h.nodup.sublist sub, fun r t hr => ?_, fun r hr => ?_⟩
  · exact h.taken.frame fun x hx => Function.update_of_ne (apart x (.inl hx)) _ _
  · exact chain_cons.mpr ⟨head, by simp [State.cut]⟩
  · exact h.spare.frame fun x hx => Function.update_of_ne (apart x (.inr hx)) _ _
  · obtain ⟨absent, bound⟩ := h.held r t hr
    exact ⟨fun here => absent (kept r here), bound⟩
  · exact h.made r (kept r hr)

theorem cut_post {r : Nat} (type : DbiType) (p : List Nat) (last : s.runlast = some l)
    (other : r ≠ l) :
    (s.cut l p).post r type = { s.post r type with posted := p ++ [r] } := by
  have links : Function.update (Function.update (Function.update s.next l none) r none) l (some r) =
      Function.update (Function.update s.next r none) l (some r) := by
    rw [Function.update_comm other.symm, Function.update_idem]
  by_cases stop : type = .stop <;> simp [State.post, State.cut, last, stop, links]

/-- A post that finds two records on the run list leaves the head and its own. -/
theorem Inv.post_long {t r : Nat} (h : Inv s batch (l :: run) free) (type : DbiType)
    (holds : s.holder r = some t) :
    Inv { s.post r type with posted := s.drained ++ batch ++ [l] ++ [r] } batch [l, r] free := by
  obtain ⟨head, -⟩ := chain_cons.mp h.queued
  have other : r ≠ l := by
    rintro rfl
    exact (h.held r t holds).1 (by simp [State.kept])
  have short : ∀ x, (s.cut l (s.drained ++ batch ++ [l])).runlist = some x →
      (s.cut l (s.drained ++ batch ++ [l])).next x = none := by
    intro x here
    cases head.symm.trans here
    simp [State.cut]
  have posted := h.cut.post type holds short
  rw [cut_post type _ (h.last.trans head) other] at posted
  exact posted

end Cut

/-- A history that accounts for every record the code still knows of. -/
def Accounts (s : State) (p : List Nat) : Prop := Kept { s with posted := p }

theorem Accounts.step {s t : State} {a : Action} {p : List Nat} (h : Accounts s p)
    (hs : step s a = some t) : Accounts t (p ++ a.posted) ∧ Short s a ∨
      ¬ Short s a ∧ a.posted.length = 1 ∧ ∃ q, Accounts t q ∧ q.length ≤ p.length := by
  by_cases short : Short s a
  · exact .inl ⟨step_kept h short (step_posted hs p).2, short⟩
  · refine .inr ⟨short, ?_⟩
    cases a with
    | post t' r type =>
      simp only [Short, not_forall] at short
      obtain ⟨l, head, more⟩ := short
      obtain ⟨batch, run, free, inv⟩ := h
      have queued : Chain s.next s.runlist run := inv.queued
      have same := step_posted hs p
      simp only [DbiThread.step] at hs same
      split at hs <;> cases hs
      rename_i holds
      rw [if_pos holds, Option.some.injEq] at same
      rw [head] at queued
      cases run with
      | nil => cases queued
      | cons x run =>
        obtain ⟨here, rest⟩ := chain_cons.mp queued
        cases here
        cases run with
        | nil => exact absurd (chain_nil.mp rest) more
        | cons m run =>
          have posted := inv.post_long type holds
          rw [same.2] at posted
          refine ⟨rfl, _, ⟨_, _, _, posted⟩, ?_⟩
          have order : s.drained ++ batch ++ l :: m :: run = p := inv.order
          rw [← order]
          simp
    | _ => exact absurd trivial short

def Losing (s : State) : Prop := ∃ p, Accounts s p ∧ p.length < s.posted.length

theorem kept_losing {s t : State} {a : Action} (h : Kept s) (long : ¬ Short s a)
    (hs : step s a = some t) : Losing t := by
  have posted := (step_posted hs []).1
  have h : Accounts s s.posted := h
  rcases h.step hs with ⟨-, short⟩ | ⟨-, one, q, kept, le⟩
  · exact absurd short long
  · refine ⟨q, kept, ?_⟩
    rw [posted, List.length_append, one]
    exact Nat.lt_succ_of_le le

theorem Losing.step {s t : State} {a : Action} (h : Losing s) (hs : step s a = some t) :
    Losing t := by
  obtain ⟨p, kept, lt⟩ := h
  have posted := (step_posted hs []).1
  rcases kept.step hs with ⟨kept, -⟩ | ⟨-, -, q, kept, le⟩
  · refine ⟨_, kept, ?_⟩
    rw [posted, List.length_append, List.length_append]
    omega
  · refine ⟨q, kept, ?_⟩
    rw [posted, List.length_append]
    omega

/-- Every record posted was taken off the queue and processed. -/
structure Emptied (s : State) : Prop where
  runlist : s.runlist = none
  processed : s.posted.Perm s.drained

theorem Losing.not_emptied {s : State} (h : Losing s) : ¬ Emptied s := by
  rintro ⟨runlist, processed⟩
  obtain ⟨p, ⟨batch, run, free, inv⟩, lt⟩ := h
  have order : s.drained ++ batch ++ run = p := inv.order
  have length := congrArg List.length order
  rw [processed.length_eq, ← length] at lt
  simp only [List.length_append] at lt
  omega

theorem Kept.emptied {s : State} (h : Kept s) (gone : s.pc = .stopped) (runlist : s.runlist = none) :
    Emptied s := by
  obtain ⟨batch, run, free, inv⟩ := h
  have taken := inv.taken
  have queued := inv.queued
  rw [gone] at taken
  rw [runlist] at queued
  cases taken
  cases queued
  have order := inv.order
  rw [List.append_nil, List.append_nil] at order
  exact ⟨runlist, order ▸ List.Perm.refl _⟩

/-- After the stop: the thread has still to come out of its wait, and takes the queue then, or
it never looks at the queue again. -/
def Ending (m s : State) : Prop :=
  s.running = false ∧ s.pc ≠ .starting ∧
    (s.pc = .waiting ∧ m.pc = .waiting ∨
      s.pc ≠ .waiting ∧ (s.runlist = none ↔ m.pc = .waiting ∨ m.runlist = none))

theorem stop_ending {m : State} (started : m.pc ≠ .starting) :
    Ending m { m with running := false } := by
  by_cases waiting : m.pc = .waiting
  · exact ⟨rfl, started, .inl ⟨waiting, waiting⟩⟩
  · exact ⟨rfl, started, .inr ⟨waiting, by simp [waiting]⟩⟩

theorem Ending.step {m s t : State} {a : Action} (h : Ending m s) (silent : a.posted = [])
    (hs : step s a = some t) : Ending m t := by
  obtain ⟨running, started, ending⟩ := h
  cases a with
  | get t' =>
    cases hs
    cases free : s.freelist <;> simpa [Ending, State.get, free] using ⟨running, started, ending⟩
  | post t' r type => cases silent
  | stop => cases hs; exact ⟨rfl, started, ending⟩
  | next opens =>
    cases step_next.mp hs with
    | up pc => exact absurd pc started
    | wait _ up => exact absurd (running.symm.trans up) Bool.false_ne_true
    | quit pc => simpa [Ending, pc, running] using ending
    | drain idle =>
      rcases idle with pc | ⟨_, up, _⟩
      · have waiting : m.pc = .waiting := by
          rcases ending with ⟨-, waiting⟩ | ⟨other, -⟩
          · exact waiting
          · exact absurd pc other
        simp [Ending, State.drain, running, waiting]
      · exact absurd (running.symm.trans up) Bool.false_ne_true
    | visit cp pc => simpa [Ending, State.visit, pc, running] using ending
    | turn pc => simpa [Ending, State.turn, pc, running] using ending
    | recycle cp next pc => simpa [Ending, State.recycle, pc, running] using ending

/-- A run in which `dbi::stop` comes after the last post, while the thread is up, and in which
the thread returns. -/
structure Stopping (pre post : List Action) (m s : State) : Prop where
  before : Run.exec step start pre = some m
  started : m.pc ≠ .starting
  after : Run.exec step m (.stop :: post) = some s
  last : ∀ a ∈ post, a.posted = []
  gone : s.pc = .stopped

variable {pre post : List Action} {m s : State}

theorem Stopping.runlist_iff (h : Stopping pre post m s) :
    s.runlist = none ↔ m.pc = .waiting ∨ m.runlist = none := by
  obtain ⟨t, stopped, rest⟩ := Run.exec_cons.mp h.after
  cases stopped
  have ending := Run.preserved_of_all (fun _ _ _ e silent hs => Ending.step e silent hs)
    (stop_ending h.started) h.last rest
  rcases ending.2.2 with ⟨waiting, -⟩ | ⟨-, same⟩
  · rw [h.gone] at waiting
    cases waiting
  · exact same

theorem Stopping.kept (h : Stopping pre post m s) (along : Run.Along step Short start pre) :
    Kept s := by
  have kept : Kept m :=
    Run.preserved (fun _ _ _ => step_kept) ⟨[], [], [], start_inv⟩ along h.before
  obtain ⟨t, stopped, rest⟩ := Run.exec_cons.mp h.after
  have quiet : ∀ s a, a.posted = [] → Short s a := by
    intro s a silent
    cases a with
    | post t' r type => cases silent
    | _ => trivial
  exact Run.preserved_of_all (fun s a _ kept silent hs => step_kept kept (quiet s a silent) hs)
    (step_kept kept (quiet m .stop rfl) stopped) h.last rest

theorem Stopping.along_or_losing (h : Stopping pre post m s) :
    Run.Along step Short start pre ∨ Losing s := by
  rcases Run.along_or_broken (fun _ _ _ => step_kept) (fun _ _ _ => kept_losing)
      (fun _ _ _ => Losing.step) ⟨[], [], [], start_inv⟩ h.before with ⟨along, -⟩ | lost
  · exact .inl along
  · exact .inr (Run.invariant (fun _ _ _ => Losing.step) lost h.after)

/-- The thread leaves nothing on the queue exactly if the stop found it in its wait, or the
queue empty, and no post had unlinked a record. -/
theorem emptied_iff (h : Stopping pre post m s) :
    Emptied s ↔ (m.pc = .waiting ∨ m.runlist = none) ∧ Run.Along step Short start pre := by
  constructor
  · intro emptied
    refine ⟨h.runlist_iff.mp emptied.runlist, ?_⟩
    rcases h.along_or_losing with along | lost
    · exact along
    · exact absurd emptied lost.not_emptied
  · rintro ⟨idle, along⟩
    exact (h.kept along).emptied h.gone (h.runlist_iff.mpr idle)

theorem emptied_iff_wait : ∃ m s : State, s.posted = [0] ∧
    (Emptied s ↔ (m.pc = .waiting ∨ m.runlist = none) ∧
      Run.Along step Short start [.next true, .next true, .get 0, .post 0 0 .stop]) :=
  ⟨_, _, rfl, @emptied_iff [.next true, .next true, .get 0, .post 0 0 .stop]
    (List.replicate 5 (.next true)) _ _ ⟨rfl, by decide, rfl, by simp [Action.posted], rfl⟩⟩

/-- A call is released while the thread works through a batch, and the thread is stopped before
it is done. -/
theorem not_emptied : ¬ ∀ pre post m s, Stopping pre post m s → Emptied s := by
  intro whole
  have emptied := whole
    [.next true, .get 0, .post 0 0 .start, .next true, .get 0, .post 0 1 .stop]
    (List.replicate 4 (.next true)) _ _ ⟨rfl, by decide, rfl, by simp [Action.posted], rfl⟩
  exact absurd emptied.runlist (by decide)

end DbiThread
end Bayonne
