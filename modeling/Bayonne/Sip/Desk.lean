import Mathlib.Data.List.Nodup
import Mathlib.Logic.Function.Basic

/-! The purpose of the responses, without the driver: a desk of slots, each of which may
owe a final response to a request or keep one that has been answered. A request is answered
once as long as no slot answers what it only keeps. -/
namespace Bayonne

/-- What a slot holds of an incoming request. -/
inductive Debt where
  | none
  | owed (tid : Int)
  | answered (tid : Int)
  deriving DecidableEq

/-- `finals` are the transactions of the final responses, in the order they went out. -/
structure Desk (n : Nat) where
  debt : Fin n → Debt
  requests : List Int
  finals : List Int

namespace Desk
variable {n : Nat}

def settle (d : Desk n) (i : Fin n) (debt : Debt) : Desk n :=
  { d with debt := Function.update d.debt i debt }

def receive (d : Desk n) (tid : Int) : Desk n := { d with requests := d.requests ++ [tid] }

def answer (d : Desk n) (tid : Int) : Desk n := { d with finals := d.finals ++ [tid] }

def Less (d : Desk n) (i : Fin n) (debt : Debt) : Prop := debt = .none ∨ debt = d.debt i

inductive Fine (d : Desk n) : Desk n → Prop where
  | quiet : Fine d d
  | less (i : Fin n) (debt : Debt) : d.Less i debt → Fine d (d.settle i debt)
  | decline (i : Fin n) (tid : Int) : d.debt i = .owed tid →
      Fine d ((d.settle i .none).answer tid)
  | ignore (tid : Int) : tid ∉ d.requests → Fine d (d.receive tid)
  | reply (tid : Int) : tid ∉ d.requests → Fine d ((d.receive tid).answer tid)
  | drop (i : Fin n) (tid : Int) : tid ∉ d.requests → Fine d ((d.receive tid).settle i .none)
  | replyLess (i : Fin n) (debt : Debt) (tid : Int) : tid ∉ d.requests → d.Less i debt →
      Fine d (((d.receive tid).settle i debt).answer tid)
  | refuse (i : Fin n) (tid : Int) : tid ∉ d.requests →
      Fine d (((d.receive tid).settle i (.answered tid)).answer tid)
  | accept (i : Fin n) (tid : Int) : tid ∉ d.requests →
      Fine d ((d.receive tid).settle i (.owed tid))

inductive Wrong (d : Desk n) : Desk n → Prop where
  | again (i : Fin n) (tid : Int) : d.debt i = .answered tid →
      Wrong d ((d.settle i .none).answer tid)
  | twice (tid : Int) : Wrong d (((d.receive tid).answer tid).answer tid)

/-- A debt is to one slot and to an unanswered request, and what is kept was answered. -/
structure Fair (d : Desk n) : Prop where
  owed : ∀ {i tid}, d.debt i = .owed tid → tid ∈ d.requests ∧ tid ∉ d.finals
  alone : ∀ {i j tid}, d.debt i = .owed tid → d.debt j = .owed tid → i = j
  kept : ∀ {i tid}, d.debt i = .answered tid → tid ∈ d.finals
  known : ∀ {tid}, tid ∈ d.finals → tid ∈ d.requests
  once : d.finals.Nodup

variable {d e : Desk n}

theorem Fair.receive (h : d.Fair) (tid : Int) : (d.receive tid).Fair where
  owed := fun debt => ⟨List.mem_append_left _ (h.owed debt).1, (h.owed debt).2⟩
  alone := h.alone
  kept := h.kept
  known := fun sent => List.mem_append_left _ (h.known sent)
  once := h.once

theorem Fair.settle (h : d.Fair) {i : Fin n} {debt : Debt}
    (owed : ∀ tid, debt = .owed tid →
      tid ∈ d.requests ∧ tid ∉ d.finals ∧ ∀ j, d.debt j = .owed tid → j = i)
    (kept : ∀ tid, debt = .answered tid → tid ∈ d.finals) : (d.settle i debt).Fair := by
  have here : (d.settle i debt).debt i = debt := Function.update_self ..
  have away : ∀ {j}, j ≠ i → (d.settle i debt).debt j = d.debt j := fun hj =>
    Function.update_of_ne hj ..
  refine ⟨fun {j tid} hj => ?_, fun {j k tid} hj hk => ?_, fun {j tid} hj => ?_, h.known, h.once⟩
  · by_cases ji : j = i
    · subst ji
      rw [here] at hj
      exact ⟨(owed tid hj).1, (owed tid hj).2.1⟩
    · rw [away ji] at hj
      exact h.owed hj
  · by_cases ji : j = i <;> by_cases ki : k = i
    · rw [ji, ki]
    · subst ji
      rw [here] at hj
      rw [away ki] at hk
      exact ((owed tid hj).2.2 k hk).symm
    · subst ki
      rw [here] at hk
      rw [away ji] at hj
      exact (owed tid hk).2.2 j hj
    · rw [away ji] at hj
      rw [away ki] at hk
      exact h.alone hj hk
  · by_cases ji : j = i
    · subst ji
      rw [here] at hj
      exact kept tid hj
    · rw [away ji] at hj
      exact h.kept hj

theorem Fair.less (h : d.Fair) {i : Fin n} {debt : Debt} (less : d.Less i debt) :
    (d.settle i debt).Fair := by
  refine h.settle (fun tid owed => ?_) fun tid kept => ?_
  · rcases less with none | same
    · rw [none] at owed
      cases owed
    · rw [same] at owed
      exact ⟨(h.owed owed).1, (h.owed owed).2, fun j hj => h.alone hj owed⟩
  · rcases less with none | same
    · rw [none] at kept
      cases kept
    · rw [same] at kept
      exact h.kept kept

theorem Fair.answer (h : d.Fair) {tid : Int} (known : tid ∈ d.requests) (fresh : tid ∉ d.finals)
    (free : ∀ i, d.debt i ≠ .owed tid) : (d.answer tid).Fair where
  owed := fun {i other} debt => by
    refine ⟨(h.owed debt).1, fun sent => ?_⟩
    rcases List.mem_append.mp sent with old | new
    · exact (h.owed debt).2 old
    · rw [List.mem_singleton.mp new] at debt
      exact free i debt
  alone := h.alone
  kept := fun kept => List.mem_append_left _ (h.kept kept)
  known := fun sent => by
    rcases List.mem_append.mp sent with old | new
    · exact h.known old
    · rw [List.mem_singleton.mp new]
      exact known
  once := by
    refine List.nodup_append.mpr ⟨h.once, List.nodup_singleton _, fun a ha b hb => ?_⟩
    rw [List.mem_singleton.mp hb]
    rintro rfl
    exact fresh ha

theorem Fair.unseen (h : d.Fair) {tid : Int} (fresh : tid ∉ d.requests) :
    tid ∉ d.finals ∧ ∀ i, d.debt i ≠ .owed tid :=
  ⟨fun sent => fresh (h.known sent), fun _ owed => fresh (h.owed owed).1⟩

theorem Fair.reply (h : d.Fair) {tid : Int} (fresh : tid ∉ d.requests) :
    ((d.receive tid).answer tid).Fair := by
  obtain ⟨unsent, free⟩ := h.unseen fresh
  exact (h.receive tid).answer (List.mem_append_right _ List.mem_cons_self) unsent free

theorem settle_answer (d : Desk n) (i : Fin n) (debt : Debt) (tid : Int) :
    (d.settle i debt).answer tid = (d.answer tid).settle i debt := rfl

theorem Fair.fine (h : d.Fair) (step : d.Fine e) : e.Fair := by
  cases step with
  | quiet => exact h
  | less i debt less => exact h.less less
  | decline i tid debt =>
    obtain ⟨known, unsent⟩ := h.owed debt
    have free : ∀ j, (d.settle i .none).debt j ≠ .owed tid := by
      intro j hj
      by_cases ji : j = i
      · subst ji
        simp [Desk.settle] at hj
      · simp only [Desk.settle, Function.update_of_ne ji] at hj
        exact ji (h.alone hj debt)
    exact (h.less (.inl rfl)).answer known unsent free
  | ignore tid fresh => exact h.receive tid
  | reply tid fresh => exact h.reply fresh
  | drop i tid fresh => exact (h.receive tid).less (.inl rfl)
  | replyLess i debt tid fresh less =>
    rw [settle_answer]
    exact (h.reply fresh).less less
  | refuse i tid fresh =>
    rw [settle_answer]
    refine (h.reply fresh).settle (fun _ owed => by cases owed) fun other kept => ?_
    cases kept
    exact List.mem_append_right _ List.mem_cons_self
  | accept i tid fresh =>
    obtain ⟨unsent, free⟩ := h.unseen fresh
    refine (h.receive tid).settle (fun other owed => ?_) fun _ kept => by cases kept
    cases owed
    exact ⟨List.mem_append_right _ List.mem_cons_self, unsent, fun j hj => absurd hj (free j)⟩

theorem Fair.wrong (h : d.Fair) (step : d.Wrong e) : ¬ e.finals.Nodup := by
  intro once
  cases step with
  | again i tid debt =>
    have apart := (List.nodup_append.mp once).2.2 tid (h.kept debt) tid List.mem_cons_self
    exact apart rfl
  | twice tid =>
    have before : tid ∈ ((d.receive tid).answer tid).finals :=
      List.mem_append_right _ List.mem_cons_self
    exact (List.nodup_append.mp once).2.2 tid before tid List.mem_cons_self rfl

end Desk

end Bayonne
