import Bayonne.Base.Run
import Bayonne.Timeslot

/-! Who unlocks the mutex of a timeslot. `post` and `expire` unlock it unless the event
comes back as RELEASE, which is how a handler says that it has unlocked the mutex. -/
namespace Bayonne.Pool
variable {n : Nat} {server : Server}

section Frame
variable (p : Pool n) (i : Fin n)

@[simp] theorem mutexes_modify (f : Timeslot → Timeslot) :
    (p.modify i f).mutexes = p.mutexes := rfl

@[simp] theorem mutexes_lock : (p.lock i).mutexes = p.mutexes ++ [(i, .lock)] := rfl

@[simp] theorem mutexes_unlock : (p.unlock i).mutexes = p.mutexes ++ [(i, .unlock)] := rfl

@[simp] theorem mutexes_enlist (r : Root) : (p.enlist r i).mutexes = p.mutexes := rfl

@[simp] theorem mutexes_delist (r : Root) : (p.delist r i).mutexes = p.mutexes := rfl

@[simp] theorem mutexes_unlist : (p.unlist i).mutexes = p.mutexes := by
  unfold unlist
  split <;> rfl

@[simp] theorem mutexes_postRecord (rec : Dbi) : (p.postRecord i rec).mutexes = p.mutexes := rfl

@[simp] theorem mutexes_assignNode (node : Option Nat) (stat : Stat) :
    (p.assignNode node stat).mutexes = p.mutexes := rfl

@[simp] theorem mutexes_releaseNode (node : Option Nat) (stat : Stat) (now : Time) :
    (p.releaseNode node stat now).mutexes = p.mutexes := rfl

@[simp] theorem mutexes_allocate (cid : Nat) (stat : Stat) (reg : Option Nat) (now : Now) :
    (p.allocate server i cid stat reg now).mutexes = p.mutexes := by
  simp [allocate]

@[simp] theorem mutexes_release (ans : Answers) :
    (p.release server i ans).mutexes = p.mutexes ++ [(i, .unlock)] := by
  simp [release, releaseCall, relist]

@[simp] theorem mutexes_enable : (p.enable i).mutexes = p.mutexes ++ [(i, .unlock)] := by
  simp [enable]

theorem mutexes_assign (reg : Option Nat) (stat : Stat) (cid : Nat) (now : Now) :
    (p.assign server reg stat cid now).2.mutexes = p.mutexes := by
  unfold assign
  split
  · rfl
  · simp

theorem mutexes_invite (reg : Registration) (r cid : Nat) (now : Now) (ending : Time) :
    (p.invite server reg r cid now ending).2.mutexes = p.mutexes := by
  simp only [invite]
  split
  · have kept := @mutexes_assign n server (p.attach reg .incoming).2 (some r) .incoming
      cid now
    split <;> rename_i h <;> rw [h] at kept <;> exact kept
  · rfl

end Frame

/-- `disable` unlocks a second time after the call it ends has been released. -/
theorem mutexes_disable (p : Pool n) (i : Fin n) (ans : Answers) :
    (p.disable server i ans).mutexes =
      p.mutexes ++ if (p.slot i).mapped.started = 0 then [(i, .unlock)]
        else [(i, .unlock), (i, .unlock)] := by
  unfold disable
  split <;> simp

def DisablesCall (p : Pool n) (i : Fin n) (event : EventId) : Prop :=
  event = .disable ∧ (p.slot i).handler ≠ .offline ∧ (p.slot i).mapped.started ≠ 0

/-- A handler leaves RELEASE exactly when it has unlocked the mutex, and it has then
unlocked it once, or twice when it disables a call. -/
theorem handle_unlocks (p : Pool n) (i : Fin n) (ans : Answers) (event : EventId) :
    let out := (base server n).handle p i ans event
    out.2 = .release ∧ p.DisablesCall i event ∧
        out.1.mutexes = p.mutexes ++ [(i, .unlock), (i, .unlock)] ∨
      out.2 = .release ∧ ¬ p.DisablesCall i event ∧
        out.1.mutexes = p.mutexes ++ [(i, .unlock)] ∨
      out.2 ≠ .release ∧ ¬ p.DisablesCall i event ∧ out.1.mutexes = p.mutexes := by
  have disabled : (p.slot i).handler ≠ .offline → event = .disable →
      p.DisablesCall i event ∧ (p.disable server i ans).mutexes =
          p.mutexes ++ [(i, .unlock), (i, .unlock)] ∨
        ¬ p.DisablesCall i event ∧ (p.disable server i ans).mutexes =
          p.mutexes ++ [(i, .unlock)] := by
    intro inService disable
    rw [mutexes_disable]
    by_cases unused : (p.slot i).mapped.started = 0
    · exact .inr ⟨fun h => h.2.2 unused, by simp [unused]⟩
    · exact .inl ⟨⟨disable, inService, unused⟩, by simp [unused]⟩
  have others : event ≠ .disable → ¬ p.DisablesCall i event := fun h c => h c.1
  cases h : (p.slot i).handler with
  | idle =>
    have inService : (p.slot i).handler ≠ .offline := by simp [h]
    simp only [Virtual.handle, base, id, h]
    cases event with
    | disable => simpa [Virtual.idleHandler] using disabled inService rfl
    | _ => simp [Virtual.idleHandler, others]
  | release =>
    have inService : (p.slot i).handler ≠ .offline := by simp [h]
    simp only [Virtual.handle, base, id, h]
    cases event with
    | disable => simpa [Virtual.releaseHandler] using disabled inService rfl
    | _ => simp [Virtual.releaseHandler, others]
  | script =>
    have inService : (p.slot i).handler ≠ .offline := by simp [h]
    simp only [Virtual.handle, base, id, h]
    cases event with
    | disable => simpa [Virtual.scriptHandler] using disabled inService rfl
    | timeout =>
      simp only [Virtual.scriptHandler]
      split
      · simp [others]
      · split <;> simp [others]
    | _ => simp [Virtual.scriptHandler, others]
  | offline =>
    have offline : ¬ p.DisablesCall i event := fun c => c.2.1 h
    simp only [Virtual.handle, base, id, h]
    cases event with
    | _ => simp [Virtual.offlineHandler, offline]

def Truthful (p : Pool n) (i : Fin n) (out : Pool n × EventId) : Prop :=
  out.2 = .release ↔ out.1.mutexes = p.mutexes ++ [(i, .unlock)]

/-- The operation locks and unlocks the mutex of the slot it is about once each, in this
order, and touches no mutex otherwise. -/
def Balanced (server : Server) (p : Pool n) : Action n → Prop
  | .post i event ans =>
    ((base server n).post p i ans event).1.mutexes = p.mutexes ++ [(i, .lock), (i, .unlock)] ∧
      (p.lock i).Truthful i ((base server n).handle (p.lock i) i ans event)
  | .expire i read ans =>
    let q := (base server n).getExpires p i read
    ((base server n).expire q i ans).1.mutexes = p.mutexes ++ [(i, .lock), (i, .unlock)] ∧
      ((q.slot i).expires = .after 0 → q.Truthful i ((base server n).handle q i ans .timeout))
  | a => ∀ q, p.step server a = some q → q.mutexes = p.mutexes

theorem post_balanced (p : Pool n) (i : Fin n) (event : EventId) (ans : Answers) :
    p.Balanced server (.post i event ans) ↔ ¬ p.DisablesCall i event := by
  simp only [Balanced, Truthful, Virtual.post, mutexes_lock]
  have same : (p.lock i).DisablesCall i event ↔ p.DisablesCall i event := Iff.rfl
  rcases @handle_unlocks n server (p.lock i) i ans event with
    ⟨id, calls, ops⟩ | ⟨id, calls, ops⟩ | ⟨id, calls, ops⟩ <;>
    rw [same] at calls <;> simp [base] at id ops <;> simp [base, id, ops, calls]

theorem expire_balanced (p : Pool n) (i : Fin n) (read : Timeout → Timeout) (ans : Answers) :
    p.Balanced server (.expire i read ans) := by
  simp only [Balanced, Truthful, Virtual.expire]
  have locked : ((base server n).getExpires p i read).mutexes = p.mutexes ++ [(i, .lock)] := rfl
  generalize (base server n).getExpires p i read = q at locked
  rcases @handle_unlocks n server q i ans .timeout with
    ⟨_, calls, _⟩ | ⟨id, _, ops⟩ | ⟨id, _, ops⟩
  · exact absurd calls.1 (by decide)
  all_goals
    simp [base] at id ops
    by_cases out : (q.slot i).expires = .after 0 <;> simp [base, id, ops, out, locked]

def Disables (p : Pool n) : Action n → Prop
  | .post i event _ => p.DisablesCall i event
  | _ => False

theorem step_balanced (p : Pool n) (a : Action n) : p.Balanced server a ↔ ¬ p.Disables a := by
  cases a with
  | post i event ans => exact post_balanced p i event ans
  | expire i read ans => simp [Disables, expire_balanced]
  | assign reg stat cid now =>
    simp only [Balanced, Disables, not_false_iff, iff_true]
    intro q h
    cases h
    exact mutexes_assign p reg stat cid now
  | invite r cid now ending =>
    simp only [Balanced, Disables, not_false_iff, iff_true]
    intro q h
    obtain ⟨reg, _, rfl⟩ := Option.map_eq_some_iff.mp h
    exact mutexes_invite p reg r cid now ending
  | setScripting i stepping =>
    simp only [Balanced, Disables, not_false_iff, iff_true]
    intro q h
    simp only [step] at h
    split at h <;> cases h
    rfl

/-- A run locks and unlocks in balance if and only if it never disables a slot with a call
on it. -/
theorem balanced_iff (server : Server) (raw : Fin n → Raw) (as : List (Action n)) :
    Run.Along (step server) (Balanced server) (construct server raw) as ↔
      Run.Along (step server) (fun p a => ¬ p.Disables a) (construct server raw) as :=
  Run.along_iff step_balanced as _

/-- DISABLE on a slot in a call unlocks its mutex twice. -/
theorem not_balanced :
    ¬ Run.Along (step .sample) (Balanced .sample)
      (construct .sample fun _ => ⟨0, .incoming, none, none, none, none⟩ : Pool 1)
      [.assign none .incoming 7 (tick 0),
        .post 0 .disable (.at (tick 1) true)] := by
  rintro ⟨_, along⟩
  have balanced := (along _ rfl).1.1
  revert balanced
  decide

end Bayonne.Pool
