import Mathlib.Init

/-! The background thread, statement by statement. Its flags are shared with the threads
that arm timers and with the one that stops the server; `due` is what its own timer says
when a statement reads it. -/
namespace Bayonne

/-- The statement of `Background::run` that is next. From `locked` to `woken`, and up to the
unlock after it, the thread holds its conditional lock; waiting gives the lock up. -/
inductive BackgroundPc where
  | begin | head | locked | leaving | clearing | done
  | reading | about | waiting | woken
  | scanClear | scanUnlock | scan | idleClear | idleUnlock | automatic
  deriving DecidableEq, Repr

namespace BackgroundPc

def locks : BackgroundPc → Bool
  | .locked | .leaving | .reading | .about | .woken => true
  | .scanClear | .scanUnlock | .idleClear | .idleUnlock => true
  | _ => false

end BackgroundPc

structure Background where
  running : Bool
  signalled : Bool
  pc : BackgroundPc
  deriving DecidableEq, Repr

namespace Background

def start : Background := ⟨false, false, .begin⟩

def notify (b : Background) : Option Background :=
  if b.pc.locks then none else some { b with signalled := true }

/-- One statement of `Background::run`. The scan of the timeslots is one, and so is what
the driver does in `automatic`. -/
def step (b : Background) (due : Bool) : Background :=
  match b.pc with
  | .begin => { b with running := true, pc := .head }
  | .head => { b with pc := .locked }
  | .locked => { b with pc := if b.running then .reading else .leaving }
  | .leaving => { b with pc := .clearing }
  | .clearing => { b with signalled := false, pc := .done }
  | .done => b
  | .reading => { b with pc := if !b.signalled && !due then .about else .woken }
  | .about => { b with pc := .waiting }
  | .waiting => { b with pc := .woken }
  | .woken => { b with pc := if b.signalled || due then .scanClear else .idleClear }
  | .scanClear => { b with signalled := false, pc := .scanUnlock }
  | .scanUnlock => { b with pc := .scan }
  | .scan => { b with pc := .automatic }
  | .idleClear => { b with signalled := false, pc := .idleUnlock }
  | .idleUnlock => { b with pc := .automatic }
  | .automatic => { b with pc := .head }

theorem step_ne_begin (b : Background) (due : Bool) : (b.step due).pc ≠ .begin := by
  obtain ⟨running, signalled, pc⟩ := b
  cases pc with
  | locked => cases running <;> exact nofun
  | reading => cases signalled <;> cases due <;> exact nofun
  | woken => cases signalled <;> cases due <;> exact nofun
  | _ => exact nofun

theorem step_running {b : Background} (h : b.pc ≠ .begin) (due : Bool) :
    (b.step due).running = b.running := by
  unfold step
  split
  · rename_i start
    exact absurd start h
  all_goals rfl

theorem step_done {b : Background} (h : b.pc = .done) (due : Bool) : b.step due = b := by
  rw [step, h]

theorem step_quiet (b : Background) (due : Bool)
    (pc : b.pc ≠ .begin ∧ b.pc ≠ .scanUnlock ∧ b.pc ≠ .scan) :
    (b.step due).pc = .done ∨ (b.step due).pc = .scanUnlock ∨
      b.pc ≠ .done ∧ (b.step due).pc ≠ .scan ∧
        ((b.step due).pc = .idleClear → (b.step due).signalled = false) ∧
        (b.signalled = true → b.pc ≠ .idleClear → (b.step due).signalled = true) := by
  obtain ⟨running, signalled, place⟩ := b
  cases place with
  | begin => exact absurd rfl pc.1
  | scanUnlock => exact absurd rfl pc.2.1
  | scan => exact absurd rfl pc.2.2
  | clearing | done => exact .inl rfl
  | scanClear => exact .inr (.inl rfl)
  | idleClear => exact .inr (.inr ⟨nofun, nofun, nofun, fun _ ne => absurd rfl ne⟩)
  | locked => cases running <;> exact .inr (.inr ⟨nofun, nofun, nofun, fun set _ => set⟩)
  | reading =>
    cases signalled <;> cases due <;>
      exact .inr (.inr ⟨nofun, nofun, nofun, fun set _ => set⟩)
  | woken =>
    cases signalled with
    | true => exact .inr (.inr ⟨nofun, nofun, nofun, fun set _ => set⟩)
    | false => cases due <;> exact .inr (.inr ⟨nofun, nofun, fun _ => rfl, fun set _ => set⟩)
  | _ => exact .inr (.inr ⟨nofun, nofun, nofun, fun set _ => set⟩)

theorem notify_some {b b' : Background} (h : b.notify = some b') :
    b.pc.locks = false ∧ b' = { b with signalled := true } := by
  unfold notify at h
  split at h
  · cases h
  · rename_i free
    exact ⟨by simpa using free, (Option.some.inj h).symm⟩

end Background

end Bayonne
