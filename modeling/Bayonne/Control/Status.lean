import Bayonne.Control.Outcome

/-! The status with which the process exits: `server::release` passes the `exit_code` of the
file to `exit`, and `dispatch` sets one of its own that hides it. -/
namespace Bayonne

/-- The process: the variable of the file, which nothing assigns, and the control thread with
the variable that `dispatch` declares. -/
structure Process where
  exitCode : Int
  control : Control

namespace Process

def main (control : Control) : Process := ⟨0, control⟩

def line (p : Process) (c : ControlLine) : Option Process :=
  (Control.step p.control c).map fun control => { p with control := control }

def release (p : Process) : Option Int :=
  if p.control.ending = some .left then some p.exitCode else none

end Process

namespace Control

def hears (s : Control) (c : ControlLine) : Option String :=
  match receive s.buf s.replytarget c.text with
  | some (.line buf _ cp) => some (String.ofList (CString.text nul buf cp))
  | _ => none

def lastHeard (s : Control) : List ControlLine → Option String
  | [] => none
  | [c] => hears s c
  | c :: cs => (step s c).bind (lastHeard · cs)

/-- The supervisor is told of a `restart`, and of nothing else. -/
structure ExitStatus (line : String) (status : Int) : Prop where
  restart : status ≠ 0 ↔ line = "restart"
  stop : leaves line = true → status = 0

theorem status_zero_iff (line : String) : ExitStatus line 0 ↔ line ≠ "restart" := by
  constructor
  · rintro told rfl
    exact told.restart.mpr rfl rfl
  · intro other
    exact ⟨iff_of_false (fun changed => changed rfl) other, fun _ => rfl⟩

variable {s t u : Control}

theorem reply_kept (s : Control) (msg : Option Reason) :
    (s.reply msg).ending = s.ending ∧ (s.reply msg).exitCode = s.exitCode := by
  have logged : (s.log msg).ending = s.ending ∧ (s.log msg).exitCode = s.exitCode := by
    cases msg <;> exact ⟨rfl, rfl⟩
  unfold reply
  split
  · exact logged
  · split <;> exact logged

theorem release_kept (s : Control) :
    s.release.ending = s.ending ∧ s.release.exitCode = s.exitCode := by
  unfold release
  split <;> exact ⟨rfl, rfl⟩

theorem get_kept (s : Control) : s.get.ending = s.ending ∧ s.get.exitCode = s.exitCode := by
  unfold get
  split <;> exact ⟨rfl, rfl⟩

theorem driverDispatch_kept (s : Control) (argv : List String) :
    (s.driverDispatch argv).1.ending = s.ending ∧
      (s.driverDispatch argv).1.exitCode = s.exitCode := by
  unfold driverDispatch
  split
  · split <;> exact ⟨rfl, rfl⟩
  · split <;> exact ⟨rfl, rfl⟩
  · exact ⟨rfl, rfl⟩

theorem acted_kept {line : List String} (h : Acted s line t) :
    t.ending = s.ending ∧ t.exitCode = s.exitCode := by
  cases h with
  | nothing => exact ⟨rfl, rfl⟩
  | effect e plain => exact ⟨rfl, rfl⟩
  | missed absent => exact get_kept s
  | looked words d found =>
    obtain ⟨ending, code⟩ := get_kept s
    obtain ⟨ending', code'⟩ := driverDispatch_kept s.get words
    obtain ⟨ending'', code''⟩ := release_kept (s.get.driverDispatch words).1
    exact ⟨ending''.trans (ending'.trans ending), code''.trans (code'.trans code)⟩
  | reloaded d found =>
    rw [reload, found]
    exact ⟨rfl, rfl⟩
  | stale n cmd d said bad old => exact release_kept s

theorem answered_kept {line : List String} (h : Answered s line t) :
    t.ending = s.ending ∧ t.exitCode = s.exitCode := by
  obtain ⟨u, acted, how⟩ := h
  obtain ⟨ending, code⟩ := acted_kept acted
  rcases how with rfl | ⟨msg, rfl⟩
  · exact ⟨ending, code⟩
  · obtain ⟨ending', code'⟩ := reply_kept u msg
    exact ⟨ending'.trans ending, code'.trans code⟩

theorem turn_kept (s : Control) : s.turn.ending = s.ending ∧ s.turn.exitCode = s.exitCode := by
  unfold turn
  split
  · exact ⟨rfl, rfl⟩
  · exact reply_kept s none

theorem handle_kept (s : Control) (c : ControlLine) (cp : List Char) (going : s.ending = none) :
    (s.handle c cp).ending = none ∧ (s.handle c cp).exitCode = s.exitCode ∨
      (s.handle c cp).ending = some .aborted ∨ (s.handle c cp).ending = some .fault ∨
      (s.handle c cp).ending = some .left ∧
        (leaves (String.ofList cp) = true ∧ (s.handle c cp).exitCode = s.exitCode ∨
          String.ofList cp = "restart" ∧ (s.handle c cp).exitCode = 6) := by
  by_cases ends : Ends cp
  · simp only [Ends, List.mem_cons, List.not_mem_nil, or_false] at ends
    rcases ends with h | h | h | h | h
    · exact .inr (.inr (.inr ⟨by rw [handle, h]; rfl, .inl ⟨by rw [h]; rfl, by rw [handle, h]; rfl⟩⟩))
    · exact .inr (.inr (.inr ⟨by rw [handle, h]; rfl, .inl ⟨by rw [h]; rfl, by rw [handle, h]; rfl⟩⟩))
    · exact .inr (.inr (.inr ⟨by rw [handle, h]; rfl, .inl ⟨by rw [h]; rfl, by rw [handle, h]; rfl⟩⟩))
    · exact .inr (.inr (.inr ⟨by rw [handle, h]; rfl, .inr ⟨h, by rw [handle, h]; rfl⟩⟩))
    · exact .inr (.inl (by rw [handle, h]; rfl))
  by_cases deadly : Deadly s c cp
  · rcases handle_deadly deadly with dead | dead
    · exact .inr (.inr (.inl (by rw [dead]; rfl)))
    · exact .inr (.inr (.inl (by rw [dead]; rfl)))
  · obtain ⟨ending, code⟩ := answered_kept (handle_answered (s := s) ends deadly)
    exact .inl ⟨ending.trans going, code⟩

theorem step_left {c : ControlLine} (run : step s c = some t) (zero : s.exitCode = 0)
    (left : t.ending = some .left) :
    ∃ line, hears s c = some line ∧ ExitStatus line t.exitCode := by
  obtain ⟨going, how⟩ := step_cases run
  rcases how with ⟨-, rfl⟩ | ⟨buf, -, rfl⟩ | ⟨buf, target, cp, received, rfl⟩
  · cases left
  · rw [opened, going] at left
    cases left
  refine ⟨String.ofList (CString.text nul buf cp), by rw [hears, received], ?_⟩
  rcases handle_kept (s.opened buf target) c (CString.text nul buf cp) going with
    ⟨ending, -⟩ | ending | ending | ⟨ending, code⟩
  · rw [(turn_kept _).1, ending] at left
    cases left
  · rw [(turn_kept _).1, ending] at left
    cases left
  · rw [(turn_kept _).1, ending] at left
    cases left
  · rw [(turn_kept _).2]
    rcases code with ⟨leave, code⟩ | ⟨named, code⟩
    · have kept : ((s.opened buf target).handle c (CString.text nul buf cp)).exitCode = 0 :=
        code.trans zero
      rw [kept, status_zero_iff]
      intro restart
      rw [restart] at leave
      revert leave
      decide
    · rw [named, code]
      exact ⟨iff_of_true (by decide) rfl, fun leave => absurd leave (by decide)⟩

def Unset (s : Control) : Prop := s.ending = none → s.exitCode = 0

theorem step_unset {c : ControlLine} (before : Unset s) (run : step s c = some t) : Unset t := by
  obtain ⟨going, how⟩ := step_cases run
  have zero := before going
  rcases how with ⟨-, rfl⟩ | ⟨buf, -, rfl⟩ | ⟨buf, target, cp, -, rfl⟩
  · exact fun _ => zero
  · exact fun _ => zero
  intro alive
  rcases handle_kept (s.opened buf target) c (CString.text nul buf cp) going with
    ⟨ending, code⟩ | ending | ending | ⟨ending, -⟩
  · rw [(turn_kept _).2, code]
    exact zero
  · rw [(turn_kept _).1, ending] at alive
    cases alive
  · rw [(turn_kept _).1, ending] at alive
    cases alive
  · rw [(turn_kept _).1, ending] at alive
    cases alive

/-- In every run that ends the loop, the last line is what ended it, and the variable of
`dispatch` says how. -/
theorem exec_left {lines : List ControlLine} (before : Unset s) (going : s.ending = none)
    (run : Run.exec step s lines = some t) (left : t.ending = some .left) :
    ∃ line, lastHeard s lines = some line ∧ ExitStatus line t.exitCode := by
  induction lines generalizing s with
  | nil =>
    cases run
    rw [going] at left
    cases left
  | cons c cs ih =>
    obtain ⟨u, first, rest⟩ := Run.exec_cons.mp run
    cases cs with
    | nil =>
      cases rest
      exact step_left first (before going) left
    | cons d ds =>
      have alive : u.ending = none := by
        obtain ⟨v, second, -⟩ := Run.exec_cons.mp rest
        exact (step_cases second).1
      obtain ⟨line, heard, told⟩ := ih (step_unset before first) alive rest
      refine ⟨line, ?_, told⟩
      rw [lastHeard, first]
      · exact heard
      · nofun

end Control

namespace Process
variable {p q : Process}

theorem exec_line {lines : List ControlLine} (run : Run.exec line p lines = some q) :
    Run.exec Control.step p.control lines = some q.control ∧ q.exitCode = p.exitCode := by
  induction lines generalizing p with
  | nil => cases run; exact ⟨rfl, rfl⟩
  | cons c cs ih =>
    obtain ⟨m, first, rest⟩ := Run.exec_cons.mp run
    obtain ⟨t, stepped, rfl⟩ := Option.map_eq_some_iff.mp first
    obtain ⟨run', code⟩ := ih rest
    exact ⟨Run.exec_cons.mpr ⟨t, stepped, run'⟩, code⟩

/-- The exit status is right just when the loop was not ended by `restart`, though the variable
that `dispatch` sets would always be. -/
theorem status_iff_not_restart (buf : List Char) (active : Option Nat) (made : Nat)
    (registrations : List String) (timeslots boards : Nat) (lines : List ControlLine) (q : Process)
    (status : Int)
    (run : Run.exec line (main (.start buf active made registrations timeslots boards)) lines =
      some q)
    (released : q.release = some status) :
    ∃ text, Control.lastHeard (.start buf active made registrations timeslots boards) lines =
        some text ∧
      (Control.ExitStatus text status ↔ text ≠ "restart") ∧
      Control.ExitStatus text q.control.exitCode := by
  unfold release at released
  split at released
  · rename_i left
    cases released
    obtain ⟨run, code⟩ := exec_line run
    obtain ⟨text, heard, told⟩ := Control.exec_left (fun _ => rfl) rfl run left
    refine ⟨text, heard, ?_, told⟩
    have zero : q.exitCode = 0 := code
    rw [zero]
    exact Control.status_zero_iff text
  · cases released

def restartLine : ControlLine := .said "restart\n".toList (by decide) (by decide) (by decide)

def stopLine : ControlLine := .said "stop\n".toList (by decide) (by decide) (by decide)

theorem status_stop : ∃ q status, Run.exec line (main .fresh) [stopLine] = some q ∧
    q.release = some status ∧ Control.ExitStatus "stop" status := by
  refine ⟨_, 0, rfl, rfl, ?_⟩
  obtain ⟨text, heard, told, -⟩ :=
    status_iff_not_restart (List.replicate 512 Control.nul) (some 0) 1 [] 2 0 [stopLine] _ 0 rfl rfl
  have stop : text = "stop" := by
    have same : some "stop" = some text := heard
    cases same
    rfl
  exact stop ▸ told.mpr (by rw [stop]; decide)

/-- A server told to `restart` exits as one told to stop. -/
theorem not_status : ¬ ∀ (lines : List ControlLine) (q : Process) (status : Int) (text : String),
    Run.exec line (main .fresh) lines = some q → q.release = some status →
      Control.lastHeard .fresh lines = some text → Control.ExitStatus text status := by
  intro all
  have told := all [restartLine] _ 0 "restart" rfl rfl rfl
  exact told.restart.mpr rfl rfl

end Process

end Bayonne
