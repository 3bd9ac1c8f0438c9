import Bayonne.Control.Client
import Bayonne.Control.Stream
import Bayonne.Control.Status

/-! What the server answers to a line: the snapshots and the end that come of it, and whom the
line of a client has it answer. -/
namespace Bayonne

def Effect.shot : Effect → Option Int
  | .snapshot pid => some pid
  | _ => none

/-- The snapshots that were written while a line was handled, by the process id they are for. -/
def Control.shots (s : Control) : List Int := s.done.filterMap Effect.shot

namespace Control
variable {s t : Control} {c : ControlLine} {cp : List Char}

section Shots

theorem skips_shot : Skips Effect.shot := ⟨rfl, rfl, fun _ => rfl, fun _ => rfl⟩

theorem shots_quiet (s : Control) {e : Effect} (quiet : e.shot = none) :
    (s.emit e).shots = s.shots := effects_quiet s quiet

theorem shots_reply (s : Control) (msg : Option Reason) : (s.reply msg).shots = s.shots := by
  have sent := effects_reply (f := Effect.shot) (fun _ _ => rfl) s msg
  refine sent.trans ?_
  cases msg <;> exact List.append_nil _

theorem shots_replyError (s : Control) (err : Option Reason) :
    (s.replyError err).shots = s.shots := by
  cases err with
  | none => rfl
  | some m => exact shots_reply s (some m)

theorem shots_get (s : Control) : s.get.shots = s.shots := effects_get skips_shot s

theorem shots_release (s : Control) : s.release.shots = s.shots := effects_release skips_shot s

theorem shots_turn (s : Control) : s.turn.shots = s.shots := by
  unfold turn
  split
  · rfl
  · exact shots_reply s none

theorem shots_driverDispatch (s : Control) (argv : List String) :
    (s.driverDispatch argv).1.shots = s.shots := by
  unfold driverDispatch
  split
  · split
    · exact shots_quiet s rfl
    · rfl
  · split <;> rfl
  · rfl

theorem shots_lookup (s : Control) (argv : List String) (err : Reason) :
    (s.lookup argv err).shots = s.shots := by
  unfold lookup error
  split
  · rw [shots_reply, shots_release, shots_driverDispatch, shots_get]
  · rw [shots_reply, shots_release, shots_get]

theorem shots_argument (s : Control) (args : List String) {act : String → Control}
    (each : ∀ w, (act w).shots = s.shots) : (s.argument args act).shots = s.shots := by
  unfold argument
  split
  · exact each _
  · exact shots_reply s _

theorem shots_post (s : Control) (c : ControlLine) (w : String) (event : EventId) :
    (s.post c w event).shots = s.shots := by
  unfold post
  split
  · rw [shots_replyError]
    exact shots_quiet s rfl
  · exact shots_replyError s _

theorem shots_slotCommand (s : Control) (c : ControlLine) (argv args : List String)
    (event : EventId) : (s.slotCommand c argv args event).shots = s.shots := by
  have single : s.slotCommand c argv args event = s.argument args fun w =>
      if isTimeslot w then s.post c w event else s.lookup argv invalidTimeslot := rfl
  rw [single]
  refine shots_argument s args fun w => ?_
  split
  · exact shots_post s c w event
  · exact shots_lookup s _ _

theorem shots_timeslot (s : Control) (c : ControlLine) (argv args : List String) :
    (s.timeslot c argv args).shots = s.shots := by
  unfold timeslot
  split
  · split
    · rw [error, shots_reply, shots_release]
    split
    · exact shots_slotCommand s c _ _ _
    · exact shots_lookup s _ _
  · exact shots_reply s _

theorem shots_command (s : Control) (c : ControlLine) (argv : List String) :
    (s.command c argv).shots = s.shots := by
  cases argv with
  | nil => rfl
  | cons cmd args =>
    unfold command
    simp only
    split
    · exact shots_argument s args fun w => shots_quiet s rfl
    split
    · refine shots_argument s args fun w => ?_
      unfold period
      split
      · rfl
      · exact shots_quiet s rfl
    split
    · exact shots_argument s args fun w => shots_quiet s rfl
    split
    · refine shots_argument s args fun w => ?_
      unfold suspend
      split
      · rw [shots_replyError]
        exact shots_quiet s rfl
      · exact shots_replyError s _
    split
    · refine shots_argument s args fun w => ?_
      unfold resume
      split
      · rw [shots_replyError]
        exact shots_quiet s rfl
      · exact shots_replyError s _
    split
    · exact shots_slotCommand s c _ _ _
    split
    · exact shots_timeslot s c _ args
    · exact shots_lookup s _ _

theorem shots_reload (s : Control) : s.reload.shots = s.shots := by
  unfold reload
  split
  · exact shots_quiet s rfl
  · exact (shots_quiet _ rfl).trans ((shots_quiet s.access rfl).trans (shots_quiet s rfl))

theorem shots_handle (s : Control) (c : ControlLine) (cp : List Char) :
    (s.handle c cp).shots =
      s.shots ++ if String.ofList cp = "snapshot" ∧ c.opens = true then [s.pid] else [] := by
  by_cases named : String.ofList cp = "snapshot"
  · have snapped : s.handle c cp = s.takeSnapshot c := by
      unfold handle
      simp only
      rw [named]
      rfl
    rw [snapped, takeSnapshot]
    cases opens : c.opens with
    | false => simp [named, shots, fail]
    | true =>
      have shot := effects_emit (f := Effect.shot) s (.snapshot s.pid)
      simpa [named, shots, Effect.shot] using shot
  · rw [if_neg fun h => named h.1, List.append_nil]
    unfold handle
    simp only [named, if_false]
    split
    · rfl
    split
    · exact shots_reload s
    split
    · rfl
    split
    · rfl
    split
    · rfl
    · exact shots_command s c _

end Shots

theorem handle_fate {b : List Char} {target : Option Nat} (going : s.ending = none)
    (took : t = ((s.opened b target).handle c cp).turn) :
    t.ending ≠ none ∧ t.signals = [] ∧ (Ends cp ∨ Deadly s c cp) ∨
      t.ending = none ∧ ¬ Ends cp ∧ ¬ Deadly s c cp ∧
        t.signals = (s.opened b target).owed (if t.failed then .usr2 else .usr1) := by
  rcases handle_signals going took with ⟨ended, silent⟩ | ⟨stays, safe, sent⟩
  · refine .inl ⟨?_, silent, ended⟩
    rw [took, (turn_kept _).1]
    rcases ended with ends | deadly
    · obtain ⟨code, how, left⟩ := handle_ends (s.opened b target) c ends
      rw [left]
      nofun
    · rcases handle_deadly (s := s.opened b target) deadly with dead | dead
      · rw [dead]
        nofun
      · rw [dead]
        nofun
  · refine .inr ⟨?_, stays, safe, sent⟩
    rw [took, (turn_kept _).1]
    exact (answered_kept (handle_answered (s := s.opened b target) stays safe)).1.trans going

theorem handle_ending (c : ControlLine) (cp : List Char) (going : s.ending = none) :
    ((s.handle c cp).ending = some .left →
      String.ofList cp ∈ ["stop", "down", "exit", "restart"]) ∧
    ((s.handle c cp).ending = some .aborted → String.ofList cp = "abort") := by
  by_cases ends : Ends cp
  · simp only [Ends, List.mem_cons, List.not_mem_nil, or_false] at ends
    rcases ends with h | h | h | h | h
    · exact ⟨fun _ => by rw [h]; decide, fun aborted => by rw [handle, h] at aborted; cases aborted⟩
    · exact ⟨fun _ => by rw [h]; decide, fun aborted => by rw [handle, h] at aborted; cases aborted⟩
    · exact ⟨fun _ => by rw [h]; decide, fun aborted => by rw [handle, h] at aborted; cases aborted⟩
    · exact ⟨fun _ => by rw [h]; decide, fun aborted => by rw [handle, h] at aborted; cases aborted⟩
    · refine ⟨fun left => ?_, fun _ => h⟩
      rw [handle, h] at left
      cases left
  by_cases deadly : Deadly s c cp
  · have dead : (s.handle c cp).ending = some .fault := by
      rcases handle_deadly deadly with dead | dead
      · rw [dead]
        rfl
      · rw [dead]
        rfl
    rw [dead]
    exact ⟨by rintro ⟨⟩, by rintro ⟨⟩⟩
  · rw [(answered_kept (handle_answered (s := s) ends deadly)).1, going]
    exact ⟨by rintro ⟨⟩, by rintro ⟨⟩⟩

theorem shots_step {b : List Char} {target : Option Nat}
    (took : t = ((s.opened b target).handle c cp).turn) : t.shots =
      if String.ofList cp = "snapshot" ∧ c.opens = true then [(s.opened b target).pid] else [] := by
  rw [took, shots_turn, shots_handle]
  rfl

end Control

namespace Wire
open Control (nul isdigit)
variable {s t : Control} {c : ControlLine} {w : String} {ws : List String}

/-- The server hears the words of a client that waits, and owes the answer to it alone. -/
theorem step_sent (p : Pid) (good : ∀ v ∈ w :: ws, v ≠ "" ∧ ∀ c ∈ v.toList, Solid c)
    (text : c.text = whole (some p) (w :: ws) ++ ['\n']) (waiting : Control.Waiting s)
    (run : Control.step s c = some t) : s.ending = none ∧ ∃ b i,
      t = ((s.opened b (some i)).handle c (joined w.toList ws)).turn ∧
      (s.opened b (some i)).pid = p.val ∧
      ∀ signal, (s.opened b (some i)).owed signal = [((p.val : Int), signal)] := by
  obtain ⟨going, how⟩ := Control.step_cases run
  rw [whole_joined (some p) good] at text
  obtain ⟨b, i, cp, received, target, said⟩ := receive_sent p good text s.buf
  rw [waiting going] at how
  rw [received] at how
  rcases how with ⟨lost, -⟩ | ⟨buf, again, -⟩ | ⟨buf, target', cp', line, took⟩
  · cases lost
  · cases again
  cases line
  have digit : (s.opened b (some i)).toProcess i = true := by
    obtain ⟨d, ds, digits⟩ : ∃ d ds, decimal p = d :: ds :=
      List.exists_cons_of_ne_nil Nat.toDigits_ne_nil
    have head := CString.head_text (z := nul) (p := isdigit) (by decide) b i
    rw [target, digits] at head
    exact head.symm.trans (isdigit_decimal d (by rw [digits]; exact List.mem_cons_self))
  have value : (s.opened b (some i)).target i = p.val := by
    show atoi (String.ofList (CString.text nul b i)) = p.val
    rw [target, atoi_decimal]
  refine ⟨going, b, i, by rw [took, said], ?_, fun signal => ?_⟩
  · show (if (s.opened b (some i)).toProcess i then (s.opened b (some i)).target i else 0) = _
    rw [digit, if_pos rfl, value]
  · show (if (s.opened b (some i)).toProcess i then _ else _) = _
    rw [digit, if_pos rfl, value]

theorem step_said {line : List Char} (text : ∀ c' : ControlLine, c'.text = c.text → c'.line = line)
    (plain : Control.prefixed line = false) (waiting : Control.Waiting s)
    (run : Control.step s c = some t) : s.ending = none ∧ ∃ b,
      t = ((s.opened b none).handle c line).turn ∧ (s.opened b none).pid = 0 ∧
      ∀ signal, (s.opened b none).owed signal = [] := by
  obtain ⟨going, how⟩ := Control.step_cases run
  have said := text c rfl
  have refusal : Control.refused c.line = false := by
    rw [said]
    simp only [Control.prefixed, Option.any_eq_false] at plain
    rw [Control.refused, Bool.and_eq_false_iff]
    left
    rw [decide_eq_false_iff_not]
    intro slash
    have first := plain '/' slash
    simp at first
  obtain ⟨b, cp, received, heard⟩ :=
    Control.receive_plain s.buf s.replytarget refusal (by rwa [said])
  rw [received] at how
  rcases how with ⟨lost, -⟩ | ⟨buf, again, -⟩ | ⟨buf, target', cp', line', took⟩
  · cases lost
  · cases again
  cases line'
  rw [waiting going] at took
  exact ⟨going, b, by rw [took, heard, said], rfl, fun _ => rfl⟩

end Wire

end Bayonne
