import Bayonne.Control.Arguments
import Bayonne.Control.Signals
import Bayonne.Control.Wire

/-! The requests of `baycontrol` and what the server knows of them: their grammar is written down
in the `main` of the client, with a check of the arguments for each command, and once more in
`dispatch`. -/
namespace Bayonne

namespace Client

inductive Outcome where
  | command (timeout : Nat)
  | refused (msg : String)
  | version | usage | runfiles | status | timeslots | stats | pstats
  deriving DecidableEq

def complain (cmd text : String) : Outcome :=
  .refused ("*** bayonne: " ++ cmd ++ ": " ++ text ++ "\n")

def single (cmd : String) (args : List String) (timeout : Nat) : Outcome :=
  if args = [] then .command timeout else complain cmd "too many arguments"

/-- The check for one argument, with the error if there is none and if there are several. -/
def argument (missing many cmd : String) (args : List String) (timeout : Nat) : Outcome :=
  match args with
  | [] => complain cmd missing
  | [_] => .command timeout
  | _ => complain cmd many

def resource := argument "resource missing" "only one resource"

def level := argument "level missing" "too many arguments"

def period (args : List String) : Outcome :=
  argument "interval missing" "too many arguments" "period" args 10

/-- A command that reads what the server left in its files and its shared memory. -/
def view (text cmd : String) (args : List String) (print : Outcome) : Outcome :=
  if args = [] then print else complain cmd text

/-- `main` of `baycontrol`, on the words after the name of the program. -/
def main : List String → Outcome
  | [] => .usage
  | cmd :: args =>
    if cmd ∈ ["version", "-version", "--version"] then .version
    else if cmd ∈ ["help", "-help", "--help"] then .usage
    else if cmd ∈ ["boards", "spans"] then view "no arguments" cmd args .runfiles
    else if cmd ∈ ["reload", "check", "snapshot", "suspend", "resume"] then single cmd args 30
    else if cmd = "history" then
      if args = [] then single cmd args 30 else level cmd args 10
    else if cmd ∈ ["down", "restart", "abort"] then single cmd args 0
    else if cmd ∈ ["verbose", "concurrency"] then level cmd args 10
    else if cmd ∈ ["enable", "disable", "drop", "hangup"] then resource cmd args 10
    else if cmd = "status" then view "no arguments" cmd args .status
    else if cmd = "timeslots" then view "no arguments" cmd args .timeslots
    else if cmd = "stats" then view "no arguments used" cmd args .stats
    else if cmd = "period" then period args
    else if cmd = "pstats" then view "no arguments used" cmd args .pstats
    else complain cmd "unknown command or option"

/-- `command` waits for an answer, and sends its own process id for it, given a timeout. -/
def sender (p : Pid) (timeout : Nat) : Option Pid := if timeout = 0 then none else some p

inductive Passed : List String → Nat → Prop
  | single {w : String}
      (named : w ∈ ["reload", "check", "snapshot", "suspend", "resume", "history"]) :
      Passed [w] 30
  | unanswered {w : String} (named : w ∈ ["down", "restart", "abort"]) : Passed [w] 0
  | level {w : String} (named : w ∈ ["verbose", "concurrency", "period", "history"]) (x : String) :
      Passed [w, x] 10
  | resource {w : String} (named : w ∈ ["enable", "disable", "drop", "hangup"]) (x : String) :
      Passed [w, x] 10

theorem single_command {cmd : String} {args : List String} {timeout n : Nat}
    (passed : single cmd args timeout = .command n) : args = [] ∧ n = timeout := by
  unfold single at passed
  split at passed
  · cases passed
    exact ⟨‹_›, rfl⟩
  · cases passed

theorem argument_command {missing many cmd : String} {args : List String} {timeout n : Nat}
    (passed : argument missing many cmd args timeout = .command n) :
    ∃ x, args = [x] ∧ n = timeout := by
  unfold argument at passed
  split at passed
  · cases passed
  · cases passed
    exact ⟨_, rfl, rfl⟩
  · cases passed

theorem view_command {text cmd : String} {args : List String} {print : Outcome} {n : Nat}
    (passed : view text cmd args print = .command n) : print = .command n := by
  unfold view at passed
  split at passed
  · exact passed
  · cases passed

theorem passed_of_main {argv : List String} {n : Nat} (sent : main argv = .command n) :
    Passed argv n := by
  cases argv with
  | nil => cases sent
  | cons cmd args =>
    obtain ⟨-, sent⟩ | ⟨-, sent⟩ := ite_eq_iff.mp sent
    · cases sent
    obtain ⟨-, sent⟩ | ⟨-, sent⟩ := ite_eq_iff.mp sent
    · cases sent
    obtain ⟨-, sent⟩ | ⟨-, sent⟩ := ite_eq_iff.mp sent
    · cases view_command sent
    obtain ⟨named, sent⟩ | ⟨-, sent⟩ := ite_eq_iff.mp sent
    · obtain ⟨rfl, rfl⟩ := single_command sent
      exact .single (List.mem_append_left ["history"] named)
    obtain ⟨rfl, sent⟩ | ⟨-, sent⟩ := ite_eq_iff.mp sent
    · obtain ⟨-, sent⟩ | ⟨-, sent⟩ := ite_eq_iff.mp sent
      · obtain ⟨rfl, rfl⟩ := single_command sent
        exact .single (by decide)
      · obtain ⟨x, rfl, rfl⟩ := argument_command sent
        exact .level (by decide) x
    obtain ⟨named, sent⟩ | ⟨-, sent⟩ := ite_eq_iff.mp sent
    · obtain ⟨rfl, rfl⟩ := single_command sent
      exact .unanswered named
    obtain ⟨named, sent⟩ | ⟨-, sent⟩ := ite_eq_iff.mp sent
    · obtain ⟨x, rfl, rfl⟩ := argument_command sent
      exact .level (List.mem_append_left ["period", "history"] named) x
    obtain ⟨named, sent⟩ | ⟨-, sent⟩ := ite_eq_iff.mp sent
    · obtain ⟨x, rfl, rfl⟩ := argument_command sent
      exact .resource named x
    obtain ⟨-, sent⟩ | ⟨-, sent⟩ := ite_eq_iff.mp sent
    · cases view_command sent
    obtain ⟨-, sent⟩ | ⟨-, sent⟩ := ite_eq_iff.mp sent
    · cases view_command sent
    obtain ⟨-, sent⟩ | ⟨-, sent⟩ := ite_eq_iff.mp sent
    · cases view_command sent
    obtain ⟨rfl, sent⟩ | ⟨-, sent⟩ := ite_eq_iff.mp sent
    · obtain ⟨x, rfl, rfl⟩ := argument_command sent
      exact .level (by decide) x
    obtain ⟨-, sent⟩ | ⟨-, sent⟩ := ite_eq_iff.mp sent
    · cases view_command sent
    · cases sent

end Client

def Effect.report : Effect → Option Reason
  | .reported msg => some msg
  | _ => none

namespace Control

def reports (s : Control) : List Reason := s.done.filterMap Effect.report

/-- The server knows the word of the line, and has all its arguments. -/
structure Recognised (t : Control) : Prop where
  known : unknownCommand ∉ t.reports
  complete : invalid ∉ t.reports

/-- The words whose requests the client lets pass and the server does not take. -/
def misfits : List String := ["suspend", "resume", "history"]

variable {s t : Control}

theorem skips_report : Skips Effect.report := ⟨rfl, rfl, fun _ => rfl, fun _ => rfl⟩

theorem reports_quiet (s : Control) {e : Effect} (quiet : e.report = none) :
    (s.emit e).reports = s.reports := effects_quiet s quiet

theorem reports_reply (s : Control) (msg : Option Reason) :
    (s.reply msg).reports = s.reports ++ msg.toList := by
  have replied := effects_reply (f := Effect.report) (fun _ _ => rfl) s msg
  have told : (msg.bind fun m => Effect.report (.reported m)) = msg := by
    cases msg <;> rfl
  rw [told] at replied
  exact replied

theorem reports_replyError (s : Control) (err : Option Reason) :
    (s.replyError err).reports = s.reports ++ err.toList := by
  cases err with
  | none => exact (List.append_nil _).symm
  | some m => exact reports_reply s (some m)

theorem reports_get (s : Control) : s.get.reports = s.reports := effects_get skips_report s

theorem reports_release (s : Control) : s.release.reports = s.reports :=
  effects_release skips_report s

theorem reports_turn (s : Control) : s.turn.reports = s.reports := by
  unfold turn
  split
  · rfl
  · exact (reports_reply s none).trans (List.append_nil _)

theorem lookup_reports (s : Control) {argv : List String} {refusal : Reason} (err : Reason)
    (refused : s.get.driverDispatch argv = (s.get, some refusal)) :
    ∃ m ∈ [refusal, err], (s.lookup argv err).reports = s.reports ++ [m] := by
  have ended (m : Reason) : (s.get.error (some m)).reports = s.reports ++ [m] := by
    rw [error, reports_reply, reports_release, reports_get]
    rfl
  unfold lookup
  split
  · rw [refused]
    exact ⟨refusal, List.mem_cons_self, ended refusal⟩
  · exact ⟨err, List.mem_cons_of_mem _ List.mem_cons_self, ended err⟩

theorem post_reports (s : Control) (c : ControlLine) (w : String) (event : EventId) :
    ∃ err ∈ [none, some requestRejected, some invalidTimeslot],
      (s.post c w event).reports = s.reports ++ err.toList := by
  by_cases known : index w < s.timeslots
  · refine ⟨if c.rejects (index w) event then some requestRejected else none, ?_, ?_⟩
    · split <;> decide
    · rw [post, if_pos known, reports_replyError, reports_quiet s rfl]
  · refine ⟨some invalidTimeslot, by decide, ?_⟩
    rw [post, if_neg known, reports_replyError]

theorem slotCommand_reports (s : Control) (c : ControlLine) {cmd : String} (w : String)
    (event : EventId) (slot : cmd ∈ slotCommands) :
    ∃ err ∈ [none, some requestRejected, some invalidTimeslot, some unknownResource],
      (s.slotCommand c [cmd, w] [w] event).reports = s.reports ++ err.toList := by
  by_cases numeral : isTimeslot w = true
  · have posted : s.slotCommand c [cmd, w] [w] event = s.post c w event := if_pos numeral
    obtain ⟨err, known, told⟩ := post_reports s c w event
    exact ⟨err, List.mem_append_left [some unknownResource] known, posted ▸ told⟩
  · have looked : s.slotCommand c [cmd, w] [w] event = s.lookup [cmd, w] invalidTimeslot :=
      if_neg numeral
    obtain ⟨m, known, told⟩ :=
      lookup_reports s invalidTimeslot (driverDispatch_slot s.get [w] slot)
    refine ⟨some m, ?_, looked ▸ told⟩
    simp only [List.mem_cons, List.not_mem_nil, or_false] at known
    rcases known with rfl | rfl <;> decide

theorem handle_single (s : Control) (c : ControlLine) {w : String}
    (named : w ∈ ["reload", "check", "snapshot", "down", "restart", "abort"]) :
    (s.handle c w.toList).reports = s.reports := by
  simp only [List.mem_cons, List.not_mem_nil, or_false] at named
  rcases named with rfl | rfl | rfl | rfl | rfl | rfl
  · have reloads : s.handle c "reload".toList = s.reload := rfl
    rw [reloads, reload]
    split <;> simp [reports, access, leave, fail, emit, Effect.report]
  · rfl
  · have snapshots : s.handle c "snapshot".toList = s.takeSnapshot c := rfl
    rw [snapshots, takeSnapshot]
    split
    · exact reports_quiet s rfl
    · rfl
  · rfl
  · rfl
  · rfl

theorem command_setting (s : Control) (c : ControlLine) {w : String} (x : String)
    (named : w ∈ ["verbose", "concurrency", "period"]) :
    (s.command c [w, x]).reports = s.reports := by
  simp only [List.mem_cons, List.not_mem_nil, or_false] at named
  rcases named with rfl | rfl | rfl
  · exact reports_quiet s rfl
  · exact reports_quiet s rfl
  · have counts : s.command c ["period", x] = s.period x := rfl
    rw [counts, period]
    split
    · rfl
    · exact reports_quiet s rfl

theorem handle_passed (s : Control) (c : ControlLine) {cp : List Char} {w : String}
    {ws : List String} {timeout : Nat} (passed : Client.Passed (w :: ws) timeout)
    (said : words 64 cp = w :: ws) (whole : ws = [] → cp = w.toList) :
    ∃ err, (s.handle c cp).reports = s.reports ++ err.toList ∧
      (err ∈ [some invalid, some unknownCommand] ↔ w ∈ misfits) := by
  have history (argv : List String) :
      (s.lookup ("history" :: argv) unknownCommand).reports = s.reports ++ [unknownCommand] := by
    have refused : s.get.driverDispatch ("history" :: argv) = (s.get, some unknownCommand) := rfl
    obtain ⟨m, known, told⟩ := lookup_reports s unknownCommand refused
    simp only [List.mem_cons, List.not_mem_nil, or_false, or_self] at known
    exact known ▸ told
  have silent (same : (s.handle c cp).reports = s.reports) (other : w ∉ misfits) :
      ∃ err, (s.handle c cp).reports = s.reports ++ err.toList ∧
        (err ∈ [some invalid, some unknownCommand] ↔ w ∈ misfits) :=
    ⟨none, by rw [same]; exact (List.append_nil _).symm, iff_of_false (by decide) other⟩
  cases passed with
  | single named =>
    obtain rfl := whole rfl
    simp only [List.mem_cons, List.not_mem_nil, or_false] at named
    rcases named with rfl | rfl | rfl | rfl | rfl | rfl
    · exact silent (handle_single s c (by decide)) (by decide)
    · exact silent (handle_single s c (by decide)) (by decide)
    · exact silent (handle_single s c (by decide)) (by decide)
    · exact ⟨some invalid, reports_reply s (some invalid), by decide⟩
    · exact ⟨some invalid, reports_reply s (some invalid), by decide⟩
    · exact ⟨some unknownCommand, history [], by decide⟩
  | unanswered named =>
    obtain rfl := whole rfl
    simp only [List.mem_cons, List.not_mem_nil, or_false] at named
    rcases named with rfl | rfl | rfl
    · exact silent (handle_single s c (by decide)) (by decide)
    · exact silent (handle_single s c (by decide)) (by decide)
    · exact silent (handle_single s c (by decide)) (by decide)
  | level named x =>
    have commanded : s.handle c cp = s.command c [w, x] := by
      rw [handle_command c (by rw [said]; nofun), said]
    simp only [List.mem_cons, List.not_mem_nil, or_false] at named
    rcases named with rfl | rfl | rfl | rfl
    · exact silent (commanded ▸ command_setting s c x (by decide)) (by decide)
    · exact silent (commanded ▸ command_setting s c x (by decide)) (by decide)
    · exact silent (commanded ▸ command_setting s c x (by decide)) (by decide)
    · exact ⟨some unknownCommand, commanded ▸ history [x], by decide⟩
  | resource named x =>
    have slot : w ∈ slotCommands := by
      simp only [slotCommands, List.mem_cons] at named ⊢
      tauto
    have other : w ∉ misfits := by
      simp only [slotCommands, List.mem_cons, List.not_mem_nil, or_false] at slot
      rcases slot with rfl | rfl | rfl | rfl <;> decide
    obtain ⟨event, acts⟩ := command_slot s c x slot
    obtain ⟨err, known, told⟩ := slotCommand_reports s c x event slot
    refine ⟨err, ?_, iff_of_false ?_ other⟩
    · rw [handle_command c (by rw [said]; nofun), said, acts]
      exact told
    · simp only [List.mem_cons, List.not_mem_nil, or_false] at known
      rcases known with rfl | rfl | rfl | rfl <;> decide

theorem recognised_iff {err : Option Reason} (told : t.reports = err.toList) :
    Recognised t ↔ err ∉ [some invalid, some unknownCommand] := by
  constructor
  · rintro ⟨known, complete⟩ refused
    simp only [List.mem_cons, List.not_mem_nil, or_false] at refused
    rcases refused with rfl | rfl
    · exact complete (told ▸ List.mem_cons_self)
    · exact known (told ▸ List.mem_cons_self)
  · intro taken
    refine ⟨fun refused => taken ?_, fun refused => taken ?_⟩
    · rw [told, Option.mem_toList] at refused
      rw [Option.mem_def.mp refused]
      decide
    · rw [told, Option.mem_toList] at refused
      rw [Option.mem_def.mp refused]
      decide

theorem step_recognised {c : ControlLine} {b : List Char} {target : Option Nat} {p : Nat}
    {w : String} {ws : List String} {timeout : Nat} (passed : Client.Passed (w :: ws) timeout)
    (received : receive s.buf s.replytarget c.text = some (.line b target p))
    (said : CString.text nul b p = Wire.joined w.toList ws)
    (good : ∀ v ∈ w :: ws, v ≠ "" ∧ ∀ c ∈ v.toList, Wire.Solid c) (going : s.ending = none) :
    ∃ t, step s c = some t ∧ (Recognised t ↔ w ∉ misfits) := by
  have few : ws.length < 64 := by
    cases passed <;> exact Nat.lt_of_lt_of_le (Nat.lt_succ_self _) (by simp)
  have whole : ws = [] → Wire.joined w.toList ws = w.toList := by
    rintro rfl
    exact List.append_nil _
  obtain ⟨err, told, fits⟩ :=
    handle_passed (s.opened b target) c passed (Wire.words_joined few good) whole
  refine ⟨((s.opened b target).handle c (Wire.joined w.toList ws)).turn, ?_, ?_⟩
  · rw [step, going, received, ← said]
    rfl
  · rw [recognised_iff ((reports_turn _).trans told), fits]

end Control

namespace Client
open Control (Recognised misfits)

variable {argv : List String} {timeout : Nat}

theorem passed_first {w : String} {ws : List String} (passed : Passed (w :: ws) timeout) :
    ∀ c ∈ w.toList.head?, Control.isdigit c = false ∧ c ≠ '/' := by
  have plain : w.toList.head?.all (fun c => decide (Control.isdigit c = false ∧ c ≠ '/')) := by
    cases passed with
    | single named =>
      simp only [List.mem_cons, List.not_mem_nil, or_false] at named
      rcases named with rfl | rfl | rfl | rfl | rfl | rfl <;> rfl
    | unanswered named =>
      simp only [List.mem_cons, List.not_mem_nil, or_false] at named
      rcases named with rfl | rfl | rfl <;> rfl
    | level named x =>
      simp only [List.mem_cons, List.not_mem_nil, or_false] at named
      rcases named with rfl | rfl | rfl | rfl <;> rfl
    | resource named x =>
      simp only [List.mem_cons, List.not_mem_nil, or_false] at named
      rcases named with rfl | rfl | rfl | rfl <;> rfl
  intro c hc
  rw [Option.mem_def.mp hc] at plain
  exact of_decide_eq_true plain

theorem request_recognised {s : Control} (going : s.ending = none) (waiting : s.replytarget = none)
    (buffer : Control.Buffer 512) (p : Pid) (sent : main argv = .command timeout)
    (good : ∀ v ∈ argv, v ≠ "" ∧ ∀ c ∈ v.toList, Wire.Solid c)
    (short : (Wire.whole (sender p timeout) argv).length ≤ 510) :
    ∃ line, Wire.command buffer.val (sender p timeout) argv = some line ∧
      (∃ c : ControlLine, c.text = line) ∧
      ∀ c : ControlLine, c.text = line →
        ∃ t, Control.step s c = some t ∧ (Recognised t ↔ ∀ w ∈ argv.head?, w ∉ misfits) := by
  have passed := passed_of_main sent
  refine ⟨_, Wire.command_some buffer.property _ argv, ?_⟩
  cases argv with
  | nil => cases passed
  | cons w ws =>
    rw [List.take_of_length_le short, Wire.whole_joined _ good]
    rw [Wire.whole_joined _ good] at short
    refine ⟨Wire.exists_line _ good short, ?_⟩
    intro c text
    have first : (∀ v ∈ (w :: ws).head?, v ∉ misfits) ↔ w ∉ misfits := by simp
    rw [first]
    cases asked : sender p timeout with
    | none =>
      rw [asked] at text
      obtain ⟨b, cp, received, said⟩ := Wire.receive_unsent good (passed_first passed) text s.buf
      rw [← waiting] at received
      exact Control.step_recognised passed received said good going
    | some q =>
      rw [asked] at text
      obtain ⟨b, i, cp, received, -, said⟩ := Wire.receive_sent q good text s.buf
      rw [← waiting] at received
      exact Control.step_recognised passed received said good going

/-- In every state in which the server reads a line, it takes a request that the client lets
pass, and whose line fits, exactly if its word is none of three: `suspend` and `resume` go without
the board they need, and no one implements `history`. -/
theorem recognised_iff_fits {buf : List Char} {active : Option Nat} {made : Nat}
    {registrations : List String} {timeslots boards : Nat} {lines : List ControlLine} {s : Control}
    (run : Run.exec Control.step
      (Control.start buf active made registrations timeslots boards) lines = some s)
    (going : s.ending = none) (buffer : Control.Buffer 512) (p : Pid)
    (sent : main argv = .command timeout)
    (good : ∀ v ∈ argv, v ≠ "" ∧ ∀ c ∈ v.toList, Wire.Solid c)
    (short : (Wire.whole (sender p timeout) argv).length ≤ 510) :
    ∃ line, Wire.command buffer.val (sender p timeout) argv = some line ∧
      (∃ c : ControlLine, c.text = line) ∧
      ∀ c : ControlLine, c.text = line →
        ∃ t, Control.step s c = some t ∧ (Recognised t ↔ ∀ w ∈ argv.head?, w ∉ misfits) := by
  have waiting : s.replytarget = none :=
    Run.invariant (I := Control.Waiting) (fun _ _ _ => Control.step_waiting) (fun _ => rfl) run
      going
  exact request_recognised going waiting buffer p sent good short

def process : Pid := ⟨123, by decide⟩

def blank : Control.Buffer 512 := ⟨List.replicate 512 Control.nul, List.length_replicate⟩

theorem recognised_verbose :
    ∃ line, Wire.command blank.val (some process) ["verbose", "5"] = some line ∧
      ∀ c : ControlLine, c.text = line →
        ∃ t, Control.step .fresh c = some t ∧ Recognised t := by
  have good : ∀ v ∈ ["verbose", "5"], v ≠ "" ∧ ∀ c ∈ v.toList, Wire.Solid c := by
    rintro w (_ | ⟨_, _ | ⟨_, ⟨⟩⟩⟩)
    · exact Wire.solid_word (by decide) (by decide)
    · exact Wire.solid_word (by decide) (by decide)
  obtain ⟨line, written, -, taken⟩ :=
    recognised_iff_fits (Run.exec_nil Control.fresh) rfl blank process
      (by decide : main ["verbose", "5"] = .command 10) good (by decide)
  refine ⟨line, written, fun c text => ?_⟩
  obtain ⟨t, run, fits⟩ := taken c text
  exact ⟨t, run, fits.mpr (by rintro w ⟨⟩; decide)⟩

/-- `suspend` passes the client without a board, and is answered as an invalid argument. -/
theorem not_recognised : ¬ ∀ (argv : List String) (timeout : Nat) (line : List Char)
    (c : ControlLine) (t : Control), main argv = .command timeout →
    (∀ v ∈ argv, v ≠ "" ∧ ∀ c ∈ v.toList, Wire.Solid c) →
    (Wire.whole (sender process timeout) argv).length ≤ 510 →
    Wire.command blank.val (sender process timeout) argv = some line → c.text = line →
    Control.step .fresh c = some t → Recognised t := by
  intro all
  have passes : main ["suspend"] = .command 30 := by decide
  have good : ∀ v ∈ ["suspend"], v ≠ "" ∧ ∀ c ∈ v.toList, Wire.Solid c := by
    rintro w (_ | ⟨_, ⟨⟩⟩)
    exact Wire.solid_word (by decide) (by decide)
  have short : (Wire.whole (sender process 30) ["suspend"]).length ≤ 510 := by decide
  obtain ⟨line, written, said, answered⟩ :=
    request_recognised (s := .fresh) rfl rfl blank process passes good short
  obtain ⟨c, text⟩ := said
  obtain ⟨t, run, fits⟩ := answered c text
  have taken := all _ _ line c t passes good short written text run
  exact fits.mp taken "suspend" rfl (by decide)

end Client

end Bayonne
