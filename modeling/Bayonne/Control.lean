import Bayonne.Base.CString
import Bayonne.Base.Run
import Bayonne.Driver
import Bayonne.Timeslot

/-! The control thread: it reads the lines of the control FIFO into one buffer, carries
out the command of each, and signals the process that a line names. -/
namespace Bayonne

abbrev Reason := { m : String // m ≠ "" }

inductive UserSignal where
  | usr1 | usr2
  deriving DecidableEq, Repr

/-- What handling a line does outside of the thread's own variables. `access` and `leave`
are on the lock of the driver configuration; `got` is a successful lookup and `released`
the end of its use. -/
inductive Effect where
  | signal (pid : Int) (signal : UserSignal)
  | reported (msg : Reason)
  | access | leave
  | got (driver : Nat)
  | released (driver : Nat)
  | reloaded (driver : Nat)
  | freed (registration : String)
  | posted (timeslot : Nat) (event : EventId)
  | suspended (board : Nat)
  | resumed (board : Nat)
  | snapshot (pid : Int)
  | verbose (level : Int)
  | concurrency (level : Int)
  | period (slice : Int)
  deriving DecidableEq

inductive Ending where
  | left | aborted | fault
  deriving DecidableEq, Repr

/-- What one `fgets` reads, empty when it fails, and what the rest of the server answers
while the line is handled. -/
structure ControlLine where
  text : List Char
  fits : text.length ≤ 511
  one : '\n' ∉ text.dropLast
  ended : text = [] ∨ text.length = 511 ∨ text.getLast? = some '\n'
  suspend : Nat → Option Reason
  resume : Nat → Option Reason
  rejects : Nat → EventId → Bool
  /-- The file of a snapshot can be opened. -/
  opens : Bool

def ControlLine.said (text : List Char) (fits : text.length ≤ 511)
    (one : '\n' ∉ text.dropLast)
    (ended : text = [] ∨ text.length = 511 ∨ text.getLast? = some '\n') : ControlLine :=
  ⟨text, fits, one, ended, fun _ => none, fun _ => none, fun _ _ => false, true⟩

/-- The control thread where it reads a line. Of the locals of `dispatch` only `driver`
and `exit_code` outlive a line. -/
structure Control where
  buf : List Char
  replytarget : Option Nat
  driver : Option Nat
  active : Option Nat
  made : Nat
  holds : Int
  registrations : List String
  timeslots : Nat
  boards : Nat
  exitCode : Int
  ending : Option Ending
  done : List Effect

namespace Control

def nul : Char := '\x00'

abbrev Buffer (n : Nat) := { b : List Char // b.length = n }

def isdigit (c : Char) : Bool := c.isDigit

def padding (c : Char) : Bool := c ∈ [' ', '\t', '\r', '\n']

def fgets (buf : List Char) (text : List Char) : List Char :=
  text ++ nul :: buf.drop (text.length + 1)

def replyPrefix : List Char := "/tmp/.reply.".toList

def refused (line : List Char) : Bool :=
  line.head? = some '/' &&
    ((Sip.strstr "..".toList line).isSome || line.take 12 ≠ replyPrefix)

def prefixed (line : List Char) : Bool :=
  line.head?.any fun c => c = '/' || isdigit c

inductive Received where
  | retry (buf : List Char)
  | line (buf : List Char) (replytarget : Option Nat) (cp : Nat)

/-- `server::receive` from its `fgets` on, unless it leaves the buffer. -/
def receive (buf : List Char) (replytarget : Option Nat) (text : List Char) :
    Option Received :=
  (CString.strip nul padding (fgets buf text)).bind fun (cp, buf) =>
    let line := CString.text nul buf cp
    if refused line then some (.retry buf)
    else if prefixed line then
      (CString.scan (fun c => c = nul || Sip.isspace c) buf cp).bind fun stop =>
      (CString.store buf stop nul).bind fun buf =>
      (CString.scan (fun c => !Sip.isspace c) buf (stop + 1)).map fun next =>
        .line buf (some cp) next
    else some (.line buf replytarget cp)

def blank (c : Char) : Bool := c ∈ [' ', '\t']

/-- `String::token` with the quotes that `dispatch` gives it. -/
def token (cs : List Char) : Option (String × List Char) :=
  match cs.dropWhile blank with
  | [] => none
  | '\x7b' :: cs =>
    some (String.ofList (cs.takeWhile (· ≠ '\x7d')), (cs.dropWhile (· ≠ '\x7d')).drop 1)
  | c :: cs =>
    some (String.ofList ((c :: cs).takeWhile (!blank ·)),
      ((c :: cs).dropWhile (!blank ·)).drop 1)

def words : Nat → List Char → List String
  | 0, _ => []
  | n + 1, cs =>
    match token cs with
    | none => []
    | some (word, rest) => word :: words n rest

def isTimeslot (w : String) : Bool := w ≠ "" && w.toList.all isdigit

def index (w : String) : Nat := (atoi w % 4294967296).toNat

def invalid : Reason := ⟨"missing or invalid argument", by decide⟩
def invalidTimeslot : Reason := ⟨"invalid timeslot", by decide⟩
def requestRejected : Reason := ⟨"request rejected", by decide⟩
def unknownBoard : Reason := ⟨"unknown board id", by decide⟩
def unknownCommand : Reason := ⟨"unknown command", by decide⟩
def unknownResource : Reason := ⟨"unknown resource", by decide⟩

variable (s : Control)

def emit (e : Effect) : Control := { s with done := s.done ++ [e] }

def fail : Control := { s with ending := some .fault }

def access : Control := { s.emit .access with holds := s.holds + 1 }

def leave : Control := { s.emit .leave with holds := s.holds - 1 }

def get : Control :=
  match s.active with
  | some d => { s.access.emit (.got d) with driver := some d }
  | none => { s.access.leave with driver := none }

def release : Control :=
  match s.driver with
  | some d => (s.emit (.released d)).leave
  | none => s

def toProcess (target : Nat) : Bool := (s.buf[target]?).any isdigit

def target (i : Nat) : Int := atoi (String.ofList (CString.text nul s.buf i))

def log (msg : Option Reason) : Control :=
  match msg with
  | some m => s.emit (.reported m)
  | none => s

def answer (msg : Option Reason) : UserSignal := if msg.isSome then .usr2 else .usr1

def reply (msg : Option Reason) : Control :=
  match s.replytarget with
  | none => s.log msg
  | some i =>
    if s.toProcess i then
      { (s.log msg).emit (.signal (s.target i) (answer msg)) with replytarget := none }
    else { s.log msg with replytarget := none }

def replyError (err : Option Reason) : Control :=
  match err with
  | some m => s.reply (some m)
  | none => s

def pid : Int :=
  match s.replytarget with
  | some i => if s.toProcess i then s.target i else 0
  | none => 0

/-- `Driver::reload`. A new driver is created under the lock and made the active one. -/
def reload : Control :=
  match s.active with
  | none => s.access.fail
  | some _ =>
    { s.access.leave.emit (.reloaded s.made) with active := some s.made, made := s.made + 1 }

def driverDispatch (argv : List String) : Control × Option Reason :=
  match argv with
  | "release" :: args =>
    match s.registrations.find? (· = args.head?.getD "") with
    | some id => (s.emit (.freed id), none)
    | none => (s, some unknownResource)
  | cmd :: _ =>
    if cmd ∈ ["drop", "hangup", "enable", "disable"] then (s, some unknownResource)
    else (s, some unknownCommand)
  | [] => (s, some unknownCommand)

def error (err : Option Reason) : Control := s.release.reply err

def lookup (argv : List String) (err : Reason) : Control :=
  match s.get.driver with
  | some _ => (s.get.driverDispatch argv).1.error (s.get.driverDispatch argv).2
  | none => s.get.error (some err)

def post (c : ControlLine) (w : String) (event : EventId) : Control :=
  if index w < s.timeslots then
    (s.emit (.posted (index w) event)).replyError
      (if c.rejects (index w) event then some requestRejected else none)
  else s.replyError (some invalidTimeslot)

/-- The commands on a timeslot: `argv` is the whole line, `args` what follows the word. -/
def slotCommand (c : ControlLine) (argv args : List String) (event : EventId) : Control :=
  match args with
  | [w] => if isTimeslot w then s.post c w event else s.lookup argv invalidTimeslot
  | _ => s.reply (some invalid)

def slotEvent (cmd : String) : Option EventId :=
  if cmd = "drop" ∨ cmd = "hangup" then some .hangup
  else if cmd = "enable" then some .enable
  else if cmd = "disable" then some .disable
  else none

/-- `timeslot <n> <command>`. The first of its errors does not look the driver up. -/
def timeslot (c : ControlLine) (argv args : List String) : Control :=
  match args with
  | [n, cmd] =>
    if !isTimeslot n then s.error (some invalidTimeslot)
    else
      match slotEvent cmd with
      | some event => s.slotCommand c [cmd, n] [n] event
      | none => s.lookup argv unknownCommand
  | _ => s.reply (some invalid)

def argument (args : List String) (act : String → Control) : Control :=
  match args with
  | [w] => act w
  | _ => s.reply (some invalid)

/-- What `server::period` cannot divide by: its assertion fails, or the minutes wrap to no
seconds. -/
def badPeriod (slice : Int) : Bool :=
  slice ≤ 0 || (slice * 60).bmod 18446744073709551616 = 0

def period (w : String) : Control :=
  if badPeriod (atol w) then s.fail else s.emit (.period (atol w))

def suspend (c : ControlLine) (w : String) : Control :=
  if index w < s.boards then (s.emit (.suspended (index w))).replyError (c.suspend (index w))
  else s.replyError (some unknownBoard)

def resume (c : ControlLine) (w : String) : Control :=
  if index w < s.boards then (s.emit (.resumed (index w))).replyError (c.resume (index w))
  else s.replyError (some unknownBoard)

def command (c : ControlLine) (argv : List String) : Control :=
  match argv with
  | [] => s
  | cmd :: args =>
    if cmd = "verbose" then s.argument args fun w => s.emit (.verbose (atoi w))
    else if cmd = "period" then s.argument args s.period
    else if cmd = "concurrency" then s.argument args fun w => s.emit (.concurrency (atoi w))
    else if cmd = "suspend" then s.argument args (s.suspend c)
    else if cmd = "resume" then s.argument args (s.resume c)
    else
      match slotEvent cmd with
      | some event => s.slotCommand c argv args event
      | none =>
        if cmd = "timeslot" then s.timeslot c argv args else s.lookup argv unknownCommand

def leaves (line : String) : Bool := line ∈ ["stop", "down", "exit"]

def takeSnapshot (c : ControlLine) : Control :=
  if c.opens then s.emit (.snapshot s.pid) else s.fail

/-- One turn of the loop in `dispatch`, for the text that `receive` returned. -/
def handle (c : ControlLine) (cp : List Char) : Control :=
  let line := String.ofList cp
  if leaves line then { s with ending := some .left }
  else if line = "reload" then s.reload
  else if line = "check" then s
  else if line = "restart" then { s with exitCode := 6, ending := some .left }
  else if line = "snapshot" then s.takeSnapshot c
  else if line = "abort" then { s with ending := some .aborted }
  else s.command c (words 64 cp)

theorem handle_command {s : Control} {cp : List Char} (c : ControlLine)
    (several : (words 64 cp).length ≠ 1) : s.handle c cp = s.command c (words 64 cp) := by
  have other : ∀ line : String, (words 64 line.toList).length = 1 → String.ofList cp ≠ line := by
    rintro line single rfl
    rw [String.toList_ofList] at single
    exact several single
  have stays : leaves (String.ofList cp) = false := by
    simp [leaves, other "stop" (by decide), other "down" (by decide), other "exit" (by decide)]
  unfold handle
  simp only [stays, other "reload" (by decide), other "check" (by decide),
    other "restart" (by decide), other "snapshot" (by decide), other "abort" (by decide)]
  rfl

def turn : Control := if s.ending.isSome then s else s.reply none

def opened (buf : List Char) (target : Option Nat) : Control :=
  { s with buf := buf, replytarget := target, done := [] }

/-- One line read from the FIFO, until the thread reads again. -/
def step (s : Control) (c : ControlLine) : Option Control :=
  if s.ending.isSome then none
  else
    match receive s.buf s.replytarget c.text with
    | none => some (s.opened s.buf s.replytarget).fail
    | some (.retry buf) => some (s.opened buf s.replytarget)
    | some (.line buf target cp) =>
      some ((s.opened buf target).handle c (CString.text nul buf cp)).turn

theorem step_some {s : Control} (c : ControlLine) (going : s.ending = none) :
    ∃ t, step s c = some t := by
  unfold step
  rw [going]
  cases receive s.buf s.replytarget c.text with
  | none => exact ⟨_, rfl⟩
  | some r =>
    cases r with
    | retry buf => exact ⟨_, rfl⟩
    | line buf target cp => exact ⟨_, rfl⟩

theorem step_cases {s t : Control} {c : ControlLine} (run : step s c = some t) :
    s.ending = none ∧
      (receive s.buf s.replytarget c.text = none ∧ t = (s.opened s.buf s.replytarget).fail ∨
        (∃ buf, receive s.buf s.replytarget c.text = some (.retry buf) ∧ t = s.opened buf s.replytarget) ∨
        ∃ buf target cp, receive s.buf s.replytarget c.text = some (.line buf target cp) ∧
          t = ((s.opened buf target).handle c (CString.text nul buf cp)).turn) := by
  unfold step at run
  split at run
  · cases run
  rename_i going
  refine ⟨by simpa using going, ?_⟩
  cases hr : receive s.buf s.replytarget c.text with
  | none =>
    rw [hr] at run
    cases run
    exact .inl ⟨rfl, rfl⟩
  | some r =>
    rw [hr] at run
    cases r with
    | retry buf =>
      cases run
      exact .inr (.inl ⟨buf, rfl, rfl⟩)
    | line buf target cp =>
      cases run
      exact .inr (.inr ⟨buf, target, cp, rfl, rfl⟩)

end Control

def Control.start (buf : List Char) (active : Option Nat) (made : Nat)
    (registrations : List String) (timeslots boards : Nat) : Control :=
  ⟨buf, none, none, active, made, 0, registrations, timeslots, boards, 0, none, []⟩

def Control.fresh : Control :=
  start (List.replicate 512 nul) (some 0) 1 [] 2 0

end Bayonne
