import Bayonne.Control.Logging
import Bayonne.Control.Shots

/-! The control FIFO and all that are at it: the clients, which write a line each and may wait
for a signal, the thread that turns the signals of the server into lines, and the control thread,
which reads the lines and signals the clients. -/
namespace Bayonne

inductive Signo where
  | alrm | hup | int | term | usr1
  deriving DecidableEq, Repr

def Signo.text : Signo → CString.Text Control.nul
  | .alrm => ⟨"timer".toList, by decide⟩
  | .int | .term => ⟨"down".toList, by decide⟩
  | .usr1 => ⟨"snapshot".toList, by decide⟩
  | .hup => ⟨"reload".toList, by decide⟩

inductive Listener where
  | new | waiting
  | carrying (g : Signo)
  | returned
  deriving DecidableEq, Repr

/-- A process that runs `baycontrol` once. Its id is not given to another. -/
inductive Caller where
  | ready
  | waiting (argv : List String)
  | exited (argv : List String) (code : Nat)
  deriving DecidableEq, Repr

inductive Wake where
  | user (u : UserSignal)
  | alarm
  deriving DecidableEq, Repr

structure LineAnswers where
  suspend : Nat → Option Reason
  resume : Nat → Option Reason
  rejects : Nat → EventId → Bool
  opens : Bool

def ControlLine.answered (c : ControlLine) (a : LineAnswers) : ControlLine :=
  { c with suspend := a.suspend, resume := a.resume, rejects := a.rejects, opens := a.opens }

/-- What `fgets` returns of the FIFO, which it waits for. -/
def nextLine (fifo : List Char) : Option ControlLine :=
  let text := Lines.chunk '\n' 511 fifo
  if h : text.length = 511 ∨ text.getLast? = some '\n' then
    some (.said text (Lines.chunk_bounds '\n' 511 fifo).1 (Lines.chunk_bounds '\n' 511 fifo).2
      (.inr h))
  else none

/-- `pending` and `alarmed` are the signals that wait for a client, and `files` the snapshots that
wait for it; `printed` is whether it has shown one. `arrived` are the signals that wait for the
server. The last five are histories: the lines handled, each with whether an error was reported,
the signals that the server has sent to clients and that it was sent, the lines written to the
FIFO, and whether a line of the signal thread was lost. -/
structure Console where
  control : Control
  fifo : List Char
  caller : Pid → Caller
  pending : Pid → UserSignal → Bool
  alarmed : Pid → Bool
  files : Pid → Bool
  printed : Pid → Bool
  listener : Listener
  shutdown : Bool
  arrived : Signo → Bool
  handled : List (List Char × Bool)
  kills : List (Int × UserSignal)
  delivered : List Signo
  written : List (List Char)
  refused : Bool

/-- `opens` is whether the FIFO opens for writing, and `fits` whether it has room for the line. -/
inductive ConsoleAction where
  | request (p : Pid) (argv : List String) (buffer : Control.Buffer 512) (opens fits : Bool)
  | alarm (p : Pid)
  | wake (p : Pid) (w : Wake)
  | serve (a : LineAnswers)
  | signal (g : Signo)
  | begin
  | take (g : Signo)
  | post (buffer : Control.Buffer 512) (opens fits : Bool)
  | cancel

namespace Console
variable (s : Console)

def exit (p : Pid) (argv : List String) (code : Nat) : Console :=
  { s with caller := Function.update s.caller p (.exited argv code) }

def write (text : List Char) : Console :=
  { s with fifo := s.fifo ++ text, written := s.written ++ [text] }

/-- `command` of `baycontrol`, up to `sigwait`. -/
def request (p : Pid) (argv : List String) (n : Nat) (buffer : Control.Buffer 512)
    (opens fits : Bool) : Option Console :=
  if !opens then some (s.exit p argv 2)
  else
    (Wire.command buffer.1 (Client.sender p n) argv).map fun text =>
      if !fits then s.exit p argv 4
      else if n = 0 then (s.write text).exit p argv 0
      else { s.write text with caller := Function.update s.caller p (.waiting argv) }

def isWaiting : Caller → Bool
  | .waiting _ => true
  | _ => false

def deliver (t : Control) : Console :=
  { s with
    control := t
    pending := fun p u => s.pending p u ||
      (isWaiting (s.caller p) && decide (((p.val : Int), u) ∈ t.signals))
    files := fun p => s.files p || decide ((p.val : Int) ∈ t.shots)
    kills := s.kills ++ t.signals }

def serve (a : LineAnswers) : Option Console :=
  (nextLine s.fifo).bind fun c =>
    (Control.step s.control (c.answered a)).map fun t =>
      { s.deliver t with
        fifo := s.fifo.drop c.text.length
        handled := s.handled ++ [(c.text, t.failed)] }

/-- What a client does when it has its signal. `capture` shows a snapshot, and removes it. -/
def wake (p : Pid) (argv : List String) : Wake → Option Console
  | .alarm => if s.alarmed p then some (s.exit p argv 1) else none
  | .user .usr1 =>
    if s.pending p .usr1 then
      some
        { s.exit p argv 0 with
          printed := Function.update s.printed p (s.files p)
          files := Function.update s.files p false }
    else none
  | .user .usr2 => if s.pending p .usr2 then some (s.exit p argv 3) else none

def alive : Bool :=
  match s.control.ending with
  | none | some .left => true
  | _ => false

def take (g : Signo) : Option Console :=
  if s.listener = .waiting ∧ s.arrived g = true then
    some { s with
      arrived := Function.update s.arrived g false
      listener := if s.shutdown then .returned else .carrying g }
  else none

def post (buffer : Control.Buffer 512) (opens fits : Bool) : Option Console :=
  match s.listener with
  | .carrying g =>
    (Control.control buffer opens fits g.text).map fun out =>
      { s with
        fifo := s.fifo ++ if out.rtn then out.written.getD [] else []
        written := s.written ++ if out.rtn then out.written.toList else []
        listener := .waiting
        refused := s.refused || !out.rtn }
  | _ => none

/-- `psignals::stop`, in `server::release` after the loop. -/
def cancel : Option Console :=
  if s.control.ending = some .left then
    if s.listener = .new then some s
    else some { s with shutdown := true, arrived := Function.update s.arrived .alrm true }
  else none

def step (s : Console) : ConsoleAction → Option Console
  | .request p argv buffer opens fits =>
    match s.caller p, Client.main argv with
    | .ready, .command n => s.request p argv n buffer opens fits
    | _, _ => none
  | .alarm p =>
    if isWaiting (s.caller p) then some { s with alarmed := Function.update s.alarmed p true }
    else none
  | .wake p w =>
    match s.caller p with
    | .waiting argv => s.wake p argv w
    | _ => none
  | .serve a => s.serve a
  | .signal g =>
    if s.alive then
      some { s with
        arrived := Function.update s.arrived g true
        delivered := s.delivered ++ [g] }
    else none
  | .begin =>
    if s.alive ∧ s.listener = .new then some { s with listener := .waiting } else none
  | .take g => if s.alive then s.take g else none
  | .post buffer opens fits => if s.alive then s.post buffer opens fits else none
  | .cancel => s.cancel

def start (control : Control) : Console where
  control := control
  fifo := []
  caller _ := .ready
  pending _ _ := false
  alarmed _ := false
  files _ := false
  printed _ := false
  listener := .new
  shutdown := false
  arrived _ := false
  handled := []
  kills := []
  delivered := []
  written := []
  refused := false

end Console

end Bayonne
