import Bayonne.Timeslot

/-! The SIP driver: its timeslots, and what its event threads do with the events of the
user agent library. A response counts as sent when the driver hands it to the library. -/
namespace Bayonne

abbrev Context := Nat

inductive Status where
  | ok | badRequest | unauthorized | forbidden | notFound | temporarilyUnavailable
  | addressIncomplete | busyHere | undecipherable | decline
  deriving DecidableEq, Repr

def Status.code : Status → Nat
  | .ok => 200
  | .badRequest => 400
  | .unauthorized => 401
  | .forbidden => 403
  | .notFound => 404
  | .temporarilyUnavailable => 480
  | .addressIncomplete => 484
  | .busyHere => 486
  | .undecipherable => 493
  | .decline => 603

/-- Which of `send_answer_response`, `send_options_response` and `send_response_message`. -/
inductive Sender where
  | answer | options | message
  deriving DecidableEq, Repr

structure Response where
  sender : Sender
  ctx : Option Context
  tid : Int
  status : Status

def Response.Final (r : Response) : Prop := 200 ≤ r.status.code

instance (r : Response) : Decidable r.Final := inferInstanceAs (Decidable (_ ≤ _))

structure Uri where
  scheme : Option String
  username : Option String
  host : Option String
  port : Option String

structure Via where
  host : Option String
  port : Option String

structure Authorization where
  username : Option String
  uri : Option String
  nonce : Option String
  response : Option String

/-- A request. A To or From header may come without its URI. -/
structure Message where
  toHeader : Option (Option Uri)
  fromHeader : Option (Option Uri)
  reqUri : Option Uri
  vias : List Via
  authorization : Option Authorization

/-- A registration of the driver: `base` is its place among the registrations of the
server. -/
structure SipRegistration where
  base : Nat
  uuid : String
  script : Option String
  targets : Option String
  localnames : Option String

namespace Sip

/-- The comparison of C strings that takes a null pointer for the empty string. -/
def eq (a b : Option String) : Bool := a.getD "" = b.getD ""

def strstr (pattern : List Char) : List Char → Option (List Char)
  | [] => if pattern = [] then some [] else none
  | c :: cs => if pattern.isPrefixOf (c :: cs) then some (c :: cs) else strstr pattern cs

def isspace (c : Char) : Bool := c ∈ [' ', '\t', '\n', '\x0b', '\x0c', '\r']

/-- The first occurrence of a name in a list of names, if it ends at a separator. -/
def listed (names name : String) : Bool :=
  match strstr name.toList names.toList with
  | none => false
  | some rest =>
    name ≠ "" &&
      match rest.drop name.length with
      | [] => true
      | c :: _ => isspace c || c ∈ [',', ';', ':']

def digits : List Char → Nat → Nat
  | [], n => n
  | c :: cs, n => if c.isDigit then digits cs (10 * n + (c.toNat - '0'.toNat)) else n

/-- The number that a text begins with. -/
def numeral (s : String) : Int :=
  match s.toList.dropWhile isspace with
  | '-' :: cs => -(digits cs 0)
  | '+' :: cs => digits cs 0
  | cs => digits cs 0

/-- `remove_quotes`. A quote alone stays as it is: what is written for it is not in the text. -/
def removeQuotes (s : String) : String :=
  match s.toList with
  | '\x22' :: c :: cs => String.ofList (c :: cs).dropLast
  | _ => s

def printed (s : Option String) : String := s.getD "(null)"

end Sip

/-- `atol`, for a `long` of 64 bits. -/
def atol (s : String) : Int :=
  max (-9223372036854775808) (min 9223372036854775807 (Sip.numeral s))

/-- `atoi`, the low half of what `atol` reads. -/
def atoi (s : String) : Int := (atol s).bmod 4294967296

namespace Message
open Sip
variable (m : Message)

def dialed : Option Uri := m.toHeader.join.filter (·.username.isSome)

def caller : Option Uri := m.fromHeader.join.filter (·.username.isSome)

def portOf : Option String → Int
  | none => 5060
  | some s => if s = "" then 5060 else atoi s

/-- Whether the caller is not on the host the request came from. -/
def remote (localnames : Option String) : Bool :=
  match m.caller with
  | none => false
  | some f =>
    let elsewhere :=
      match m.vias.head?, m.dialed with
      | some via, _ => !(eq f.host via.host && portOf f.port = portOf via.port)
      | none, some t => !(eq f.host t.host && portOf f.port = portOf t.port)
      | none, none => false
    let known :=
      match localnames, f.host with
      | some names, some host => listed names host
      | _, _ => false
    elsewhere && !known

def callerText (remote : Bool) : Option String :=
  m.caller.map fun f =>
    let address := printed f.scheme ++ ":" ++ printed f.username ++ "@" ++ printed f.host
    let port := f.port.getD ""
    if remote then
      setString 256 (if port = "" then address else address ++ ":" ++ port)
    else f.username.getD ""

end Message

structure Route where
  script : String
  entry : String
  diverted : Bool

/-- How `incoming` finds the script: a user among the targets names its own, any other
user is diverted to the script of the registration. -/
def SipRegistration.route (reg : SipRegistration) (m : Message) (remote : Bool) :
    Except Status Route :=
  let entry := if remote then "@remote" else "@local"
  let scripted (entry : String) (diverted : Bool) : Except Status Route :=
    match reg.script with
    | none => .error .decline
    | some script =>
      if script = "decline" then .error .decline
      else if script = "none" then .error .notFound
      else if script = "busy" then .error .busyHere
      else if script = "reject" then .error .forbidden
      else .ok ⟨script, entry, diverted⟩
  match m.dialed, reg.targets with
  | some dialed, some targets =>
    let user := dialed.username.getD ""
    if Sip.listed targets user then .ok ⟨user, entry, false⟩ else scripted "@divert" true
  | _, _ => scripted entry false

/-- What the outside answers while an event is handled: the realm in force, the context of
the registration, whether the library can build a response, the scripts that are loaded
and that can be attached at an entry, and the clock. -/
structure Outside where
  realm : Option String
  context : Option Context
  made : Bool
  getIncoming : String → Bool
  attach : String → String → Bool
  now : Now
  ending : Time
  ans : Answers

structure Leg where
  ctx : Option Context
  did : Int
  tid : Int

/-- `requests` are the transaction ids the library has given to incoming requests, `sent`
the responses, `terminated` the calls given back to the library. -/
structure Sip (n : Nat) where
  pool : Pool n
  leg : Fin n → Leg
  requests : List Int
  sent : List Response
  terminated : List (Nat × Int)

structure SipDriver where
  server : Server
  registrations : List SipRegistration
  outContext : Option Context

namespace Sip
variable {n : Nat}

def start (driver : SipDriver) (raw : Fin n → Raw) (leg : Fin n → Leg) : Sip n where
  pool := .construct driver.server raw
  leg := leg
  requests := []
  sent := []
  terminated := []

def lift (s : Sip n) (f : Pool n → Pool n) : Sip n := { s with pool := f s.pool }

def setLeg (s : Sip n) (i : Fin n) (f : Leg → Leg) : Sip n :=
  { s with leg := Function.update s.leg i (f (s.leg i)) }

def send (s : Sip n) (r : Response) : Sip n := { s with sent := s.sent ++ [r] }

def drop (s : Sip n) (i : Fin n) : Sip n :=
  let s :=
    if (s.pool.slot i).connected then
      { s with terminated := s.terminated ++ [((s.pool.slot i).cid, (s.leg i).did)] }.lift
        (·.modify i fun t => { t with connected := false })
    else if (s.leg i).tid ≠ -1 then s.send ⟨.message, (s.leg i).ctx, (s.leg i).tid, .decline⟩
    else s
  (s.setLeg i fun l => { l with tid := -1 }).lift (·.modify i (·.disarm))

def disconnect (s : Sip n) (i : Fin n) : Sip n :=
  (s.setLeg i fun l => { l with tid := -1, did := -1 }).lift
    (·.modify i fun t => { t with connected := false }.disarm.disconnect)

def hangup (s : Sip n) (i : Fin n) : Sip n := (s.drop i).lift (·.modify i (·.disarm.disconnect))

/-- `timeslot::allocate` is `Timeslot::allocate` and this. -/
def clearLeg (s : Sip n) (i : Fin n) (ctx : Option Context) : Sip n :=
  s.setLeg i fun _ => ⟨ctx, -1, -1⟩

def hooks (server : Server) (n : Nat) : Virtual n (Sip n) where
  pool := pool
  lift := lift
  disconnect := fun s i _ event => (s.disconnect i, event)
  hangup := fun s i _ event => (s.hangup i, event)
  release := fun s i ans _ => ((s.drop i).lift (·.release server i ans), .release)
  disable := fun s _ _ _ => (s, .reject)

/-- `timeslot::incoming`: the status to answer with, or nothing. -/
def incoming (s : Sip n) (i : Fin n) (reg : SipRegistration) (m : Message) (tid did : Int)
    (out : Outside) : Option Status × Sip n :=
  let s := (s.setLeg i fun l => { l with tid := tid, did := did }).lift
    (·.modify i fun t =>
      { t with mapped := t.mapped.setMapped 'i' (some "incoming") }.arm (.after 16000))
  let remote := m.remote reg.localnames
  match reg.route m remote with
  | .error status => (some status, s)
  | .ok route =>
    if out.getIncoming route.script then
      let s := s.lift (·.modify i fun t =>
        { t with mapped :=
          { t.mapped with
            source := match m.callerText remote with
              | some text => setString 64 text
              | none => t.mapped.source
            target := match m.dialed with
              | some dialed => setString 64 (dialed.username.getD "")
              | none => t.mapped.target
            script := setString 64 route.script
            type := if route.diverted then .divert else if remote then .remote else .local } })
      if out.attach route.script route.entry then
        (none, s.lift (·.modify i (·.setScripting out.ans.stepping)))
      else (some .notFound, s)
    else (some .notFound, s)

theorem incoming_spec (s : Sip n) (i : Fin n) (reg : SipRegistration) (m : Message)
    (tid did : Int) (out : Outside) :
    ∃ f : Timeslot → Timeslot,
      (s.incoming i reg m tid did out).2 =
        (s.setLeg i fun l => { l with tid := tid, did := did }).lift (·.modify i f) ∧
      ∀ t, (f t).cid = t.cid ∧ (f t).sequence = t.sequence ∧ (f t).connected = t.connected ∧
        (f t).handler =
          if (s.incoming i reg m tid did out).1 = none then .script else t.handler := by
  simp only [incoming]
  split
  · exact ⟨_, rfl, fun t => ⟨rfl, rfl, rfl, by simp [Timeslot.arm]⟩⟩
  · split
    · split
      · simp only [lift, Pool.modify_modify]
        exact ⟨_, rfl, fun t => ⟨rfl, rfl, rfl, by simp [Timeslot.setScripting, Timeslot.arm]⟩⟩
      · simp only [lift, Pool.modify_modify]
        exact ⟨_, rfl, fun t => ⟨rfl, rfl, rfl, by simp [Timeslot.arm]⟩⟩
    · exact ⟨_, rfl, fun t => ⟨rfl, rfl, rfl, by simp [Timeslot.arm]⟩⟩

def contact (registrations : List SipRegistration) (uuid : String) : Option SipRegistration :=
  registrations.find? (·.uuid = uuid)

inductive Check where
  | challenge | forbidden | passed
  deriving DecidableEq

/-- The realm check of `invite`. A null `uri` or `nonce` ends the program. -/
def check (m : Message) (reg : SipRegistration) : Option String → Option Check
  | none => some .passed
  | some _ =>
    match m.authorization with
    | some ⟨some username, uri, nonce, some _⟩ =>
      match uri, nonce with
      | some _, some _ =>
        some (if eq (some (removeQuotes username)) (some reg.uuid) then .passed else .forbidden)
      | _, _ => none
    | _ => some .challenge

def reject (ctx : Context) (tid : Int) : Option Status × Sip n → Sip n
  | (none, s) => s
  | (some status, s) => s.send ⟨.answer, some ctx, tid, status⟩

def admitTo (s : Sip n) (i : Fin n) (reg : SipRegistration) (ctx : Context) (m : Message)
    (tid did : Int) (out : Outside) : Option (Sip n) :=
  let reply (s : Sip n) (status : Status) : Sip n := s.send ⟨.answer, some ctx, tid, status⟩
  (check m reg out.realm).map fun
    | .challenge => if out.made then reply s .unauthorized else s
    | .forbidden => reply s .forbidden
    | .passed => reject ctx tid (s.incoming i reg m tid did out)

/-- `thread::invite`, for the context of the thread. -/
def invite (driver : SipDriver) (s : Sip n) (ctx : Context) (m : Message) (tid did : Int)
    (cid : Nat) (out : Outside) : Option (Sip n) :=
  let reply (s : Sip n) (status : Status) : Sip n := s.send ⟨.answer, some ctx, tid, status⟩
  match m.toHeader, m.fromHeader, m.reqUri with
  | some _, some _, some uri =>
    let uuid := uri.username.getD ""
    if uuid = "" then some (reply s .addressIncomplete)
    else
      match contact driver.registrations uuid with
      | none => some (reply s .notFound)
      | some reg =>
        match driver.server.registrations[reg.base]? with
        | none => none
        | some base =>
          match s.pool.invite driver.server base reg.base cid out.now out.ending with
          | (none, p) => some (reply { s with pool := p } .temporarilyUnavailable)
          | (some i, p) =>
            ({ s with pool := p }.clearLeg i (out.context.or driver.outContext)).admitTo i reg ctx m
              tid did out
  | _, _, _ => some (reply s .undecipherable)

end Sip

inductive Method where
  | options | bye | other
  deriving DecidableEq, Repr

/-- The events of the library that lead to a response or reach a timeslot. An INVITE
comes with a request or without one. -/
inductive SipEvent where
  | callInvite (request : Option Message) (tid did cid : Int)
  | callClosed (cid : Nat)
  | callReleased (cid : Nat)
  | messageNew (request : Option Method) (tid : Int) (cid : Nat)
  | other

def SipEvent.tid : SipEvent → Option Int
  | .callInvite _ tid _ _ | .messageNew _ tid _ => some tid
  | _ => none

namespace Sip
variable {n : Nat} (driver : SipDriver)

def postCall (s : Sip n) (cid : Nat) (event : EventId) (out : Outside) : Sip n :=
  match s.pool.get cid with
  | none => s
  | some i => ((hooks driver.server n).post s i out.ans event).1

/-- The body of the loop of `thread::run`. -/
def run (s : Sip n) (ctx : Context) (out : Outside) : SipEvent → Option (Sip n)
  | .callInvite request tid did cid =>
    match request with
    | none => some s
    | some m => if cid < 1 then some s else s.invite driver ctx m tid did cid.toNat out
  | .callClosed cid => some (s.postCall driver cid .drop out)
  | .callReleased cid => some (s.postCall driver cid .release out)
  | .messageNew request tid cid =>
    let answer (s : Sip n) (status : Status) : Sip n := s.send ⟨.answer, some ctx, tid, status⟩
    match request with
    | some .options =>
      let status := if out.made then Status.ok else .badRequest
      some (answer (s.send ⟨.options, some ctx, tid, status⟩) .ok)
    | some .bye =>
      match s.pool.get cid with
      | none => some (answer s .badRequest)
      | some _ => some (answer (s.postCall driver cid .drop out) .ok)
    | _ => some (answer s .badRequest)
  | .other => some s

end Sip

/-- An event thread handles an event, the background thread looks at the timer of a slot,
or another thread posts an event to a slot. -/
inductive SipAction (n : Nat) where
  | event (ctx : Context) (e : SipEvent) (out : Outside)
  | expire (i : Fin n) (read : Timeout → Timeout) (ans : Answers)
  | post (i : Fin n) (event : EventId) (ans : Answers)

namespace Sip
variable {n : Nat} (driver : SipDriver)

/-- The library gives each incoming request a transaction id of its own, never -1. -/
def step (s : Sip n) : SipAction n → Option (Sip n)
  | .event ctx e out =>
    match e.tid with
    | none => s.run driver ctx out e
    | some tid =>
      if tid = -1 ∨ tid ∈ s.requests then none
      else { s with requests := s.requests ++ [tid] }.run driver ctx out e
  | .expire i read ans =>
    let v := hooks driver.server n
    some (v.expire (v.getExpires s i read) i ans).1
  | .post i event ans => some ((hooks driver.server n).post s i ans event).1

end Sip

end Bayonne
