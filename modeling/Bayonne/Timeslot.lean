import Bayonne.Base.Linked
import Bayonne.Registry

/-! Timeslots: the slot record, the free list and the call index that share its link,
and the state machine that the events of a call drive. -/
namespace Bayonne

abbrev indexSize : Nat := 177

def path (cid : Nat) : Fin indexSize := Fin.ofNat indexSize cid

/-- The roots that share the link of a timeslot. -/
inductive Root where
  | timeslots
  | assigned (path : Fin indexSize)
  deriving DecidableEq

/-- A reading of `time()`, which is never 0. -/
abbrev Now := { t : Time // t ≠ 0 }

def tick (k : Nat) : Now := ⟨Int.ofNat (k + 1), fun zero => by cases zero⟩

/-- `timeout_t`, with `Timer::inf`. -/
inductive Timeout where
  | inf
  | after (ms : Nat)
  deriving DecidableEq

def setString (size : Nat) (s : String) : String := String.ofList (s.toList.take (size - 1))

inductive Handler where
  | idle | release | script | offline
  deriving DecidableEq, Repr

/-- `event_t::id`; the drivers number their own events after the common ones. -/
inductive EventId where
  | reject | shutdown | timeout | drop | hangup | release | enable | disable
  | other (id : Nat)
  deriving DecidableEq, Repr

inductive CallType where
  | none | dialed | local | remote | divert | recall
  deriving DecidableEq, Repr

/-- `mapped_t`. `id` is `state[0]` and `state` the text after it. -/
structure Mapped where
  type : CallType
  started : Time
  id : Char
  state : String
  source : String
  target : String
  script : String

structure Timeslot where
  cid : Nat
  stats : Stat
  mapped : Mapped
  expires : Timeout
  timer : Timeout
  handler : Handler
  inst : UInt32
  sequence : UInt32
  reason : Option String
  optional : Option String
  connected : Bool
  answered : Bool
  registry : Option Nat
  board : Option Nat
  span : Option Nat

inductive DbiType where
  | start | stop | query | update | append | index
  deriving DecidableEq, Repr

structure Dbi where
  type : DbiType
  timeslot : UInt32
  sequence : UInt32
  starting : Time
  duration : UInt64
  reason : String
  source : String
  target : String
  script : String
  optional : Option String

def Mapped.setMapped (m : Mapped) (id : Char) (state : Option String) : Mapped :=
  { m with
    id := id
    state := match state with
      | some text => setString 15 text
      | none => m.state }

/-- The members that `Timeslot::Timeslot` leaves uninitialised, and the board and span a
driver gives the slot. -/
structure Raw where
  cid : Nat
  stats : Stat
  reason : Option String
  optional : Option String
  board : Option Nat
  span : Option Nat

namespace Timeslot

def construct (inst : UInt32) (raw : Raw) : Timeslot where
  cid := raw.cid
  stats := raw.stats
  mapped :=
    { type := .none, started := 0, id := '-', state := setString 15 "idle"
      source := "-", target := "-", script := "-" }
  expires := .inf
  timer := .inf
  handler := .idle
  inst := inst
  sequence := 0
  reason := raw.reason
  optional := raw.optional
  connected := false
  answered := false
  registry := none
  board := raw.board
  span := raw.span

def arm (t : Timeslot) (timeout : Timeout) : Timeslot := { t with timer := timeout }

def disarm (t : Timeslot) : Timeslot := { t with timer := .inf }

/-- A timer that has run out is disarmed as it is read. -/
def readTimer (t : Timeslot) (read : Timeout → Timeout) : Timeslot :=
  let expires := read t.timer
  { t with expires := expires, timer := if expires = .after 0 then .inf else t.timer }

def setIdle (t : Timeslot) : Timeslot :=
  let mapped := t.mapped.setMapped '-' (some "idle")
  disarm
    { t with
      connected := false
      answered := false
      handler := .idle
      mapped :=
        { mapped with started := 0, type := .none, source := "-", target := "-", script := "-" } }

def setScripting (t : Timeslot) (stepping : Timeout) : Timeslot :=
  arm { t with mapped := t.mapped.setMapped '$' (some "script"), handler := .script } stepping

def disconnect (t : Timeslot) : Timeslot :=
  { t with
    connected := false
    mapped := t.mapped.setMapped '-' (some "release")
    handler := .release }

def hangup (t : Timeslot) : Timeslot := t.disconnect

/-- The statements of `disable` after the call is over, up to the unlock. -/
def setOffline (t : Timeslot) (now : Now) : Timeslot :=
  let t := disarm { t with mapped := { t.mapped with type := .none, started := now } }
  { t with
    mapped := t.mapped.setMapped '.' (some "offline")
    handler := .offline
    connected := false
    answered := false }

def stamp (t : Timeslot) (now : Now) : Timeslot :=
  { t with mapped := { t.mapped with started := now } }

def serve (t : Timeslot) (cid : Nat) (stat : Stat) (reg : Option Nat) : Timeslot :=
  { t with
    cid := cid
    optional := none
    reason := none
    stats := stat
    registry := reg
    handler := if t.handler = .idle then .release else t.handler
    sequence := t.sequence + 1 }

def startRecord (t : Timeslot) : Dbi where
  type := .start
  timeslot := t.inst
  sequence := t.sequence
  starting := t.mapped.started
  duration := 0
  reason := setString 16 "start"
  source := setString 64 t.mapped.source
  target := setString 64 t.mapped.target
  script := setString 64 t.mapped.script
  optional := none

def giveReason (t : Timeslot) : Timeslot := { t with reason := some (t.reason.getD "release") }

def stopRecord (t : Timeslot) (ending : Time) : Dbi where
  type := .stop
  timeslot := t.inst
  sequence := t.sequence
  starting := t.mapped.started
  duration := UInt64.ofInt (ending - t.mapped.started)
  reason := setString 16 (t.reason.getD "")
  source := setString 64 t.mapped.source
  target := setString 64 t.mapped.target
  script := setString 64 t.mapped.script
  optional := t.optional

end Timeslot

/-- The statistics table while calls run. `drops` keeps the counter each decrement was
about to take down. -/
structure Counters where
  shm : Nat → Statmap
  drops : List UInt16

namespace Counters

def assign (c : Counters) (node : Option Nat) (stat : Stat) : Counters :=
  match node with
  | none => c
  | some k => { c with shm := Function.update c.shm k ((c.shm k).assign stat) }

def release (c : Counters) (node : Option Nat) (stat : Stat) (now : Time) : Counters :=
  match node with
  | none => c
  | some k =>
    { shm := Function.update c.shm k ((c.shm k).release stat now)
      drops := c.drops ++ [(c.shm k).current stat] }

end Counters

inductive MutexOp where
  | lock | unlock
  deriving DecidableEq, Repr

/-- The timeslots of a server, the lists they are on, and what they have done: `calls` are
the records posted, each with the slot that posted it, `mutexes` what happened to the slot
mutexes. -/
structure Pool (n : Nat) where
  slot : Fin n → Timeslot
  links : Linked.Links Root (Fin n)
  counters : Counters
  calls : List (Fin n × Dbi)
  mutexes : List (Fin n × MutexOp)

/-- What the outside answers during one call into a timeslot: the clock at the end of a
call, at each node that counts it off and at `enable` or `disable`, whether
`interp::step` has more to run, and `Driver::getStepping`, which the settings give. -/
structure Answers where
  ending : Time
  lastcall : Owner → Time
  now : Now
  stepped : Bool
  stepping : Timeout

def Answers.at (now : Now) (stepped : Bool) : Answers :=
  ⟨now, fun _ => now, now, stepped, .after 50⟩

namespace Pool
variable {n : Nat}

def modify (p : Pool n) (i : Fin n) (f : Timeslot → Timeslot) : Pool n :=
  { p with slot := Function.update p.slot i (f (p.slot i)) }

def lock (p : Pool n) (i : Fin n) : Pool n := { p with mutexes := p.mutexes ++ [(i, .lock)] }

def unlock (p : Pool n) (i : Fin n) : Pool n := { p with mutexes := p.mutexes ++ [(i, .unlock)] }

def postRecord (p : Pool n) (i : Fin n) (rec : Dbi) : Pool n :=
  { p with calls := p.calls ++ [(i, rec)] }

def assignNode (p : Pool n) (node : Option Nat) (stat : Stat) : Pool n :=
  { p with counters := p.counters.assign node stat }

def releaseNode (p : Pool n) (node : Option Nat) (stat : Stat) (now : Time) : Pool n :=
  { p with counters := p.counters.release node stat now }

def enlist (p : Pool n) (r : Root) (i : Fin n) : Pool n := { p with links := p.links.enlist r i }

def delist (p : Pool n) (r : Root) (i : Fin n) : Pool n := { p with links := p.links.delist r i }

/-- How `allocate` takes its slot off the free list. -/
def unlist (p : Pool n) (i : Fin n) : Pool n :=
  if p.links.root .timeslots = some i then { p with links := p.links.skip .timeslots i }
  else p.delist .timeslots i

@[simp] theorem slot_modify (p : Pool n) (i : Fin n) (f : Timeslot → Timeslot) :
    (p.modify i f).slot i = f (p.slot i) := by
  simp [modify]

theorem slot_modify_of_ne (p : Pool n) {i j : Fin n} (f : Timeslot → Timeslot) (ne : j ≠ i) :
    (p.modify i f).slot j = p.slot j := by
  simp [modify, Function.update_of_ne ne]

theorem modify_modify (p : Pool n) (i : Fin n) (f g : Timeslot → Timeslot) :
    (p.modify i f).modify i g = p.modify i fun t => g (f t) := by
  simp [modify]

@[simp] theorem slot_lock (p : Pool n) (i : Fin n) : (p.lock i).slot = p.slot := rfl
@[simp] theorem slot_unlock (p : Pool n) (i : Fin n) : (p.unlock i).slot = p.slot := rfl
@[simp] theorem slot_enlist (p : Pool n) (r : Root) (i : Fin n) : (p.enlist r i).slot = p.slot := rfl
@[simp] theorem slot_delist (p : Pool n) (r : Root) (i : Fin n) : (p.delist r i).slot = p.slot := rfl

@[simp] theorem slot_unlist (p : Pool n) (i : Fin n) : (p.unlist i).slot = p.slot := by
  unfold unlist
  split <;> rfl

@[simp] theorem slot_postRecord (p : Pool n) (i : Fin n) (rec : Dbi) :
    (p.postRecord i rec).slot = p.slot := rfl

@[simp] theorem slot_assignNode (p : Pool n) (node : Option Nat) (stat : Stat) :
    (p.assignNode node stat).slot = p.slot := rfl

@[simp] theorem slot_releaseNode (p : Pool n) (node : Option Nat) (stat : Stat) (now : Time) :
    (p.releaseNode node stat now).slot = p.slot := rfl

/-- The slots constructed one after another, each onto the front of the free list. -/
def construct (server : Server) (raw : Fin n → Raw) : Pool n where
  slot := fun i => Timeslot.construct (UInt32.ofNat i) (raw i)
  links := (List.finRange n).foldl (fun l i => l.enlist .timeslots i) ⟨fun _ => none, fun _ => none⟩
  counters := ⟨server.table.shm, []⟩
  calls := []
  mutexes := []

def get (p : Pool n) (cid : Nat) : Option (Fin n) :=
  match Linked.find p.links.next (fun i => (p.slot i).cid = cid) n
      (p.links.root (.assigned (path cid))) with
  | none => none
  | some i => if (p.slot i).mapped.started = 0 then none else some i

section Functions
variable (server : Server)

def allocate (p : Pool n) (i : Fin n) (cid : Nat) (stat : Stat) (reg : Option Nat) (now : Now) :
    Pool n :=
  let p := (p.modify i (·.stamp now)).unlist i
  let p := p.enlist (.assigned (path cid)) i
  let p := p.modify i (·.serve cid stat reg)
  let p := p.assignNode (server.node .system) stat
  let p := p.assignNode (server.nodeOf .span (p.slot i).span) stat
  let p := p.assignNode (server.nodeOf .board (p.slot i).board) stat
  p.postRecord i (p.slot i).startRecord

theorem slot_allocate (p : Pool n) (i : Fin n) (cid : Nat) (stat : Stat) (reg : Option Nat)
    (now : Now) : (p.allocate server i cid stat reg now).slot =
      Function.update p.slot i (((p.slot i).stamp now).serve cid stat reg) := by
  simp [allocate, modify]

/-- Skipping the head of the free list is what `delist` does there. -/
theorem links_allocate (p : Pool n) (i : Fin n) (cid : Nat) (stat : Stat) (reg : Option Nat)
    (now : Now) : (p.allocate server i cid stat reg now).links =
      (p.links.delist .timeslots i).enlist (.assigned (path cid)) i := by
  by_cases head : p.links.root .timeslots = some i
  · simp [allocate, unlist, modify, enlist, postRecord, assignNode, head, Linked.delist_head head]
  · simp [allocate, unlist, modify, enlist, delist, postRecord, assignNode, head]

/-- The form of `assign` that network drivers use. -/
def assign (p : Pool n) (reg : Option Nat) (stat : Stat) (cid : Nat) (now : Now) :
    Option (Fin n) × Pool n :=
  match p.links.root .timeslots with
  | none => (none, p)
  | some i => (some i, p.allocate server i cid stat reg now)

/-- `release` up to `mutex.release()`. -/
def releaseCall (p : Pool n) (i : Fin n) (ans : Answers) : Pool n :=
  let p := p.modify i (·.giveReason)
  let t := p.slot i
  let p := p.postRecord i (t.stopRecord ans.ending)
  let p := p.modify i (·.setIdle)
  let p := p.releaseNode (server.node .system) t.stats (ans.lastcall .system)
  let p := p.releaseNode (server.nodeOf .registry t.registry) t.stats
    (ans.lastcall (.registry (t.registry.getD 0)))
  let p := p.releaseNode (server.nodeOf .span t.span) t.stats
    (ans.lastcall (.span (t.span.getD 0)))
  let p := p.releaseNode (server.nodeOf .board t.board) t.stats
    (ans.lastcall (.board (t.board.getD 0)))
  let p := p.modify i fun t => { t with registry := none }
  p.unlock i

/-- The list section at the end of `release`, with the chain found at its beginning. -/
def relist (p : Pool n) (i : Fin n) (path : Fin indexSize) : Pool n :=
  (p.delist (.assigned path) i).enlist .timeslots i

def release (p : Pool n) (i : Fin n) (ans : Answers) : Pool n :=
  (p.releaseCall server i ans).relist i (path (p.slot i).cid)

theorem slot_release (p : Pool n) (i : Fin n) (ans : Answers) :
    (p.release server i ans).slot =
      Function.update p.slot i { (p.slot i).giveReason.setIdle with registry := none } := by
  simp [release, releaseCall, relist, modify]

theorem links_release (p : Pool n) (i : Fin n) (ans : Answers) :
    (p.release server i ans).links =
      (p.links.delist (.assigned (path (p.slot i).cid)) i).enlist .timeslots i := by
  simp [release, releaseCall, relist, modify, enlist, delist, postRecord, releaseNode, unlock]

def enable (p : Pool n) (i : Fin n) : Pool n :=
  ((p.modify i (·.setIdle)).unlock i).enlist .timeslots i

def disable (p : Pool n) (i : Fin n) (ans : Answers) : Pool n :=
  let p :=
    if (p.slot i).mapped.started = 0 then p
    else (p.modify i (·.hangup)).release server i ans
  ((p.modify i (·.setOffline ans.now)).unlock i).delist .timeslots i

end Functions

end Pool

/-- What a driver makes of the hooks that the handlers call: its state holds the pool of
timeslots, and `lift` runs the common code on it. The hooks a driver leaves alone are not
listed. -/
structure Virtual (n : Nat) (σ : Type) where
  pool : σ → Pool n
  lift : σ → (Pool n → Pool n) → σ
  disconnect : σ → Fin n → Answers → EventId → σ × EventId
  hangup : σ → Fin n → Answers → EventId → σ × EventId
  release : σ → Fin n → Answers → EventId → σ × EventId
  disable : σ → Fin n → Answers → EventId → σ × EventId

namespace Virtual
variable {n : Nat} {σ : Type} (v : Virtual n σ) (s : σ) (i : Fin n) (ans : Answers)

def scriptHandler (event : EventId) : σ × EventId :=
  match event with
  | .disable => v.disable s i ans event
  | .release => v.release s i ans event
  | .drop => v.disconnect s i ans event
  | .hangup => v.hangup s i ans event
  | .timeout =>
    if ¬ ans.stepped then v.hangup s i ans event
    else if ((v.pool s).slot i).handler = .script then
      (v.lift s (·.modify i (·.arm ans.stepping)), event)
    else (s, event)
  -- `running`
  | _ => (s, .reject)

def offlineHandler (event : EventId) : σ × EventId :=
  match event with
  | .shutdown => (v.lift s (·.modify i (·.setIdle)), event)
  | .enable => (v.lift s (·.enable i), .release)
  | _ => (s, .reject)

def idleHandler (event : EventId) : σ × EventId :=
  match event with
  | .disable => v.disable s i ans event
  | .shutdown => (v.lift s (·.modify i (·.setIdle)), event)
  | _ => (s, .reject)

def releaseHandler (event : EventId) : σ × EventId :=
  match event with
  | .disable => v.disable s i ans event
  | .shutdown => (v.lift s (·.modify i (·.setIdle)), event)
  | .timeout | .release => v.release s i ans event
  | _ => (s, .reject)

def handle (event : EventId) : σ × EventId :=
  match ((v.pool s).slot i).handler with
  | .idle => v.idleHandler s i ans event
  | .release => v.releaseHandler s i ans event
  | .script => v.scriptHandler s i ans event
  | .offline => v.offlineHandler s i event

def post (event : EventId) : σ × EventId :=
  let out := v.handle (v.lift s (·.lock i)) i ans event
  (if out.2 = .release then out.1 else v.lift out.1 (·.unlock i), out.2)

def getExpires (read : Timeout → Timeout) : σ :=
  v.lift s fun p => (p.lock i).modify i (·.readTimer read)

def expire : σ × EventId :=
  let out :=
    if ((v.pool s).slot i).expires = .after 0 then v.handle s i ans .timeout else (s, .timeout)
  let s := v.lift out.1 (·.modify i fun t => { t with expires := .inf })
  (if out.2 = .release then s else v.lift s (·.unlock i), out.2)

end Virtual

def base (server : Server) (n : Nat) : Virtual n (Pool n) where
  pool := id
  lift := fun p f => f p
  disconnect := fun p i _ event => (p.modify i (·.disconnect), event)
  hangup := fun p i _ event => (p.modify i (·.hangup), event)
  release := fun p i ans _ => (p.release server i ans, .release)
  disable := fun p i ans _ => (p.disable server i ans, .release)

namespace Pool
variable {n : Nat} (server : Server)

def attach (p : Pool n) (reg : Registration) (stat : Stat) : Bool × Pool n :=
  let attached := reg.attach p.counters.shm stat
  (attached.1, { p with counters := { p.counters with shm := attached.2 } })

/-- An INVITE: take the registration's allowance, then a timeslot, and give the allowance
back when there is none. -/
def invite (p : Pool n) (reg : Registration) (r cid : Nat) (now : Now) (ending : Time) :
    Option (Fin n) × Pool n :=
  let attached := p.attach reg .incoming
  if attached.1 then
    match attached.2.assign server (some r) .incoming cid now with
    | (some i, p) => (some i, p)
    | (none, p) => (none, p.releaseNode reg.stats .incoming ending)
  else (none, attached.2)

end Pool

inductive Action (n : Nat) where
  | assign (reg : Option Nat) (stat : Stat) (cid : Nat) (now : Now)
  | invite (r cid : Nat) (now : Now) (ending : Time)
  | setScripting (i : Fin n) (stepping : Timeout)
  | post (i : Fin n) (event : EventId) (ans : Answers)
  | expire (i : Fin n) (read : Timeout → Timeout) (ans : Answers)

def Action.Ordinary {n : Nat} : Action n → Prop
  | .post _ event _ => event ≠ .shutdown
  | _ => True

instance {n : Nat} : (a : Action n) → Decidable a.Ordinary
  | .post _ event _ => inferInstanceAs (Decidable (event ≠ .shutdown))
  | .assign .. | .invite .. | .setScripting .. | .expire .. => .isTrue trivial

namespace Pool
variable {n : Nat} (server : Server)

/-- `setScripting` is for a slot that has been assigned and not been scripted since. -/
def step (p : Pool n) : Action n → Option (Pool n)
  | .assign reg stat cid now => some (p.assign server reg stat cid now).2
  | .invite r cid now ending =>
    server.registrations[r]?.map fun reg => (p.invite server reg r cid now ending).2
  | .setScripting i stepping =>
    if (p.slot i).handler = .release ∧ (p.slot i).mapped.started ≠ 0 then
      some (p.modify i (·.setScripting stepping))
    else none
  | .post i event ans => some ((base server n).post p i ans event).1
  | .expire i read ans =>
    let v := base server n
    some (v.expire (v.getExpires p i read) i ans).1

end Pool

end Bayonne
