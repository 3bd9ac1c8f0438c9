import Bayonne.Base.Run
import Bayonne.Base.Threads
import Bayonne.Timeslot

/-! The three forms of `assign`, `release` and `disable` as threads run them. A section
between `modify` and `commit` is one step; every other statement that touches a timeslot,
a list or a mutex is a step of its own. The `commit` calls of the range forms, which hold
nothing, have no effect here. -/
namespace Bayonne
open Threads (Code)

/-- The locals of a thread: `call` and `path`. -/
structure Locals where
  call : Dbi
  path : Fin indexSize

def Dbi.cleared : Dbi where
  type := .start
  timeslot := 0
  sequence := 0
  starting := 0
  duration := 0
  reason := ""
  source := ""
  target := ""
  script := ""
  optional := none

def Locals.fresh : Locals := ⟨.cleared, Bayonne.path 0⟩

/-- The statements about one timeslot. `skip` is `timeslots = Next`, `relist` the section
at the end of `release`, and `ret` the `return` of an `assign` for a call id. -/
inductive Stmt where
  | write (f : Timeslot → Timeslot)
  | note (f : Timeslot → Locals → Locals)
  | tally (f : Timeslot → Counters → Counters)
  | record
  | skip
  | delist (r : Root)
  | enlist (r : Root)
  | unlock
  | relist
  | ret (cid : Nat)

inductive Cond where
  | head
  | slot (c : Timeslot → Bool)

namespace Stmt

def fill (f : Timeslot → Dbi → Dbi) : Stmt := .note fun t l => { l with call := f t l.call }

def setMapped (id : Char) (state : String) : List Stmt :=
  [.write fun t => { t with mapped := { t.mapped with id := id } },
    .write fun t => { t with mapped := { t.mapped with state := setString 15 state } }]

def fillCall (type : DbiType) : List Stmt :=
  [fill fun _ r => { r with type := type },
    fill fun t r => { r with timeslot := t.inst },
    fill fun t r => { r with sequence := t.sequence },
    fill fun t r => { r with starting := t.mapped.started }]

def fillTexts : List Stmt :=
  [fill fun t r => { r with source := setString 64 t.mapped.source },
    fill fun t r => { r with target := setString 64 t.mapped.target },
    fill fun t r => { r with script := setString 64 t.mapped.script },
    .record]

def setIdle : List Stmt :=
  setMapped '-' "idle" ++
  [.write fun t => { t with connected := false, answered := false },
    .write fun t => { t with handler := .idle },
    .write fun t => { t with mapped := { t.mapped with started := 0 } },
    .write fun t => { t with mapped := { t.mapped with type := .none } },
    .write fun t => { t with mapped := { t.mapped with source := "-" } },
    .write fun t => { t with mapped := { t.mapped with target := "-" } },
    .write fun t => { t with mapped := { t.mapped with script := "-" } },
    .write (·.disarm)]

def hangup : List Stmt :=
  .write (fun t => { t with connected := false }) ::
    (setMapped '-' "release" ++ [.write fun t => { t with handler := .release }])

section Calls
variable (server : Server)

def allocate (cid : Nat) (stat : Stat) (reg : Option Nat) (now : Now) (rest : Code Stmt Cond) :
    Code Stmt Cond :=
  let counted := Code.steps
    ([.write fun t => { t with sequence := t.sequence + 1 },
      .tally fun t c => c.assign (server.node .system) t.stats,
      .tally fun t c => c.assign (server.nodeOf .span t.span) t.stats,
      .tally fun t c => c.assign (server.nodeOf .board t.board) t.stats,
      .note fun _ l => { l with call := .cleared }] ++
      fillCall .start ++
      [fill fun _ r => { r with duration := 0 },
        fill fun _ r => { r with reason := setString 16 "start" }] ++ fillTexts) rest
  let listed := Code.steps
    [.enlist (.assigned (Bayonne.path cid)),
      .write fun t => { t with cid := cid },
      .write fun t => { t with optional := none },
      .write fun t => { t with reason := none },
      .write fun t => { t with stats := stat },
      .write fun t => { t with registry := reg }]
    (.guarded (.slot fun t => t.handler = .idle)
      (.write fun t => { t with handler := .release }) counted)
  .step (.write (·.stamp now))
    (.test .head (.step .skip listed) (.step (.delist .timeslots) listed))

def release (ans : Answers) (rest : Code Stmt Cond) : Code Stmt Cond :=
  let unlocked := Code.steps
    [.tally fun t c => c.release (server.nodeOf .span t.span) t.stats
        (ans.lastcall (.span (t.span.getD 0))),
      .tally fun t c => c.release (server.nodeOf .board t.board) t.stats
        (ans.lastcall (.board (t.board.getD 0))),
      .write fun t => { t with registry := none },
      .unlock,
      .relist] rest
  let given := Code.steps
    (fillCall .stop ++
      [fill fun t r => { r with optional := t.optional },
        fill fun t r => { r with duration := UInt64.ofInt (ans.ending - t.mapped.started) },
        fill fun t r => { r with reason := setString 16 (t.reason.getD "") }] ++ fillTexts ++
      setIdle ++
      [.tally fun t c => c.release (server.node .system) t.stats (ans.lastcall .system)])
    (.guarded (.slot fun t => t.registry.isSome)
      (.tally fun t c => c.release (server.nodeOf .registry t.registry) t.stats
        (ans.lastcall (.registry (t.registry.getD 0)))) unlocked)
  .step (.note fun t _ => ⟨.cleared, Bayonne.path t.cid⟩)
    (.guarded (.slot fun t => t.reason.isNone) (.write (·.giveReason)) given)

def offline (ans : Answers) (rest : Code Stmt Cond) : Code Stmt Cond :=
  Code.steps
    ([.write fun t => { t with mapped := { t.mapped with type := .none } },
      .write (·.stamp ans.now),
      .write (·.disarm)] ++ setMapped '.' "offline" ++
      [.write fun t => { t with handler := .offline },
        .write fun t => { t with connected := false, answered := false },
        .unlock,
        .delist .timeslots]) rest

def disable (ans : Answers) (rest : Code Stmt Cond) : Code Stmt Cond :=
  .test (.slot fun t => t.mapped.started ≠ 0)
    (.steps hangup (release server ans (offline ans rest))) (offline ans rest)

end Calls
end Stmt

inductive Order where
  | release | disable
  deriving DecidableEq, Repr

def Order.code (server : Server) (ans : Answers) : Order → Handler → Option (Code Stmt Cond)
  | .disable, .idle | .disable, .release | .disable, .script =>
    some (Stmt.disable server ans .done)
  | .release, .release | .release, .script => some (Stmt.release server ans .done)
  | .release, .idle | _, .offline => none

/-- Where a thread is: outside the operations, in the scan of a range form at a position,
in `post` with the mutex of a slot before the handler or after it has rejected the event,
or at a statement about a slot. -/
inductive Thread (n : Nat) where
  | ready
  | scanning (stat : Stat) (pos ending : UInt32) (cid : Option Nat) (now : Now)
  | posting (i : Fin n) (order : Order) (ans : Answers)
  | rejected (i : Fin n)
  | running (i : Fin n) (l : Locals) (code : Code Stmt Cond)

def Thread.at {n : Nat} (i : Fin n) (l : Locals) : Code Stmt Cond → Thread n
  | .done => .ready
  | code => .running i l code

/-- What an `assign` for `cid` returns: the slot, and as it is at that moment its call, its
handler and whether it is out, that is returned before without a release since. -/
structure Return (n : Nat) where
  slot : Fin n
  cid : Nat
  call : Nat
  handler : Handler
  out : Bool
  deriving DecidableEq

/-- The caller has the slot to itself, for its own call. -/
def Return.Good {n : Nat} (r : Return n) : Prop :=
  r.call = r.cid ∧ r.handler ≠ .offline ∧ r.out = false

instance {n : Nat} (r : Return n) : Decidable r.Good := inferInstanceAs (Decidable (_ ∧ _))

/-- `held` are the slot mutexes, `out` the slots that an `assign` has returned and no
release has finished on since. -/
structure Machine (n : Nat) where
  pool : Pool n
  held : Fin n → Bool
  out : Fin n → Bool
  returns : List (Return n)
  thread : Nat → Thread n

namespace Machine
variable {n : Nat}

def start (server : Server) (raw : Fin n → Raw) : Machine n where
  pool := Pool.construct server raw
  held := fun _ => false
  out := fun _ => false
  returns := []
  thread := fun _ => .ready

def exec (i : Fin n) (s : Stmt) : Machine n × Locals → Machine n × Locals
  | (m, l) =>
    match s with
    | .write f => ({ m with pool := m.pool.modify i f }, l)
    | .note f => (m, f (m.pool.slot i) l)
    | .tally f =>
      ({ m with pool := { m.pool with counters := f (m.pool.slot i) m.pool.counters } }, l)
    | .record => ({ m with pool := m.pool.postRecord i l.call }, l)
    | .skip => ({ m with pool := { m.pool with links := m.pool.links.skip .timeslots i } }, l)
    | .delist r => ({ m with pool := m.pool.delist r i }, l)
    | .enlist r => ({ m with pool := m.pool.enlist r i }, l)
    | .unlock =>
      ({ m with pool := m.pool.unlock i, held := Function.update m.held i false }, l)
    | .relist =>
      ({ m with pool := m.pool.relist i l.path, out := Function.update m.out i false }, l)
    | .ret cid =>
      ({ m with
        out := Function.update m.out i true
        returns := m.returns ++
          [⟨i, cid, (m.pool.slot i).cid, (m.pool.slot i).handler, m.out i⟩] }, l)

def eval (i : Fin n) (c : Cond) : Machine n × Locals → Bool
  | (m, _) =>
    match c with
    | .head => m.pool.links.root .timeslots = some i
    | .slot c => c (m.pool.slot i)

def unused (m : Machine n) (pos : UInt32) : Option (Fin n) :=
  if h : pos.toNat < n then
    if (m.pool.slot ⟨pos.toNat, h⟩).mapped.started = 0 then some ⟨pos.toNat, h⟩ else none
  else none

def move (m : Machine n) (t : Nat) (at' : Thread n) : Machine n :=
  { m with thread := Function.update m.thread t at' }

end Machine

inductive Move (n : Nat) where
  | assign (t : Nat) (reg : Option Nat) (stat : Stat) (cid : Nat) (now : Now)
  | range (t : Nat) (stat : Stat) (starting ending : UInt32) (cid : Option Nat) (now : Now)
  | post (t : Nat) (i : Fin n) (order : Order) (ans : Answers)
  | next (t : Nat)

namespace Machine
variable {n : Nat} (server : Server)

/-- The next step of a thread. The range form without a call id takes the position. -/
def next (m : Machine n) (t : Nat) : Option (Machine n) :=
  match m.thread t with
  | .ready => none
  | .scanning stat pos ending cid now =>
    if pos ≤ ending then
      match m.unused pos with
      | none => some (m.move t (.scanning stat (pos + 1) ending cid now))
      | some i =>
        let cid := cid.getD pos.toNat
        some (m.move t (.running i .fresh
          (Stmt.allocate server cid stat none now (.step (.ret cid) .done))))
    else some (m.move t .ready)
  | .posting i order ans =>
    match order.code server ans (m.pool.slot i).handler with
    | some code => some (m.move t (.at i .fresh code))
    | none => some (m.move t (.rejected i))
  | .rejected i => some ((exec i .unlock (m, .fresh)).1.move t .ready)
  | .running _ _ .done => none
  | .running i l (.step s rest) =>
    let (m, l) := exec i s (m, l)
    some (m.move t (.at i l rest))
  | .running i l (.test c yes no) =>
    some (m.move t (.at i l (if eval i c (m, l) then yes else no)))

/-- `post` waits for the mutex of the slot. -/
def step (m : Machine n) : Move n → Option (Machine n)
  | .assign t reg stat cid now =>
    match m.thread t with
    | .ready =>
      match m.pool.assign server reg stat cid now with
      | (none, _) => some m
      | (some i, p) =>
        some ({ m with pool := p }.move t (.running i .fresh (.step (.ret cid) .done)))
    | _ => none
  | .range t stat starting ending cid now =>
    match m.thread t with
    | .ready => some (m.move t (.scanning stat starting ending cid now))
    | _ => none
  | .post t i order ans =>
    match m.thread t, m.held i with
    | .ready, false =>
      some ({ m with
        pool := m.pool.lock i
        held := Function.update m.held i true }.move t (.posting i order ans))
    | _, _ => none
  | .next t => m.next server t

section Alone
variable (m : Machine n) (l : Locals) (i : Fin n)

/-- A thread that nothing interrupts computes the whole operation. -/
theorem run_allocate (cid : Nat) (stat : Stat) (reg : Option Nat) (now : Now) :
    ((Stmt.allocate server cid stat reg now .done).run (exec i) (eval i) (m, l)).1 =
      { m with pool := m.pool.allocate server i cid stat reg now } := by
  by_cases head : m.pool.links.root .timeslots = some i <;>
    by_cases idle : (m.pool.slot i).handler = .idle <;>
    simp [Stmt.allocate, Code.run, Code.steps, Code.guarded, Stmt.fillCall, Stmt.fillTexts,
      Stmt.fill, exec, eval, Pool.allocate, Pool.unlist, Pool.modify, Pool.assignNode, Pool.enlist,
      Pool.delist, Pool.postRecord, Timeslot.stamp, Timeslot.serve, Timeslot.startRecord,
      Dbi.cleared, head, idle]

theorem run_release (ans : Answers) :
    ((Stmt.release server ans .done).run (exec i) (eval i) (m, l)).1 =
      { m with
        pool := m.pool.release server i ans
        held := Function.update m.held i false
        out := Function.update m.out i false } := by
  cases reg : (m.pool.slot i).registry <;>
    cases why : (m.pool.slot i).reason <;>
    simp [Stmt.release, Code.run, Code.steps, Code.guarded, Stmt.fillCall, Stmt.fillTexts,
      Stmt.setIdle, Stmt.setMapped, Stmt.fill, exec, eval, Pool.release, Pool.releaseCall,
      Pool.relist, Pool.unlock, Pool.modify, Pool.releaseNode, Pool.enlist, Pool.delist,
      Pool.postRecord, Timeslot.giveReason, Timeslot.setIdle, Timeslot.disarm,
      Timeslot.stopRecord, Mapped.setMapped, Counters.release, Server.nodeOf, Dbi.cleared, reg, why]

theorem run_disable (ans : Answers) :
    ((Stmt.disable server ans .done).run (exec i) (eval i) (m, l)).1 =
      { m with
        pool := m.pool.disable server i ans
        held := Function.update m.held i false
        out := if (m.pool.slot i).mapped.started = 0 then m.out
          else Function.update m.out i false } := by
  by_cases unused : (m.pool.slot i).mapped.started = 0
  · simp [Stmt.disable, Stmt.offline, Code.run, Code.steps, Stmt.setMapped, exec, eval,
      Pool.disable, Pool.unlock, Pool.modify, Pool.delist, Timeslot.setOffline, Timeslot.disarm,
      Timeslot.stamp, Mapped.setMapped, unused]
  · cases reg : (m.pool.slot i).registry <;>
      cases why : (m.pool.slot i).reason <;>
      simp [Stmt.disable, Stmt.offline, Stmt.release, Code.run, Code.steps, Code.guarded,
        Stmt.fillCall, Stmt.fillTexts, Stmt.hangup, Stmt.setIdle, Stmt.setMapped, Stmt.fill, exec,
        eval, Pool.disable, Pool.release, Pool.releaseCall, Pool.relist, Pool.unlock, Pool.modify,
        Pool.releaseNode, Pool.enlist, Pool.delist, Pool.postRecord, Timeslot.giveReason,
        Timeslot.hangup, Timeslot.disconnect, Timeslot.stopRecord, Timeslot.setIdle,
        Timeslot.setOffline, Timeslot.disarm, Timeslot.stamp, Mapped.setMapped, Counters.release,
        Server.nodeOf, Dbi.cleared, unused, reg, why]

end Alone

end Machine

end Bayonne
