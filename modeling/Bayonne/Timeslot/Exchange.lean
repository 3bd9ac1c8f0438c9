import Bayonne.Timeslot

/-! The purpose of the pool, without the event machine: an exchange of lines, each free,
busy with a call or offline, where four moves begin and end a call and take a line out of
service and back. Every operation on the pool is a few of these moves. -/
namespace Bayonne

inductive Phase where
  | free | busy | offline
  deriving DecidableEq, Repr

structure Line where
  phase : Phase
  started : Time
  cid : Nat
  stats : Stat
  registry : Option Nat
  board : Option Nat
  span : Option Nat
  inst : UInt32
  sequence : UInt32

/-- What a call record says about its call. -/
structure Mark where
  type : DbiType
  timeslot : UInt32
  sequence : UInt32
  starting : Time
  deriving DecidableEq

def Line.mark (l : Line) (type : DbiType) : Mark := ⟨type, l.inst, l.sequence, l.started⟩

def Line.start (l : Line) (cid : Nat) (stat : Stat) (reg : Option Nat) (now : Now) : Line :=
  { l with
    phase := .busy
    started := now
    cid := cid
    stats := stat
    registry := reg
    sequence := l.sequence + 1 }

def Line.finish (l : Line) : Line := { l with phase := .free, started := 0, registry := none }

structure Exchange (n : Nat) where
  line : Fin n → Line
  links : Linked.Links Root (Fin n)
  counters : Counters
  calls : List (Fin n × Mark)

namespace Exchange
variable {n : Nat} (server : Server)

def start (x : Exchange n) (i : Fin n) (cid : Nat) (stat : Stat) (reg : Option Nat) (now : Now) :
    Exchange n :=
  let l := (x.line i).start cid stat reg now
  { line := Function.update x.line i l
    links := (x.links.delist .timeslots i).enlist (.assigned (path cid)) i
    counters := ((x.counters.assign (server.node .system) stat).assign
      (server.nodeOf .span l.span) stat).assign (server.nodeOf .board l.board) stat
    calls := x.calls ++ [(i, l.mark .start)] }

def finish (x : Exchange n) (i : Fin n) (lastcall : Owner → Time) : Exchange n :=
  let l := x.line i
  let system := x.counters.release (server.node .system) l.stats (lastcall .system)
  let registry := system.release (server.nodeOf .registry l.registry) l.stats
    (lastcall (.registry (l.registry.getD 0)))
  let span := registry.release (server.nodeOf .span l.span) l.stats
    (lastcall (.span (l.span.getD 0)))
  { line := Function.update x.line i l.finish
    links := (x.links.delist (.assigned (path l.cid)) i).enlist .timeslots i
    counters := span.release (server.nodeOf .board l.board) l.stats
      (lastcall (.board (l.board.getD 0)))
    calls := x.calls ++ [(i, l.mark .stop)] }

def off (x : Exchange n) (i : Fin n) (now : Now) : Exchange n :=
  { x with
    line := Function.update x.line i { x.line i with phase := .offline, started := now }
    links := x.links.delist .timeslots i }

def on (x : Exchange n) (i : Fin n) : Exchange n :=
  { x with
    line := Function.update x.line i { x.line i with phase := .free, started := 0 }
    links := x.links.enlist .timeslots i }

section Lines
variable {server} (x : Exchange n) {i j : Fin n}

@[simp] theorem line_start (cid : Nat) (stat : Stat) (reg : Option Nat) (now : Now) :
    (x.start server i cid stat reg now).line i = (x.line i).start cid stat reg now := by
  simp [start]

@[simp] theorem line_finish (lastcall : Owner → Time) :
    (x.finish server i lastcall).line i = (x.line i).finish := by
  simp [finish]

@[simp] theorem line_off (now : Now) :
    (x.off i now).line i = { x.line i with phase := .offline, started := now } := by
  simp [off]

@[simp] theorem line_on : (x.on i).line i = { x.line i with phase := .free, started := 0 } := by
  simp [on]

theorem line_start_of_ne (ne : j ≠ i) (cid : Nat) (stat : Stat) (reg : Option Nat) (now : Now) :
    (x.start server i cid stat reg now).line j = x.line j := Function.update_of_ne ne _ _

theorem line_finish_of_ne (ne : j ≠ i) (lastcall : Owner → Time) :
    (x.finish server i lastcall).line j = x.line j := Function.update_of_ne ne _ _

theorem line_off_of_ne (ne : j ≠ i) (now : Now) : (x.off i now).line j = x.line j :=
  Function.update_of_ne ne _ _

theorem line_on_of_ne (ne : j ≠ i) : (x.on i).line j = x.line j := Function.update_of_ne ne _ _

end Lines

/-- What the exchange makes of one event on a line. -/
inductive Response (x : Exchange n) (i : Fin n) (ans : Answers) : Exchange n → Prop where
  | quiet : Response x i ans x
  | finish : (x.line i).phase = .busy → Response x i ans (x.finish server i ans.lastcall)
  | off : (x.line i).phase = .free → Response x i ans (x.off i ans.now)
  | finishOff : (x.line i).phase = .busy →
      Response x i ans ((x.finish server i ans.lastcall).off i ans.now)
  | on : (x.line i).phase = .offline → Response x i ans (x.on i)

def attach (x : Exchange n) (reg : Registration) : Exchange n :=
  { x with counters := { x.counters with shm := (reg.attach x.counters.shm .incoming).2 } }

/-- What the exchange makes of one operation. -/
inductive Outcome (x : Exchange n) : Action n → Exchange n → Prop where
  | full {reg stat cid now} :
      x.links.root .timeslots = none → Outcome x (.assign reg stat cid now) x
  | assigned {reg stat cid now} (i : Fin n) :
      x.links.root .timeslots = some i → (x.line i).phase = .free →
      Outcome x (.assign reg stat cid now) (x.start server i cid stat reg now)
  | refused {r cid now ending} (reg : Registration) :
      server.registrations[r]? = some reg → (reg.attach x.counters.shm .incoming).1 = false →
      Outcome x (.invite r cid now ending) x
  | returned {r cid now ending} (reg : Registration) :
      server.registrations[r]? = some reg → (reg.attach x.counters.shm .incoming).1 = true →
      x.links.root .timeslots = none →
      Outcome x (.invite r cid now ending)
        { x with counters := (x.attach reg).counters.release reg.stats .incoming ending }
  | admitted {r cid now ending} (reg : Registration) (i : Fin n) :
      server.registrations[r]? = some reg → (reg.attach x.counters.shm .incoming).1 = true →
      x.links.root .timeslots = some i → (x.line i).phase = .free →
      Outcome x (.invite r cid now ending)
        ((x.attach reg).start server i cid .incoming (some r) now)
  | scripted {i stepping} : Outcome x (.setScripting i stepping) x
  | posted {i event ans y} : Response server x i ans y → Outcome x (.post i event ans) y
  | expired {i read ans y} : Response server x i ans y → Outcome x (.expire i read ans) y

end Exchange

def Handler.phase : Handler → Phase
  | .idle => .free
  | .release | .script => .busy
  | .offline => .offline

def Timeslot.line (t : Timeslot) : Line where
  phase := t.handler.phase
  started := t.mapped.started
  cid := t.cid
  stats := t.stats
  registry := t.registry
  board := t.board
  span := t.span
  inst := t.inst
  sequence := t.sequence

def Dbi.mark (rec : Dbi) : Mark := ⟨rec.type, rec.timeslot, rec.sequence, rec.starting⟩

namespace Pool
variable {n : Nat} {server : Server}

def exchange (p : Pool n) : Exchange n where
  line := fun i => (p.slot i).line
  links := p.links
  counters := p.counters
  calls := p.calls.map fun call => (call.1, call.2.mark)

@[simp] theorem exchange_lock (p : Pool n) (i : Fin n) : (p.lock i).exchange = p.exchange := rfl

@[simp] theorem exchange_unlock (p : Pool n) (i : Fin n) :
    (p.unlock i).exchange = p.exchange := rfl

@[simp] theorem exchange_postRecord (p : Pool n) (i : Fin n) (rec : Dbi) :
    (p.postRecord i rec).exchange =
      { p.exchange with calls := p.exchange.calls ++ [(i, rec.mark)] } := by
  simp [exchange, postRecord]

@[simp] theorem exchange_assignNode (p : Pool n) (node : Option Nat) (stat : Stat) :
    (p.assignNode node stat).exchange =
      { p.exchange with counters := p.exchange.counters.assign node stat } := rfl

@[simp] theorem exchange_releaseNode (p : Pool n) (node : Option Nat) (stat : Stat) (now : Time) :
    (p.releaseNode node stat now).exchange =
      { p.exchange with counters := p.exchange.counters.release node stat now } := rfl

@[simp] theorem exchange_enlist (p : Pool n) (r : Root) (i : Fin n) :
    (p.enlist r i).exchange = { p.exchange with links := p.exchange.links.enlist r i } := rfl

@[simp] theorem exchange_delist (p : Pool n) (r : Root) (i : Fin n) :
    (p.delist r i).exchange = { p.exchange with links := p.exchange.links.delist r i } := rfl

@[simp] theorem exchange_unlist (p : Pool n) (i : Fin n) :
    (p.unlist i).exchange = { p.exchange with links := p.exchange.links.delist .timeslots i } := by
  unfold unlist
  split
  · exact congrArg (fun l => { p.exchange with links := l }) (Linked.delist_head ‹_›).symm
  · rfl

@[simp] theorem exchange_modify (p : Pool n) (i : Fin n) (f : Timeslot → Timeslot) :
    (p.modify i f).exchange =
      { p.exchange with line := Function.update p.exchange.line i (f (p.slot i)).line } := by
  have lines : (fun j => (Function.update p.slot i (f (p.slot i)) j).line) =
      Function.update (fun j => (p.slot j).line) i (f (p.slot i)).line := by
    funext j
    by_cases hj : j = i
    · subst hj; simp
    · simp [Function.update_of_ne hj]
  simp only [exchange, modify, lines]

theorem exchange_quiet (p : Pool n) (i : Fin n) {f : Timeslot → Timeslot}
    (same : (f (p.slot i)).line = (p.slot i).line) : (p.modify i f).exchange = p.exchange := by
  have here : (p.slot i).line = p.exchange.line i := rfl
  rw [exchange_modify, same, here, Function.update_eq_self]

theorem exchange_allocate (p : Pool n) (i : Fin n) (cid : Nat) (stat : Stat) (reg : Option Nat)
    (now : Now) (idle : (p.slot i).handler = .idle) :
    (p.allocate server i cid stat reg now).exchange =
      p.exchange.start server i cid stat reg now := by
  have line : (((p.slot i).stamp now).serve cid stat reg).line =
      (p.slot i).line.start cid stat reg now := by
    simp [Timeslot.serve, Timeslot.stamp, Timeslot.line, Line.start, Handler.phase, idle]
  simp only [allocate, exchange_postRecord, exchange_assignNode, exchange_modify, exchange_enlist,
    exchange_unlist, slot_modify, slot_assignNode, slot_enlist, slot_unlist, Function.update_idem,
    line]
  rfl

theorem exchange_release (p : Pool n) (i : Fin n) (ans : Answers) :
    (p.release server i ans).exchange = p.exchange.finish server i ans.lastcall := by
  simp only [release, releaseCall, relist, exchange_postRecord, exchange_releaseNode,
    exchange_modify, exchange_enlist, exchange_delist, exchange_unlock, slot_modify,
    slot_releaseNode, slot_postRecord, Function.update_idem]
  rfl

theorem exchange_enable (p : Pool n) (i : Fin n) : (p.enable i).exchange = p.exchange.on i := by
  simp only [enable, exchange_enlist, exchange_unlock, exchange_modify]
  rfl

theorem exchange_setOffline (p : Pool n) (i : Fin n) (now : Now) :
    (((p.modify i (·.setOffline now)).unlock i).delist .timeslots i).exchange =
      p.exchange.off i now := by
  simp only [exchange_delist, exchange_unlock, exchange_modify]
  rfl

def Timed (p : Pool n) (i : Fin n) : Prop :=
  (p.slot i).handler.phase = .free ↔ (p.slot i).mapped.started = 0

theorem Timed.busy {p : Pool n} {i : Fin n} (timed : p.Timed i)
    (inService : (p.slot i).handler ≠ .offline) (used : (p.slot i).mapped.started ≠ 0) :
    (p.slot i).handler.phase = .busy := by
  have notFree : (p.slot i).handler.phase ≠ .free := fun h => used (timed.mp h)
  cases h : (p.slot i).handler <;> simp_all [Handler.phase]

theorem exchange_disable_unused (p : Pool n) (i : Fin n) (ans : Answers)
    (unused : (p.slot i).mapped.started = 0) :
    (p.disable server i ans).exchange = p.exchange.off i ans.now := by
  simp only [disable, unused, if_true]
  exact exchange_setOffline p i ans.now

theorem exchange_disable_used (p : Pool n) (i : Fin n) (ans : Answers)
    (used : (p.slot i).mapped.started ≠ 0) (busy : (p.slot i).handler.phase = .busy) :
    (p.disable server i ans).exchange =
      (p.exchange.finish server i ans.lastcall).off i ans.now := by
  have kept : (p.modify i (·.hangup)).exchange = p.exchange := by
    refine exchange_quiet p i ?_
    simp only [Timeslot.hangup, Timeslot.disconnect, Timeslot.line, Mapped.setMapped, busy]
    rfl
  simp only [disable, used, if_false]
  rw [exchange_setOffline, exchange_release, kept]

theorem disable_response (p : Pool n) (i : Fin n) (ans : Answers) (timed : p.Timed i)
    (inService : (p.slot i).handler ≠ .offline) :
    p.exchange.Response server i ans (p.disable server i ans).exchange := by
  by_cases unused : (p.slot i).mapped.started = 0
  · rw [exchange_disable_unused p i ans unused]
    exact .off (timed.mpr unused)
  · have busy := timed.busy inService unused
    rw [exchange_disable_used p i ans unused busy]
    exact .finishOff busy

theorem disconnect_response (p : Pool n) (i : Fin n) (ans : Answers)
    (busy : (p.slot i).handler.phase = .busy) :
    p.exchange.Response server i ans (p.modify i (·.disconnect)).exchange := by
  rw [exchange_quiet]
  · exact .quiet
  · simp only [Timeslot.disconnect, Timeslot.line, Mapped.setMapped, busy]
    rfl

theorem release_response (p : Pool n) (i : Fin n) (ans : Answers)
    (busy : (p.slot i).handler.phase = .busy) :
    p.exchange.Response server i ans (p.release server i ans).exchange := by
  rw [exchange_release]
  exact .finish busy

theorem handle_response (p : Pool n) (i : Fin n) (ans : Answers) (event : EventId)
    (timed : p.Timed i) (ordinary : event ≠ .shutdown) :
    p.exchange.Response server i ans ((base server n).handle p i ans event).1.exchange := by
  cases h : (p.slot i).handler with
  | idle =>
    have inService : (p.slot i).handler ≠ .offline := by simp [h]
    simp only [Virtual.handle, base, id, h]
    cases event with
    | disable => exact disable_response p i ans timed inService
    | shutdown => exact absurd rfl ordinary
    | _ => exact .quiet
  | release =>
    have busy : (p.slot i).handler.phase = .busy := by rw [h]; rfl
    have inService : (p.slot i).handler ≠ .offline := by simp [h]
    simp only [Virtual.handle, base, id, h]
    cases event with
    | disable => exact disable_response p i ans timed inService
    | shutdown => exact absurd rfl ordinary
    | timeout => exact release_response p i ans busy
    | release => exact release_response p i ans busy
    | _ => exact .quiet
  | script =>
    have busy : (p.slot i).handler.phase = .busy := by rw [h]; rfl
    have inService : (p.slot i).handler ≠ .offline := by simp [h]
    simp only [Virtual.handle, base, id, h]
    cases event with
    | disable => exact disable_response p i ans timed inService
    | release => exact release_response p i ans busy
    | drop => exact disconnect_response p i ans busy
    | hangup => exact disconnect_response p i ans busy
    | timeout =>
      simp only [Virtual.scriptHandler, id, h, if_true]
      split
      · exact disconnect_response p i ans busy
      · rw [exchange_quiet p i rfl]
        exact .quiet
    | _ => exact .quiet
  | offline =>
    simp only [Virtual.handle, base, id, h]
    cases event with
    | shutdown => exact absurd rfl ordinary
    | enable =>
      have offline : (p.exchange.line i).phase = .offline := congrArg Handler.phase h
      simp only [Virtual.offlineHandler, exchange_enable]
      exact .on offline
    | _ => exact .quiet

/-- Whether the handler or the caller unlocks makes no difference to the exchange. -/
theorem post_response (p : Pool n) (i : Fin n) (ans : Answers) (event : EventId)
    (timed : p.Timed i) (ordinary : event ≠ .shutdown) :
    p.exchange.Response server i ans ((base server n).post p i ans event).1.exchange := by
  have handled := @handle_response n server (p.lock i) i ans event timed ordinary
  rw [exchange_lock] at handled
  have same : ((base server n).post p i ans event).1.exchange =
      ((base server n).handle (p.lock i) i ans event).1.exchange := by
    simp only [Virtual.post]
    split <;> rfl
  rw [same]
  exact handled

theorem getExpires_quiet (p : Pool n) (i : Fin n) (read : Timeout → Timeout) :
    ((base server n).getExpires p i read).exchange = p.exchange :=
  exchange_quiet (p.lock i) i (f := (·.readTimer read)) rfl

theorem expire_response (p : Pool n) (i : Fin n) (ans : Answers) (read : Timeout → Timeout)
    (timed : p.Timed i) :
    p.exchange.Response server i ans
      ((base server n).expire ((base server n).getExpires p i read) i ans).1.exchange := by
  have quiet := @getExpires_quiet n server p i read
  have timed' : ((base server n).getExpires p i read).Timed i := by
    simpa [Timed, Virtual.getExpires, base, Timeslot.readTimer] using timed
  generalize (base server n).getExpires p i read = q at quiet timed'
  rw [← quiet]
  have after : ∀ r : Pool n,
      (r.modify i fun t => { t with expires := .inf }).exchange = r.exchange :=
    fun r => exchange_quiet r i rfl
  by_cases out : (q.slot i).expires = .after 0
  · have handled := @handle_response n server q i ans .timeout timed' (by decide)
    have same : ((base server n).expire q i ans).1.exchange =
        ((base server n).handle q i ans .timeout).1.exchange := by
      simp only [Virtual.expire, base, id, out, if_true]
      split <;> exact after _
    rw [same]
    exact handled
  · have same : ((base server n).expire q i ans).1.exchange = q.exchange := by
      simp only [Virtual.expire, base, id, out, if_false]
      exact after q
    rw [same]
    exact .quiet

theorem assign_full (p : Pool n) (reg : Option Nat) (stat : Stat) (cid : Nat) (now : Now)
    (full : p.exchange.links.root .timeslots = none) :
    p.assign server reg stat cid now = (none, p) := by
  have full : p.links.root .timeslots = none := full
  simp only [assign, full]

theorem assign_head (p : Pool n) (reg : Option Nat) (stat : Stat) (cid : Nat) (now : Now)
    {i : Fin n} (head : p.exchange.links.root .timeslots = some i) :
    p.assign server reg stat cid now = (some i, p.allocate server i cid stat reg now) := by
  have head : p.links.root .timeslots = some i := head
  simp only [assign, head]

theorem invite_refused (p : Pool n) (reg : Registration) (r cid : Nat) (now : Now) (ending : Time)
    (attached : (reg.attach p.exchange.counters.shm .incoming).1 = false) :
    p.invite server reg r cid now ending = (none, p) := by
  have refused := Registration.attach_refused attached
  have shm : p.exchange.counters.shm = p.counters.shm := rfl
  rw [shm] at refused
  simp [invite, attach, refused]

theorem invite_full (p : Pool n) (reg : Registration) (r cid : Nat) (now : Now) (ending : Time)
    (attached : (reg.attach p.exchange.counters.shm .incoming).1 = true)
    (full : p.exchange.links.root .timeslots = none) :
    p.invite server reg r cid now ending =
      (none, (p.attach reg .incoming).2.releaseNode reg.stats .incoming ending) := by
  have taken : (p.attach reg .incoming).1 = true := attached
  simp only [invite, taken, if_true]
  rw [assign_full (p.attach reg .incoming).2 _ _ _ _ full]

theorem invite_head (p : Pool n) (reg : Registration) (r cid : Nat) (now : Now) (ending : Time)
    (attached : (reg.attach p.exchange.counters.shm .incoming).1 = true) {i : Fin n}
    (head : p.exchange.links.root .timeslots = some i) :
    p.invite server reg r cid now ending =
      (some i, (p.attach reg .incoming).2.allocate server i cid .incoming (some r) now) := by
  have taken : (p.attach reg .incoming).1 = true := attached
  simp only [invite, taken, if_true]
  rw [assign_head (p.attach reg .incoming).2 _ _ _ _ head]

theorem idle_of_free {p : Pool n} {i : Fin n} (free : (p.exchange.line i).phase = .free) :
    (p.slot i).handler = .idle := by
  have phase : (p.slot i).handler.phase = .free := free
  cases h : (p.slot i).handler <;> simp [h, Handler.phase] at phase ⊢

/-- The pool implements the exchange: each operation comes to its outcome there. -/
theorem step_outcome {p q : Pool n} {a : Action n} (timed : ∀ i, p.Timed i)
    (heads : ∀ i, p.links.root .timeslots = some i → (p.exchange.line i).phase = .free)
    (ordinary : a.Ordinary) (h : p.step server a = some q) :
    p.exchange.Outcome server a q.exchange := by
  cases a with
  | assign reg stat cid now =>
    cases h
    cases head : p.exchange.links.root .timeslots with
    | none => rw [assign_full p reg stat cid now head]; exact .full head
    | some i =>
      have free := heads i head
      rw [assign_head p reg stat cid now head, exchange_allocate _ _ _ _ _ _ (idle_of_free free)]
      exact .assigned i head free
  | invite r cid now ending =>
    obtain ⟨reg, hr, rfl⟩ := Option.map_eq_some_iff.mp h
    cases attached : (reg.attach p.exchange.counters.shm .incoming).1 with
    | false =>
      rw [invite_refused p reg r cid now ending attached]
      exact .refused reg hr attached
    | true =>
      cases head : p.exchange.links.root .timeslots with
      | none =>
        rw [invite_full p reg r cid now ending attached head]
        exact .returned reg hr attached head
      | some i =>
        have free := heads i head
        have began := @exchange_allocate n server (p.attach reg .incoming).2 i cid
          .incoming (some r) now (idle_of_free free)
        rw [invite_head p reg r cid now ending attached head, began]
        exact .admitted reg i hr attached head free
  | setScripting i stepping =>
    simp only [step] at h
    split at h
    · rename_i held
      cases h
      rw [exchange_quiet]
      · exact .scripted
      · simp [Timeslot.setScripting, Timeslot.arm, Timeslot.line, Mapped.setMapped, held.1,
          Handler.phase]
    · cases h
  | post i event ans =>
    cases h
    exact .posted (post_response p i ans event (timed i) ordinary)
  | expire i read ans =>
    cases h
    exact .expired (expire_response p i ans read (timed i))

end Pool

end Bayonne
