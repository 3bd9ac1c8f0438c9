import Bayonne.Base.Buckets
import Bayonne.Base.Refine
import Bayonne.Segment

/-! A switchboard: what the pool of timeslots is to the drivers and to the control commands. Idle
lines are handed out with the last freed first, and a call id is answered with the line of the
last call that was begun with it and has not ended. The timeslots, their one link each and the
chains of the call index give the same replies. -/
namespace Bayonne

/-- The idle lines, the last freed in front, and the calls, the last begun in front. -/
structure Switchboard (n : Nat) where
  mode : Fin n → Handler
  idle : List (Fin n)
  calls : List (Nat × Fin n)

inductive Request (n : Nat) where
  | nothing
  | connect (cid : Nat)
  | script (i : Fin n)
  | event (i : Fin n) (id : EventId) (more : Bool)
  /-- An event for the line of a call. -/
  | call (cid : Nat) (id : EventId) (more : Bool)

namespace Switchboard
variable {n : Nat}

def start (n : Nat) : Switchboard n := ⟨fun _ => .idle, (List.finRange n).reverse, []⟩

def turn (b : Switchboard n) (i : Fin n) (mode : Handler) : Switchboard n :=
  { b with mode := Function.update b.mode i mode }

def connect (b : Switchboard n) (cid : Nat) : Switchboard n :=
  match b.idle with
  | [] => b
  | i :: idle => ⟨Function.update b.mode i .release, idle, (cid, i) :: b.calls⟩

def hangUp (b : Switchboard n) (i : Fin n) : Switchboard n :=
  ⟨Function.update b.mode i .idle, i :: b.idle, Buckets.drop b.calls i⟩

def withdraw (b : Switchboard n) (i : Fin n) : Switchboard n :=
  ⟨Function.update b.mode i .offline, b.idle.erase i, b.calls⟩

def restore (b : Switchboard n) (i : Fin n) : Switchboard n :=
  ⟨Function.update b.mode i .idle, i :: b.idle, b.calls⟩

/-- An event that a line has no use for is rejected. `more` is whether its script has another
step. -/
def event (b : Switchboard n) (i : Fin n) (id : EventId) (more : Bool) : Switchboard n :=
  match b.mode i, id with
  | .idle, .disable => b.withdraw i
  | .release, .disable | .script, .disable => (b.hangUp i).withdraw i
  | .release, .release | .release, .timeout | .script, .release => b.hangUp i
  | .script, .drop | .script, .hangup => b.turn i .release
  | .script, .timeout => if more then b else b.turn i .release
  | .offline, .enable => b.restore i
  | _, _ => b

def find (b : Switchboard n) (cid : Nat) : Option (Fin n) := b.calls.lookup cid

def serve (b : Switchboard n) : Request n → Switchboard n
  | .nothing => b
  | .connect cid => b.connect cid
  | .script i => b.turn i .script
  | .event i id more => b.event i id more
  | .call cid id more =>
    match b.find cid with
    | none => b
    | some i => b.event i id more

def reply (b : Switchboard n) : Request n → Option (Fin n)
  | .connect _ => b.idle.head?
  | .call cid _ _ => b.find cid
  | _ => none

def lists (b : Switchboard n) : Root → List (Fin n)
  | .timeslots => b.idle
  | .assigned q => Buckets.bucket path b.calls q

variable {b : Switchboard n} {i : Fin n}

theorem lists_idle (idle : List (Fin n)) (mode : Fin n → Handler) :
    (⟨mode, idle, b.calls⟩ : Switchboard n).lists = Function.update b.lists .timeslots idle := by
  funext r
  cases r <;> rfl

theorem lists_calls (calls : List (Nat × Fin n)) (mode : Fin n → Handler) {q : Fin indexSize}
    {l : List (Fin n)}
    (changed : Buckets.bucket path calls = Function.update (Buckets.bucket path b.calls) q l) :
    (⟨mode, b.idle, calls⟩ : Switchboard n).lists =
      Function.update b.lists (.assigned q) l := by
  funext r
  cases r with
  | timeslots => rfl
  | assigned q' =>
    have here := congrFun changed q'
    by_cases same : q' = q
    · cases same
      rw [Function.update_self] at here ⊢
      exact here
    · rw [Function.update_of_ne same] at here
      rw [Function.update_of_ne fun equal => same (Root.assigned.inj equal)]
      exact here

end Switchboard

/-- The exchange holds the lists of the switchboard, and its lines the ids of their calls. -/
structure Exchange.Shows {n : Nat} (x : Exchange n) (b : Switchboard n) : Prop where
  valid : x.Valid b.lists
  own : ∀ e ∈ b.calls, (x.line e.2).cid = e.1
  once : (b.calls.map Prod.snd).Nodup

namespace Exchange.Shows
variable {n : Nat} {server : Server} {x : Exchange n} {b : Switchboard n} {i : Fin n}

theorem call (h : x.Shows b) (busy : (x.line i).phase = .busy) :
    ((x.line i).cid, i) ∈ b.calls := by
  have listed := (h.valid.busy i _).mpr ⟨busy, rfl⟩
  obtain ⟨cid, mem, -⟩ := Buckets.mem_bucket.mp listed
  have own : (x.line i).cid = cid := h.own _ mem
  rwa [own]

theorem busy_of_call (h : x.Shows b) {cid : Nat} (mem : (cid, i) ∈ b.calls) :
    (x.line i).phase = .busy :=
  ((h.valid.busy i _).mp (Buckets.mem_bucket.mpr ⟨cid, mem, rfl⟩)).1

theorem relist {y : Exchange n} {lists : Root → List (Fin n)} (some : ∃ lists, y.Valid lists)
    (holds : Linked.Holds y.links lists) : y.Valid lists := by
  obtain ⟨lists', v⟩ := some
  rwa [v.holds.unique holds] at v

theorem start (h : x.Shows b) {rest : List (Fin n)} (idle : b.idle = i :: rest) (cid : Nat)
    (stat : Stat) (reg : Option Nat) (now : Now) (mode : Fin n → Handler) :
    (x.start server i cid stat reg now).Shows ⟨mode, rest, (cid, i) :: b.calls⟩ := by
  have listed : i ∈ b.lists .timeslots := by
    rw [Switchboard.lists, idle]
    exact List.mem_cons_self
  have free := (h.valid.free i).mp listed
  have away : ∀ e ∈ b.calls, e.2 ≠ i := fun e mem same => by
    have busy := h.busy_of_call (same ▸ mem : (e.1, i) ∈ b.calls)
    rw [free] at busy
    cases busy
  refine ⟨?_, fun e mem => ?_, ?_⟩
  · have lists : (⟨mode, rest, (cid, i) :: b.calls⟩ : Switchboard n).lists =
        Function.update (Function.update b.lists .timeslots ((b.lists .timeslots).erase i))
          (.assigned (path cid)) (i :: Buckets.bucket path b.calls (path cid)) := by
      rw [Switchboard.lists_calls (b := ⟨mode, rest, b.calls⟩) _ mode (Buckets.bucket_cons cid i _),
        Switchboard.lists_idle, Switchboard.lists, idle, List.erase_cons_head]
    rw [lists]
    exact relist (h.valid.start free cid stat reg now)
      (h.valid.holds.moved (h.valid.only_free (by rw [free]; nofun)) (.assigned (path cid)))
  · rcases List.mem_cons.mp mem with rfl | mem
    · exact congrArg Line.cid (line_start x cid stat reg now)
    · rw [line_start_of_ne x (away e mem)]
      exact h.own e mem
  · refine List.nodup_cons.mpr ⟨fun mem => ?_, h.once⟩
    obtain ⟨e, mem, same⟩ := List.mem_map.mp mem
    exact away e mem same

theorem finish (h : x.Shows b) (busy : (x.line i).phase = .busy) (lastcall : Owner → Time)
    (mode : Fin n → Handler) :
    (x.finish server i lastcall).Shows ⟨mode, i :: b.idle, Buckets.drop b.calls i⟩ := by
  have call := h.call busy
  refine ⟨?_, fun e mem => ?_, Buckets.drop_once h.once i⟩
  · have lists : (⟨mode, i :: b.idle, Buckets.drop b.calls i⟩ : Switchboard n).lists =
        Function.update (Function.update b.lists (.assigned (path (x.line i).cid))
          ((b.lists (.assigned (path (x.line i).cid))).erase i)) .timeslots (i :: b.idle) := by
      rw [Switchboard.lists_idle (b := ⟨mode, b.idle, Buckets.drop b.calls i⟩),
        Switchboard.lists_calls (b := b) _ mode (Buckets.bucket_drop h.once call)]
      rfl
    rw [lists]
    exact relist (h.valid.finish busy lastcall)
      (h.valid.holds.moved (h.valid.only_busy busy) .timeslots)
  · obtain ⟨mem, away⟩ := Buckets.mem_drop.mp mem
    rw [line_finish_of_ne x away]
    exact h.own e mem

theorem off (h : x.Shows b) (free : (x.line i).phase = .free) (now : Now)
    (mode : Fin n → Handler) : (x.off i now).Shows ⟨mode, b.idle.erase i, b.calls⟩ := by
  refine ⟨?_, fun e mem => ?_, h.once⟩
  · rw [Switchboard.lists_idle (b := b)]
    exact relist (h.valid.off free now) (h.valid.holds.delist .timeslots i)
  · have away : e.2 ≠ i := fun same => by
      have busy := h.busy_of_call (same ▸ mem : (e.1, i) ∈ b.calls)
      rw [free] at busy
      cases busy
    rw [line_off_of_ne x away]
    exact h.own e mem

theorem on (h : x.Shows b) (offline : (x.line i).phase = .offline) (mode : Fin n → Handler) :
    (x.on i).Shows ⟨mode, i :: b.idle, b.calls⟩ := by
  refine ⟨?_, fun e mem => ?_, h.once⟩
  · rw [Switchboard.lists_idle (b := b)]
    refine relist (h.valid.on offline) (h.valid.holds.enlist .timeslots i ?_)
    rintro (_ | q) inside
    · cases offline.symm.trans ((h.valid.free i).mp inside)
    · cases offline.symm.trans ((h.valid.busy i q).mp inside).1
  · have away : e.2 ≠ i := fun same => by
      have busy := h.busy_of_call (same ▸ mem : (e.1, i) ∈ b.calls)
      rw [offline] at busy
      cases busy
    rw [line_on_of_ne x away]
    exact h.own e mem

end Exchange.Shows

namespace Pool
variable {n : Nat} {server : Server} {p q : Pool n} {b : Switchboard n} {i : Fin n}

structure Shows (p : Pool n) (b : Switchboard n) : Prop where
  mode : ∀ i, (p.slot i).handler = b.mode i
  board : p.exchange.Shows b

def reply (server : Server) (p : Pool n) : Action n → Option (Fin n)
  | .assign reg stat cid now => (p.assign server reg stat cid now).1
  | .invite r cid now ending =>
    server.registrations[r]?.bind fun reg => (p.invite server reg r cid now ending).1
  | _ => none

/-- What an operation asks of the switchboard: an INVITE a line, if its registration's allowance
lets it, and a timer that has run out a TIMEOUT. -/
def request (server : Server) (p : Pool n) : Action n → Request n
  | .assign _ _ cid _ => .connect cid
  | .invite r cid _ _ =>
    match server.registrations[r]? with
    | some reg => if (p.attach reg .incoming).1 then .connect cid else .nothing
    | none => .nothing
  | .setScripting i _ => .script i
  | .post i event ans => .event i event ans.stepped
  | .expire i read ans =>
    if read (p.slot i).timer = .after 0 then .event i .timeout ans.stepped else .nothing

theorem turned {m : Handler} (mode : ∀ j, (p.slot j).handler = b.mode j)
    (slots : (q.slot i).handler = m ∧ ∀ j, j ≠ i → q.slot j = p.slot j) (j : Fin n) :
    (q.slot j).handler = Function.update b.mode i m j := by
  by_cases here : j = i
  · rw [here, Function.update_self, slots.1]
  · rw [Function.update_of_ne here, slots.2 j here, mode j]

theorem Shows.still (h : p.Shows b) {f : Timeslot → Timeslot}
    (same : (f (p.slot i)).line = (p.slot i).line)
    (handler : (f (p.slot i)).handler = (p.slot i).handler) : (p.modify i f).Shows b where
  mode j := by
    by_cases here : j = i
    · rw [here, slot_modify, handler, h.mode]
    · rw [slot_modify_of_ne p f here, h.mode]
  board := by
    rw [exchange_quiet p i same]
    exact h.board

theorem Shows.turn (h : p.Shows b) {m : Handler} {f : Timeslot → Timeslot}
    (same : (f (p.slot i)).line = (p.slot i).line) (handler : (f (p.slot i)).handler = m) :
    (p.modify i f).Shows (b.turn i m) where
  mode := turned h.mode ⟨by rw [slot_modify, handler], fun j ne => slot_modify_of_ne p f ne⟩
  board := by
    rw [exchange_quiet p i same]
    exact ⟨h.board.valid, h.board.own, h.board.once⟩

theorem Shows.connect (h : p.Shows b) (reg : Option Nat) (stat : Stat) (cid : Nat) (now : Now) :
    (p.assign server reg stat cid now).2.Shows (b.connect cid) ∧
      (p.assign server reg stat cid now).1 = b.idle.head? := by
  have chain := h.board.valid.holds.chain .timeslots
  rw [Switchboard.connect]
  cases idle : b.idle with
  | nil =>
    rw [Switchboard.lists, idle, Linked.chain_nil] at chain
    rw [assign_full p reg stat cid now chain]
    exact ⟨h, rfl⟩
  | cons i rest =>
    rw [Switchboard.lists, idle, Linked.chain_cons] at chain
    have free := (h.board.valid.free i).mp (by rw [Switchboard.lists, idle]; exact .head _)
    rw [assign_head p reg stat cid now chain.1]
    refine ⟨⟨turned h.mode ⟨?_, fun j ne => ?_⟩, ?_⟩, rfl⟩
    · simp [slot_allocate, Timeslot.serve, Timeslot.stamp, idle_of_free free]
    · rw [slot_allocate, Function.update_of_ne ne]
    · rw [exchange_allocate _ _ _ _ _ _ (idle_of_free free)]
      exact h.board.start idle cid stat reg now _

theorem Shows.hangUp (h : p.Shows b) (ans : Answers) (busy : (p.slot i).handler.phase = .busy) :
    (p.release server i ans).Shows (b.hangUp i) where
  mode := by
    refine turned h.mode ⟨?_, fun j ne => ?_⟩
    · simp [slot_release, Timeslot.setIdle, Timeslot.disarm]
    · rw [slot_release, Function.update_of_ne ne]
  board := by
    rw [exchange_release]
    exact h.board.finish busy _ _

theorem Shows.withdraw (h : p.Shows b) (ans : Answers) (idle : (p.slot i).handler = .idle) :
    (p.disable server i ans).Shows (b.withdraw i) where
  mode := turned h.mode (slot_disable p i ans)
  board := by
    have free : (p.exchange.line i).phase = .free := congrArg Handler.phase idle
    rw [exchange_disable_unused p i ans ((h.board.valid.timed i).mp free)]
    exact h.board.off free _ _

theorem Shows.hangUp_withdraw (h : p.Shows b) (ans : Answers)
    (busy : (p.slot i).handler.phase = .busy) :
    (p.disable server i ans).Shows ((b.hangUp i).withdraw i) where
  mode := by
    have modes := turned h.mode (@slot_disable n server p i ans)
    rwa [← Function.update_idem (a := i) (v := Handler.idle)] at modes
  board := by
    have used : (p.slot i).mapped.started ≠ 0 := fun zero => by
      have free : (p.exchange.line i).phase = .free := (h.board.valid.timed i).mpr zero
      cases free.symm.trans busy
    rw [exchange_disable_used p i ans used busy]
    refine (h.board.finish busy _ _).off ?_ _ _
    rw [Exchange.line_finish]
    rfl

theorem Shows.restore (h : p.Shows b) (offline : (p.slot i).handler = .offline) :
    (p.enable i).Shows (b.restore i) where
  mode := turned h.mode (slot_enable p i)
  board := by
    rw [exchange_enable]
    exact h.board.on (congrArg Handler.phase offline) _

theorem Shows.handle (h : p.Shows b) (ans : Answers) {event : EventId}
    (ordinary : event ≠ .shutdown) : ((base server n).handle p i ans event).1.Shows
      (b.event i event ans.stepped) := by
  have mode := h.mode i
  cases here : (p.slot i).handler with
  | idle =>
    rw [here] at mode
    simp only [Virtual.handle, base, id, here, Switchboard.event, ← mode]
    cases event with
    | disable => exact h.withdraw ans here
    | shutdown => exact absurd rfl ordinary
    | _ => exact h
  | release =>
    have busy : (p.slot i).handler.phase = .busy := congrArg Handler.phase here
    rw [here] at mode
    simp only [Virtual.handle, base, id, here, Switchboard.event, ← mode]
    cases event with
    | disable => exact h.hangUp_withdraw ans busy
    | shutdown => exact absurd rfl ordinary
    | timeout => exact h.hangUp ans busy
    | release => exact h.hangUp ans busy
    | _ => exact h
  | script =>
    have busy : (p.slot i).handler.phase = .busy := congrArg Handler.phase here
    have disconnected : (p.slot i).disconnect.line = (p.slot i).line := by
      simp only [Timeslot.disconnect, Timeslot.line, Mapped.setMapped, busy]
      rfl
    rw [here] at mode
    simp only [Virtual.handle, base, id, here, Switchboard.event, ← mode]
    cases event with
    | disable => exact h.hangUp_withdraw ans busy
    | release => exact h.hangUp ans busy
    | drop => exact h.turn disconnected rfl
    | hangup => exact h.turn disconnected rfl
    | shutdown => exact absurd rfl ordinary
    | timeout =>
      simp only [Virtual.scriptHandler, id, here, if_true]
      cases ans.stepped with
      | false => exact h.turn disconnected rfl
      | true => exact h.still (f := (·.arm ans.stepping)) rfl rfl
    | _ => exact h
  | offline =>
    rw [here] at mode
    simp only [Virtual.handle, base, id, here, Switchboard.event, ← mode]
    cases event with
    | shutdown => exact absurd rfl ordinary
    | enable => exact h.restore here
    | _ => exact h

theorem Shows.post (h : p.Shows b) (ans : Answers) {event : EventId}
    (ordinary : event ≠ .shutdown) : ((base server n).post p i ans event).1.Shows
      (b.event i event ans.stepped) := by
  have locked : (p.lock i).Shows b := ⟨h.mode, h.board⟩
  have handled : ((base server n).handle (p.lock i) i ans event).1.Shows
      (b.event i event ans.stepped) := locked.handle ans ordinary
  simp only [Virtual.post]
  split
  · exact handled
  · exact ⟨handled.mode, handled.board⟩

theorem Shows.expired (h : p.Shows b) :
    (p.modify i fun t => { t with expires := .inf }).Shows b :=
  h.still (f := fun t => { t with expires := .inf }) rfl rfl

theorem Shows.expire (h : p.Shows b) (read : Timeout → Timeout) (ans : Answers) :
    ((base server n).expire ((base server n).getExpires p i read) i ans).1.Shows
      (b.serve (p.request server (.expire i read ans))) := by
  have locked : (p.lock i).Shows b := ⟨h.mode, h.board⟩
  have kept : ((base server n).getExpires p i read).Shows b :=
    locked.still (f := (·.readTimer read)) rfl rfl
  have shown : (((base server n).getExpires p i read).slot i).expires = read (p.slot i).timer :=
    congrArg Timeslot.expires (slot_modify (p.lock i) i (·.readTimer read))
  generalize (base server n).getExpires p i read = q at kept shown
  simp only [request]
  by_cases due : read (p.slot i).timer = .after 0
  · have handled : ((base server n).handle q i ans .timeout).1.Shows
        (b.event i .timeout ans.stepped) := kept.handle ans (by decide)
    rw [if_pos due]
    simp only [Virtual.expire, base, id, shown, due, if_true]
    split
    · exact handled.expired
    · exact ⟨handled.expired.mode, handled.expired.board⟩
  · rw [if_neg due]
    simp only [Virtual.expire, base, id, shown, due, if_false]
    split
    · exact kept.expired
    · exact ⟨kept.expired.mode, kept.expired.board⟩

theorem Shows.invite (h : p.Shows b) (reg : Registration) (r cid : Nat) (now : Now)
    (ending : Time) : (p.invite server reg r cid now ending).2.Shows
        (if (p.attach reg .incoming).1 then b.connect cid else b) ∧
      (p.invite server reg r cid now ending).1 =
        if (p.attach reg .incoming).1 then b.idle.head? else none := by
  have attached : (p.attach reg .incoming).2.Shows b :=
    ⟨h.mode, h.board.valid.counters _, h.board.own, h.board.once⟩
  obtain ⟨next, given⟩ := @Shows.connect n server _ b attached (some r) .incoming cid now
  rw [Pool.invite]
  cases ok : (p.attach reg .incoming).1 with
  | false => exact ⟨attached, rfl⟩
  | true =>
    simp only [if_true]
    generalize (p.attach reg .incoming).2.assign server (some r) .incoming cid now = out
      at next given
    obtain ⟨line, q⟩ := out
    cases line with
    | some i => exact ⟨next, given⟩
    | none =>
      have returned := next.board.valid.counters
      exact ⟨⟨next.mode, returned _, next.board.own, next.board.once⟩, given⟩

theorem construct_shows (raw : Fin n → Raw) :
    (construct server raw).Shows (.start n) := by
  have empty : Linked.Holds (⟨fun _ => none, fun _ => none⟩ : Linked.Links Root (Fin n))
      (fun _ => []) := ⟨fun _ => .nil, fun _ => List.nodup_nil, nofun⟩
  have pushed := empty.pushed_reverse (r := .timeslots) (List.nodup_finRange n) nofun
  have lists : (Switchboard.start n).lists =
      Function.update (fun _ => []) .timeslots ((List.finRange n).reverse ++ []) := by
    funext r
    cases r with
    | timeslots => rw [Function.update_self, List.append_nil]; rfl
    | assigned q => rfl
  refine ⟨fun i => rfl, ?_, nofun, List.nodup_nil⟩
  rw [lists]
  exact Exchange.Shows.relist (construct_valid raw) pushed

theorem Shows.find (h : p.Shows b) (cid : Nat) : p.get cid = b.find cid := by
  have bound : (b.lists (.assigned (path cid))).length ≤ n := by
    simpa using (h.board.valid.holds.nodup (.assigned (path cid))).length_le_card
  have walk : Linked.find p.links.next (fun i => decide ((p.slot i).cid = cid)) n
      (p.links.root (.assigned (path cid))) = b.find cid :=
    (Linked.find_chain _ (h.board.valid.holds.chain (.assigned (path cid))) n bound).trans
      (Buckets.find_bucket h.board.own cid)
  unfold get
  rw [walk]
  cases found : b.find cid with
  | none => rfl
  | some i =>
    have call : (cid, i) ∈ b.calls := by
      obtain ⟨before, after, split, -⟩ := List.lookup_eq_some_iff.mp found
      rw [split]
      exact List.mem_append_right _ List.mem_cons_self
    have busy := h.board.busy_of_call call
    have started : (p.slot i).mapped.started ≠ 0 := fun zero => by
      cases ((h.board.valid.timed i).mpr zero).symm.trans busy
    simp only [started, if_false]

theorem simulates (server : Server) : Refine.Simulates (step server) (reply server (n := n))
    Switchboard.serve Switchboard.reply (request server) (fun _ a => a.Ordinary) Shows := by
  intro p b a q h ordinary moved
  cases a with
  | assign reg stat cid now =>
    cases moved
    exact h.connect reg stat cid now
  | invite r cid now ending =>
    obtain ⟨reg, known, rfl⟩ := Option.map_eq_some_iff.mp moved
    obtain ⟨next, given⟩ := @Shows.invite n server p b h reg r cid now ending
    simp only [request, reply, known, Option.bind_some, given]
    cases ok : (p.attach reg .incoming).1 with
    | false =>
      rw [ok] at next
      exact ⟨next, rfl⟩
    | true =>
      rw [ok] at next
      exact ⟨next, rfl⟩
  | setScripting i stepping =>
    simp only [step] at moved
    split at moved
    · rename_i held
      cases moved
      refine ⟨h.turn ?_ rfl, rfl⟩
      simp [Timeslot.setScripting, Timeslot.arm, Timeslot.line, Mapped.setMapped, held.1,
        Handler.phase]
    · cases moved
  | post i event ans =>
    cases moved
    exact ⟨h.post ans ordinary, rfl⟩
  | expire i read ans =>
    cases moved
    refine ⟨h.expire read ans, ?_⟩
    simp only [request, reply]
    split <;> rfl

/-- The timeslots are a switchboard, as long as none is shut down: however often one call id is in
use at a time, each line they hand out is the one that it hands out, each call id is answered with
its line, and the free list is its stack of idle lines. -/
theorem switchboard (server : Server) (raw : Fin n → Raw) {as : List (Action n)}
    (ordinary : ∀ a ∈ as, a.Ordinary)
    (run : Run.exec (step server) (construct server raw) as = some p) :
    let asked := Refine.observe (step server) (request server) (construct server raw) as
    let board := asked.foldl Switchboard.serve (.start n)
    Refine.observe (step server) (reply server) (construct server raw) as =
        Refine.answers Switchboard.serve Switchboard.reply (.start n) asked ∧
      (∀ cid, p.get cid = board.find cid) ∧
      Linked.Chain p.links.next (p.links.root .timeslots) board.idle := by
  obtain ⟨shown, replies⟩ :=
    (simulates server).run (construct_shows raw) (.of_all ordinary) run
  exact ⟨replies, shown.find, shown.board.valid.holds.chain .timeslots⟩

/-- Two calls have one id. The second ends, and the id is the first one's again. -/
theorem switchboard_twice :
    let raw : Fin 2 → Raw := fun _ => ⟨0, .incoming, none, none, none, none⟩
    let calls : List (Action 2) := [.assign none .incoming 5 (tick 0),
      .assign none .incoming 5 (tick 1), .post 0 .release (.at (tick 2) true)]
    let asked := Refine.observe (step .sample) (request .sample) (construct .sample raw) calls
    ∃ p, Run.exec (step .sample) (construct .sample raw) calls = some p ∧
      p.get 5 = (asked.foldl Switchboard.serve (.start 2)).find 5 ∧
      (asked.foldl Switchboard.serve (.start 2)).find 5 = some 1 :=
  ⟨_, rfl, (switchboard .sample _ (by decide) rfl).2.1 5, rfl⟩

end Pool

end Bayonne
