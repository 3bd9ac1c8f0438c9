import Bayonne.Base.Run
import Bayonne.Timeslot.Exchange

/-! Which list a timeslot is on, in every state that operations without SHUTDOWN reach:
a free slot on the free list, a slot in a call on the chain of its call id, an offline
slot on none. -/
namespace Bayonne

structure Exchange.Valid {n : Nat} (x : Exchange n) (lists : Root → List (Fin n)) : Prop where
  holds : Linked.Holds x.links lists
  free : ∀ i, i ∈ lists .timeslots ↔ (x.line i).phase = .free
  busy : ∀ i b, i ∈ lists (.assigned b) ↔ (x.line i).phase = .busy ∧ b = path (x.line i).cid
  timed : ∀ i, (x.line i).phase = .free ↔ (x.line i).started = 0

namespace Exchange
variable {n : Nat} {server : Server} {x : Exchange n} {lists : Root → List (Fin n)}

theorem Valid.head (v : x.Valid lists) {i : Fin n} (h : x.links.root .timeslots = some i) :
    (x.line i).phase = .free :=
  (v.free i).mp (v.holds.head_mem h)

theorem Valid.full (v : x.Valid lists) (h : x.links.root .timeslots = none) (i : Fin n) :
    (x.line i).phase ≠ .free := by
  intro free
  have chain := v.holds.chain .timeslots
  have inside := (v.free i).mpr free
  rw [h] at chain
  cases hl : lists .timeslots with
  | nil => rw [hl] at inside; cases inside
  | cons y ys => rw [hl] at chain; cases chain

theorem Valid.counters (v : x.Valid lists) (c : Counters) : Valid { x with counters := c } lists :=
  ⟨v.holds, v.free, v.busy, v.timed⟩

theorem Valid.not_assigned (v : x.Valid lists) {i : Fin n} (idle : (x.line i).phase ≠ .busy)
    (b : Fin indexSize) : i ∉ lists (.assigned b) := fun h => idle ((v.busy i b).mp h).1

theorem Valid.only_free (v : x.Valid lists) {i : Fin n} (free : (x.line i).phase ≠ .busy) :
    ∀ q, i ∈ lists q → q = .timeslots
  | .timeslots, _ => rfl
  | .assigned b, h => absurd h (v.not_assigned free b)

theorem Valid.only_busy (v : x.Valid lists) {i : Fin n} (busy : (x.line i).phase = .busy) :
    ∀ q, i ∈ lists q → q = .assigned (path (x.line i).cid)
  | .timeslots, h => absurd ((v.free i).mp h) (by simp [busy])
  | .assigned b, h => congrArg Root.assigned ((v.busy i b).mp h).2

/-- The step all moves share: one line changes, and its list memberships with it. -/
theorem Valid.update (v : x.Valid lists) {i : Fin n} {l : Line}
    {links : Linked.Links Root (Fin n)} {lists' : Root → List (Fin n)} (on : Root → Prop)
    (counters : Counters) (calls : List (Fin n × Mark)) (holds : Linked.Holds links lists')
    (members : ∀ q y, y ∈ lists' q ↔ y ≠ i ∧ y ∈ lists q ∨ y = i ∧ on q)
    (free : on .timeslots ↔ l.phase = .free)
    (busy : ∀ b, on (.assigned b) ↔ l.phase = .busy ∧ b = path l.cid)
    (timed : l.phase = .free ↔ l.started = 0) :
    Valid ⟨Function.update x.line i l, links, counters, calls⟩ lists' := by
  refine ⟨holds, fun j => ?_, fun j b => ?_, fun j => ?_⟩ <;> by_cases hj : j = i
  · subst hj
    simpa [members] using free
  · simpa [members, hj] using v.free j
  · subst hj
    simpa [members] using busy b
  · simpa [members, hj] using v.busy j b
  · subst hj
    simpa using timed
  · simpa [hj] using v.timed j

theorem Valid.start (v : x.Valid lists) {i : Fin n} (free : (x.line i).phase = .free)
    (cid : Nat) (stat : Stat) (reg : Option Nat) (now : Now) :
    ∃ lists', (x.start server i cid stat reg now).Valid lists' := by
  obtain ⟨lists', holds, members⟩ :=
    v.holds.move (v.only_free (i := i) (by simp [free])) (.assigned (path cid))
  exact ⟨lists', v.update (· = .assigned (path cid)) _ _ holds members
    (by simp [Line.start]) (by simp [Line.start])
    (by simp [Line.start, now.2])⟩

theorem Valid.finish (v : x.Valid lists) {i : Fin n} (busy : (x.line i).phase = .busy)
    (lastcall : Owner → Time) : ∃ lists', (x.finish server i lastcall).Valid lists' := by
  obtain ⟨lists', holds, members⟩ := v.holds.move (v.only_busy busy) .timeslots
  exact ⟨lists', v.update (· = .timeslots) _ _ holds members (by simp [Line.finish]) (by simp [Line.finish])
    (by simp [Line.finish])⟩

theorem Valid.off (v : x.Valid lists) {i : Fin n} (free : (x.line i).phase = .free) (now : Now) :
    ∃ lists', (x.off i now).Valid lists' := by
  obtain ⟨lists', holds, members⟩ := v.holds.remove (v.only_free (i := i) (by simp [free]))
  exact ⟨lists', v.update (fun _ => False) _ _ holds (by simpa using members) (by simp)
    (by simp) (by simp [now.2])⟩

theorem Valid.on (v : x.Valid lists) {i : Fin n} (offline : (x.line i).phase = .offline) :
    ∃ lists', (x.on i).Valid lists' := by
  have nowhere : ∀ q, i ∉ lists q := by
    rintro (_ | b) h
    · exact absurd ((v.free i).mp h) (by simp [offline])
    · exact absurd ((v.busy i b).mp h).1 (by simp [offline])
  obtain ⟨lists', holds, members⟩ := v.holds.insert nowhere .timeslots
  exact ⟨lists', v.update (· = .timeslots) _ _ holds members (by simp) (by simp) (by simp)⟩

theorem Valid.response (v : x.Valid lists) {i : Fin n} {ans : Answers} {y : Exchange n}
    (h : x.Response server i ans y) : ∃ lists', y.Valid lists' := by
  cases h with
  | quiet => exact ⟨lists, v⟩
  | finish busy => exact v.finish busy _
  | off free => exact v.off free _
  | finishOff busy =>
    obtain ⟨lists', v'⟩ := @Valid.finish n server x lists v i busy ans.lastcall
    have free : ((x.finish server i ans.lastcall).line i).phase = .free := by
      rw [line_finish]; rfl
    exact v'.off free _
  | on offline => exact v.on offline

theorem Valid.outcome (v : x.Valid lists) {a : Action n} {y : Exchange n}
    (h : x.Outcome server a y) : ∃ lists', y.Valid lists' := by
  cases h with
  | full | refused | scripted => exact ⟨lists, v⟩
  | assigned i _ free => exact v.start free _ _ _ _
  | returned => exact ⟨lists, v.counters _⟩
  | admitted reg i _ _ _ free =>
    have attached : (x.attach reg).Valid lists := v.counters _
    exact attached.start free _ _ _ _
  | posted response => exact v.response response
  | expired response => exact v.response response

end Exchange

namespace Pool
variable {n : Nat} {server : Server}

def Valid (p : Pool n) : Prop := ∃ lists, p.exchange.Valid lists

theorem Valid.outcome {p q : Pool n} (v : p.Valid) {a : Action n} (ordinary : a.Ordinary)
    (h : p.step server a = some q) : p.exchange.Outcome server a q.exchange := by
  obtain ⟨lists, v⟩ := v
  exact step_outcome (fun i => v.timed i) (fun i head => v.head head) ordinary h

theorem Valid.step {p q : Pool n} (v : p.Valid) {a : Action n} (ordinary : a.Ordinary)
    (h : p.step server a = some q) : q.Valid := by
  have outcome := v.outcome ordinary h
  obtain ⟨lists, v⟩ := v
  exact v.outcome outcome

theorem construct_valid (raw : Fin n → Raw) : (construct server raw).Valid := by
  obtain ⟨lists, holds, members⟩ :=
    Linked.exists_pushed (r := Root.timeslots) (List.nodup_finRange n)
  refine ⟨lists, holds, fun i => ?_, fun i b => ?_, fun i => ?_⟩
  · simp [members, exchange, construct, Timeslot.construct, Timeslot.line, Handler.phase]
  · simp [members, exchange, construct, Timeslot.construct, Timeslot.line, Handler.phase]
  · simp [exchange, construct, Timeslot.construct, Timeslot.line, Handler.phase]

theorem run_valid {raw : Fin n → Raw} {as : List (Action n)} {p : Pool n}
    (ordinary : ∀ a ∈ as, a.Ordinary)
    (run : Run.exec (step server) (construct server raw) as = some p) : p.Valid :=
  Run.preserved_of_all (fun _ _ _ v ok h => v.step ok h) (construct_valid raw) ordinary run

inductive Class where
  | free | inCall | offline
  deriving DecidableEq, Repr

/-- A timeslot of a class: the lists it is on, its handler and its `started` field. -/
def In (p : Pool n) (lists : Root → List (Fin n)) (i : Fin n) : Class → Prop
  | .free =>
    (lists .timeslots).count i = 1 ∧ (∀ b, i ∉ lists (.assigned b)) ∧
      (p.slot i).handler = .idle ∧ (p.slot i).mapped.started = 0
  | .inCall =>
    (lists (.assigned (path (p.slot i).cid))).count i = 1 ∧
      (∀ r, r ≠ .assigned (path (p.slot i).cid) → i ∉ lists r) ∧
      ((p.slot i).handler = .release ∨ (p.slot i).handler = .script) ∧
      (p.slot i).mapped.started ≠ 0
  | .offline =>
    (∀ r, i ∉ lists r) ∧ (p.slot i).handler = .offline ∧ (p.slot i).mapped.started ≠ 0

def classOf : Handler → Class
  | .idle => .free
  | .release | .script => .inCall
  | .offline => .offline

theorem class_of_in {p : Pool n} {lists : Root → List (Fin n)} {i : Fin n} {c : Class}
    (h : p.In lists i c) : c = classOf (p.slot i).handler := by
  cases c with
  | free => simp [In] at h; simp [h, classOf]
  | inCall => obtain ⟨_, _, h | h, _⟩ := h <;> simp [h, classOf]
  | offline => simp [In] at h; simp [h, classOf]

theorem in_class {p : Pool n} {lists : Root → List (Fin n)} (v : p.exchange.Valid lists)
    (i : Fin n) : p.In lists i (classOf (p.slot i).handler) := by
  have once : ∀ {r}, i ∈ lists r → (lists r).count i = 1 := fun h =>
    List.count_eq_one_of_mem (v.holds.nodup _) h
  have phase : (p.exchange.line i).phase = (p.slot i).handler.phase := rfl
  have started : (p.exchange.line i).started = (p.slot i).mapped.started := rfl
  have timed := v.timed i
  rw [phase, started] at timed
  cases h : (p.slot i).handler with
  | idle =>
    have free : (p.exchange.line i).phase = .free := by rw [phase, h]; rfl
    refine ⟨once ((v.free i).mpr free), v.not_assigned (by simp [free]), h, ?_⟩
    exact timed.mp (free ▸ phase.symm)
  | release | script =>
    have busy : (p.exchange.line i).phase = .busy := by rw [phase, h]; rfl
    refine ⟨once ((v.busy i _).mpr ⟨busy, rfl⟩), fun r other here => other (v.only_busy busy r here),
      by simp [h], fun zero => ?_⟩
    have free := timed.mpr zero
    rw [← phase, busy] at free
    cases free
  | offline =>
    have offline : (p.exchange.line i).phase = .offline := by rw [phase, h]; rfl
    refine ⟨?_, h, fun zero => ?_⟩
    · rintro (_ | b) here
      · exact absurd ((v.free i).mp here) (by simp [offline])
      · exact absurd ((v.busy i b).mp here).1 (by simp [offline])
    · have free := timed.mpr zero
      rw [← phase, offline] at free
      cases free

/-- What the roots hold, every timeslot in exactly one class, and a network `assign` that
comes back empty only when no timeslot is free. -/
structure Classified (p : Pool n) (server : Server) (lists : Root → List (Fin n)) : Prop where
  chain : ∀ r, Linked.Chain p.links.next (p.links.root r) (lists r)
  unique : ∀ i, ∃! c, p.In lists i c
  refuses : ∀ reg stat cid now, (p.assign server reg stat cid now).1 = none →
    ∀ i, ¬ p.In lists i .free

/-- In every state that any run of whole operations reaches, each of the timeslots is
free, in a call or offline, and on exactly the list of its class. -/
theorem classified (server : Server) (raw : Fin n → Raw) (as : List (Action n)) (p : Pool n)
    (ordinary : ∀ a ∈ as, a.Ordinary)
    (run : Run.exec (step server) (construct server raw) as = some p) :
    ∃ lists, p.Classified server lists := by
  obtain ⟨lists, v⟩ := run_valid ordinary run
  refine ⟨lists, v.holds.chain, fun i => ⟨_, in_class v i, fun c => class_of_in⟩, ?_⟩
  intro reg stat cid now refused i free
  have full : p.exchange.links.root .timeslots = none := by
    cases head : p.exchange.links.root .timeslots with
    | none => rfl
    | some j => rw [assign_head p reg stat cid now head] at refused; cases refused
  have phase : (p.exchange.line i).phase = .free := congrArg Handler.phase free.2.2.1
  exact v.full full i phase

/-- Two calls on one chain; the slot of the second is disabled, the first is hung up. -/
def twoCalls : List (Action 2) :=
  [.assign none .incoming 5 (tick 0), .assign none .outgoing 182 (tick 1),
    .setScripting 0 (.after 50), .post 0 .disable (.at (tick 2) true),
    .post 1 .release (.at (tick 3) true)]

theorem classified_two :
    ∃ p lists, Run.exec (step .sample)
        (construct .sample fun _ => ⟨0, .incoming, none, none, none, none⟩) twoCalls = some p ∧
      p.Classified .sample lists := by
  obtain ⟨lists, h⟩ := classified .sample
    (fun _ => ⟨0, .incoming, none, none, none, none⟩) twoCalls _ (by decide) rfl
  exact ⟨_, lists, rfl, h⟩

end Pool

end Bayonne
