import Mathlib.Data.List.Basic
import Mathlib.Logic.Function.Basic

/-! Call statistics: the nodes of the shared table, what a call does to a node, and
how the server hands the nodes out. -/
namespace Bayonne

abbrev Time := Int

inductive Stat where
  | incoming | outgoing
  deriving DecidableEq, Repr

inductive NodeType where
  | unused | system | board | span | registry
  deriving DecidableEq, Repr

structure Entry where
  total : UInt64 := 0
  period : UInt64 := 0
  pperiod : UInt64 := 0
  current : UInt16 := 0
  peak : UInt16 := 0
  min : UInt16 := 0
  max : UInt16 := 0
  pmin : UInt16 := 0
  pmax : UInt16 := 0

structure Statmap where
  id : String := ""
  type : NodeType := .unused
  stats : Stat → Entry := fun _ => {}
  lastcall : Time := 0
  timeslots : UInt16 := 0

def Entry.update (e : Entry) : Entry :=
  let current := e.current + 1
  { e with
    period := e.period + 1
    total := e.total + 1
    current := current
    peak := if e.peak < current then current else e.peak
    max := if e.max < current then current else e.max }

def Entry.release (e : Entry) : Entry :=
  let current := e.current - 1
  { e with
    current := current
    min := if current < e.min then current else e.min }

def Entry.collect (e : Entry) : Entry :=
  { e with
    pperiod := e.period
    pmax := e.max
    pmin := e.min
    max := e.current
    min := e.current
    period := 0 }

structure Triple where
  count : UInt64
  min : UInt16
  max : UInt16
  deriving DecidableEq, Repr

structure LogLine where
  type : NodeType
  id : String
  entries : Stat → Triple
  last : Time

structure PstatsLine where
  type : NodeType
  id : String
  timeslots : UInt16
  entries : Stat → Triple

namespace Statmap

/-- Both counters are promoted before the addition, so the sum does not wrap. -/
def active (m : Statmap) : Nat :=
  (m.stats .incoming).current.toNat + (m.stats .outgoing).current.toNat

def update (m : Statmap) (entry : Stat) : Statmap :=
  { m with stats := Function.update m.stats entry (m.stats entry).update }

def assign (m : Statmap) (entry : Stat) : Statmap := m.update entry

def release (m : Statmap) (entry : Stat) (now : Time) : Statmap :=
  { m with
    lastcall := if m.active = 1 then now else m.lastcall
    stats := Function.update m.stats entry (m.stats entry).release }

/-- The counter a call holds while it is in progress. -/
def current (m : Statmap) (entry : Stat) : UInt16 := (m.stats entry).current

def collect (m : Statmap) : Statmap := { m with stats := fun entry => (m.stats entry).collect }

def logLine (m : Statmap) : LogLine where
  type := m.type
  id := m.id
  entries := fun entry => ⟨(m.stats entry).period, (m.stats entry).min, (m.stats entry).max⟩
  last := m.lastcall

/-- What `pstats` prints about a node: the count of the last period, but the running minimum
and maximum. -/
def pstatsLine (m : Statmap) : PstatsLine where
  type := m.type
  id := m.id
  timeslots := m.timeslots
  entries := fun entry => ⟨(m.stats entry).pperiod, (m.stats entry).min, (m.stats entry).max⟩

@[simp] theorem current_update (m : Statmap) (entry s : Stat) :
    (m.update entry).current s = if s = entry then m.current s + 1 else m.current s := by
  by_cases hs : s = entry
  · subst hs; simp [current, update, Entry.update]
  · simp [current, update, hs]

@[simp] theorem current_assign (m : Statmap) (entry s : Stat) :
    (m.assign entry).current s = if s = entry then m.current s + 1 else m.current s :=
  current_update m entry s

@[simp] theorem current_release (m : Statmap) (entry s : Stat) (now : Time) :
    (m.release entry now).current s = if s = entry then m.current s - 1 else m.current s := by
  by_cases hs : s = entry
  · subst hs; simp [current, release, Entry.release]
  · simp [current, release, hs]

theorem active_update (m : Statmap) (entry : Stat) :
    (m.update entry).active = m.active + 1 ∨ (m.update entry).active + 65535 = m.active := by
  have here : ((m.update entry).current entry).toNat = ((m.current entry).toNat + 1) % 65536 := by
    simp [UInt16.toNat_add]
  have bound : (m.current entry).toNat < 65536 := (m.current entry).toNat_lt
  cases entry <;> simp only [active, current, update] at here bound ⊢ <;> simp at here ⊢ <;> omega

theorem active_release (m : Statmap) (entry : Stat) (now : Time) :
    (m.release entry now).active + 1 = m.active ∨
      (m.release entry now).active = m.active + 65535 := by
  have here : ((m.release entry now).current entry).toNat =
      (65536 - 1 + (m.current entry).toNat) % 65536 := by
    simp [UInt16.toNat_sub]
  have bound : (m.current entry).toNat < 65536 := (m.current entry).toNat_lt
  cases entry <;> simp only [active, current, release] at here bound ⊢ <;> simp at here ⊢ <;> omega

end Statmap

/-- The shared memory table and the file-level counters `count` and `used`. -/
structure Table where
  count : Nat
  used : Nat
  shm : Nat → Statmap

/-- What an owner writes into the node it is given. -/
structure Label where
  id : String
  type : NodeType
  timeslots : Nat

def Label.fill (l : Label) (m : Statmap) : Statmap :=
  { m with
    id := String.ofList (l.id.toList.take 7)
    type := l.type
    timeslots := UInt16.ofNat l.timeslots }

namespace Table

/-- The common body of `getBoard`, `getSpan` and `getRegistry`. -/
def take (t : Table) (l : Label) : Option Nat × Table :=
  if t.count = 0 ∨ t.count ≤ t.used then (none, t)
  else
    (some t.used,
      { t with used := t.used + 1, shm := Function.update t.shm t.used (l.fill (t.shm t.used)) })

def getBoard (t : Table) (id count : Nat) : Option Nat × Table :=
  t.take ⟨toString id, .board, count⟩

def getSpan (t : Table) (id count : Nat) : Option Nat × Table :=
  t.take ⟨toString id, .span, count⟩

def getRegistry (t : Table) (id : String) (limit : UInt32) : Option Nat × Table :=
  t.take ⟨id, .registry, limit.toNat⟩

def collectNode (fp : Bool) (out : List LogLine × Table) (pos : Nat) : List LogLine × Table :=
  let node := out.2.shm pos
  if node.type = .unused then out
  else
    (if fp then out.1 ++ [node.logLine] else out.1,
      { out.2 with shm := Function.update out.2.shm pos node.collect })

/-- `statmap::period`, with the lines it writes if the log is open. -/
def period (t : Table) (fp : Bool) : List LogLine × Table :=
  (List.range t.count).foldl (collectNode fp) ([], t)

def pstats (t : Table) : List PstatsLine :=
  (((List.range t.count).map t.shm).takeWhile fun m => decide (m.type ≠ .unused)).map
    Statmap.pstatsLine

def serve {α : Type} (get : Table → α → Option Nat × Table) :
    Table → List α → List (Option Nat) × Table
  | t, [] => ([], t)
  | t, a :: as =>
    let first := get t a
    let rest := serve get first.2 as
    (first.1 :: rest.1, rest.2)

theorem take_facts (t : Table) (l : Label) :
    (t.take l).2.count = t.count ∧
    ((t.take l).1 = none ∧ (t.take l).2.used = t.used ∧ (t.count = 0 ∨ t.count ≤ t.used) ∨
     (t.take l).1 = some t.used ∧ (t.take l).2.used = t.used + 1 ∧ t.used < t.count) := by
  unfold take
  split
  · exact ⟨rfl, .inl ⟨rfl, rfl, ‹_›⟩⟩
  · rename_i room
    exact ⟨rfl, .inr ⟨rfl, rfl, by omega⟩⟩

theorem take_stats (t : Table) (l : Label) (k : Nat) :
    ((t.take l).2.shm k).stats = (t.shm k).stats := by
  unfold take
  split
  · rfl
  · by_cases hk : k = t.used
    · subst hk; simp [Label.fill]
    · simp [Function.update_of_ne hk]

theorem serve_stats {α : Type} (label : α → Label) (as : List α) (t : Table) (k : Nat) :
    ((serve (fun t a => t.take (label a)) t as).2.shm k).stats = (t.shm k).stats := by
  induction as generalizing t with
  | nil => rfl
  | cons a as ih => exact (ih (t.take (label a)).2).trans (take_stats t (label a) k)

def place (count position : Nat) : Option Nat :=
  if position < count then some position else none

theorem place_some {count position k : Nat} (h : place count position = some k) :
    k = position ∧ position < count := by
  unfold place at h
  split at h
  · exact ⟨(Option.some.inj h).symm, ‹_›⟩
  · cases h

/-- The `i`th of a sequence of owners gets the `i`th node after those in use, as long as
the table has one. -/
theorem serve_nodes {α : Type} (label : α → Label) (as : List α) (t : Table) :
    (serve (fun t a => t.take (label a)) t as).1 =
      (List.range as.length).map fun i => place t.count (t.used + i) := by
  induction as generalizing t with
  | nil => rfl
  | cons a as ih =>
    have ih := ih (t.take (label a)).2
    simp only [serve, List.length_cons, List.range_succ_eq_map, List.map_cons, List.map_map]
    obtain ⟨count, ⟨first, used, full⟩ | ⟨first, used, room⟩⟩ := take_facts t (label a)
    · rw [first, ih, count, used]
      have out : ∀ i, place t.count (t.used + i) = none := fun i => if_neg (by omega)
      rw [out 0]
      refine congrArg _ (List.map_congr_left fun i _ => ?_)
      simp only [Function.comp_apply, out]
    · rw [first, ih, count, used]
      have here : place t.count (t.used + 0) = some t.used := if_pos room
      rw [here]
      refine congrArg _ (List.map_congr_left fun i _ => ?_)
      simp only [Function.comp_apply, Nat.succ_eq_add_one, Nat.add_assoc, Nat.add_comm 1 i]

theorem serve_table {α : Type} (label : α → Label) (as : List α) (t : Table)
    (within : t.used ≤ t.count) :
    (serve (fun t a => t.take (label a)) t as).2.count = t.count ∧
    (serve (fun t a => t.take (label a)) t as).2.used = min t.count (t.used + as.length) := by
  induction as generalizing t with
  | nil => exact ⟨rfl, (Nat.min_eq_right within).symm⟩
  | cons a as ih =>
    obtain ⟨count, next⟩ := take_facts t (label a)
    have bound : (t.take (label a)).2.used ≤ (t.take (label a)).2.count := by
      rcases next with ⟨_, used, _⟩ | ⟨_, used, room⟩ <;> omega
    obtain ⟨hcount, hused⟩ := ih (t.take (label a)).2 bound
    refine ⟨hcount.trans count, hused.trans ?_⟩
    rw [count, List.length_cons]
    rcases next with ⟨_, used, full⟩ | ⟨_, used, room⟩ <;> omega

end Table

end Bayonne
