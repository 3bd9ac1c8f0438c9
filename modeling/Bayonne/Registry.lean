import Bayonne.Stats

/-! Registrations: their call allowance, and the nodes a starting server gives to the
system, the boards, the spans and the registrations. -/
namespace Bayonne

inductive Owner where
  | system
  | board (id : Nat)
  | span (id : Nat)
  | registry (id : Nat)
  deriving DecidableEq, Repr

def Owner.isRegistry : Owner → Bool
  | .registry _ => true
  | _ => false

/-- The keys of one registration that bear on its allowance; `limit` is the value
`atoi` reads. -/
structure RegKeys where
  id : String
  limit : Option Int

structure Registration where
  id : String
  limit : UInt32
  stats : Option Nat

namespace Registration

/-- `limit` is unsigned, so a negative key is a huge limit. -/
def limitOf (keys : RegKeys) : UInt32 :=
  match keys.limit with
  | some l => UInt32.ofInt l
  | none => 0

/-- Take a call against the limit. A registration without a node takes every call. -/
def attach (r : Registration) (shm : Nat → Statmap) (stat : Stat) : Bool × (Nat → Statmap) :=
  match r.stats with
  | none => (true, shm)
  | some k =>
    if r.limit = 0 ∨ (shm k).active < r.limit.toNat then
      (true, Function.update shm k ((shm k).update stat))
    else (false, shm)

theorem attach_refused {r : Registration} {shm : Nat → Statmap} {stat : Stat}
    (h : (r.attach shm stat).1 = false) : r.attach shm stat = (false, shm) := by
  unfold attach at h ⊢
  split at h
  · cases h
  · split at h
    · cases h
    · rename_i full
      simp only [if_neg full]

def release (r : Registration) (shm : Nat → Statmap) (stat : Stat) (now : Time) :
    Nat → Statmap :=
  match r.stats with
  | none => shm
  | some k => Function.update shm k ((shm k).release stat now)

end Registration

/-- What a server has built once it has started. Boards and spans are given by their
number of timeslots. -/
structure Server where
  table : Table
  boards : List (Option Nat)
  spans : List (Option Nat)
  registrations : List Registration

namespace Server

/-- The table as `statmap::create` leaves it before the boards: node 0 is the system's. -/
def created (count timeslots : Nat) : Table where
  count := count
  used := 1
  shm := Function.update (fun _ => {}) 0 (Label.fill ⟨"", .system, timeslots⟩ {})

def boardLabel (board : Nat × Nat) : Label := ⟨toString board.2, .board, board.1⟩
def spanLabel (span : Nat × Nat) : Label := ⟨toString span.2, .span, span.1⟩
def registryLabel (keys : RegKeys) : Label :=
  ⟨keys.id, .registry, (Registration.limitOf keys).toNat⟩

/-- Create the table, then the boards, the spans and the registrations, each asking for
a node. With `registries` at its largest value the count wraps to 0 and the first node
is a null pointer. -/
def start (registries : UInt32) (timeslots : Nat) (boards spans : List Nat)
    (keys : List RegKeys) : Option Server :=
  let count := registries + 1
  if count = 0 then none
  else
    let b := Table.serve (fun t a => t.getBoard a.2 a.1) (created count.toNat timeslots)
      boards.zipIdx
    let s := Table.serve (fun t a => t.getSpan a.2 a.1) b.2 spans.zipIdx
    let r := Table.serve (fun t k => t.getRegistry k.id (Registration.limitOf k)) s.2 keys
    some
      { table := r.2
        boards := b.1
        spans := s.1
        registrations :=
          List.zipWith (fun k node => Registration.mk k.id (Registration.limitOf k) node) keys r.1 }

def node (server : Server) : Owner → Option Nat
  | .system => some 0
  | .board id => server.boards[id]?.join
  | .span id => server.spans[id]?.join
  | .registry id => (server.registrations[id]?).bind Registration.stats

def nodeOf (server : Server) (owner : Nat → Owner) (id : Option Nat) : Option Nat :=
  id.bind fun id => server.node (owner id)

theorem place_min (count used i : Nat) :
    Table.place count (min count used + i) = Table.place count (used + i) := by
  unfold Table.place
  by_cases room : used + i < count
  · have : min count used + i = used + i := by omega
    rw [this]
  · rw [if_neg room, if_neg (by omega)]

section Started
variable {registries : UInt32} {timeslots : Nat} {boards spans : List Nat}
  {keys : List RegKeys} {server : Server}

theorem start_nodes (started : start registries timeslots boards spans keys = some server) :
    let node := Table.place (registries + 1).toNat
    server.boards = (List.range boards.length).map (fun b => node (1 + b)) ∧
    server.spans = (List.range spans.length).map (fun s => node (1 + boards.length + s)) ∧
    server.registrations = List.zipWith (fun k n => ⟨k.id, Registration.limitOf k, n⟩) keys
      ((List.range keys.length).map fun r => node (1 + boards.length + spans.length + r)) := by
  intro node
  simp only [start] at started
  split at started
  · cases started
  · rename_i nonzero
    cases started
    let count := (registries + 1).toNat
    have positive : 1 ≤ count := by
      have : count ≠ 0 := fun zero => nonzero (UInt32.toNat_inj.mp zero)
      omega
    let first := created count timeslots
    have boardTable := Table.serve_table boardLabel boards.zipIdx first positive
    let second := (Table.serve (fun t a => t.take (boardLabel a)) first boards.zipIdx).2
    have room : second.used ≤ second.count := by
      rw [boardTable.1, boardTable.2]
      exact Nat.min_le_left _ _
    have spanTable := Table.serve_table spanLabel spans.zipIdx second room
    let third := (Table.serve (fun t a => t.take (spanLabel a)) second spans.zipIdx).2
    refine ⟨?_, ?_, ?_⟩
    · have h := Table.serve_nodes boardLabel boards.zipIdx first
      rwa [List.length_zipIdx] at h
    · have h := Table.serve_nodes spanLabel spans.zipIdx second
      rw [List.length_zipIdx, boardTable.1, boardTable.2, List.length_zipIdx] at h
      simp only [place_min] at h
      exact h
    · have h := Table.serve_nodes registryLabel keys third
      rw [spanTable.1, spanTable.2, boardTable.1, boardTable.2, List.length_zipIdx,
        List.length_zipIdx] at h
      have used : min first.count (min first.count (first.used + boards.length) + spans.length) =
          min first.count (first.used + boards.length + spans.length) := by omega
      simp only [used, place_min] at h
      exact congrArg (List.zipWith _ keys) h

theorem node_place (started : start registries timeslots boards spans keys = some server)
    {o : Owner} {k : Nat} (hk : server.node o = some k) :
    match o with
    | .system => k = 0
    | .board b => b < boards.length ∧ k = 1 + b
    | .span s => s < spans.length ∧ k = 1 + boards.length + s
    | .registry r => k = 1 + boards.length + spans.length + r := by
  obtain ⟨hb, hs, hr⟩ := start_nodes started
  cases o with
  | system => exact (Option.some.inj hk).symm
  | board b =>
    by_cases inside : b < boards.length
    · have h : Table.place (registries + 1).toNat (1 + b) = some k := by simpa [node, hb, inside] using hk
      exact ⟨inside, (Table.place_some h).1⟩
    · simp [node, hb, inside] at hk
  | span s =>
    by_cases inside : s < spans.length
    · have h : Table.place (registries + 1).toNat (1 + boards.length + s) = some k := by
        simpa [node, hs, inside] using hk
      exact ⟨inside, (Table.place_some h).1⟩
    · simp [node, hs, inside] at hk
  | registry r =>
    obtain ⟨reg, hreg, hk⟩ := Option.bind_eq_some_iff.mp hk
    rw [hr] at hreg
    obtain ⟨x, n, hx, hn, rfl⟩ := List.getElem?_zipWith_eq_some.mp hreg
    have inside : r < keys.length := (List.getElem?_eq_some_iff.mp hx).1
    rw [List.getElem?_map, List.getElem?_range inside, Option.map_some] at hn
    cases hn
    exact (Table.place_some hk).1

theorem registration_at (started : start registries timeslots boards spans keys = some server)
    {r : Nat} {k : RegKeys} (hk : keys[r]? = some k) :
    server.registrations[r]? = some
      { id := k.id
        limit := Registration.limitOf k
        stats := Table.place (registries + 1).toNat (1 + boards.length + spans.length + r) } := by
  obtain ⟨_, _, hr⟩ := start_nodes started
  have inside : r < keys.length := (List.getElem?_eq_some_iff.mp hk).1
  rw [hr]
  refine List.getElem?_zipWith_eq_some.mpr ⟨k, _, hk, ?_, rfl⟩
  rw [List.getElem?_map, List.getElem?_range inside, Option.map_some]

theorem node_distinct (started : start registries timeslots boards spans keys = some server)
    {a b : Owner} {k : Nat} (ha : server.node a = some k) (hb : server.node b = some k) :
    a = b := by
  have pa := node_place started ha
  have pb := node_place started hb
  cases a <;> cases b <;>
    simp only [Owner.board.injEq, Owner.span.injEq, Owner.registry.injEq, reduceCtorEq] at pa pb ⊢ <;>
    omega

theorem start_stats (started : start registries timeslots boards spans keys = some server)
    (k : Nat) : (server.table.shm k).stats = fun _ => {} := by
  simp only [start] at started
  split at started
  · cases started
  · cases started
    refine (Table.serve_stats registryLabel keys _ k).trans ?_
    refine (Table.serve_stats spanLabel spans.zipIdx _ k).trans ?_
    refine (Table.serve_stats boardLabel boards.zipIdx _ k).trans ?_
    by_cases hk : k = 0
    · subst hk; rfl
    · simp [created, Function.update_of_ne hk]

end Started

def sample : Server := (start 2 4 [] [] [⟨"alice", some 1⟩, ⟨"bob", none⟩]).get rfl

theorem sample_started :
    start 2 4 [] [] [⟨"alice", some 1⟩, ⟨"bob", none⟩] = some sample := rfl

end Server

end Bayonne
