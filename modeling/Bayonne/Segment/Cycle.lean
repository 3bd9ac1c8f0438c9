import Bayonne.Segment
import Bayonne.Timeslot.Index

/-! A segment out of service and back. In every state that the pool reaches, a live segment
with no timeslot offline can be suspended, and resumed after whatever happens to the other
timeslots. -/
namespace Bayonne
open Tally

namespace Pool
variable {n : Nat} (server : Server)

/-- The forms of `assign` that drivers with fixed timeslots use. They scan the positions from
`starting` to `ending` for one that is unused; the first form makes its position the call
id. A range that ends with the last number wraps, and its scan goes on until it finds one. -/
def assignRange (p : Pool n) (stat : Stat) (starting ending : UInt32) (cid : Option Nat)
    (now : Now) : Option (Pool n) :=
  let count :=
    if ending.toNat + 1 = UInt32.size then UInt32.size else ending.toNat + 1 - starting.toNat
  match (entries n starting count).find? fun i => (p.slot i).mapped.started = 0 with
  | some i => some (p.allocate server i (cid.getD i) stat none now)
  | none => if ending.toNat + 1 = UInt32.size then none else some p

end Pool

inductive Operation (n : Nat) where
  | act (a : Action n)
  | assignRange (stat : Stat) (starting ending : UInt32) (cid : Option Nat) (now : Now)

namespace Operation
variable {n : Nat}

def Ordinary : Operation n → Prop
  | .act a => a.Ordinary
  | .assignRange .. => True

instance : (op : Operation n) → Decidable op.Ordinary
  | .act a => inferInstanceAs (Decidable a.Ordinary)
  | .assignRange .. => .isTrue trivial

/-- No event of the operation is for one of these timeslots. -/
def Spares (is : List (Fin n)) : Operation n → Prop
  | .act (.setScripting i _) => i ∉ is
  | .act (.post i _ _) => i ∉ is
  | .act (.expire i _ _) => i ∉ is
  | .act (.assign ..) | .act (.invite ..) | .assignRange .. => True

instance (is : List (Fin n)) : (op : Operation n) → Decidable (op.Spares is)
  | .act (.setScripting i _) => inferInstanceAs (Decidable (i ∉ is))
  | .act (.post i _ _) => inferInstanceAs (Decidable (i ∉ is))
  | .act (.expire i _ _) => inferInstanceAs (Decidable (i ∉ is))
  | .act (.assign ..) | .act (.invite ..) | .assignRange .. => .isTrue trivial

end Operation

namespace Pool
variable {n : Nat} (server : Server)

def operate (p : Pool n) : Operation n → Option (Pool n)
  | .act a => p.step server a
  | .assignRange stat starting ending cid now => p.assignRange server stat starting ending cid now

variable {server} {p q r : Pool n}

theorem assignRange_exchange (v : p.Valid) {stat : Stat} {starting ending : UInt32}
    {cid : Option Nat} {now : Now}
    (h : p.assignRange server stat starting ending cid now = some q) :
    q = p ∨ ∃ i, (p.exchange.line i).phase = .free ∧
      q.exchange = p.exchange.start server i (cid.getD i) stat none now := by
  obtain ⟨lists, v⟩ := v
  simp only [assignRange] at h
  split at h
  · rename_i i found
    cases h
    have unused := List.find?_some found
    have free : (p.exchange.line i).phase = .free := (v.timed i).mpr (of_decide_eq_true unused)
    exact .inr ⟨i, free, exchange_allocate p i _ stat none now (idle_of_free free)⟩
  · split at h
    · cases h
    · cases h
      exact .inl rfl

theorem Valid.operate (v : p.Valid) {op : Operation n} (ordinary : op.Ordinary)
    (h : p.operate server op = some q) : q.Valid := by
  cases op with
  | act a => exact v.step ordinary h
  | assignRange stat starting ending cid now =>
    rcases assignRange_exchange v h with rfl | ⟨i, free, began⟩
    · exact v
    · obtain ⟨lists, v⟩ := v
      obtain ⟨lists', v'⟩ :=
        @Exchange.Valid.start n server p.exchange lists v i free _ stat none now
      exact ⟨lists', began ▸ v'⟩

end Pool

namespace Exchange
variable {n : Nat} {server : Server} {x y : Exchange n}

theorem Response.frame {i j : Fin n} {ans : Answers} (h : x.Response server i ans y)
    (ne : j ≠ i) : y.line j = x.line j := by
  cases h with
  | quiet => rfl
  | finish => exact line_finish_of_ne x ne _
  | off => exact line_off_of_ne x ne _
  | finishOff => rw [line_off_of_ne _ ne, line_finish_of_ne x ne]
  | on => exact line_on_of_ne x ne

/-- A line out of service is left alone by all but its own events. -/
theorem Outcome.offline {a : Action n} (h : x.Outcome server a y) {is : List (Fin n)}
    (spares : (Operation.act a).Spares is) {i : Fin n} (mem : i ∈ is)
    (offline : (x.line i).phase = .offline) : y.line i = x.line i := by
  have other : ∀ {j}, (x.line j).phase = .free → i ≠ j := fun free e => by
    rw [e, free] at offline
    cases offline
  have apart : ∀ {j}, j ∉ is → i ≠ j := fun out e => out (e ▸ mem)
  cases h with
  | full | refused | returned | scripted => rfl
  | assigned j _ free => exact line_start_of_ne x (other free) _ _ _ _
  | admitted reg j _ _ _ free => exact line_start_of_ne _ (other free) _ _ _ _
  | posted response => exact response.frame (apart spares)
  | expired response => exact response.frame (apart spares)

end Exchange

namespace Pool
variable {n : Nat} {server : Server} {p q r : Pool n} {is : List (Fin n)} {o : SegmentOp}
  {ans : Fin n → Answers}

theorem Valid.operate_offline (v : p.Valid) {op : Operation n} (ordinary : op.Ordinary)
    (spares : op.Spares is) {i : Fin n} (mem : i ∈ is) (offline : (p.slot i).handler = .offline)
    (h : p.operate server op = some q) : (q.slot i).handler = .offline := by
  have phase : (p.exchange.line i).phase = .offline := congrArg Handler.phase offline
  have same : q.exchange.line i = p.exchange.line i := by
    cases op with
    | act a => exact (v.outcome ordinary h).offline spares mem phase
    | assignRange stat starting ending cid now =>
      rcases assignRange_exchange v h with rfl | ⟨j, free, began⟩
      · rfl
      · have ne : i ≠ j := fun e => by
          rw [e, free] at phase
          cases phase
        rw [began, Exchange.line_start_of_ne _ ne]
  have after : (q.slot i).handler.phase = .offline := (congrArg Line.phase same).trans phase
  cases h : (q.slot i).handler <;> simp [h, Handler.phase] at after ⊢

def orderAll (server : Server) (o : SegmentOp) (ans : Fin n → Answers) (p : Pool n)
    (is : List (Fin n)) : Pool n :=
  is.foldl (fun p i => p.order server i (ans i) o) p

theorem Valid.order (v : p.Valid) {i : Fin n} (ans : Answers)
    (accepted : o.accepts (p.slot i).handler = true) : (p.order server i ans o).Valid := by
  have posted : p.step server (.post i o.event ans) = some (p.order server i ans o) := by
    rw [Pool.step, post_accepted ans accepted]
  have ordinary : (Action.post i o.event ans).Ordinary := by cases o <;> exact EventId.noConfusion
  exact v.step ordinary posted

theorem accepts_order {i j : Fin n} (ne : j ≠ i) (ans : Answers) :
    o.accepts ((p.order server i ans o).slot j).handler = o.accepts (p.slot j).handler := by
  rw [(slot_order p i ans o).2 j ne]

theorem Valid.orderAll (v : p.Valid) (nodup : is.Nodup)
    (accepted : ∀ i ∈ is, o.accepts (p.slot i).handler = true) :
    (p.orderAll server o ans is).Valid := by
  induction is generalizing p with
  | nil => exact v
  | cons i is ih =>
    obtain ⟨fresh, nodup⟩ := List.nodup_cons.mp nodup
    refine ih (v.order (ans i) (accepted i List.mem_cons_self)) nodup fun j hj => ?_
    have ne : j ≠ i := fun e => fresh (e ▸ hj)
    rw [accepts_order ne]
    exact accepted j (List.mem_cons_of_mem i hj)

structure Retired (server : Server) (p q : Pool n) (is : List (Fin n)) : Prop where
  slot : ∀ j, j ∉ is → q.slot j = p.slot j
  records : ∀ j, j ∉ is → q.records j = p.records j
  stops : ∀ i ∈ is, q.stops i = p.stops i + if classOf (p.slot i).handler = .inCall then 1 else 0
  counters : ∀ o k, server.node o = some k → ∀ s,
    q.counters.value k s + UInt16.ofNat (tally fun i => i ∈ is ∧ (p.exchange.line i).counts o s) =
      p.counters.value k s

theorem stops_congr {j : Fin n} (same : q.records j = p.records j) : q.stops j = p.stops j := by
  rw [stops, stops, same]

theorem Retired.cons {i : Fin n} (fresh : i ∉ is) (first : p.Retired server q [i])
    (rest : q.Retired server r is) : p.Retired server r (i :: is) := by
  have apart : ∀ j ∈ is, j ∉ [i] := fun j hj e => fresh (List.mem_singleton.mp e ▸ hj)
  refine ⟨fun j hj => ?_, fun j hj => ?_, fun j hj => ?_, fun o k hk s => ?_⟩
  · have hi : j ∉ [i] := fun h => hj (List.mem_cons.mpr (.inl (List.mem_singleton.mp h)))
    rw [rest.slot j fun h => hj (List.mem_cons_of_mem i h), first.slot j hi]
  · have hi : j ∉ [i] := fun h => hj (List.mem_cons.mpr (.inl (List.mem_singleton.mp h)))
    rw [rest.records j fun h => hj (List.mem_cons_of_mem i h), first.records j hi]
  · rcases List.mem_cons.mp hj with rfl | hj
    · rw [stops_congr (rest.records j fresh), first.stops j List.mem_cons_self]
    · rw [rest.stops j hj, first.slot j (apart j hj), stops_congr (first.records j (apart j hj))]
  · have same : tally (fun j => j ∈ is ∧ (q.exchange.line j).counts o s) =
        tally (fun j => j ∈ is ∧ (p.exchange.line j).counts o s) := by
      refine tally_congr fun j => and_congr_right fun hj => ?_
      have line : q.exchange.line j = p.exchange.line j :=
        congrArg Timeslot.line (first.slot j (apart j hj))
      rw [line]
    have one := first.counters o k hk s
    have others := rest.counters o k hk s
    rw [tally_cons (List.not_mem_nil), tally_eq_zero fun j h => List.not_mem_nil h.1,
      Nat.zero_add] at one
    rw [same] at others
    rw [tally_cons fresh, UInt16.ofNat_add, ← UInt16.add_assoc, others, one]

theorem Retired.nil (p : Pool n) : p.Retired server p [] := by
  refine ⟨fun _ _ => rfl, fun _ _ => rfl, fun i hi => absurd hi List.not_mem_nil, ?_⟩
  intro o k hk s
  rw [tally_eq_zero fun j h => List.not_mem_nil h.1]
  exact UInt16.add_zero _

theorem records_suspend (p : Pool n) (i : Fin n) (ans : Answers) :
    ∃ rec : Dbi, rec.type = .stop ∧ ∀ j, (p.order server i ans .suspend).records j =
      p.records j ++ if i = j ∧ (p.slot i).mapped.started ≠ 0 then [rec] else [] := by
  refine ⟨(p.slot i).hangup.giveReason.stopRecord ans.ending, rfl, fun j => ?_⟩
  by_cases unused : (p.slot i).mapped.started = 0
  · have calls : (p.order server i ans .suspend).calls = p.calls := by
      simp [order, lock, disable, modify, unlock, delist, unused]
    rw [records, calls, if_neg fun h => h.2 unused, List.append_nil]
    rfl
  · have calls : (p.order server i ans .suspend).calls =
        p.calls ++ [(i, (p.slot i).hangup.giveReason.stopRecord ans.ending)] := by
      simp [order, lock, disable, release, releaseCall, relist, modify, unlock, delist, enlist,
        postRecord, releaseNode, unused]
    rw [records, calls, List.filterMap_append]
    by_cases hj : i = j
    · subst hj
      simp [records, unused]
    · simp [records, hj]

theorem counters_suspend (apart : server.Apart) {i : Fin n} (timed : p.Timed i)
    (inService : (p.slot i).handler ≠ .offline) (ans : Answers) {o : Owner} {k : Nat}
    (hk : server.node o = some k) (s : Stat) :
    (p.order server i ans .suspend).counters.value k s +
        UInt16.ofNat (if (p.exchange.line i).counts o s then 1 else 0) =
      p.counters.value k s := by
  by_cases unused : (p.slot i).mapped.started = 0
  · have free : (p.exchange.line i).phase = .free := timed.mpr unused
    have counters : (p.order server i ans .suspend).counters = p.counters :=
      congrArg Exchange.counters (exchange_disable_unused (p.lock i) i ans unused)
    have none : ¬ (p.exchange.line i).counts o s := fun h => by
      have busy := h.1
      rw [free] at busy
      cases busy
    rw [counters, if_neg none]
    exact UInt16.add_zero _
  · have busy := timed.busy inService unused
    have counters : (p.order server i ans .suspend).counters =
        (p.exchange.finish server i ans.lastcall).counters :=
      congrArg Exchange.counters (exchange_disable_used (p.lock i) i ans unused busy)
    have counted : (p.exchange.line i).counts o s ↔
        (p.exchange.line i).carries o ∧ s = (p.exchange.line i).stats :=
      ⟨fun h => ⟨h.2.2, h.2.1.symm⟩, fun h => ⟨busy, h.2.symm, h.1⟩⟩
    rw [counters, Exchange.finish_value apart hk]
    by_cases here : (p.exchange.line i).counts o s
    · rw [if_pos here, if_pos (counted.mp here)]
      exact UInt16.sub_add_cancel _ _
    · rw [if_neg here, if_neg fun h => here (counted.mpr h)]
      exact UInt16.add_zero _

theorem retired_one (apart : server.Apart) (v : p.Valid) {i : Fin n}
    (inService : (p.slot i).handler ≠ .offline) (ans : Answers) :
    p.Retired server (p.order server i ans .suspend) [i] := by
  obtain ⟨lists, v⟩ := v
  have timed : p.Timed i := v.timed i
  obtain ⟨rec, stop, records⟩ := @records_suspend n server p i ans
  refine ⟨fun j hj => ?_, fun j hj => ?_, fun j hj => ?_, fun o k hk s => ?_⟩
  · exact (slot_order p i ans .suspend).2 j fun e => hj (List.mem_singleton.mpr e)
  · rw [records, if_neg fun h => hj (List.mem_singleton.mpr h.1.symm), List.append_nil]
  · cases List.mem_singleton.mp hj
    rw [Pool.stops, records, List.countP_append, Pool.stops]
    by_cases used : (p.slot i).mapped.started ≠ 0
    · have inCall := (inCall_iff p i).mpr (timed.busy inService used)
      rw [if_pos ⟨rfl, used⟩, if_pos inCall, List.countP_singleton]
      simp [stop]
    · have free : (p.exchange.line i).phase = .free := timed.mpr (not_not.mp used)
      have notInCall : classOf (p.slot i).handler ≠ .inCall := fun h => by
        have busy := (inCall_iff p i).mp h
        rw [free] at busy
        cases busy
      rw [if_neg fun h => used h.2, if_neg notInCall, List.countP_nil]
  · rw [tally_cons List.not_mem_nil, tally_eq_zero fun j h => List.not_mem_nil h.1, Nat.zero_add]
    exact counters_suspend apart timed inService ans hk s

theorem orderAll_retired (apart : server.Apart) (v : p.Valid) (nodup : is.Nodup)
    (inService : ∀ i ∈ is, (p.slot i).handler ≠ .offline) :
    p.Retired server (p.orderAll server .suspend ans is) is := by
  induction is generalizing p with
  | nil => exact .nil p
  | cons i is ih =>
    obtain ⟨fresh, nodup⟩ := List.nodup_cons.mp nodup
    have here := inService i List.mem_cons_self
    have accepted := SegmentOp.suspend_accepts_iff.mpr here
    refine .cons fresh (retired_one apart v here (ans i)) (ih (v.order (ans i) accepted) nodup ?_)
    intro j hj
    have ne : j ≠ i := fun e => fresh (e ▸ hj)
    rw [(slot_order p i (ans i) .suspend).2 j ne]
    exact inService j (List.mem_cons_of_mem i hj)

end Pool

namespace Segment
variable {n : Nat} {server : Server} {o : SegmentOp} {ans : Fin n → Answers} {is : List (Fin n)}
  {p : Pool n} {s : Segment}

theorem upTo_all (nodup : is.Nodup) (accepted : ∀ i ∈ is, o.accepts (p.slot i).handler = true) :
    Scan.upTo (ask server o.event ans) false is p = (false, p.orderAll server o ans is) := by
  induction is generalizing p with
  | nil => rfl
  | cons i is ih =>
    obtain ⟨fresh, nodup⟩ := List.nodup_cons.mp nodup
    have taken := @ask_accepted n server o ans p i (accepted i List.mem_cons_self)
    have rest := @ih (p.order server i (ans i) o) nodup fun j hj => by
      have ne : j ≠ i := fun e => fresh (e ▸ hj)
      rw [Pool.accepts_order ne]
      exact accepted j (List.mem_cons_of_mem i hj)
    simp [Scan.upTo, taken, rest, Pool.orderAll]

theorem perform_all (right : s.live = o.live)
    (accepted : ∀ i ∈ s.slots n, o.accepts (p.slot i).handler = true) :
    s.perform server o ans p =
      ⟨none, { s with live := !o.live }, p.orderAll server o ans (s.slots n)⟩ := by
  have loop := @posts_eq n server o.event o.cannot ans s.count.toNat s.first p
  have whole := @upTo_all n server o ans (s.slots n) p (entries_nodup n s.first s.count) accepted
  rw [← slots, whole] at loop
  simp [perform, right, loop]

/-- The segment is out of service. Its timeslots are on no list, each call on them has posted
its STOP record and left the counters; the others are as they were, on the lists they were
on. -/
structure Suspended (server : Server) (s : Segment) (p : Pool n) (out : Performed n) : Prop where
  err : out.err = none
  live : out.segment.live = false
  lists : ∃ lists, (∀ r, Linked.Chain out.pool.links.next (out.pool.links.root r) (lists r)) ∧
    (∀ i ∈ s.slots n, out.pool.In lists i .offline) ∧
    ∀ j, j ∉ s.slots n → out.pool.In lists j (Pool.classOf (p.slot j).handler)
  stops : ∀ i ∈ s.slots n, out.pool.stops i =
    p.stops i + if Pool.classOf (p.slot i).handler = .inCall then 1 else 0
  counters : ∀ o k, server.node o = some k → ∀ stat,
    out.pool.counters.value k stat +
        UInt16.ofNat (tally fun i => i ∈ s.slots n ∧ (p.exchange.line i).counts o stat) =
      p.counters.value k stat
  others : ∀ j, j ∉ s.slots n →
    out.pool.slot j = p.slot j ∧ out.pool.records j = p.records j

/-- The segment is back. Its timeslots are on the free list once each. -/
structure Resumed (s : Segment) (p : Pool n) (out : Performed n) : Prop where
  err : out.err = none
  live : out.segment.live = true
  lists : ∃ lists, (∀ r, Linked.Chain out.pool.links.next (out.pool.links.root r) (lists r)) ∧
    (∀ i ∈ s.slots n, out.pool.In lists i .free) ∧
    ∀ j, j ∉ s.slots n → out.pool.In lists j (Pool.classOf (p.slot j).handler)
  records : ∀ i, out.pool.records i = p.records i
  counters : out.pool.counters = p.counters
  others : ∀ j, j ∉ s.slots n → out.pool.slot j = p.slot j

end Segment

namespace Pool
variable {n : Nat} {server : Server} {p : Pool n} {is : List (Fin n)} {ans : Fin n → Answers}

theorem orderAll_resumed (p : Pool n) :
    (p.orderAll server .resume ans is).calls = p.calls ∧
      (p.orderAll server .resume ans is).counters = p.counters := by
  induction is generalizing p with
  | nil => exact ⟨rfl, rfl⟩
  | cons i is ih => exact ih (p.order server i (ans i) .resume)

end Pool

namespace Segment
variable {n : Nat} {server : Server} {p : Pool n} {s : Segment}

theorem taken_of_all {o : SegmentOp} (right : s.live = o.live) (ans : Fin n → Answers)
    (accepted : ∀ i ∈ s.slots n, o.accepts (p.slot i).handler = true) :
    p.Taken (s.perform server o ans p).pool o (s.slots n) := by
  obtain ⟨taken, -, -⟩ := perform_right server ans p right
  rwa [Pool.willing_self accepted] at taken

theorem valid_of_all {o : SegmentOp} (right : s.live = o.live) (v : p.Valid)
    (ans : Fin n → Answers) (accepted : ∀ i ∈ s.slots n, o.accepts (p.slot i).handler = true) :
    (s.perform server o ans p).pool.Valid := by
  rw [perform_all right accepted]
  exact v.orderAll (entries_nodup n s.first s.count) accepted

theorem lists_of_all {o : SegmentOp} (right : s.live = o.live) (v : p.Valid) (ans : Fin n → Answers)
    (accepted : ∀ i ∈ s.slots n, o.accepts (p.slot i).handler = true) :
    ∃ lists, (∀ r, Linked.Chain (s.perform server o ans p).pool.links.next
        ((s.perform server o ans p).pool.links.root r) (lists r)) ∧
      (∀ i ∈ s.slots n, (s.perform server o ans p).pool.In lists i (Pool.classOf o.target)) ∧
      ∀ j, j ∉ s.slots n →
        (s.perform server o ans p).pool.In lists j (Pool.classOf (p.slot j).handler) := by
  have taken := @taken_of_all n server p s o right ans accepted
  obtain ⟨lists, valid⟩ := @valid_of_all n server p s o right v ans accepted
  refine ⟨lists, valid.holds.chain, fun i hi => ?_, fun j hj => ?_⟩
  · have class_i := Pool.in_class valid i
    rwa [taken.taken i hi] at class_i
  · have class_j := Pool.in_class valid j
    rwa [taken.frame j hj] at class_j

theorem suspended (apart : server.Apart) (live : s.live = true) (v : p.Valid)
    (inService : ∀ i ∈ s.slots n, (p.slot i).handler ≠ .offline) (ans : Fin n → Answers) :
    s.Suspended server p (s.suspend server ans p) := by
  have accepted : ∀ i ∈ s.slots n, SegmentOp.suspend.accepts (p.slot i).handler = true :=
    fun i hi => SegmentOp.suspend_accepts_iff.mpr (inService i hi)
  have out := @perform_all n server .suspend ans p s live accepted
  have lists := @lists_of_all n server p s .suspend live v ans accepted
  have retired := @Pool.orderAll_retired n server p _ ans apart v
    (entries_nodup n s.first s.count) inService
  rw [out] at lists
  rw [suspend, out]
  exact ⟨rfl, rfl, lists, retired.stops, retired.counters,
    fun j hj => ⟨retired.slot j hj, retired.records j hj⟩⟩

theorem resumed (suspended : s.live = false) (v : p.Valid)
    (offline : ∀ i ∈ s.slots n, (p.slot i).handler = .offline) (ans : Fin n → Answers) :
    s.Resumed p (s.resume server ans p) := by
  have accepted : ∀ i ∈ s.slots n, SegmentOp.resume.accepts (p.slot i).handler = true :=
    fun i hi => SegmentOp.resume_accepts_iff.mpr (offline i hi)
  have out := @perform_all n server .resume ans p s suspended accepted
  have lists := @lists_of_all n server p s .resume suspended v ans accepted
  have taken := @taken_of_all n server p s .resume suspended ans accepted
  obtain ⟨calls, counters⟩ := @Pool.orderAll_resumed n server (s.slots n) ans p
  rw [out] at lists taken
  rw [resume, out]
  refine ⟨rfl, rfl, lists, fun i => ?_, counters, taken.frame⟩
  rw [Pool.records, calls, Pool.records]

section Started
variable {registries : UInt32} {timeslots : Nat} {boards spans : List Nat} {keys : List RegKeys}

/-- In every state that operations reach, a live segment with no timeslot offline can be
suspended, and then resumed after any operations that spare its timeslots. -/
theorem suspend_resume
    (started : Server.start registries timeslots boards spans keys = some server)
    (raw : Fin n → Raw) (ops : List (Operation n)) (p : Pool n)
    (ordinary : ∀ op ∈ ops, op.Ordinary)
    (run : Run.exec (Pool.operate server) (Pool.construct server raw) ops = some p) (s : Segment)
    (live : s.live = true) (inService : ∀ i ∈ s.slots n, (p.slot i).handler ≠ .offline)
    (ans : Fin n → Answers) :
    s.Suspended server p (s.suspend server ans p) ∧
      ∀ ops' r, (∀ op ∈ ops', op.Ordinary ∧ op.Spares (s.slots n)) →
        Run.exec (Pool.operate server) (s.suspend server ans p).pool ops' = some r →
        ∀ ans', (s.suspend server ans p).segment.Resumed r
          ((s.suspend server ans p).segment.resume server ans' r) := by
  have apart : server.Apart := fun a b k ha hb => Server.node_distinct started ha hb
  have v : p.Valid := Run.preserved_of_all (fun _ _ _ v ok h => v.operate ok h)
    (Pool.construct_valid raw) ordinary run
  refine ⟨suspended apart live v inService ans, fun ops' r spares run' ans' => ?_⟩
  have accepted : ∀ i ∈ s.slots n, SegmentOp.suspend.accepts (p.slot i).handler = true :=
    fun i hi => SegmentOp.suspend_accepts_iff.mpr (inService i hi)
  have out := @perform_all n server .suspend ans p s live accepted
  have taken := @taken_of_all n server p s .suspend live ans accepted
  have valid := @valid_of_all n server p s .suspend live v ans accepted
  obtain ⟨valid', offline'⟩ : r.Valid ∧ ∀ i ∈ s.slots n, (r.slot i).handler = .offline :=
    Run.preserved_of_all (I := fun q : Pool n =>
        q.Valid ∧ ∀ i ∈ s.slots n, (q.slot i).handler = .offline)
      (fun q op t inv ok h => ⟨inv.1.operate ok.1 h,
        fun i hi => inv.1.operate_offline ok.1 ok.2 hi (inv.2 i hi) h⟩)
      ⟨valid, taken.taken⟩ spares run'
  have live' : (s.suspend server ans p).segment.live = false := by rw [suspend, out]; rfl
  have slots' : (s.suspend server ans p).segment.slots n = s.slots n := by rw [suspend, out]; rfl
  exact resumed live' valid' (by rw [slots']; exact offline') ans'

theorem suspend_resume_two :
    let raw : Fin 2 → Raw := fun _ => ⟨0, .incoming, none, none, none, none⟩
    let ans : Fin 2 → Answers := fun _ => .at (tick 1) true
    let s : Segment := ⟨true, 1, 1⟩
    ∃ p r, Run.exec (Pool.operate .sample) (Pool.construct .sample raw)
        [.act (.assign none .incoming 5 (tick 0))] = some p ∧
      Run.exec (Pool.operate .sample) (s.suspend .sample ans p).pool
        [.assignRange .outgoing 0 1 none (tick 2)] = some r ∧
      s.Suspended .sample p (s.suspend .sample ans p) ∧
      (s.suspend .sample ans p).segment.Resumed r
        ((s.suspend .sample ans p).segment.resume .sample ans r) := by
  intro raw ans s
  have both := suspend_resume Server.sample_started raw
    [.act (.assign none .incoming 5 (tick 0))] _ (by decide) rfl s rfl (by decide) ans
  exact ⟨_, _, rfl, rfl, both.1, both.2 [.assignRange .outgoing 0 1 none (tick 2)] _ (by decide)
    rfl ans⟩

end Started

end Segment
end Bayonne
