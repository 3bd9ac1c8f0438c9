import Mathlib.Data.List.TakeWhile
import Bayonne.Base.Scan
import Bayonne.Timeslot.Counters

/-! Segments of the timeslot array. A segment is taken out of service and put back by one
event to each of its timeslots in turn, up to the first that rejects it. -/
namespace Bayonne

inductive SegmentOp where
  | suspend | resume
  deriving DecidableEq, Repr

namespace SegmentOp

def event : SegmentOp → EventId
  | .suspend => .disable
  | .resume => .enable

def live : SegmentOp → Bool
  | .suspend => true
  | .resume => false

def already : SegmentOp → String
  | .suspend => "already suspended"
  | .resume => "already resumed"

def cannot : SegmentOp → String
  | .suspend => "cannot suspend"
  | .resume => "cannot resume"

/-- The handlers that accept the event, and the one they leave. -/
def accepts : SegmentOp → Handler → Bool
  | .suspend, h => h ≠ .offline
  | .resume, h => h = .offline

def target : SegmentOp → Handler
  | .suspend => .offline
  | .resume => .idle

theorem suspend_accepts_iff {h : Handler} : suspend.accepts h = true ↔ h ≠ .offline := by
  simp [accepts]

theorem resume_accepts_iff {h : Handler} : resume.accepts h = true ↔ h = .offline := by
  simp [accepts]

theorem not_accepts_target (o : SegmentOp) : o.accepts o.target = false := by
  cases o <;> rfl

end SegmentOp

structure Segment where
  live : Bool
  first : UInt32
  count : UInt32

def entry (n : Nat) (id : UInt32) : Option (Fin n) :=
  if h : id.toNat < n then some ⟨id.toNat, h⟩ else none

/-- The entries a loop comes to that counts its number up from `first`. -/
def entries (n : Nat) (first : UInt32) (count : Nat) : List (Fin n) :=
  (List.range count).filterMap fun k => entry n (first + UInt32.ofNat k)

theorem entries_succ (n : Nat) (first : UInt32) (count : Nat) :
    entries n first (count + 1) = (entry n first).toList ++ entries n (first + 1) count := by
  have shift : ((List.range count).map Nat.succ).filterMap
      (fun k => entry n (first + UInt32.ofNat k)) = entries n (first + 1) count := by
    rw [List.filterMap_map]
    refine List.filterMap_congr fun k _ => ?_
    have next : first + UInt32.ofNat (k + 1) = first + 1 + UInt32.ofNat k := by
      rw [UInt32.ofNat_add, UInt32.add_assoc, UInt32.add_comm (UInt32.ofNat k)]
      rfl
    simp only [Function.comp_apply, Nat.succ_eq_add_one, next]
  have here : first + UInt32.ofNat 0 = first := UInt32.add_zero first
  rw [entries, List.range_succ_eq_map, List.filterMap_cons, here, shift]
  cases entry n first <;> rfl

theorem entry_some {n : Nat} {id : UInt32} {i : Fin n} (h : entry n id = some i) :
    id.toNat = i := by
  unfold entry at h
  split at h
  · cases h
    rfl
  · cases h

/-- The loop comes to no entry twice, also where the numbers wrap. -/
theorem entries_nodup (n : Nat) (first count : UInt32) :
    (entries n first count.toNat).Nodup := by
  refine List.pairwise_filterMap.mpr (List.pairwise_lt_range.imp_of_mem ?_)
  intro j k hj hk lt a ha b hb same
  have hj := Nat.lt_trans (List.mem_range.mp hj) count.toNat_lt
  have hk := Nat.lt_trans (List.mem_range.mp hk) count.toNat_lt
  have numbers : first + UInt32.ofNat j = first + UInt32.ofNat k := by
    refine UInt32.toNat_inj.mp ?_
    rw [entry_some ha, entry_some hb, same]
  have offsets := congrArg UInt32.toNat (UInt32.add_right_inj first |>.mp numbers)
  rw [UInt32.toNat_ofNat_of_lt' hj, UInt32.toNat_ofNat_of_lt' hk] at offsets
  omega

structure Performed (n : Nat) where
  err : Option String
  segment : Segment
  pool : Pool n

namespace Segment
variable {n : Nat} (server : Server)

/-- The loop of `suspend` and `resume`. -/
def posts (event : EventId) (err : String) (ans : Fin n → Answers) :
    Nat → UInt32 → Pool n → Option String × Pool n
  | 0, _, p => (none, p)
  | tsc + 1, tsid, p =>
    match entry n tsid with
    | none => posts event err ans tsc (tsid + 1) p
    | some ts =>
      let out := (base server n).post p ts (ans ts) event
      if out.2 = .reject then (some err, out.1) else posts event err ans tsc (tsid + 1) out.1

def perform (o : SegmentOp) (ans : Fin n → Answers) (s : Segment) (p : Pool n) : Performed n :=
  if s.live ≠ o.live then ⟨some o.already, s, p⟩
  else
    let out := posts server o.event o.cannot ans s.count.toNat s.first p
    match out.1 with
    | some err => ⟨some err, s, out.2⟩
    | none => ⟨none, { s with live := !o.live }, out.2⟩

def suspend (ans : Fin n → Answers) (s : Segment) (p : Pool n) : Performed n :=
  perform server .suspend ans s p

def resume (ans : Fin n → Answers) (s : Segment) (p : Pool n) : Performed n :=
  perform server .resume ans s p

def slots (s : Segment) (n : Nat) : List (Fin n) := entries n s.first s.count.toNat

def ask (event : EventId) (ans : Fin n → Answers) (p : Pool n) (i : Fin n) : Bool × Pool n :=
  let out := (base server n).post p i (ans i) event
  (decide (out.2 ≠ .reject), out.1)

variable {server}

theorem posts_eq (event : EventId) (err : String) (ans : Fin n → Answers) (tsc : Nat)
    (tsid : UInt32) (p : Pool n) :
    posts server event err ans tsc tsid p =
      let out := Scan.upTo (ask server event ans) false (entries n tsid tsc) p
      (if out.1 then some err else none, out.2) := by
  induction tsc generalizing tsid p with
  | zero => rfl
  | succ tsc ih =>
    rw [entries_succ, posts]
    cases entry n tsid with
    | none => exact ih (tsid + 1) p
    | some i =>
      by_cases rejected : ((base server n).post p i (ans i) event).2 = .reject
      · simp [Scan.upTo, ask, rejected]
      · simp [Scan.upTo, ask, rejected, ih]

end Segment

namespace Pool
variable {n : Nat} {server : Server}

theorem slot_disable (p : Pool n) (i : Fin n) (ans : Answers) :
    ((p.disable server i ans).slot i).handler = .offline ∧
      ∀ j, j ≠ i → (p.disable server i ans).slot j = p.slot j := by
  unfold disable
  refine ⟨by simp [Timeslot.setOffline], fun j ne => ?_⟩
  by_cases unused : (p.slot i).mapped.started = 0
  · simp [unused, slot_modify_of_ne _ _ ne]
  · simp [unused, slot_modify_of_ne _ _ ne, slot_release, Function.update_of_ne ne]

theorem slot_enable (p : Pool n) (i : Fin n) :
    ((p.enable i).slot i).handler = .idle ∧ ∀ j, j ≠ i → (p.enable i).slot j = p.slot j := by
  unfold enable
  exact ⟨by simp [Timeslot.setIdle, Timeslot.disarm], fun j ne => slot_modify_of_ne p _ ne⟩

theorem post_refused {o : SegmentOp} {p : Pool n} {i : Fin n} (ans : Answers)
    (refused : o.accepts (p.slot i).handler = false) :
    (base server n).post p i ans o.event = ((p.lock i).unlock i, .reject) := by
  cases o with
  | suspend =>
    have offline : (p.slot i).handler = .offline := by
      simpa [SegmentOp.accepts] using refused
    simp [Virtual.post, Virtual.handle, base, SegmentOp.event, Virtual.offlineHandler, offline]
  | resume =>
    cases h : (p.slot i).handler with
    | offline =>
      rw [h] at refused
      cases refused
    | _ =>
      simp [Virtual.post, Virtual.handle, base, SegmentOp.event, Virtual.idleHandler,
        Virtual.releaseHandler, Virtual.scriptHandler, h]

def order (server : Server) (p : Pool n) (i : Fin n) (ans : Answers) : SegmentOp → Pool n
  | .suspend => (p.lock i).disable server i ans
  | .resume => (p.lock i).enable i

theorem post_accepted {o : SegmentOp} {p : Pool n} {i : Fin n} (ans : Answers)
    (accepted : o.accepts (p.slot i).handler = true) :
    (base server n).post p i ans o.event = (p.order server i ans o, .release) := by
  cases o with
  | suspend =>
    cases h : (p.slot i).handler with
    | offline =>
      rw [h] at accepted
      cases accepted
    | _ =>
      simp [Virtual.post, Virtual.handle, base, SegmentOp.event, Virtual.idleHandler,
        Virtual.releaseHandler, Virtual.scriptHandler, h, order]
  | resume =>
    have offline := SegmentOp.resume_accepts_iff.mp accepted
    simp [Virtual.post, Virtual.handle, base, SegmentOp.event, Virtual.offlineHandler, offline,
      order]

theorem slot_order (p : Pool n) (i : Fin n) (ans : Answers) (o : SegmentOp) :
    ((p.order server i ans o).slot i).handler = o.target ∧
      ∀ j, j ≠ i → (p.order server i ans o).slot j = p.slot j := by
  cases o with
  | suspend => exact slot_disable (p.lock i) i ans
  | resume => exact slot_enable (p.lock i) i

end Pool

namespace Pool
variable {n : Nat}

/-- The timeslots that an order gets to: those before the first that rejects it. -/
def willing (p : Pool n) (o : SegmentOp) (is : List (Fin n)) : List (Fin n) :=
  is.takeWhile fun i => o.accepts (p.slot i).handler

structure Taken (p q : Pool n) (o : SegmentOp) (is : List (Fin n)) : Prop where
  taken : ∀ i ∈ is, (q.slot i).handler = o.target
  frame : ∀ j, j ∉ is → q.slot j = p.slot j

theorem willing_self {p : Pool n} {o : SegmentOp} {is : List (Fin n)}
    (all : ∀ i ∈ is, o.accepts (p.slot i).handler = true) : p.willing o is = is :=
  List.takeWhile_eq_self_iff.mpr all

end Pool

namespace Segment
variable {n : Nat} {server : Server} {o : SegmentOp} {ans : Fin n → Answers} {is : List (Fin n)}
  {p q : Pool n} {s : Segment}

theorem ask_refused {i : Fin n} (refused : o.accepts (p.slot i).handler = false) :
    ask server o.event ans p i = (false, (p.lock i).unlock i) := by
  simp [ask, Pool.post_refused (ans i) refused]

theorem ask_accepted {i : Fin n} (accepted : o.accepts (p.slot i).handler = true) :
    ask server o.event ans p i = (true, p.order server i (ans i) o) := by
  simp [ask, Pool.post_accepted (ans i) accepted]

/-- The loop has a prefix of its timeslots take the order, and stops at the first that does
not. -/
theorem upTo_taken (nodup : is.Nodup) (same : ∀ i ∈ is, q.slot i = p.slot i) :
    q.Taken (Scan.upTo (ask server o.event ans) false is q).2 o (p.willing o is) ∧
      ((Scan.upTo (ask server o.event ans) false is q).1 = false ↔
        ∀ i ∈ is, o.accepts (p.slot i).handler = true) := by
  induction is generalizing q with
  | nil => exact ⟨⟨by simp [Pool.willing], fun j _ => rfl⟩, by simp [Scan.upTo]⟩
  | cons i is ih =>
    obtain ⟨fresh, nodup⟩ := List.nodup_cons.mp nodup
    have here : q.slot i = p.slot i := same i List.mem_cons_self
    cases accepted : o.accepts (p.slot i).handler with
    | false =>
      have refused := @ask_refused n server o ans q i (by rw [here, accepted])
      refine ⟨?_, ?_⟩
      · simp only [Scan.upTo, refused, Pool.willing, List.takeWhile_cons, accepted]
        exact ⟨by simp, fun j _ => rfl⟩
      · simp [Scan.upTo, refused, accepted]
    | true =>
      have taken := @ask_accepted n server o ans q i (by rw [here, accepted])
      obtain ⟨target, others⟩ := @Pool.slot_order n server q i (ans i) o
      have later : ∀ j ∈ is, (q.order server i (ans i) o).slot j = p.slot j := fun j hj => by
        rw [others j fun e => fresh (e ▸ hj)]
        exact same j (List.mem_cons_of_mem i hj)
      obtain ⟨rest, all_iff⟩ := ih nodup later
      have scanned : Scan.upTo (ask server o.event ans) false (i :: is) q =
          Scan.upTo (ask server o.event ans) false is (q.order server i (ans i) o) := by
        simp [Scan.upTo, taken]
      have willing : p.willing o (i :: is) = i :: p.willing o is := by
        simp [Pool.willing, accepted]
      rw [scanned, willing]
      have notLater : i ∉ p.willing o is := fun h => fresh ((List.takeWhile_subset _) h)
      refine ⟨⟨fun j hj => ?_, fun j hj => ?_⟩, ?_⟩
      · rcases List.mem_cons.mp hj with rfl | hj
        · rw [rest.frame j notLater, target]
        · exact rest.taken j hj
      · rw [rest.frame j fun h => hj (List.mem_cons_of_mem i h)]
        exact others j fun e => hj (e ▸ List.mem_cons_self)
      · simp [all_iff, accepted]

theorem perform_wrong (server : Server) (ans : Fin n → Answers) (p : Pool n)
    (wrong : s.live ≠ o.live) : s.perform server o ans p = ⟨some o.already, s, p⟩ := by
  rw [perform, if_pos wrong]

theorem perform_right (server : Server) (ans : Fin n → Answers) (p : Pool n)
    (right : s.live = o.live) :
    p.Taken (s.perform server o ans p).pool o (p.willing o (s.slots n)) ∧
      ((s.perform server o ans p).err = none ↔
        ∀ i ∈ s.slots n, o.accepts (p.slot i).handler = true) ∧
      (s.perform server o ans p).segment =
        if (s.perform server o ans p).err = none then { s with live := !o.live } else s := by
  obtain ⟨taken, all_iff⟩ := @upTo_taken n server o ans (s.slots n) p p
    (entries_nodup n s.first s.count) fun _ _ => rfl
  have loop := @posts_eq n server o.event o.cannot ans s.count.toNat s.first p
  rw [← slots] at loop
  rw [← all_iff]
  cases stopped : (Scan.upTo (ask server o.event ans) false (s.slots n) p).1 with
  | false =>
    have out : s.perform server o ans p = ⟨none, { s with live := !o.live },
        (Scan.upTo (ask server o.event ans) false (s.slots n) p).2⟩ := by
      simp [perform, right, loop, stopped]
    rw [out]
    exact ⟨taken, by simp, rfl⟩
  | true =>
    have out : s.perform server o ans p = ⟨some o.cannot, s,
        (Scan.upTo (ask server o.event ans) false (s.slots n) p).2⟩ := by
      simp [perform, right, loop, stopped]
    rw [out]
    exact ⟨taken, by simp, rfl⟩

/-- After an error the segment and its timeslots are as they were, and none of them has
gone where it rejects the order the next time. -/
structure Kept (s : Segment) (o : SegmentOp) (p : Pool n) (out : Performed n) : Prop where
  live : out.segment.live = s.live
  slot : ∀ i ∈ s.slots n, out.pool.slot i = p.slot i
  link : ∀ i ∈ s.slots n, out.pool.links.next i = p.links.next i
  again : ∀ i ∈ s.slots n, o.accepts (p.slot i).handler = true →
    o.accepts (out.pool.slot i).handler = true

/-- None of the timeslots rejects the order, or already the first does. -/
def Unmixed (s : Segment) (o : SegmentOp) (p : Pool n) : Prop :=
  (∀ i ∈ s.slots n, o.accepts (p.slot i).handler = true) ∨
    ∃ i, (s.slots n).head? = some i ∧ o.accepts (p.slot i).handler = false

theorem perform_first {i : Fin n} (first : (s.slots n).head? = some i)
    (refused : o.accepts (p.slot i).handler = false) (right : s.live = o.live) :
    s.perform server o ans p = ⟨some o.cannot, s, (p.lock i).unlock i⟩ := by
  have loop := @posts_eq n server o.event o.cannot ans s.count.toNat s.first p
  have rejected := @ask_refused n server o ans p i refused
  obtain ⟨is, list⟩ := List.head?_eq_some_iff.mp first
  rw [← slots, list] at loop
  simp [perform, right, loop, Scan.upTo, rejected]

theorem kept_of_unmixed (right : s.live = o.live) (unmixed : s.Unmixed o p)
    (failed : (s.perform server o ans p).err ≠ none) :
    s.Kept o p (s.perform server o ans p) := by
  rcases unmixed with all | ⟨i, first, refused⟩
  · exact absurd ((perform_right server ans p right).2.1.mpr all) failed
  · rw [perform_first first refused right]
    exact ⟨rfl, fun _ _ => rfl, fun _ _ => rfl, fun _ _ h => h⟩

theorem unmixed_of_kept (right : s.live = o.live)
    (kept : (s.perform server o ans p).err ≠ none → s.Kept o p (s.perform server o ans p)) :
    s.Unmixed o p := by
  obtain ⟨taken, none_iff, _⟩ := perform_right server ans p right
  by_cases all : ∀ i ∈ s.slots n, o.accepts (p.slot i).handler = true
  · exact .inl all
  have kept := kept fun none => all (none_iff.mp none)
  cases list : s.slots n with
  | nil => exact absurd (by simp [list]) all
  | cons i is =>
    refine .inr ⟨i, by rw [list]; rfl, ?_⟩
    have here : i ∈ s.slots n := by rw [list]; exact List.mem_cons_self
    by_contra accepted
    have willing : i ∈ p.willing o (s.slots n) := by
      simp [Pool.willing, list, Bool.not_eq_false _ ▸ accepted]
    have target := taken.taken i willing
    have same := kept.slot i here
    rw [← same, target, o.not_accepts_target] at accepted
    exact accepted rfl

/-- A failed order leaves everything as it was if and only if it is given to a segment in
the wrong state, or no timeslot has taken it before the first that rejects it. -/
theorem perform_kept_iff (server : Server) (o : SegmentOp) (ans : Fin n → Answers) (s : Segment)
    (p : Pool n) :
    ((s.perform server o ans p).err ≠ none → s.Kept o p (s.perform server o ans p)) ↔
      (s.live = o.live → s.Unmixed o p) := by
  by_cases right : s.live = o.live
  · exact ⟨fun kept _ => unmixed_of_kept right kept,
      fun unmixed => kept_of_unmixed right (unmixed right)⟩
  · rw [perform_wrong server ans p right]
    exact ⟨fun _ h => absurd h right,
      fun _ _ => ⟨rfl, fun _ _ => rfl, fun _ _ => rfl, fun _ _ h => h⟩⟩

theorem kept_iff (server : Server) (ans : Fin n → Answers) (s : Segment) (p : Pool n) :
    (((s.suspend server ans p).err ≠ none → s.Kept .suspend p (s.suspend server ans p)) ↔
      (s.live = true → s.Unmixed .suspend p)) ∧
    (((s.resume server ans p).err ≠ none → s.Kept .resume p (s.resume server ans p)) ↔
      (s.live = false → s.Unmixed .resume p)) :=
  ⟨perform_kept_iff server .suspend ans s p, perform_kept_iff server .resume ans s p⟩

/-- The second timeslot of a segment is offline already: the failed attempt takes the first
offline as well, and from then on the segment can neither be suspended nor resumed. -/
theorem not_kept :
    let raw : Fin 2 → Raw := fun _ => ⟨0, .incoming, none, none, none, none⟩
    let ans : Fin 2 → Answers := fun _ => .at (tick 0) true
    ∃ p, Run.exec (Pool.step .sample) (Pool.construct .sample raw)
        [.post 1 .disable (.at (tick 0) true)] = some p ∧
      let s : Segment := ⟨true, 0, 2⟩
      let out := s.suspend .sample ans p
      out.err = some "cannot suspend" ∧ ¬ s.Kept .suspend p out ∧
        (out.segment.suspend .sample ans out.pool).err = some "cannot suspend" ∧
        (out.segment.resume .sample ans out.pool).err = some "already resumed" := by
  refine ⟨_, rfl, by decide, fun kept => ?_, by decide, by decide⟩
  have again := kept.again 0 (by decide)
  revert again
  decide

end Segment
end Bayonne
