import Bayonne.Timeslot.Counters

/-! Two books are kept of the calls: the records that go to the call log, and the counters that
the statistics are made of. They agree. -/
namespace Bayonne
open Tally

namespace Counters
variable (c : Counters) (node : Option Nat) (stat : Stat) (k : Nat)

def totals : UInt64 :=
  ((c.shm k).stats .incoming).total + ((c.shm k).stats .outgoing).total

def currents : UInt16 := c.value k .incoming + c.value k .outgoing

theorem totals_assign : (c.assign node stat).totals k =
    if node = some k then c.totals k + 1 else c.totals k := by
  cases node with
  | none => rfl
  | some j =>
    by_cases here : j = k
    · subst here
      cases stat <;> simp [assign, totals, Statmap.assign, Statmap.update, Entry.update] <;> grind
    · simp [assign, totals, Ne.symm here, here]

theorem totals_release (now : Time) : (c.release node stat now).totals k = c.totals k := by
  cases node with
  | none => rfl
  | some j =>
    by_cases here : j = k
    · subst here
      cases stat <;> simp [release, totals, Statmap.release, Entry.release]
    · simp [release, totals, Ne.symm here]

theorem currents_assign : (c.assign node stat).currents k =
    if node = some k then c.currents k + 1 else c.currents k := by
  simp only [currents, assign_value]
  cases stat <;> by_cases here : node = some k <;> simp [here] <;> grind

theorem currents_release (now : Time) : (c.release node stat now).currents k =
    if node = some k then c.currents k - 1 else c.currents k := by
  simp only [currents, release_value]
  cases stat <;> by_cases here : node = some k <;> simp [here] <;> grind

end Counters

namespace Exchange
variable {n : Nat} {server : Server} {x : Exchange n} {o : Owner} {k : Nat} {own : Fin n → Bool}
  {i : Fin n}

def posted (x : Exchange n) (own : Fin n → Bool) (type : DbiType) : Nat :=
  x.calls.countP fun call => decide (call.2.type = type) && own call.1

def serving (x : Exchange n) (own : Fin n → Bool) : Nat :=
  tally fun i => (x.line i).phase = .busy ∧ own i = true

/-- The books of an owner whose lines stay its own. -/
structure Booked (o : Owner) (k : Nat) (own : Fin n → Bool) (x : Exchange n) : Prop where
  carried : ∀ i, (x.line i).carries o ↔ own i = true
  matched : x.posted own .start = x.posted own .stop + x.serving own
  total : x.counters.totals k = UInt64.ofNat (x.posted own .start)
  current : x.counters.currents k = UInt16.ofNat (x.serving own)

theorem start_totals (apart : server.Apart) (shared : o.isRegistry = false)
    (hk : server.node o = some k) (cid : Nat) (stat : Stat) (reg : Option Nat) (now : Now) :
    (x.start server i cid stat reg now).counters.totals k =
      if (x.line i).carries o then x.counters.totals k + 1 else x.counters.totals k := by
  simp only [start, Counters.totals_assign, Server.node_iff apart hk, Server.nodeOf_iff apart hk]
  cases o <;> simp_all [Line.start, Line.carries, Owner.isRegistry] <;> congr

theorem start_currents (apart : server.Apart) (shared : o.isRegistry = false)
    (hk : server.node o = some k) (cid : Nat) (stat : Stat) (reg : Option Nat) (now : Now) :
    (x.start server i cid stat reg now).counters.currents k =
      if (x.line i).carries o then x.counters.currents k + 1 else x.counters.currents k := by
  simp only [start, Counters.currents_assign, Server.node_iff apart hk,
    Server.nodeOf_iff apart hk]
  cases o <;> simp_all [Line.start, Line.carries, Owner.isRegistry] <;> congr

theorem finish_totals (lastcall : Owner → Time) :
    (x.finish server i lastcall).counters.totals k = x.counters.totals k := by
  simp only [finish, Counters.totals_release]

theorem finish_currents (apart : server.Apart) (shared : o.isRegistry = false)
    (hk : server.node o = some k) (lastcall : Owner → Time) :
    (x.finish server i lastcall).counters.currents k =
      if (x.line i).carries o then x.counters.currents k - 1 else x.counters.currents k := by
  simp only [finish, Counters.currents_release, Server.node_iff apart hk,
    Server.nodeOf_iff apart hk]
  cases o <;> simp_all [Line.carries, Owner.isRegistry] <;> congr

theorem posted_concat {line : Fin n → Line} {links : Linked.Links Root (Fin n)}
    {counters : Counters} (m : Mark) (type : DbiType) :
    posted ⟨line, links, counters, x.calls ++ [(i, m)]⟩ own type =
      x.posted own type + if m.type = type ∧ own i = true then 1 else 0 := by
  simp [posted, List.countP_append, List.countP_cons]

/-- The lines stay the owner's: no move changes a board or a span. -/
theorem carried_kept {y : Exchange n} (carried : ∀ i, (x.line i).carries o ↔ own i = true)
    (shared : o.isRegistry = false)
    (kept : ∀ i, (y.line i).board = (x.line i).board ∧ (y.line i).span = (x.line i).span)
    (i : Fin n) : (y.line i).carries o ↔ own i = true := by
  rw [← carried]
  cases o with
  | system => exact Iff.rfl
  | registry r => cases shared
  | board b => exact iff_of_eq (congrArg (· = some b) (kept i).1)
  | span s => exact iff_of_eq (congrArg (· = some s) (kept i).2)

theorem Booked.start (h : x.Booked o k own) (apart : server.Apart) (shared : o.isRegistry = false)
    (hk : server.node o = some k) (free : (x.line i).phase = .free) (cid : Nat) (stat : Stat)
    (reg : Option Nat) (now : Now) : (x.start server i cid stat reg now).Booked o k own := by
  have others : ∀ j, j ≠ i → ((x.line j).phase = .busy ∧ own j = true ↔
      ((x.start server i cid stat reg now).line j).phase = .busy ∧ own j = true) :=
    fun j hj => by rw [line_start_of_ne x hj]
  have begun : ((x.start server i cid stat reg now).line i).phase = .busy := by
    rw [line_start]
    rfl
  have starts := @posted_concat n x own i
    (Function.update x.line i ((x.line i).start cid stat reg now))
    ((x.links.delist .timeslots i).enlist (.assigned (path cid)) i)
    (x.start server i cid stat reg now).counters (((x.line i).start cid stat reg now).mark .start)
  have idle : ¬ ((x.line i).phase = .busy ∧ own i = true) := fun busy => by
    cases free.symm.trans busy.1
  have carried := carried_kept (y := x.start server i cid stat reg now) h.carried shared fun j => by
    by_cases hj : j = i
    · rw [hj, line_start]
      exact ⟨rfl, rfl⟩
    · rw [line_start_of_ne x hj]
      exact ⟨rfl, rfl⟩
  by_cases its : own i = true
  · have serves : (x.start server i cid stat reg now).serving own = x.serving own + 1 :=
      tally_add others idle ⟨begun, its⟩
    have started : (x.start server i cid stat reg now).posted own .start =
        x.posted own .start + 1 := (starts .start).trans (by rw [if_pos ⟨rfl, its⟩])
    have stopped : (x.start server i cid stat reg now).posted own .stop = x.posted own .stop :=
      (starts .stop).trans (by rw [if_neg (by rintro ⟨⟨⟩, -⟩), Nat.add_zero])
    refine ⟨carried, ?_, ?_, ?_⟩
    · rw [started, stopped, serves, h.matched, Nat.add_assoc]
    · rw [start_totals apart shared hk, if_pos ((h.carried i).mpr its), h.total, started,
        UInt64.ofNat_add]
      rfl
    · rw [start_currents apart shared hk, if_pos ((h.carried i).mpr its), h.current, serves,
        ofNat_succ]
  · have serves : x.serving own = (x.start server i cid stat reg now).serving own :=
      tally_same others (iff_of_false idle fun busy => its busy.2)
    have same : ∀ type, (x.start server i cid stat reg now).posted own type = x.posted own type :=
      fun type => (starts type).trans (by rw [if_neg fun both => its both.2, Nat.add_zero])
    have away : ¬ (x.line i).carries o := fun carries => its ((h.carried i).mp carries)
    refine ⟨carried, ?_, ?_, ?_⟩
    · rw [same, same, ← serves, h.matched]
    · rw [start_totals apart shared hk, if_neg away, h.total, same]
    · rw [start_currents apart shared hk, if_neg away, h.current, serves]

theorem Booked.finish (h : x.Booked o k own) (apart : server.Apart)
    (shared : o.isRegistry = false) (hk : server.node o = some k)
    (busy : (x.line i).phase = .busy) (lastcall : Owner → Time) :
    (x.finish server i lastcall).Booked o k own := by
  have others : ∀ j, j ≠ i → (((x.finish server i lastcall).line j).phase = .busy ∧ own j = true ↔
      (x.line j).phase = .busy ∧ own j = true) := fun j hj => by rw [line_finish_of_ne x hj]
  have ended : ¬ (((x.finish server i lastcall).line i).phase = .busy ∧ own i = true) := by
    rw [line_finish]
    rintro ⟨⟨⟩, -⟩
  have stops := @posted_concat n x own i (Function.update x.line i (x.line i).finish)
    ((x.links.delist (.assigned (path (x.line i).cid)) i).enlist .timeslots i)
    (x.finish server i lastcall).counters ((x.line i).mark .stop)
  have carried := carried_kept (y := x.finish server i lastcall) h.carried shared fun j => by
    by_cases hj : j = i
    · rw [hj, line_finish]
      exact ⟨rfl, rfl⟩
    · rw [line_finish_of_ne x hj]
      exact ⟨rfl, rfl⟩
  by_cases its : own i = true
  · have serves : x.serving own = (x.finish server i lastcall).serving own + 1 :=
      tally_add others ended ⟨busy, its⟩
    have started : (x.finish server i lastcall).posted own .start = x.posted own .start :=
      (stops .start).trans (by rw [if_neg (by rintro ⟨⟨⟩, -⟩), Nat.add_zero])
    have stopped : (x.finish server i lastcall).posted own .stop = x.posted own .stop + 1 :=
      (stops .stop).trans (by rw [if_pos ⟨rfl, its⟩])
    refine ⟨carried, ?_, ?_, ?_⟩
    · rw [started, stopped, h.matched, serves]
      omega
    · rw [finish_totals, h.total, started]
    · rw [finish_currents apart shared hk, if_pos ((h.carried i).mpr its), h.current, serves,
        ofNat_pred]
  · have serves : (x.finish server i lastcall).serving own = x.serving own :=
      tally_same others (iff_of_false ended.elim fun both => its both.2)
    have same : ∀ type, (x.finish server i lastcall).posted own type = x.posted own type :=
      fun type => (stops type).trans (by rw [if_neg fun both => its both.2, Nat.add_zero])
    have away : ¬ (x.line i).carries o := fun carries => its ((h.carried i).mp carries)
    refine ⟨carried, ?_, ?_, ?_⟩
    · rw [same, same, serves, h.matched]
    · rw [finish_totals, h.total, same]
    · rw [finish_currents apart shared hk, if_neg away, h.current, serves]

theorem Booked.idle (h : x.Booked o k own) (shared : o.isRegistry = false) {y : Exchange n}
    (counters : y.counters = x.counters) (calls : y.calls = x.calls)
    (others : ∀ j, j ≠ i → y.line j = x.line j) (free : (x.line i).phase ≠ .busy)
    (free' : (y.line i).phase ≠ .busy)
    (kept : (y.line i).board = (x.line i).board ∧ (y.line i).span = (x.line i).span) :
    y.Booked o k own := by
  have serves : y.serving own = x.serving own :=
    tally_same (fun j hj => by rw [others j hj])
      (iff_of_false (fun busy => free' busy.1) fun busy => free busy.1)
  have same : ∀ type, y.posted own type = x.posted own type := fun type => by
    rw [posted, posted, calls]
  refine ⟨carried_kept h.carried shared fun j => ?_, ?_, ?_, ?_⟩
  · by_cases hj : j = i
    · rw [hj]
      exact kept
    · rw [others j hj]
      exact ⟨rfl, rfl⟩
  · rw [same, same, serves, h.matched]
  · rw [counters, same, h.total]
  · rw [counters, serves, h.current]

theorem Booked.response (h : x.Booked o k own) (apart : server.Apart)
    (shared : o.isRegistry = false) (hk : server.node o = some k) {ans : Answers}
    {y : Exchange n} (r : x.Response server i ans y) : y.Booked o k own := by
  have off : ∀ {z : Exchange n}, z.Booked o k own → (z.line i).phase = .free →
      (z.off i ans.now).Booked o k own := fun {z} booked free => by
    refine booked.idle shared rfl rfl (fun j hj => line_off_of_ne z hj _) (by rw [free]; nofun)
      ?_ ?_ <;> rw [line_off]
    · rintro ⟨⟩
    · exact ⟨rfl, rfl⟩
  cases r with
  | quiet => exact h
  | finish busy => exact h.finish apart shared hk busy _
  | off free => exact off h free
  | finishOff busy =>
    refine off (h.finish apart shared hk busy ans.lastcall) ?_
    rw [line_finish]
    rfl
  | on offline =>
    refine h.idle shared rfl rfl (fun j hj => line_on_of_ne x hj) (by rw [offline]; nofun) ?_ ?_ <;>
      rw [line_on]
    · rintro ⟨⟩
    · exact ⟨rfl, rfl⟩

theorem Booked.recounted (h : x.Booked o k own) (c : Counters)
    (totals : c.totals k = x.counters.totals k) (currents : c.currents k = x.counters.currents k) :
    Booked o k own { x with counters := c } :=
  ⟨h.carried, h.matched, totals.trans h.total, currents.trans h.current⟩

theorem Booked.attach (h : x.Booked o k own) {reg : Registration} (other : reg.stats ≠ some k) :
    (x.attach reg).Booked o k own := by
  have same : (reg.attach x.counters.shm .incoming).2 k = x.counters.shm k := by
    unfold Registration.attach
    cases stats : reg.stats with
    | none => rfl
    | some j =>
      simp only
      split
      · have ne : k ≠ j := fun here => other (by rw [stats, here])
        exact Function.update_of_ne ne _ _
      · rfl
  refine h.recounted { x.counters with shm := (reg.attach x.counters.shm .incoming).2 } ?_ ?_
  · simp only [Counters.totals, same]
  · simp only [Counters.currents, Counters.value, same]

theorem Booked.outcome (h : x.Booked o k own) (apart : server.Apart)
    (shared : o.isRegistry = false) (hk : server.node o = some k) {a : Action n} {y : Exchange n}
    (out : x.Outcome server a y) : y.Booked o k own := by
  have other : ∀ {r : Nat} {reg : Registration}, server.registrations[r]? = some reg →
      reg.stats ≠ some k := fun hr here => by
    rw [(Server.stats_iff apart hr hk).mp here] at shared
    cases shared
  cases out with
  | full | refused | scripted => exact h
  | assigned i _ free => exact h.start apart shared hk free _ _ _ _
  | returned reg hr =>
    refine (h.attach (other hr)).recounted _ ?_ ?_
    · rw [Counters.totals_release]
    · rw [Counters.currents_release, if_neg (other hr)]
  | admitted reg i hr _ _ free => exact (h.attach (other hr)).start apart shared hk free _ _ _ _
  | posted r => exact h.response apart shared hk r
  | expired r => exact h.response apart shared hk r

end Exchange

namespace Pool
variable {n : Nat}

def posted (p : Pool n) (o : Owner) (type : DbiType) : Nat :=
  p.calls.countP fun call => call.2.type = type ∧ (p.slot call.1).line.carries o

def serving (p : Pool n) (o : Owner) : Nat :=
  tally fun i => classOf (p.slot i).handler = .inCall ∧ (p.slot i).line.carries o

section Started
variable {registries : UInt32} {timeslots : Nat} {boards spans : List Nat}
  {keys : List RegKeys} {server : Server}

theorem construct_booked
    (started : Server.start registries timeslots boards spans keys = some server)
    (raw : Fin n → Raw) (o : Owner) (k : Nat) : (construct server raw).exchange.Booked o k fun i =>
      ((construct server raw).slot i).line.carries o := by
  have zero := Server.start_stats started k
  have empty : ((construct server raw).exchange.serving fun i =>
      ((construct server raw).slot i).line.carries o) = 0 :=
    tally_eq_zero fun i busy => by cases busy.1
  refine ⟨fun i => (decide_eq_true_iff).symm, ?_, ?_, ?_⟩
  · rw [empty]
    rfl
  · show ((server.table.shm k).stats .incoming).total +
      ((server.table.shm k).stats .outgoing).total = 0
    rw [zero]
    rfl
  · rw [empty]
    show ((server.table.shm k).stats .incoming).current +
      ((server.table.shm k).stats .outgoing).current = 0
    rw [zero]
    rfl

/-- The books of the exchange, in terms of the timeslots. -/
theorem agree_of_booked {p : Pool n} {o : Owner} {k : Nat} {own : Fin n → Bool}
    (h : p.exchange.Booked o k own) :
    p.posted o .start = p.posted o .stop + p.serving o ∧
      p.counters.totals k = UInt64.ofNat (p.posted o .start) ∧
      p.counters.currents k = UInt16.ofNat (p.serving o) := by
  have posted : ∀ type, p.exchange.posted own type = p.posted o type := fun type => by
    rw [Exchange.posted, Pool.posted, exchange, List.countP_map]
    refine List.countP_congr fun call _ => ?_
    have carried : (p.slot call.1).line.carries o ↔ own call.1 = true := h.carried call.1
    simp only [Function.comp_apply, Bool.and_eq_true, decide_eq_true_eq, carried]
    exact Iff.rfl
  have serving : p.exchange.serving own = p.serving o := by
    refine tally_congr fun i => ?_
    have carried : (p.slot i).line.carries o ↔ own i = true := h.carried i
    rw [inCall_iff, carried]
  rw [← posted, ← posted, ← serving]
  exact ⟨h.matched, h.total, h.current⟩

/-- The statistics and the call log agree: over every run without a SHUTDOWN the lines of an owner
have posted a START record for each STOP record and each call in progress, and its node counts as
many calls as there are START records and as many in progress as there are without a STOP record. -/
theorem books_agree (started : Server.start registries timeslots boards spans keys = some server)
    (raw : Fin n → Raw) {as : List (Action n)} {p : Pool n} (ordinary : ∀ a ∈ as, a.Ordinary)
    (run : Run.exec (step server) (construct server raw) as = some p) {o : Owner}
    (shared : o.isRegistry = false) {k : Nat} (hk : server.node o = some k) :
    p.posted o .start = p.posted o .stop + p.serving o ∧
      p.counters.totals k = UInt64.ofNat (p.posted o .start) ∧
      p.counters.currents k = UInt16.ofNat (p.serving o) := by
  have apart : server.Apart := fun _ _ _ ha hb => Server.node_distinct started ha hb
  let own : Fin n → Bool := fun i => ((construct server raw).slot i).line.carries o
  have inv : p.Valid ∧ p.exchange.Booked o k own :=
    Run.preserved_of_all (I := fun p => p.Valid ∧ p.exchange.Booked o k own)
      (fun p a q inv ok moved =>
        ⟨inv.1.step ok moved, inv.2.outcome apart shared hk (inv.1.outcome ok moved)⟩)
      ⟨construct_valid raw, construct_booked started raw o k⟩ ordinary run
  exact agree_of_booked inv.2

end Started

theorem books_agree_two :
    ∃ p, Run.exec (step .sample)
        (construct .sample fun _ => ⟨0, .incoming, none, none, none, none⟩) twoCalls = some p ∧
      p.posted .system .start = 2 ∧
      p.posted .system .start = p.posted .system .stop + p.serving .system ∧
      p.counters.totals 0 = UInt64.ofNat (p.posted .system .start) ∧
      p.counters.currents 0 = UInt16.ofNat (p.serving .system) := by
  have ordinary : ∀ a ∈ twoCalls, a.Ordinary := by decide
  exact ⟨_, rfl, rfl, books_agree Server.sample_started _ ordinary rfl rfl rfl⟩

end Pool

end Bayonne
