import Bayonne.Timeslot.Counters

/-! What the decrements of the counters find, and the conservation of calls over whole
runs of admissions and events. -/
namespace Bayonne
open Tally

namespace Exchange
variable {n : Nat} {server : Server} {x : Exchange n}

theorem finish_drops (apart : server.Apart) (x : Exchange n) (i : Fin n)
    (lastcall : Owner → Time) :
    ∃ ds, (x.finish server i lastcall).counters.drops = x.counters.drops ++ ds ∧
      ∀ v ∈ ds, ∃ o k, server.node o = some k ∧ (x.line i).carries o ∧
        v = x.counters.value k (x.line i).stats := by
  simp only [finish, Counters.release_drops, List.append_assoc]
  refine ⟨_, rfl, fun v hv => ?_⟩
  simp only [List.mem_append, Option.mem_toList, Option.map_eq_some_iff] at hv
  rcases hv with ⟨k, hk, rfl⟩ | ⟨k, hk, rfl⟩ | ⟨k, hk, rfl⟩ | ⟨k, hk, rfl⟩
  · exact ⟨.system, k, hk, trivial, rfl⟩
  · obtain ⟨r, hr, hk⟩ := Option.bind_eq_some_iff.mp hk
    refine ⟨.registry r, k, hk, hr, ?_⟩
    simp [Counters.release_value, Server.node_iff apart hk]
  · obtain ⟨b, hb, hk⟩ := Option.bind_eq_some_iff.mp hk
    refine ⟨.span b, k, hk, hb, ?_⟩
    simp [Counters.release_value, Server.node_iff apart hk, Server.nodeOf_iff apart hk]
  · obtain ⟨b, hb, hk⟩ := Option.bind_eq_some_iff.mp hk
    refine ⟨.board b, k, hk, hb, ?_⟩
    simp [Counters.release_value, Server.node_iff apart hk, Server.nodeOf_iff apart hk]

def busyLines (x : Exchange n) : Nat := tally fun i => (x.line i).phase = .busy

theorem inProgress_le (x : Exchange n) (o : Owner) (s : Stat) : x.inProgress o s ≤ x.busyLines :=
  tally_mono fun _ h => h.1

theorem Counted.nonzero (h : x.Counted server fun _ _ => 0) (few : x.busyLines < 65536) {i : Fin n}
    (busy : (x.line i).phase = .busy) {o : Owner} {k : Nat} (hk : server.node o = some k)
    (carries : (x.line i).carries o) : x.counters.value k (x.line i).stats ≠ 0 := by
  have some : 0 < x.inProgress o (x.line i).stats := tally_pos ⟨busy, rfl, carries⟩
  have bound := x.inProgress_le o (x.line i).stats
  rw [h o k _ hk, Nat.add_zero, ne_eq, ← UInt16.toNat_inj, UInt16.toNat_ofNat']
  simp only [UInt16.toNat_zero]
  omega

/-- The decrements of an operation find 0 only where a refused admission has just wrapped
the counter of its registration. -/
def DropsSound (x : Exchange n) (a : Action n) (y : Exchange n) : Prop :=
  ∃ ds, y.counters.drops = x.counters.drops ++ ds ∧ ∀ v ∈ ds, v = 0 →
    ∃ r cid now ending, a = .invite r cid now ending ∧ x.links.root .timeslots = none ∧
      x.inProgress (.registry r) .incoming = 65535

theorem dropsSound_of_eq {a : Action n} {y : Exchange n} (same : y.counters.drops = x.counters.drops) :
    x.DropsSound a y := ⟨[], by simp [same], by simp⟩

theorem Counted.finish_sound (apart : server.Apart) (h : x.Counted server fun _ _ => 0)
    (few : x.busyLines < 65536) {i : Fin n} (busy : (x.line i).phase = .busy) {a : Action n}
    {y : Exchange n} {lastcall : Owner → Time}
    (same : y.counters = (x.finish server i lastcall).counters) : x.DropsSound a y := by
  obtain ⟨ds, drops, all⟩ := finish_drops apart x i lastcall
  refine ⟨ds, by rw [same, drops], fun v hv zero => ?_⟩
  obtain ⟨o, k, hk, carries, rfl⟩ := all v hv
  exact absurd zero (h.nonzero few busy hk carries)

theorem Counted.response_sound (apart : server.Apart) (h : x.Counted server fun _ _ => 0)
    (few : x.busyLines < 65536) {i : Fin n} {ans : Answers} {y : Exchange n} {a : Action n}
    (r : x.Response server i ans y) : x.DropsSound a y := by
  cases r with
  | quiet => exact dropsSound_of_eq rfl
  | finish busy => exact h.finish_sound apart few busy rfl
  | off => exact dropsSound_of_eq rfl
  | finishOff busy => exact h.finish_sound apart few busy rfl
  | on => exact dropsSound_of_eq rfl

theorem start_drops (x : Exchange n) (i : Fin n) (cid : Nat) (stat : Stat) (reg : Option Nat)
    (now : Now) : (x.start server i cid stat reg now).counters.drops = x.counters.drops := by
  simp only [start, Counters.assign_drops]

theorem Counted.outcome_sound (apart : server.Apart) (h : x.Counted server fun _ _ => 0)
    (few : x.busyLines < 65536) {a : Action n} {y : Exchange n} (o : x.Outcome server a y) :
    x.DropsSound a y := by
  cases o with
  | full | refused | scripted => exact dropsSound_of_eq rfl
  | assigned i => exact dropsSound_of_eq (start_drops x i _ _ _ _)
  | admitted reg i => exact dropsSound_of_eq (start_drops (x.attach reg) i _ _ _ _)
  | posted r => exact h.response_sound apart few r
  | expired r => exact h.response_sound apart few r
  | @returned r cid now ending reg hr attached full =>
    refine ⟨_, Counters.release_drops _ _ _ _, fun v hv zero => ⟨r, cid, now, ending, rfl, full, ?_⟩⟩
    simp only [Option.mem_toList, Option.map_eq_some_iff] at hv
    obtain ⟨k, hk, rfl⟩ := hv
    have node : server.node (.registry r) = some k := by simpa [Server.node, hr] using hk
    have wrapped := h.attach apart hr attached (.registry r) k .incoming node
    rw [zero, waiting, if_pos ⟨rfl, rfl⟩] at wrapped
    have same : (x.attach reg).inProgress (.registry r) .incoming =
        x.inProgress (.registry r) .incoming := rfl
    have bound := x.inProgress_le (.registry r) .incoming
    rw [same, ← UInt16.toNat_inj, UInt16.toNat_ofNat', UInt16.toNat_zero] at wrapped
    omega

end Exchange

namespace Pool
variable {n : Nat}

def callsInProgress (p : Pool n) : Nat := tally fun i => classOf (p.slot i).handler = .inCall

def inProgress (p : Pool n) (o : Owner) (s : Stat) : Nat :=
  tally fun i =>
    classOf (p.slot i).handler = .inCall ∧ (p.slot i).stats = s ∧ (p.slot i).line.carries o

def Conserved (server : Server) (p : Pool n) : Prop :=
  ∀ o k s, server.node o = some k → ((p.counters.shm k).current s).toNat = p.inProgress o s

def newDrops (p q : Pool n) : List UInt16 := q.counters.drops.drop p.counters.drops.length

/-- An operation takes down a counter that is 0 only in an admission that finds no free slot
while its registration has exactly 65535 incoming calls in progress. -/
def NoUnderflow (server : Server) (p : Pool n) (a : Action n) : Prop :=
  ∀ q, p.step server a = some q → ∀ v ∈ p.newDrops q, v = 0 →
    ∃ r cid now ending, a = .invite r cid now ending ∧
      (∀ i, classOf (p.slot i).handler ≠ .free) ∧ p.inProgress (.registry r) .incoming = 65535

theorem callsInProgress_exchange (p : Pool n) : p.exchange.busyLines = p.callsInProgress :=
  tally_congr fun i => (inCall_iff p i).symm

theorem inProgress_exchange (p : Pool n) (o : Owner) (s : Stat) :
    p.exchange.inProgress o s = p.inProgress o s :=
  tally_congr fun i => by
    rw [inCall_iff]
    exact Iff.rfl

structure Sound (server : Server) (p : Pool n) : Prop where
  valid : p.Valid
  counted : p.exchange.Counted server fun _ _ => 0
  few : p.callsInProgress < 65536

theorem Sound.conserved {server : Server} {p : Pool n} (h : p.Sound server) :
    p.Conserved server := by
  intro o k s hk
  have counted := h.counted o k s hk
  have bound := p.exchange.inProgress_le o s
  have few := h.few
  rw [callsInProgress_exchange, inProgress_exchange] at bound
  rw [inProgress_exchange, Nat.add_zero] at counted
  have value : p.exchange.counters.value k s = (p.counters.shm k).current s := rfl
  rw [← value, counted, UInt16.toNat_ofNat']
  omega

theorem Sound.noUnderflow {server : Server} (apart : server.Apart) {p : Pool n}
    (h : p.Sound server) {a : Action n} (ordinary : a.Ordinary) : p.NoUnderflow server a := by
  intro q hq v hv zero
  have outcome := h.valid.outcome ordinary hq
  have few : p.exchange.busyLines < 65536 := by rw [callsInProgress_exchange]; exact h.few
  obtain ⟨ds, drops, all⟩ := h.counted.outcome_sound apart few outcome
  have new : p.newDrops q = ds := by
    have drops : q.counters.drops = p.counters.drops ++ ds := drops
    rw [newDrops, drops, List.drop_left]
  obtain ⟨r, cid, now, ending, rfl, full, many⟩ := all v (new ▸ hv) zero
  refine ⟨r, cid, now, ending, rfl, fun i free => ?_, (inProgress_exchange p _ _).symm.trans many⟩
  obtain ⟨lists, valid⟩ := h.valid
  refine valid.full full i ?_
  have phase : (p.exchange.line i).phase = (p.slot i).handler.phase := rfl
  rw [phase]
  cases hh : (p.slot i).handler <;> simp [hh, classOf, Handler.phase] at free ⊢

section Started
variable {registries : UInt32} {timeslots : Nat} {boards spans : List Nat}
  {keys : List RegKeys} {server : Server}

theorem construct_counted
    (started : Server.start registries timeslots boards spans keys = some server)
    (raw : Fin n → Raw) : (construct server raw).exchange.Counted server fun _ _ => 0 := by
  intro o k s _
  have stats := Server.start_stats started k
  have none : (construct server raw).exchange.inProgress o s = 0 :=
    tally_eq_zero fun i h => by cases h.1
  rw [none]
  simp [exchange, construct, Counters.value, Statmap.current, stats]

/-- While fewer than 65536 calls are in progress, the counters are the calls in progress after
every admission and event, and no decrement underflows but the one that gives back an
allowance whose counter it had wrapped. -/
theorem counters_conserved
    (started : Server.start registries timeslots boards spans keys = some server)
    (raw : Fin n → Raw) (as : List (Action n))
    (admissions : ∀ a ∈ as, a.Ordinary ∧ a.Admission)
    (few : Run.Always (step server) (fun p => p.callsInProgress < 65536) (construct server raw) as) :
    Run.Always (step server) (Conserved server) (construct server raw) as ∧
      Run.Along (step server) (NoUnderflow server) (construct server raw) as := by
  have apart : server.Apart := fun a b k ha hb => Server.node_distinct started ha hb
  have start : (construct server raw).Sound server :=
    ⟨construct_valid raw, construct_counted started raw, few.head⟩
  have step : ∀ (p : Pool n) a q, p.Sound server →
      ((a.Ordinary ∧ a.Admission) ∧ ∀ t, p.step server a = some t → t.callsInProgress < 65536) →
      p.step server a = some q → q.Sound server := fun p a q h ok hq =>
    ⟨h.valid.step ok.1.1 hq, h.counted.outcome apart ok.1.2 (h.valid.outcome ok.1.1 hq), ok.2 q hq⟩
  have all : Run.Along (Pool.step server) (fun _ a => a.Ordinary ∧ a.Admission)
      (construct server raw) as := .of_all admissions
  have along := all.and few.along
  exact ⟨Run.Always.of_invariant step (fun _ h => h.conserved) start along,
    along.strengthen step (fun _ _ h ok => h.noUnderflow apart ok.1.1) start⟩

def oneCall (i : Fin n) : List (Action n) :=
  [.invite 0 5 (tick 0) 1, .post i .release (.at (tick 1) true)]

theorem counters_conserved_two :
    Run.Always (step .sample) (Conserved .sample)
        (construct .sample fun _ => ⟨0, .incoming, none, none, none, none⟩) (oneCall (0 : Fin 2)) ∧
      Run.Along (step .sample) (NoUnderflow .sample)
        (construct .sample fun _ => ⟨0, .incoming, none, none, none, none⟩) (oneCall (0 : Fin 2)) :=
  counters_conserved Server.sample_started _ (oneCall 0) (by decide)
    (.of_forall fun _ => (tally_le _).trans_lt (by simp))

end Started

section Underflow
variable {n : Nat}

structure Filled (server : Server) (k : Nat) (p : Pool n) : Prop where
  sound : p.Sound server
  online : ∀ i, (p.exchange.line i).phase ≠ .offline
  under : ∀ i, (p.exchange.line i).phase = .busy →
    (p.exchange.line i).stats = .incoming ∧ (p.exchange.line i).registry = some 1
  calls : p.exchange.busyLines = k

theorem Filled.free_of_head_none {server : Server} {k : Nat} {p : Pool n} (h : Filled server k p)
    (full : p.exchange.links.root .timeslots = none) : k = n := by
  obtain ⟨lists, valid⟩ := h.sound.valid
  have busy : ∀ i, (p.exchange.line i).phase = .busy := by
    intro i
    have notFree := valid.full full i
    have online := h.online i
    cases hp : (p.exchange.line i).phase <;> simp_all
  rw [← h.calls, Exchange.busyLines, tally_eq_card busy, Fintype.card_fin]

theorem Filled.all_busy {server : Server} {p : Pool n} (h : Filled server n p) (i : Fin n) :
    (p.exchange.line i).phase = .busy :=
  all_of_tally_eq_card (by rw [Fintype.card_fin]; exact h.calls) i

theorem Filled.inProgress {server : Server} {k : Nat} {p : Pool n} (h : Filled server k p) :
    p.exchange.inProgress (.registry 1) .incoming = k := by
  rw [← h.calls]
  exact tally_congr fun i => ⟨fun c => c.1, fun busy => ⟨busy, h.under i busy⟩⟩

def bobCalls : Action n := .invite 1 7 (tick 0) 1

theorem bob_registered : Server.sample.registrations[1]? = some ⟨"bob", 0, some 2⟩ := rfl

theorem bob_attaches (shm : Nat → Statmap) {reg : Registration}
    (hr : Server.sample.registrations[1]? = some reg) : (reg.attach shm .incoming).1 = true := by
  cases bob_registered.symm.trans hr
  simp [Registration.attach]

theorem Filled.invite {k : Nat} {p : Pool n} (h : Filled .sample k p) (small : n < 65536)
    (room : k < n) : ∃ q, p.step .sample bobCalls = some q ∧ Filled .sample (k + 1) q := by
  have apart : Server.sample.Apart := fun _ _ _ => Server.node_distinct Server.sample_started
  have ordinary : (bobCalls : Action n).Ordinary := trivial
  have admission : (bobCalls : Action n).Admission := trivial
  obtain ⟨q, hq⟩ : ∃ q, p.step .sample bobCalls = some q := ⟨_, rfl⟩
  refine ⟨q, hq, ?_⟩
  have outcome := h.sound.valid.outcome ordinary hq
  have sound : q.Sound .sample :=
    ⟨h.sound.valid.step ordinary hq, h.sound.counted.outcome apart admission outcome,
      (tally_le _).trans_lt (by simpa using small)⟩
  generalize hy : q.exchange = y at outcome
  cases outcome with
  | refused reg hr attached => rw [bob_attaches _ hr] at attached; cases attached
  | returned reg hr attached full => exact absurd (h.free_of_head_none full) (by omega)
  | admitted reg i hr attached head free =>
    refine ⟨sound, fun j => ?_, fun j => ?_, ?_⟩
    · rw [hy]
      by_cases hj : j = i
      · subst hj; rw [Exchange.line_start]; simp [Line.start]
      · rw [Exchange.line_start_of_ne _ hj]; exact h.online j
    · rw [hy]
      by_cases hj : j = i
      · subst hj; rw [Exchange.line_start]; exact fun _ => ⟨rfl, rfl⟩
      · rw [Exchange.line_start_of_ne _ hj]; exact h.under j
    · rw [hy, ← h.calls]
      refine tally_add (i := i) (fun j hj => ?_) (by simp [free]) ?_
      · rw [Exchange.line_start_of_ne _ hj]; exact Iff.rfl
      · rw [Exchange.line_start]; rfl

theorem fill (raw : Fin n → Raw) (small : n < 65536) :
    ∀ k ≤ n, ∃ p, Run.exec (step .sample) (construct .sample raw) (List.replicate k bobCalls) =
      some p ∧ Filled .sample k p
  | 0, _ => by
    refine ⟨_, rfl, ⟨construct_valid raw, construct_counted Server.sample_started raw, ?_⟩,
      fun i => ?_, fun i h => ?_, ?_⟩
    · exact (tally_le _).trans_lt (by simpa using small)
    · exact Phase.noConfusion
    · cases h
    · exact tally_eq_zero fun i h => by cases h
  | k + 1, room => by
    obtain ⟨p, run, filled⟩ := fill raw small k (by omega)
    obtain ⟨q, hq, filled⟩ := filled.invite small room
    refine ⟨q, ?_, filled⟩
    rw [List.replicate_succ', Run.exec_append, run]
    exact Run.exec_cons.mpr ⟨q, hq, rfl⟩

/-- With all of 65535 slots in incoming calls under one registration, one more INVITE takes the
registration's counter round to 0, and takes it down from there when it finds no slot. -/
theorem drops_zero :
    ∃ (as : List (Action 65535)) (p : Pool 65535), (∀ a ∈ as, a.Ordinary ∧ a.Admission) ∧
      Run.Always (step .sample) (fun p => p.callsInProgress < 65536)
        (construct .sample fun _ => ⟨0, .incoming, none, none, none, none⟩) as ∧
      Run.exec (step .sample) (construct .sample fun _ => ⟨0, .incoming, none, none, none, none⟩)
        as = some p ∧ 0 ∈ p.counters.drops := by
  have apart : Server.sample.Apart := fun _ _ _ => Server.node_distinct Server.sample_started
  obtain ⟨p, run, filled⟩ :=
    fill (n := 65535) (fun _ => ⟨0, .incoming, none, none, none, none⟩) (by decide) 65535 le_rfl
  have ordinary : (bobCalls : Action 65535).Ordinary := trivial
  obtain ⟨q, hq⟩ : ∃ q, p.step .sample bobCalls = some q := ⟨_, rfl⟩
  refine ⟨List.replicate 65535 bobCalls ++ [bobCalls], q, fun a ha => ?_,
    .of_forall fun p => (tally_le _).trans_lt (by simp), ?_, ?_⟩
  · have same : a = bobCalls := by
      rcases List.mem_append.mp ha with h | h
      · exact List.eq_of_mem_replicate h
      · exact List.mem_singleton.mp h
    rw [same]
    exact ⟨trivial, trivial⟩
  · rw [Run.exec_append, run]
    exact Run.exec_cons.mpr ⟨q, hq, rfl⟩
  · have outcome := filled.sound.valid.outcome ordinary hq
    have drops : q.counters.drops = q.exchange.counters.drops := rfl
    rw [drops]
    generalize q.exchange = y at outcome
    cases outcome with
    | refused reg hr attached => rw [bob_attaches _ hr] at attached; cases attached
    | admitted reg i hr attached head free =>
      exact absurd free (by simp [filled.all_busy i])
    | returned reg hr attached full =>
      have counted := filled.sound.counted.attach apart hr attached (.registry 1) 2 .incoming rfl
      have many : (p.exchange.attach reg).inProgress (.registry 1) .incoming = 65535 :=
        filled.inProgress
      rw [many] at counted
      cases bob_registered.symm.trans hr
      simp only [Counters.release_drops, Option.map_some, Option.toList_some, counted]
      exact List.mem_append_right _ (by decide)

end Underflow

end Pool

end Bayonne
