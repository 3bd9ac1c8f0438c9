import Bayonne.Sip.Responses
import Bayonne.Timeslot.Exchange

/-! What an INVITE that is turned away leaves behind. `invite` gives the allowance back
when there is no timeslot, but keeps the timeslot and the allowance on every exit after
that. -/
namespace Bayonne

def Registration.HasRoom (r : Registration) (shm : Nat → Statmap) : Prop :=
  ∀ k, r.stats = some k → r.limit = 0 ∨ (shm k).active < r.limit.toNat

theorem Registration.attach_iff (r : Registration) (shm : Nat → Statmap) (stat : Stat) :
    (r.attach shm stat).1 = true ↔ r.HasRoom shm := by
  unfold attach HasRoom
  cases r.stats with
  | none => simp
  | some k =>
    by_cases room : r.limit = 0 ∨ (shm k).active < r.limit.toNat
    · simp [room]
    · simp [room]

namespace Pool
variable {n : Nat} {server : Server} {p q : Pool n} {i : Fin n}

def freeSlots (p : Pool n) : Set (Fin n) :=
  {i | ∃ l, Linked.Chain p.links.next (p.links.root .timeslots) l ∧ i ∈ l}

structure Restored (server : Server) (p q : Pool n) : Prop where
  free : q.freeSlots = p.freeSlots
  counters : ∀ o, o = .system ∨ o.isRegistry → ∀ k, server.node o = some k →
    ∀ stat, (q.counters.shm k).current stat = (p.counters.shm k).current stat

theorem freeSlots_of_links (links : q.links = p.links) : q.freeSlots = p.freeSlots := by
  simp only [freeSlots, links]

theorem Restored.refl (server : Server) (p : Pool n) : p.Restored server p :=
  ⟨rfl, fun _ _ _ _ _ => rfl⟩

theorem Tidy.free_iff {lists : Root → List (Fin n)} (tidy : p.Tidy lists) :
    i ∈ p.freeSlots ↔ i ∈ lists .timeslots := by
  constructor
  · rintro ⟨l, chain, on⟩
    rwa [chain.unique (tidy.holds.chain .timeslots)] at on
  · intro on
    exact ⟨_, tidy.holds.chain .timeslots, on⟩

theorem attach_release (reg : Registration) (attached : (reg.attach p.counters.shm .incoming).1)
    (ending : Time) (k : Nat) (stat : Stat) :
    (((p.attach reg .incoming).2.releaseNode reg.stats .incoming ending).counters.shm k).current
      stat = (p.counters.shm k).current stat := by
  unfold Registration.attach at attached
  simp only [attach, releaseNode, Counters.release, Registration.attach]
  cases node : reg.stats with
  | none => rfl
  | some j =>
    rw [node] at attached
    simp only at attached ⊢
    split at attached
    · rename_i room
      simp only [room, if_true]
      by_cases here : k = j
      · subst here
        simp only [Function.update_self, Statmap.current_release, Statmap.current_update]
        split
        · exact UInt16.add_sub_cancel _ _
        · rfl
      · simp only [Function.update_of_ne here]
    · cases attached

/-- An INVITE that finds no timeslot gives the allowance back. -/
theorem invite_none (reg : Registration) (r cid : Nat) (now : Now) (ending : Time)
    (none : (p.invite server reg r cid now ending).1 = none) :
    p.Restored server (p.invite server reg r cid now ending).2 := by
  by_cases attached : (reg.attach p.counters.shm .incoming).1 = true
  · cases head : p.links.root .timeslots with
    | none =>
      rw [invite_full p reg r cid now ending attached head]
      exact ⟨rfl, fun _ _ k _ stat => attach_release reg attached ending k stat⟩
    | some i =>
      rw [invite_head p reg r cid now ending attached head] at none
      cases none
  · rw [invite_refused p reg r cid now ending (Bool.eq_false_iff.mpr attached)]
    exact .refl server p

theorem Tidy.invite_some {lists : Root → List (Fin n)} (tidy : p.Tidy lists) (reg : Registration)
    (r cid : Nat) (now : Now) (ending : Time)
    (given : p.invite server reg r cid now ending = (some i, q)) :
    i ∈ p.freeSlots ∧ i ∉ q.freeSlots := by
  have after := @Tidy.invite n server p lists tidy reg r cid now ending
  rw [given] at after
  obtain ⟨⟨lists', tidy'⟩, t, handler, slot⟩ := after
  constructor
  · by_cases attached : (reg.attach p.counters.shm .incoming).1 = true
    · cases head : p.links.root .timeslots with
      | none =>
        rw [invite_full p reg r cid now ending attached head] at given
        cases given
      | some j =>
        rw [invite_head p reg r cid now ending attached head] at given
        cases given
        exact tidy.free_iff.mpr (tidy.holds.head_mem head)
    · rw [invite_refused p reg r cid now ending (Bool.eq_false_iff.mpr attached)] at given
      cases given
  · intro free
    have idle := tidy'.free (tidy'.free_iff.mp free)
    rw [slot, Function.update_self, handler] at idle
    cases idle

theorem Tidy.invite_room {lists : Root → List (Fin n)} (tidy : p.Tidy lists) (server : Server)
    (reg : Registration) (r cid : Nat) (now : Now) (ending : Time) :
    (p.invite server reg r cid now ending).1 ≠ none ↔
      reg.HasRoom p.counters.shm ∧ p.freeSlots.Nonempty := by
  have nonempty : p.freeSlots.Nonempty ↔ p.links.root .timeslots ≠ none := by
    have chain := tidy.holds.chain .timeslots
    constructor
    · rintro ⟨i, l, walk, on⟩ empty
      rw [empty] at walk
      cases walk
      cases on
    · intro head
      obtain ⟨i, head⟩ := Option.ne_none_iff_exists'.mp head
      exact ⟨i, tidy.free_iff.mpr (tidy.holds.head_mem head)⟩
  rw [nonempty, ← reg.attach_iff _ .incoming]
  by_cases attached : (reg.attach p.counters.shm .incoming).1 = true
  · cases head : p.links.root .timeslots with
    | none => simp [invite_full p reg r cid now ending attached head]
    | some i => simp [invite_head p reg r cid now ending attached head, attached]
  · simp [invite_refused p reg r cid now ending (Bool.eq_false_iff.mpr attached), attached]

end Pool

/-- Once the INVITE has a slot, `invite` answers it with an error or a challenge. -/
def SipRegistration.TurnsAway (reg : SipRegistration) (m : Message) (out : Outside) : Prop :=
  match Sip.check m reg out.realm with
  | none => False
  | some .challenge => out.made = true
  | some .forbidden => True
  | some .passed => ∀ route, reg.route m (m.remote reg.localnames) = .ok route →
      ¬(out.getIncoming route.script = true ∧ out.attach route.script route.entry = true)

namespace Sip
variable {n : Nat} {driver : SipDriver} {s s' : Sip n} {i : Fin n} {ctx : Context} {m : Message}
  {tid did : Int} {out : Outside}

def Answered (s s' : Sip n) (ctx : Context) (tid : Int) : Prop :=
  ∃ status, s'.sent = s.sent ++ [⟨.answer, some ctx, tid, status⟩]

/-- If the INVITE is answered, no timeslot and no allowance stays behind. -/
def HoldsNothing (driver : SipDriver) (s : Sip n) (ctx : Context) (request : Option Message)
    (tid did cid : Int) (out : Outside) : Prop :=
  ∀ s', s.run driver ctx out (.callInvite request tid did cid) = some s' →
    s.Answered s' ctx tid → s.pool.Restored driver.server s'.pool

/-- The registration an INVITE is for. -/
structure Reaches (driver : SipDriver) (m : Message) (reg : SipRegistration)
    (base : Registration) : Prop where
  toHeader : m.toHeader.isSome
  fromHeader : m.fromHeader.isSome
  contact : ∃ uri, m.reqUri = some uri ∧ uri.username.getD "" ≠ "" ∧
    contact driver.registrations (uri.username.getD "") = some reg
  base : driver.server.registrations[reg.base]? = some base

/-- The INVITE gets a timeslot and is then turned away. -/
def TurnsAwayLate (driver : SipDriver) (s : Sip n) (request : Option Message) (cid : Int)
    (out : Outside) : Prop :=
  ∃ m reg base, request = some m ∧ 1 ≤ cid ∧ Reaches driver m reg base ∧
    base.HasRoom s.pool.counters.shm ∧ s.pool.freeSlots.Nonempty ∧ reg.TurnsAway m out

theorem incoming_refuses (s : Sip n) (i : Fin n) (reg : SipRegistration) (m : Message)
    (tid did : Int) (out : Outside) :
    (s.incoming i reg m tid did out).1 ≠ none ↔
      ∀ route, reg.route m (m.remote reg.localnames) = .ok route →
        ¬(out.getIncoming route.script = true ∧ out.attach route.script route.entry = true) := by
  simp only [incoming]
  cases found : reg.route m (m.remote reg.localnames) with
  | error status => simp
  | ok route =>
    simp only [Except.ok.injEq, forall_eq']
    by_cases script : out.getIncoming route.script = true
    · by_cases attach : out.attach route.script route.entry = true
      · simp [script, attach]
      · simp [script, attach]
    · simp [script]

theorem incoming_rest (s : Sip n) (i : Fin n) (reg : SipRegistration) (m : Message)
    (tid did : Int) (out : Outside) :
    (s.incoming i reg m tid did out).2.sent = s.sent ∧
      (s.incoming i reg m tid did out).2.pool.links = s.pool.links := by
  obtain ⟨f, eq, _⟩ := incoming_spec s i reg m tid did out
  rw [eq]
  exact ⟨rfl, rfl⟩

theorem admitTo_turnsAway {reg : SipRegistration} (away : reg.TurnsAway m out) :
    ∃ s', s.admitTo i reg ctx m tid did out = some s' ∧ s.Answered s' ctx tid ∧
      s'.pool.links = s.pool.links := by
  unfold SipRegistration.TurnsAway at away
  cases checked : check m reg out.realm with
  | none => simp [checked] at away
  | some c =>
    cases c with
    | challenge =>
      have made : out.made = true := by simpa [checked] using away
      simp only [admitTo, checked, Option.map_some, made, if_true]
      exact ⟨_, rfl, ⟨.unauthorized, rfl⟩, rfl⟩
    | forbidden =>
      simp only [admitTo, checked, Option.map_some]
      exact ⟨_, rfl, ⟨.forbidden, rfl⟩, rfl⟩
    | passed =>
      rw [checked] at away
      have refused := (incoming_refuses s i reg m tid did out).mpr away
      obtain ⟨sent, links⟩ := incoming_rest s i reg m tid did out
      simp only [admitTo, checked, Option.map_some]
      generalize s.incoming i reg m tid did out = r at refused sent links
      obtain ⟨_ | status, r⟩ := r
      · exact absurd rfl refused
      · have sent : r.sent = s.sent := sent
        exact ⟨_, rfl, ⟨status, by simp [reject, send, sent]⟩, links⟩

theorem admitTo_unanswered {reg : SipRegistration} (keeps : ¬ reg.TurnsAway m out)
    (run : s.admitTo i reg ctx m tid did out = some s') : s'.sent = s.sent := by
  unfold SipRegistration.TurnsAway at keeps
  obtain ⟨c, checked, run⟩ := Option.map_eq_some_iff.mp run
  cases c with
  | challenge =>
    have made : ¬ out.made = true := by simpa [checked] using keeps
    simp only [made, Bool.false_eq_true, if_false] at run
    rw [← run]
  | forbidden => simp [checked] at keeps
  | passed =>
    rw [checked] at keeps
    have served := (incoming_refuses s i reg m tid did out).not.mpr keeps
    obtain ⟨sent, _⟩ := incoming_rest s i reg m tid did out
    subst run
    generalize s.incoming i reg m tid did out = r at served sent
    obtain ⟨_ | status, r⟩ := r
    · exact sent
    · exact absurd (Option.some_ne_none status) served

def seat (driver : SipDriver) (s : Sip n) (reg : SipRegistration) (ctx : Context) (m : Message)
    (tid did : Int) (out : Outside) : Option (Fin n) × Pool n → Option (Sip n)
  | (none, p) =>
    some (({ s with pool := p } : Sip n).send ⟨.answer, some ctx, tid, .temporarilyUnavailable⟩)
  | (some i, p) =>
    (({ s with pool := p } : Sip n).clearLeg i (out.context.or driver.outContext)).admitTo i reg
      ctx m tid did out

theorem invite_reaches {reg : SipRegistration} {base : Registration}
    (reaches : Reaches driver m reg base) (s : Sip n) (ctx : Context) (tid did : Int) (cid : Nat)
    (out : Outside) :
    s.invite driver ctx m tid did cid out = seat driver s reg ctx m tid did out
      (s.pool.invite driver.server base reg.base cid out.now out.ending) := by
  obtain ⟨toHeader, fromHeader, ⟨uri, reqUri, named, found⟩, known⟩ := reaches
  obtain ⟨a, toHeader⟩ := Option.isSome_iff_exists.mp toHeader
  obtain ⟨b, fromHeader⟩ := Option.isSome_iff_exists.mp fromHeader
  simp only [invite, toHeader, fromHeader, reqUri, named, if_false, found, known]
  generalize s.pool.invite driver.server base reg.base cid out.now out.ending = r
  obtain ⟨_ | i, p⟩ := r
  · rfl
  · rfl

theorem invite_misses (misses : ¬ ∃ reg base, Reaches driver m reg base) {cid : Nat}
    (run : s.invite driver ctx m tid did cid out = some s') : s'.pool = s.pool := by
  simp only [invite] at run
  split at run
  · rename_i uri toHeader fromHeader reqUri
    split at run
    · cases run
      rfl
    · rename_i named
      split at run
      · cases run
        rfl
      · rename_i reg found
        split at run
        · cases run
        · rename_i base known
          refine absurd ⟨reg, base, ?_, ?_, ⟨uri, reqUri, named, found⟩, known⟩ misses
          · simp [toHeader]
          · simp [fromHeader]
  · cases run
    rfl

theorem invite_holds_nothing {lists : Root → List (Fin n)} (tidy : s.pool.Tidy lists)
    {cid : Int} (valid : 1 ≤ cid) (early : ¬ TurnsAwayLate driver s (some m) cid out)
    (run : s.invite driver ctx m tid did cid.toNat out = some s')
    (answered : s.Answered s' ctx tid) : s.pool.Restored driver.server s'.pool := by
  by_cases reached : ∃ reg base, Reaches driver m reg base
  · obtain ⟨reg, base, reaches⟩ := reached
    rw [invite_reaches reaches] at run
    have none := @Pool.invite_none n driver.server s.pool base reg.base cid.toNat out.now out.ending
    have room := (tidy.invite_room driver.server base reg.base cid.toNat out.now
      out.ending).mp
    generalize s.pool.invite driver.server base reg.base cid.toNat out.now out.ending = r
      at run none room
    obtain ⟨_ | i, p⟩ := r
    · cases run
      exact none rfl
    · obtain ⟨room, free⟩ := room (Option.some_ne_none i)
      have keeps : ¬ reg.TurnsAway m out := fun away =>
        early ⟨m, reg, base, rfl, valid, reaches, room, free, away⟩
      have sent := admitTo_unanswered keeps run
      obtain ⟨status, answered⟩ := answered
      have sent : s'.sent = s.sent := sent
      rw [sent] at answered
      exact absurd answered.symm (by simp)
  · rw [invite_misses reached run]
    exact .refl _ _

theorem invite_holds {lists : Root → List (Fin n)} (tidy : s.pool.Tidy lists)
    {reg : SipRegistration} {base : Registration} (reaches : Reaches driver m reg base)
    (room : base.HasRoom s.pool.counters.shm) (free : s.pool.freeSlots.Nonempty)
    (away : reg.TurnsAway m out) (ctx : Context) (tid did : Int) (cid : Nat) :
    ∃ s', s.invite driver ctx m tid did cid out = some s' ∧ s.Answered s' ctx tid ∧
      s'.pool.freeSlots ≠ s.pool.freeSlots := by
  rw [invite_reaches reaches]
  have given := (tidy.invite_room driver.server base reg.base cid out.now
    out.ending).mpr ⟨room, free⟩
  have taken := fun i q => @Pool.Tidy.invite_some n driver.server s.pool q i lists tidy base
    reg.base cid out.now out.ending
  generalize s.pool.invite driver.server base reg.base cid out.now out.ending = r at given taken
  obtain ⟨_ | i, p⟩ := r
  · exact absurd rfl given
  · obtain ⟨before, after⟩ := taken i p rfl
    let q := ({ s with pool := p } : Sip n).clearLeg i (out.context.or driver.outContext)
    obtain ⟨s', run, answered, links⟩ :=
      @admitTo_turnsAway n q i ctx m tid did out reg away
    have links : s'.pool.links = p.links := links
    refine ⟨s', run, answered, fun same => ?_⟩
    rw [← same, Pool.freeSlots_of_links links] at before
    exact after before

theorem reachable_tidy {raw : Fin n → Raw} {leg : Fin n → Leg} {as : List (SipAction n)}
    (run : Run.exec (step driver) (start driver raw leg) as = some s) :
    ∃ lists, s.pool.Tidy lists := by
  refine Run.invariant (I := fun s : Sip n => ∃ lists, s.pool.Tidy lists) ?_
    (start_answering driver raw leg).tidy run
  rintro s a s' ⟨lists, tidy⟩ step
  by_cases twice : s.Repeats a
  · exact (step_wrong tidy twice step).tidy
  · exact (step_fine tidy twice step).tidy

/-- An INVITE that is answered holds nothing, unless it was turned away after it had got
its timeslot. -/
theorem holdsNothing_iff (driver : SipDriver) (raw : Fin n → Raw) (leg : Fin n → Leg)
    (as : List (SipAction n)) (s : Sip n)
    (run : Run.exec (step driver) (start driver raw leg) as = some s) (ctx : Context)
    (request : Option Message) (tid did cid : Int) (out : Outside) :
    HoldsNothing driver s ctx request tid did cid out ↔
      ¬ TurnsAwayLate driver s request cid out := by
  obtain ⟨lists, tidy⟩ := reachable_tidy run
  constructor
  · rintro holds ⟨m, reg, base, rfl, valid, reaches, room, free, away⟩
    obtain ⟨s', run, answered, changed⟩ :=
      invite_holds tidy reaches room free away ctx tid did cid.toNat
    have started : s.run driver ctx out (.callInvite (some m) tid did cid) = some s' := by
      have positive : ¬ cid < 1 := by omega
      simp only [Sip.run, positive, if_false, run]
    exact changed (holds s' started answered).free
  · intro early s' run answered
    simp only [Sip.run] at run
    cases request with
    | none =>
      cases run
      exact .refl _ _
    | some m =>
      by_cases invalid : cid < 1
      · simp only [invalid, if_true] at run
        cases run
        exact .refl _ _
      · simp only [invalid, if_false] at run
        exact invite_holds_nothing tidy (by omega) early run answered

def inviteBob : Message := { inviteAlice with reqUri := some ⟨none, some "bob", none, none⟩ }

theorem holdsNothing_iff_bob :
    HoldsNothing aloneDriver
      (start aloneDriver (fun _ => ⟨0, .incoming, none, none, none, none⟩) fun _ => ⟨none, 0, 0⟩ :
        Sip 1) 0 (some inviteBob) 5 1 7 (plainly (tick 0)) := by
  refine (holdsNothing_iff aloneDriver _ _ [] _ rfl 0 _ 5 1 7 _).mpr ?_
  rintro ⟨m, reg, base, request, _, reaches, _⟩
  cases request
  obtain ⟨uri, reqUri, _, found⟩ := reaches.contact
  cases reqUri
  revert found
  exact fun found => absurd found (by simp [contact, aloneDriver])

/-- An INVITE whose registration turns every call away still counts as a call. -/
theorem not_holdsNothing :
    ¬ HoldsNothing aloneDriver
      (start aloneDriver (fun _ => ⟨0, .incoming, none, none, none, none⟩) fun _ => ⟨none, 0, 0⟩ :
        Sip 1) 0 (some inviteAlice) 5 1 7 (plainly (tick 0)) := by
  intro holds
  have restored := (holds _ rfl ⟨.notFound, rfl⟩).counters .system (.inl rfl) 0 rfl .incoming
  revert restored
  decide

end Sip

end Bayonne
