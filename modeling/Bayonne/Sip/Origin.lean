import Bayonne.Driver
import Bayonne.Sip.Refusal

/-! Where a call came from and where its answers go. A slot takes the context of the
registration, or the default context, whichever thread received the INVITE; it keeps it
until its next call. -/
namespace Bayonne

/-- What an operation on a slot does: only `drop` sends, to the context of the slot. -/
structure Sip.Serve {n : Nat} (s s' : Sip n) (i : Fin n) : Prop where
  others : ∀ j, j ≠ i → s'.pool.slot j = s.pool.slot j ∧ s'.leg j = s.leg j
  busy : (s'.pool.slot i).handler ≠ .idle → (s.pool.slot i).handler ≠ .idle
  ctx : (s'.leg i).ctx = (s.leg i).ctx
  tid : (s'.leg i).tid = (s.leg i).tid ∨ (s'.leg i).tid = -1
  requests : s'.requests = s.requests
  sent : s'.sent = s.sent ∨
    (s.pool.slot i).handler ≠ .idle ∧ (s.leg i).tid ≠ -1 ∧
      s'.sent = s.sent ++ [⟨.message, (s.leg i).ctx, (s.leg i).tid, .decline⟩]

namespace Sip.Serve
variable {n : Nat} {s s' : Sip n} {i : Fin n}

theorem refl (s : Sip n) (i : Fin n) : s.Serve s i :=
  ⟨fun _ _ => ⟨rfl, rfl⟩, id, rfl, .inl rfl, rfl, .inl rfl⟩

theorem lift (h : s.Serve s' i) {f : Pool n → Pool n}
    (others : ∀ j, j ≠ i → (f s'.pool).slot j = s'.pool.slot j)
    (busy : ((f s'.pool).slot i).handler ≠ .idle → (s'.pool.slot i).handler ≠ .idle) :
    s.Serve (s'.lift f) i :=
  ⟨fun j hj => ⟨(others j hj).trans (h.others j hj).1, (h.others j hj).2⟩,
    fun now => h.busy (busy now), h.ctx, h.tid, h.requests, h.sent⟩

theorem modify (h : s.Serve s' i) {f : Timeslot → Timeslot}
    (busy : (f (s'.pool.slot i)).handler ≠ .idle → (s'.pool.slot i).handler ≠ .idle) :
    s.Serve (s'.lift (·.modify i f)) i :=
  h.lift (fun _ hj => Pool.slot_modify_of_ne _ _ hj) (by rwa [Pool.slot_modify])

theorem lock (h : s.Serve s' i) : s.Serve (s'.lift (·.lock i)) i :=
  h.lift (fun _ _ => rfl) id

theorem unlock (h : s.Serve s' i) : s.Serve (s'.lift (·.unlock i)) i :=
  h.lift (fun _ _ => rfl) id

theorem setLeg (h : s.Serve s' i) {f : Leg → Leg} (ctx : (f (s'.leg i)).ctx = (s'.leg i).ctx)
    (tid : (f (s'.leg i)).tid = -1) : s.Serve (s'.setLeg i f) i := by
  refine ⟨fun j hj => ⟨(h.others j hj).1, ?_⟩, h.busy, ?_, .inr ?_, h.requests, h.sent⟩
  · simp only [Sip.setLeg, Function.update_of_ne hj]
    exact (h.others j hj).2
  · simp only [Sip.setLeg, Function.update_self]
    exact ctx.trans h.ctx
  · simp only [Sip.setLeg, Function.update_self, tid]

theorem of_same {q : Sip n} (h : q.Serve s' i) (slot : q.pool.slot = s.pool.slot)
    (leg : q.leg = s.leg) (requests : q.requests = s.requests) (sent : q.sent = s.sent) :
    s.Serve s' i := by
  obtain ⟨others, busy, ctx, tid, requests', sent'⟩ := h
  rw [slot, leg] at *
  rw [requests] at requests'
  rw [sent] at sent'
  exact ⟨others, busy, ctx, tid, requests', sent'⟩

variable {lists : Root → List (Fin n)}

theorem drop (tidy : s.pool.Tidy lists) (busy : (s.pool.slot i).handler ≠ .idle) :
    s.Serve (s.drop i) i := by
  have apart := tidy.apart i
  simp only [Sip.drop, apart, Bool.false_eq_true, if_false]
  by_cases held : (s.leg i).tid = -1
  · simp only [held, ne_eq, not_true_eq_false, if_false]
    exact ((Serve.refl s i).setLeg (f := fun l => { l with tid := -1 }) rfl rfl).modify id
  · simp only [held, ne_eq, not_false_eq_true, if_true]
    have declined : s.Serve (s.send ⟨.message, (s.leg i).ctx, (s.leg i).tid, .decline⟩) i :=
      ⟨fun _ _ => ⟨rfl, rfl⟩, id, rfl, .inl rfl, rfl, .inr ⟨busy, held, rfl⟩⟩
    exact (declined.setLeg (f := fun l => { l with tid := -1 }) rfl rfl).modify id

theorem release {server : Server} (tidy : s.pool.Tidy lists)
    (busy : (s.pool.slot i).handler ≠ .idle) (ans : Answers) :
    s.Serve ((s.drop i).lift (·.release server i ans)) i := by
  refine (drop tidy busy).lift (fun j hj => ?_) fun now => ?_
  · rw [Pool.slot_release, Function.update_of_ne hj]
  · rw [Pool.slot_release, Function.update_self] at now
    exact absurd rfl now

theorem hangup (tidy : s.pool.Tidy lists) (busy : (s.pool.slot i).handler ≠ .idle) :
    s.Serve (s.hangup i) i := by
  refine (drop tidy busy).modify fun _ => ?_
  rw [drop_pool s i (tidy.apart i), Pool.slot_modify]
  exact busy

theorem disconnect (busy : (s.pool.slot i).handler ≠ .idle) : s.Serve (s.disconnect i) i :=
  ((Serve.refl s i).setLeg (f := fun l => { l with tid := -1, did := -1 }) rfl rfl).modify
    fun _ => busy

theorem setIdle (s : Sip n) (i : Fin n) : s.Serve (s.lift (·.modify i (·.setIdle))) i :=
  (Serve.refl s i).modify fun now => absurd rfl now

theorem handle {server : Server} (tidy : s.pool.Tidy lists) (ans : Answers) (event : EventId) :
    s.Serve ((hooks server n).handle s i ans event).1 i := by
  have quiet := Serve.refl s i
  cases h : (s.pool.slot i).handler with
  | idle =>
    simp only [Virtual.handle, hooks, h]
    cases event with
    | shutdown => exact setIdle s i
    | _ => exact quiet
  | release =>
    have busy : (s.pool.slot i).handler ≠ .idle := by simp [h]
    simp only [Virtual.handle, hooks, h]
    cases event with
    | shutdown => exact setIdle s i
    | timeout => exact release tidy busy ans
    | release => exact release tidy busy ans
    | _ => exact quiet
  | script =>
    have busy : (s.pool.slot i).handler ≠ .idle := by simp [h]
    simp only [Virtual.handle, hooks, h]
    cases event with
    | release => exact release tidy busy ans
    | drop => exact disconnect busy
    | hangup => exact hangup tidy busy
    | timeout =>
      simp only [Virtual.scriptHandler, h, if_true]
      split
      · exact hangup tidy busy
      · exact quiet.modify fun _ => busy
    | _ => exact quiet
  | offline => exact absurd h (tidy.online i)

theorem post {server : Server} (tidy : s.pool.Tidy lists) (ans : Answers) (event : EventId) :
    s.Serve ((hooks server n).post s i ans event).1 i := by
  have locked : (s.lift (·.lock i)).pool.Tidy lists := tidy.same rfl rfl
  have handled : s.Serve ((hooks server n).handle (s.lift (·.lock i)) i ans event).1 i :=
    (handle locked ans event).of_same rfl rfl rfl rfl
  simp only [Virtual.post]
  split
  · exact handled
  · exact handled.unlock

theorem expire {server : Server} (tidy : s.pool.Tidy lists) (read : Timeout → Timeout)
    (ans : Answers) :
    s.Serve ((hooks server n).expire ((hooks server n).getExpires s i read) i ans).1 i := by
  let q := (hooks server n).getExpires s i read
  have looked : s.Serve q i := (Serve.refl s i).lock.modify id
  have tidy' : q.pool.Tidy lists :=
    (tidy.same rfl rfl : (s.pool.lock i).Tidy lists).modify (f := (·.readTimer read)) rfl (.inl rfl)
      (tidy.apart i)
  -- the timer of the slot is all that has changed
  have through : ∀ {r : Sip n}, q.Serve r i → s.Serve r i := fun {r} h => by
    have handler : (q.pool.slot i).handler = (s.pool.slot i).handler := by
      simp [q, Virtual.getExpires, hooks, Sip.lift, Timeslot.readTimer]
    refine ⟨fun j hj => ?_, fun now => looked.busy (h.busy now), h.ctx, h.tid, h.requests, ?_⟩
    · exact ⟨(h.others j hj).1.trans (looked.others j hj).1, (h.others j hj).2⟩
    · exact handler ▸ h.sent
  have closed : ∀ out : Sip n × EventId, q.Serve out.1 i →
      let r := out.1.lift (·.modify i fun t => { t with expires := .inf })
      s.Serve (if out.2 = .release then r else r.lift (·.unlock i)) i := by
    rintro ⟨r, event⟩ served
    have rested := through (served.modify (f := fun t => { t with expires := .inf }) id)
    simp only
    split
    · exact rested
    · exact rested.unlock
  refine closed _ ?_
  split
  · exact handle tidy' ans .timeout
  · exact .refl q i

end Sip.Serve

namespace Sip
variable {n : Nat} {driver : SipDriver} {s s' : Sip n} {i : Fin n} {ctx : Context} {m : Message}
  {tid did : Int} {out : Outside}

structure Missed (s s' : Sip n) (ctx : Context) (tid : Int) : Prop where
  slot : s'.pool.slot = s.pool.slot
  leg : s'.leg = s.leg
  requests : s'.requests = s.requests
  sent : s'.sent = s.sent ∨ s.Answered s' ctx tid

structure Took (s s' : Sip n) (i : Fin n) (given : Option Context) (ctx : Context)
    (tid : Int) : Prop where
  others : ∀ j, j ≠ i → s'.pool.slot j = s.pool.slot j ∧ s'.leg j = s.leg j
  idle : (s.pool.slot i).handler = .idle
  busy : (s'.pool.slot i).handler ≠ .idle
  given : (s'.leg i).ctx = given
  held : (s'.leg i).tid = tid ∨ (s'.leg i).tid = -1
  requests : s'.requests = s.requests
  sent : s'.sent = s.sent ∨ s.Answered s' ctx tid

theorem admitTo_took {q : Sip n} {reg : SipRegistration} {given : Option Context}
    (others : ∀ j, j ≠ i → q.pool.slot j = s.pool.slot j ∧ q.leg j = s.leg j)
    (idle : (s.pool.slot i).handler = .idle) (held : (q.pool.slot i).handler = .release)
    (leg : q.leg i = ⟨given, -1, -1⟩) (requests : q.requests = s.requests)
    (sent : q.sent = s.sent) (run : q.admitTo i reg ctx m tid did out = some s') :
    s.Took s' i given ctx tid := by
  have answered : ∀ status, s.Took (q.send ⟨.answer, some ctx, tid, status⟩) i given ctx tid :=
    fun status => ⟨others, idle, by simp [send, held], by simp [send, leg], by simp [send, leg],
      requests, .inr ⟨status, by simp [send, sent]⟩⟩
  obtain ⟨c, _, run⟩ := Option.map_eq_some_iff.mp run
  cases c with
  | challenge =>
    simp only at run
    split at run <;> subst run
    · exact answered _
    · exact ⟨others, idle, by simp [held], by simp [leg], by simp [leg], requests, .inl sent⟩
  | forbidden =>
    subst run
    exact answered _
  | passed =>
    obtain ⟨f, eq, spec⟩ := incoming_spec q i reg m tid did out
    have handler := (spec (q.pool.slot i)).2.2.2
    have run : reject ctx tid (q.incoming i reg m tid did out) = s' := run
    generalize q.incoming i reg m tid did out = r at eq run handler
    obtain ⟨status, r⟩ := r
    have r_eq : r = (q.setLeg i fun l => { l with tid := tid, did := did }).lift (·.modify i f) := eq
    have took : s.Took r i given ctx tid := by
      subst r_eq
      refine ⟨fun j hj => ?_, idle, ?_, ?_, .inl ?_, requests, .inl sent⟩
      · simp only [lift, setLeg, Function.update_of_ne hj, Pool.slot_modify_of_ne _ _ hj]
        exact others j hj
      · simp only [lift, setLeg, Pool.slot_modify, handler, held]
        split <;> simp
      · simp [lift, setLeg, leg]
      · simp [lift, setLeg]
    cases status with
    | none =>
      subst run
      exact took
    | some status =>
      subst run
      have quiet : r.sent = s.sent := by
        subst r_eq
        exact sent
      exact ⟨took.others, idle, took.busy, took.given, took.held, took.requests,
        .inr ⟨status, by simp [reject, send, quiet]⟩⟩

theorem invite_cases {lists : Root → List (Fin n)} (tidy : s.pool.Tidy lists) {cid : Nat}
    (run : s.invite driver ctx m tid did cid out = some s') :
    s.Missed s' ctx tid ∧ (∀ reg base, Reaches driver m reg base →
        ¬(base.HasRoom s.pool.counters.shm ∧ s.pool.freeSlots.Nonempty)) ∨
      ∃ reg base i, Reaches driver m reg base ∧ base.HasRoom s.pool.counters.shm ∧
        s.pool.freeSlots.Nonempty ∧
        s.Took s' i (out.context.or driver.outContext) ctx tid := by
  by_cases reached : ∃ reg base, Reaches driver m reg base
  · obtain ⟨reg, base, reaches⟩ := reached
    rw [invite_reaches reaches] at run
    have room := tidy.invite_room driver.server base reg.base cid out.now out.ending
    have given := @Pool.Tidy.invite n driver.server s.pool lists tidy base reg.base cid out.now
      out.ending
    have before := fun i q => @Pool.Tidy.invite_some n driver.server s.pool q i lists tidy base
      reg.base cid out.now out.ending
    generalize s.pool.invite driver.server base reg.base cid out.now out.ending = r
      at run given room before
    obtain ⟨_ | i, p⟩ := r
    · cases run
      refine .inl ⟨⟨given.1, rfl, rfl, .inr ⟨.temporarilyUnavailable, rfl⟩⟩, ?_⟩
      intro reg' base' reaches'
      have same : base' = base := by
        obtain ⟨_, _, ⟨uri, reqUri, _, found⟩, known⟩ := reaches
        obtain ⟨_, _, ⟨uri', reqUri', _, found'⟩, known'⟩ := reaches'
        rw [reqUri] at reqUri'
        cases reqUri'
        rw [found] at found'
        cases found'
        rw [known] at known'
        exact (Option.some.inj known').symm
      subst same
      exact fun ok => room.mpr ok rfl
    · obtain ⟨_, t, handler, slot⟩ := given
      obtain ⟨hasRoom, free⟩ := room.mp (Option.some_ne_none i)
      have slot : p.slot = Function.update s.pool.slot i t := slot
      refine .inr ⟨reg, base, i, reaches, hasRoom, free, ?_⟩
      have idle := tidy.free (tidy.free_iff.mp (before i p rfl).1)
      refine admitTo_took (q := ({ s with pool := p } : Sip n).clearLeg i
        (out.context.or driver.outContext)) (fun j hj => ?_) idle ?_ ?_ rfl rfl run
      · simp [clearLeg, setLeg, slot, Function.update_of_ne hj]
      · simp [clearLeg, setLeg, slot, handler]
      · simp [clearLeg, setLeg]
  · refine .inl ⟨?_, fun reg base reaches => absurd ⟨reg, base, reaches⟩ reached⟩
    simp only [invite] at run
    split at run
    · rename_i uri toHeader fromHeader reqUri
      split at run
      · cases run
        exact ⟨rfl, rfl, rfl, .inr ⟨.addressIncomplete, rfl⟩⟩
      · rename_i named
        split at run
        · cases run
          exact ⟨rfl, rfl, rfl, .inr ⟨.notFound, rfl⟩⟩
        · rename_i reg found
          split at run
          · cases run
          · rename_i base known
            refine absurd ⟨reg, base, ?_, ?_, ⟨uri, reqUri, named, found⟩, known⟩ reached
            · simp [toHeader]
            · simp [fromHeader]
    · cases run
      exact ⟨rfl, rfl, rfl, .inr ⟨.undecipherable, rfl⟩⟩

end Sip

/-- The context each slot's last call and each transaction of an INVITE came in on. -/
structure Arrivals (n : Nat) where
  slot : Fin n → Option Context
  request : Int → Option Context

def Arrivals.note {n : Nat} (x : Arrivals n) (s s' : Live n) : LiveAction n → Arrivals n
  | .sip (.event ctx (.callInvite _ tid _ _) _) =>
    { slot := fun i =>
        if (s.sip.pool.slot i).handler = .idle ∧ (s'.sip.pool.slot i).handler ≠ .idle then some ctx
        else x.slot i
      request := Function.update x.request tid (some ctx) }
  | _ => x

namespace Live
variable {n : Nat}

def track (x : Live n × Arrivals n) (a : LiveAction n) : Option (Live n × Arrivals n) :=
  (x.1.step a).map fun s => (s, x.2.note x.1 s a)

/-- Each slot has the context its call came in on, and what was sent for an INVITE went
there. -/
def Home (x : Live n × Arrivals n) : Prop :=
  (∀ i c, x.2.slot i = some c → (x.1.sip.leg i).ctx = some c) ∧
  ∀ r ∈ x.1.sip.sent, ∀ c, x.2.request r.tid = some c → r.ctx = some c

/-- An INVITE that is given a slot comes in on the context the slot will have. -/
def Matches (s : Live n) : LiveAction n → Prop
  | .sip (.event ctx (.callInvite (some m) _ _ cid) _) =>
    ∀ reg base, 1 ≤ cid → Sip.Reaches s.driver m reg base →
      base.HasRoom s.sip.pool.counters.shm → s.sip.pool.freeSlots.Nonempty →
      (s.contextFor m).or s.contexts.out = some ctx
  | _ => True

/-- The invariant of a run: a slot in use holds the transaction it was taken for, or none. -/
structure Traced (x : Live n × Arrivals n) : Prop where
  tidy : ∃ lists, x.1.sip.pool.Tidy lists
  home : Home x
  busy : ∀ i, (x.1.sip.pool.slot i).handler ≠ .idle → ∃ c, x.2.slot i = some c ∧
    ((x.1.sip.leg i).tid ≠ -1 → x.2.request (x.1.sip.leg i).tid = some c)
  known : ∀ r ∈ x.1.sip.sent, r.tid ∈ x.1.sip.requests
  recorded : ∀ tid c, x.2.request tid = some c → tid ∈ x.1.sip.requests

variable {s : Live n} {arrivals : Arrivals n} {s' : Sip n}

theorem Traced.serve (h : Traced (s, arrivals)) {i : Fin n} (served : s.sip.Serve s' i)
    (tidy : ∃ lists, s'.pool.Tidy lists) : Traced ({ s with sip := s' }, arrivals) := by
  have requests : s'.requests = s.sip.requests := served.requests
  have legs : ∀ j, (s'.leg j).ctx = (s.sip.leg j).ctx ∧
      ((s'.leg j).tid = (s.sip.leg j).tid ∨ (s'.leg j).tid = -1) := fun j => by
    by_cases hj : j = i
    · subst hj
      exact ⟨served.ctx, served.tid⟩
    · rw [(served.others j hj).2]
      exact ⟨rfl, .inl rfl⟩
  have handlers : ∀ j, (s'.pool.slot j).handler ≠ .idle → (s.sip.pool.slot j).handler ≠ .idle :=
    fun j => by
      by_cases hj : j = i
      · subst hj
        exact served.busy
      · rw [(served.others j hj).1]
        exact id
  -- a decline goes to the context of the slot, for its own transaction
  have declined : ∀ r ∈ s'.sent, r ∈ s.sip.sent ∨ ∃ c, r.ctx = some c ∧
      arrivals.request r.tid = some c := by
    intro r on
    rcases served.sent with same | ⟨busy, held, more⟩
    · exact .inl (same ▸ on)
    · rw [more, List.mem_append, List.mem_singleton] at on
      rcases on with old | rfl
      · exact .inl old
      · obtain ⟨c, slot, transaction⟩ := h.busy i busy
        exact .inr ⟨c, h.home.1 i c slot, transaction held⟩
  refine ⟨tidy, ⟨fun j c came => ?_, fun r on c came => ?_⟩, fun j now => ?_, fun r on => ?_, ?_⟩
  · exact (legs j).1.trans (h.home.1 j c came)
  · rcases declined r on with old | ⟨c', ctx, transaction⟩
    · exact h.home.2 r old c came
    · exact ctx.trans (transaction.symm.trans came)
  · obtain ⟨c, slot, transaction⟩ := h.busy j (handlers j now)
    refine ⟨c, slot, fun held => ?_⟩
    rcases (legs j).2 with same | gone
    · have same : ((({ s with sip := s' } : Live n), arrivals).1.sip.leg j).tid =
        (s.sip.leg j).tid := same
      rw [same] at held ⊢
      exact transaction held
    · exact absurd gone held
  · simp only [requests]
    rcases declined r on with old | ⟨c', _, transaction⟩
    · exact h.known r old
    · exact h.recorded r.tid c' transaction
  · simp only [requests]
    exact h.recorded

theorem Traced.quiet (h : Traced (s, arrivals)) {t : Live n} (sip : t.sip = s.sip) :
    Traced (t, arrivals) := by
  obtain ⟨tidy, home, busy, known, recorded⟩ := h
  refine ⟨?_, ⟨fun i => ?_, ?_⟩, fun i => ?_, ?_, ?_⟩ <;> simp only [sip]
  · exact tidy
  · exact home.1 i
  · exact home.2
  · exact busy i
  · exact known
  · exact recorded

theorem Traced.receive (h : Traced (s, arrivals)) {tid : Int} (fresh : tid ∉ s.sip.requests)
    (request : Int → Option Context)
    (others : ∀ t, t ≠ tid → request t = arrivals.request t) :
    Traced ({ s with sip := s.sip.received tid }, { arrivals with request := request }) := by
  have old : ∀ t, t ∈ s.sip.requests → request t = arrivals.request t := fun t known =>
    others t fun e => fresh (e ▸ known)
  refine ⟨?_, ⟨h.home.1, fun r on c came => ?_⟩, fun i now => ?_, fun r on => ?_,
    fun t c came => ?_⟩
  · obtain ⟨lists, tidy⟩ := h.tidy
    exact ⟨lists, tidy.same rfl rfl⟩
  · have came : request r.tid = some c := came
    rw [old r.tid (h.known r on)] at came
    exact h.home.2 r on c came
  · obtain ⟨c, slot, transaction⟩ := h.busy i now
    refine ⟨c, slot, fun held => ?_⟩
    have came := transaction held
    exact (old _ (h.recorded _ c came)).trans came
  · exact List.mem_append_left _ (h.known r on)
  · by_cases new : t = tid
    · subst new
      exact List.mem_append_right _ (List.mem_singleton_self t)
    · have came : request t = some c := came
      rw [others t new] at came
      exact List.mem_append_left _ (h.recorded t c came)

theorem Traced.answer (h : Traced (s, arrivals)) {r : Response} (known : r.tid ∈ s.sip.requests)
    (home : ∀ c, arrivals.request r.tid = some c → r.ctx = some c) :
    Traced ({ s with sip := s.sip.send r }, arrivals) := by
  refine ⟨h.tidy, ⟨h.home.1, fun q on c came => ?_⟩, h.busy, fun q on => ?_, h.recorded⟩ <;>
    rcases List.mem_append.mp on with old | new
  · exact h.home.2 q old c came
  · cases List.mem_singleton.mp new
    exact home c came
  · exact h.known q old
  · cases List.mem_singleton.mp new
    exact known

theorem Traced.sent (h : Traced (s, arrivals)) {ctx : Context} {tid : Int}
    (known : tid ∈ s.sip.requests) (came : arrivals.request tid = some ctx)
    (sent : s'.sent = s.sip.sent ∨ s.sip.Answered s' ctx tid) :
    (∀ r ∈ s'.sent, ∀ c, arrivals.request r.tid = some c → r.ctx = some c) ∧
      ∀ r ∈ s'.sent, r.tid ∈ s.sip.requests := by
  rcases sent with same | ⟨status, more⟩
  · rw [same]
    exact ⟨h.home.2, h.known⟩
  · have answered := h.answer (r := ⟨.answer, some ctx, tid, status⟩) known
      fun c came' => came.symm.trans came'
    rw [more]
    exact ⟨answered.home.2, answered.known⟩

theorem Traced.missed (h : Traced (s, arrivals)) {ctx : Context} {tid : Int}
    (known : tid ∈ s.sip.requests) (came : arrivals.request tid = some ctx)
    (missed : s.sip.Missed s' ctx tid) (tidy : ∃ lists, s'.pool.Tidy lists) :
    Traced ({ s with sip := s' }, arrivals) := by
  obtain ⟨home, all⟩ := h.sent known came missed.sent
  refine ⟨tidy, ⟨fun i c on => ?_, home⟩, fun i => ?_, fun r on => ?_, fun t c on => ?_⟩ <;>
    simp only [missed.leg, missed.slot, missed.requests]
  · exact h.home.1 i c on
  · exact h.busy i
  · exact all r on
  · exact h.recorded t c on

theorem Traced.took (h : Traced (s, arrivals)) {ctx : Context} {tid : Int}
    (known : tid ∈ s.sip.requests) (came : arrivals.request tid = some ctx) {i : Fin n}
    (took : s.sip.Took s' i (some ctx) ctx tid) (tidy : ∃ lists, s'.pool.Tidy lists) :
    Traced ({ s with sip := s' },
      { arrivals with slot := Function.update arrivals.slot i (some ctx) }) := by
  obtain ⟨home, all⟩ := h.sent known came took.sent
  refine ⟨tidy, ⟨fun j c on => ?_, home⟩, fun j now => ?_, fun r on => ?_, fun t c on => ?_⟩
  · by_cases hj : j = i
    · subst hj
      simp only [Function.update_self] at on
      exact took.given.trans on
    · simp only [Function.update_of_ne hj] at on
      simp only [(took.others j hj).2]
      exact h.home.1 j c on
  · by_cases hj : j = i
    · subst hj
      refine ⟨ctx, Function.update_self .., fun held => ?_⟩
      rcases took.held with same | gone
      · simp only [same]
        exact came
      · exact absurd gone held
    · simp only [(took.others j hj).1, (took.others j hj).2, Function.update_of_ne hj] at now ⊢
      exact h.busy j now
  · simp only [took.requests]
    exact all r on
  · simp only [took.requests]
    exact h.recorded t c on

theorem invite_step {ctx : Context} {m : Message} {tid did cid : Int} {out : Outside}
    (step : s.sip.step s.driver (.event ctx (.callInvite (some m) tid did cid) out) = some s') :
    tid ∉ s.sip.requests ∧ tid ≠ -1 ∧ (cid < 1 ∧ s' = s.sip.received tid ∨
      1 ≤ cid ∧ (s.sip.received tid).invite s.driver ctx m tid did cid.toNat out = some s') := by
  simp only [Sip.step, SipEvent.tid] at step
  split at step
  · cases step
  · rename_i ok
    obtain ⟨some', fresh⟩ := not_or.mp ok
    refine ⟨fresh, some', ?_⟩
    simp only [Sip.run] at step
    split at step
    · cases step
      exact .inl ⟨‹_›, rfl⟩
    · exact .inr ⟨by omega, step⟩

theorem note_took (x : Arrivals n) (s t : Live n) {i : Fin n}
    (others : ∀ j, j ≠ i → t.sip.pool.slot j = s.sip.pool.slot j)
    (idle : (s.sip.pool.slot i).handler = .idle) (busy : (t.sip.pool.slot i).handler ≠ .idle)
    (ctx : Context) (request : Option Message) (tid did cid : Int) (out : Outside) :
    x.note s t (.sip (.event ctx (.callInvite request tid did cid) out)) =
      { slot := Function.update x.slot i (some ctx)
        request := Function.update x.request tid (some ctx) } := by
  simp only [Arrivals.note, Arrivals.mk.injEq, and_true]
  funext j
  by_cases hj : j = i
  · subst hj
    rw [Function.update_self, if_pos ⟨idle, busy⟩]
  · rw [Function.update_of_ne hj, if_neg]
    rw [others j hj]
    exact fun both => both.2 both.1

theorem note_missed (x : Arrivals n) (s t : Live n) (slot : t.sip.pool.slot = s.sip.pool.slot)
    (ctx : Context) (request : Option Message) (tid did cid : Int) (out : Outside) :
    x.note s t (.sip (.event ctx (.callInvite request tid did cid) out)) =
      { x with request := Function.update x.request tid (some ctx) } := by
  simp only [Arrivals.note, Arrivals.mk.injEq, and_true]
  funext j
  rw [if_neg]
  rw [slot]
  exact fun both => both.2 both.1

theorem step_tidy {lists : Root → List (Fin n)} (tidy : s.sip.pool.Tidy lists) {a : SipAction n}
    (step : s.sip.step s.driver a = some s') : ∃ lists, s'.pool.Tidy lists := by
  by_cases twice : s.sip.Repeats a
  · exact (Sip.step_wrong tidy twice step).tidy
  · exact (Sip.step_fine tidy twice step).tidy

theorem Traced.invite (h : Traced (s, arrivals)) {ctx : Context} {m : Message}
    {tid did cid : Int} {out : Outside}
    (ok : s.Matches (.sip (.event ctx (.callInvite (some m) tid did cid) out)))
    (step : s.sip.step s.driver (.event ctx (.callInvite (some m) tid did cid)
      { out with realm := s.realm, context := s.contextFor m, ans := s.paced out.ans }) =
        some s') :
    Traced ({ s with sip := s' }, arrivals.note s { s with sip := s' }
      (.sip (.event ctx (.callInvite (some m) tid did cid) out))) := by
  obtain ⟨lists, tidy⟩ := h.tidy
  have tidy' := step_tidy tidy step
  obtain ⟨fresh, _, rest⟩ := invite_step step
  have received := h.receive fresh (Function.update arrivals.request tid (some ctx))
    fun t ne => Function.update_of_ne ne _ _
  have known : tid ∈ (s.sip.received tid).requests :=
    List.mem_append_right _ (List.mem_singleton_self tid)
  have came : Function.update arrivals.request tid (some ctx) tid = some ctx :=
    Function.update_self ..
  have tidyReceived : (s.sip.received tid).pool.Tidy lists := tidy.same rfl rfl
  rcases rest with ⟨_, rfl⟩ | ⟨valid, invited⟩
  · rw [note_missed arrivals s { s with sip := s.sip.received tid } rfl]
    exact received
  · rcases Sip.invite_cases tidyReceived invited with
      ⟨missed, _⟩ | ⟨reg, base, i, reaches, room, free, took⟩
    · rw [note_missed arrivals s { s with sip := s' } missed.slot]
      exact received.missed known came missed tidy'
    · have here : (s.contextFor m).or s.contexts.out = some ctx :=
        ok reg base valid reaches room free
      have took : (s.sip.received tid).Took s' i (some ctx) ctx tid := here ▸ took
      rw [note_took arrivals s { s with sip := s' } (fun j hj => (took.others j hj).1)
        took.idle took.busy]
      exact received.took known came took tidy'

theorem invite_away (h : Traced (s, arrivals)) {ctx : Context} {m : Message}
    {tid did cid : Int} {out : Outside}
    (away : ¬ s.Matches (.sip (.event ctx (.callInvite (some m) tid did cid) out)))
    (step : s.sip.step s.driver (.event ctx (.callInvite (some m) tid did cid)
      { out with realm := s.realm, context := s.contextFor m, ans := s.paced out.ans }) =
        some s') :
    ¬ Home ({ s with sip := s' }, arrivals.note s { s with sip := s' }
      (.sip (.event ctx (.callInvite (some m) tid did cid) out))) := by
  obtain ⟨lists, tidy⟩ := h.tidy
  have tidyReceived : (s.sip.received tid).pool.Tidy lists := tidy.same rfl rfl
  obtain ⟨_, _, rest⟩ := invite_step step
  simp only [Matches, not_forall] at away
  obtain ⟨reg, base, valid, reaches, room, free, elsewhere⟩ := away
  rcases rest with ⟨invalid, _⟩ | ⟨_, invited⟩
  · omega
  · rcases Sip.invite_cases tidyReceived invited with
      ⟨_, full⟩ | ⟨_, _, i, _, _, _, took⟩
    · exact absurd ⟨room, free⟩ (full reg base reaches)
    · rw [note_took arrivals s { s with sip := s' } (fun j hj => (took.others j hj).1)
        took.idle took.busy]
      intro home
      have here := home.1 i ctx (Function.update_self ..)
      exact elsewhere (took.given.symm.trans here)

theorem Traced.postCall (h : Traced (s, arrivals)) (cid : Nat) (event : EventId) (out : Outside) :
    Traced ({ s with sip := s.sip.postCall s.driver cid event out }, arrivals) := by
  obtain ⟨lists, tidy⟩ := h.tidy
  cases found : s.sip.pool.get cid with
  | none =>
    simp only [Sip.postCall, found]
    exact h
  | some i =>
    have posted : s.sip.step s.driver (.post i event out.ans) =
        some (s.sip.postCall s.driver cid event out) := by
      simp only [Sip.step, Sip.postCall, found]
    refine h.serve (i := i) ?_ (step_tidy tidy posted)
    simp only [Sip.postCall, found]
    exact .post tidy out.ans event

theorem Traced.messageNew (h : Traced (s, arrivals)) {ctx : Context} {request : Option Method}
    {tid : Int} {cid : Nat} {out : Outside}
    (step : s.sip.step s.driver (.event ctx (.messageNew request tid cid) out) = some s') :
    Traced ({ s with sip := s' }, arrivals) := by
  simp only [Sip.step, SipEvent.tid] at step
  split at step
  · cases step
  · rename_i ok
    have fresh : tid ∉ s.sip.requests := (not_or.mp ok).2
    have received := h.receive fresh arrivals.request fun _ _ => rfl
    have known : tid ∈ (s.sip.received tid).requests :=
      List.mem_append_right _ (List.mem_singleton_self tid)
    have unrecorded : ∀ c, arrivals.request tid = some c → (some ctx : Option Context) = some c :=
      fun c came => absurd (h.recorded tid c came) fresh
    have bad := received.answer (r := ⟨.answer, some ctx, tid, .badRequest⟩) known unrecorded
    cases request with
    | none =>
      cases step
      exact bad
    | some method =>
      cases method with
      | other =>
        cases step
        exact bad
      | options =>
        cases step
        have answered := received.answer
          (r := ⟨.options, some ctx, tid, if out.made then .ok else .badRequest⟩) known unrecorded
        exact answered.answer (r := ⟨.answer, some ctx, tid, .ok⟩) known unrecorded
      | bye =>
        simp only [Sip.run] at step
        split at step
        · cases step
          exact bad
        · cases step
          have dropped := received.postCall cid .drop out
          refine dropped.answer (r := ⟨.answer, some ctx, tid, .ok⟩) ?_ unrecorded
          have posted : ((s.sip.received tid).postCall s.driver cid .drop out).requests =
              (s.sip.received tid).requests := by
            simp only [Sip.postCall]
            split
            · rfl
            · rename_i i _
              obtain ⟨lists, tidy⟩ := received.tidy
              exact (Sip.Serve.post tidy out.ans .drop).requests
          show tid ∈ ((s.sip.received tid).postCall s.driver cid .drop out).requests
          rw [posted]
          exact known

theorem Traced.step (h : Traced (s, arrivals)) {a : LiveAction n} (ok : s.Matches a)
    {y : Live n × Arrivals n} (step : track (s, arrivals) a = some y) : Traced y := by
  obtain ⟨t, moved, rfl⟩ := Option.map_eq_some_iff.mp step
  obtain ⟨lists, tidy⟩ := h.tidy
  cases a with
  | reload keys =>
    exact h.quiet (reload_sip moved)
  | sip a =>
    obtain ⟨s', inner, rfl⟩ := Option.map_eq_some_iff.mp moved
    cases a with
    | event ctx e out =>
      cases e with
      | callInvite request tid did cid =>
        cases request with
        | none =>
          simp only [within, Sip.step, SipEvent.tid] at inner
          split at inner
          · cases inner
          · rename_i ok
            cases inner
            show Traced ({ s with sip := s.sip.received tid },
              arrivals.note s { s with sip := s.sip.received tid } _)
            rw [note_missed arrivals s { s with sip := s.sip.received tid } rfl]
            exact h.receive (not_or.mp ok).2 _ fun t ne => Function.update_of_ne ne _ _
        | some m => exact h.invite ok inner
      | callClosed cid =>
        cases inner
        exact h.postCall cid .drop { out with ans := s.paced out.ans }
      | callReleased cid =>
        cases inner
        exact h.postCall cid .release { out with ans := s.paced out.ans }
      | messageNew request tid cid => exact h.messageNew inner
      | other =>
        cases inner
        exact h
    | expire i read ans =>
      have tidy' := step_tidy tidy inner
      cases inner
      exact h.serve (.expire tidy read (s.paced ans)) tidy'
    | post i event ans =>
      have tidy' := step_tidy tidy inner
      cases inner
      exact h.serve (.post tidy (s.paced ans) event) tidy'
  | registration rid e =>
    simp only [Live.step, locate] at moved
    split at moved
    · cases moved
    · split at moved <;> cases moved <;> exact h.quiet rfl
  | release k =>
    cases moved
    exact h.quiet rfl

theorem Traced.away (h : Traced (s, arrivals)) {a : LiveAction n} (away : ¬ s.Matches a)
    {y : Live n × Arrivals n} (step : track (s, arrivals) a = some y) : ¬ Home y := by
  obtain ⟨t, moved, rfl⟩ := Option.map_eq_some_iff.mp step
  match a, away, moved with
  | .sip (.event ctx (.callInvite (some m) tid did cid) out), away, moved =>
    obtain ⟨s', inner, rfl⟩ := Option.map_eq_some_iff.mp moved
    exact invite_away h away inner
  | .sip (.event _ (.callInvite none _ _ _) _), away, _
  | .sip (.event _ (.callClosed _) _), away, _
  | .sip (.event _ (.callReleased _) _), away, _
  | .sip (.event _ (.messageNew _ _ _) _), away, _
  | .sip (.event _ .other _), away, _
  | .sip (.expire _ _ _), away, _ | .sip (.post _ _ _), away, _
  | .reload _, away, _ | .registration _ _, away, _ | .release _, away, _ => exact absurd trivial away

/-- In every run, each call's slot keeps the context that the call came in on and all that
is sent for its INVITE goes there, if and only if each INVITE that is given a slot comes
in on the context of its registration, or on the default one if that has none. -/
theorem home_iff_along (boot : Boot) (keys : String → Option Keydata) (raw : Fin n → Raw)
    (leg : Fin n → Leg) (as : List (LiveAction n)) (u : Live n × Arrivals n)
    (run : Run.exec track (start boot keys raw leg, ⟨fun _ => none, fun _ => none⟩) as = some u) :
    Run.Always track Home (start boot keys raw leg, ⟨fun _ => none, fun _ => none⟩) as ↔
      Run.Along track (fun x a => x.1.Matches a)
        (start boot keys raw leg, ⟨fun _ => none, fun _ => none⟩) as := by
  have sip : (start boot keys raw leg).sip.sent = [] ∧
      ∀ i, ((start boot keys raw leg).sip.pool.slot i).handler = .idle := ⟨rfl, fun _ => rfl⟩
  have traced : Traced (start boot keys raw leg, (⟨fun _ => none, fun _ => none⟩ : Arrivals n)) := by
    refine ⟨(Sip.start_answering _ raw leg).tidy, ⟨fun _ _ came => ?_, fun _ on => ?_⟩,
      fun i busy => ?_, fun _ on => ?_, fun _ _ came => ?_⟩
    · cases came
    · simp only [sip.1] at on
      cases on
    · exact absurd (sip.2 i) busy
    · simp only [sip.1] at on
      cases on
    · cases came
  refine Run.always_iff_along (I := Traced) ?_ (fun _ h => h.home) ?_ traced run
  · rintro ⟨s, arrivals⟩ a t h ok step
    exact h.step ok step
  · rintro ⟨s, arrivals⟩ a t h away step
    exact h.away away step

def mixed : Boot :=
  { overUdp with registrations := [⟨⟨0, "alice", some "welcome", none, none⟩, some 2, 7, true⟩] }

def callAlice (ctx : Context) : LiveAction n :=
  .sip (.event ctx (.callInvite (some Sip.inviteAlice) 5 1 7)
    { Sip.plainly (tick 0) with getIncoming := fun _ => true, attach := fun _ _ => true })

theorem home_iff_along_tcp :
    Run.Always track Home
      (start mixed (fun _ => none) (fun _ => ⟨0, .incoming, none, none, none, none⟩)
        fun _ => ⟨none, 0, 0⟩, (⟨fun _ => none, fun _ => none⟩ : Arrivals 1))
      [callAlice 2, .release 0, .sip (.event 2 (.callReleased 7) (Sip.plainly (tick 1)))] := by
  refine (home_iff_along mixed _ _ _ _ _ rfl).mpr ⟨?_, fun _ _ => ⟨trivial, fun _ _ => ⟨trivial,
    fun _ _ => trivial⟩⟩⟩
  intro reg base _ _ _ _
  rfl

/-- A call that comes in over UDP gets a slot with the TCP context. -/
theorem not_home :
    ¬ Run.Always track Home
      (start mixed (fun _ => none) (fun _ => ⟨0, .incoming, none, none, none, none⟩)
        fun _ => ⟨none, 0, 0⟩, (⟨fun _ => none, fun _ => none⟩ : Arrivals 1))
      [callAlice 1] := by
  intro always
  have home := (always.last rfl).1 0 1 rfl
  revert home
  decide

end Live

end Bayonne
