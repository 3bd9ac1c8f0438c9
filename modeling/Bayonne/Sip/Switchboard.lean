import Bayonne.Sip.Responses
import Bayonne.Timeslot.Switchboard

/-! The SIP driver before the switchboard: what the events of the user agent library, the timers
and the posts of other threads come to there, the hooks of the driver's timeslots included. -/
namespace Bayonne

def SipAction.Ordinary {n : Nat} : SipAction n → Prop
  | .post _ id _ => id ≠ .shutdown
  | _ => True

instance {n : Nat} : (a : SipAction n) → Decidable a.Ordinary
  | .post _ id _ => inferInstanceAs (Decidable (id ≠ .shutdown))
  | .event .. | .expire .. => .isTrue trivial

namespace Sip
variable {n : Nat} {server : Server} {driver : SipDriver} {s t : Sip n} {b : Switchboard n}
  {i : Fin n}

def callee (driver : SipDriver) (m : Message) : Option SipRegistration :=
  match m.toHeader, m.fromHeader, m.reqUri with
  | some _, some _, some uri =>
    if uri.username.getD "" = "" then none
    else contact driver.registrations (uri.username.getD "")
  | _, _, _ => none

def scripted (reg : SipRegistration) (m : Message) (out : Outside) : Bool :=
  match reg.route m (m.remote reg.localnames) with
  | .error _ => false
  | .ok route => out.getIncoming route.script && out.attach route.script route.entry

/-- What an INVITE asks for: a line, if it is for a registration whose allowance lets it, and a
script on that line, if the caller is let in. -/
def invitation (driver : SipDriver) (s : Sip n) (m : Message) (cid : Nat) (out : Outside) :
    List (Request n) :=
  match callee driver m with
  | none => []
  | some reg =>
    match driver.server.registrations[reg.base]? with
    | none => []
    | some base =>
      if (s.pool.attach base .incoming).1 then
        match (s.pool.invite driver.server base reg.base cid out.now out.ending).1 with
        | none => [.connect cid]
        | some i =>
          if check m reg out.realm = some .passed ∧ scripted reg m out then
            [.connect cid, .script i]
          else [.connect cid]
      else []

/-- What an operation asks of the switchboard. The driver takes no line out of service. -/
def asks (driver : SipDriver) (s : Sip n) : SipAction n → List (Request n)
  | .event _ (.callInvite (some m) _ _ cid) out =>
    if cid < 1 then [] else invitation driver s m cid.toNat out
  | .event _ (.callClosed cid) out => [.call cid .drop out.ans.stepped]
  | .event _ (.callReleased cid) out => [.call cid .release out.ans.stepped]
  | .event _ (.messageNew (some .bye) _ cid) out => [.call cid .drop out.ans.stepped]
  | .event .. => []
  | .expire i read ans =>
    if read (s.pool.slot i).timer = .after 0 then [.event i .timeout ans.stepped] else []
  | .post i event ans => if event = .disable then [] else [.event i event ans.stepped]

def lineOf (driver : SipDriver) (s : Sip n) : SipAction n → Option (Fin n)
  | .event _ (.callInvite (some m) _ _ cid) out =>
    if cid < 1 then none
    else
      (callee driver m).bind fun reg => driver.server.registrations[reg.base]?.bind fun base =>
        (s.pool.invite driver.server base reg.base cid.toNat out.now out.ending).1
  | .event _ (.callClosed cid) _ | .event _ (.callReleased cid) _
  | .event _ (.messageNew (some .bye) _ cid) _ => s.pool.get cid
  | _ => none

section Hooks

theorem drop_shows (h : s.pool.Shows b) (i : Fin n) : (s.drop i).pool.Shows b := by
  have gone : (s.pool.modify i fun t => { t with connected := false }).Shows b :=
    h.still (f := fun t => { t with connected := false }) rfl rfl
  unfold drop
  simp only
  split
  · exact gone.still (f := (·.disarm)) rfl rfl
  · split
    · exact h.still (f := (·.disarm)) rfl rfl
    · exact h.still (f := (·.disarm)) rfl rfl

theorem busy_disconnect {t : Timeslot} (busy : t.handler.phase = .busy) :
    t.disconnect.line = t.line := by
  simp only [Timeslot.disconnect, Timeslot.line, Mapped.setMapped, busy]
  rfl

theorem disconnect_shows (h : s.pool.Shows b) (busy : (b.mode i).phase = .busy) :
    (s.disconnect i).pool.Shows (b.turn i .release) := by
  refine h.turn (m := .release)
    (f := fun t => { t with connected := false }.disarm.disconnect) ?_ rfl
  rw [← h.mode] at busy
  exact busy_disconnect (t := ({ s.pool.slot i with connected := false } : Timeslot).disarm) busy

theorem hangup_shows (h : s.pool.Shows b) (busy : (b.mode i).phase = .busy) :
    (s.hangup i).pool.Shows (b.turn i .release) := by
  have dropped := drop_shows h i
  refine dropped.turn (m := .release) (f := (·.disarm.disconnect)) ?_ rfl
  rw [← dropped.mode] at busy
  exact busy_disconnect (t := ((s.drop i).pool.slot i).disarm) busy

theorem release_shows (h : s.pool.Shows b) (ans : Answers) (busy : (b.mode i).phase = .busy) :
    ((s.drop i).lift (·.release server i ans)).pool.Shows (b.hangUp i) := by
  have dropped := drop_shows h i
  rw [← dropped.mode] at busy
  exact dropped.hangUp ans busy

theorem handle_shows (h : s.pool.Shows b) (ans : Answers) {event : EventId}
    (ordinary : event ≠ .shutdown) : ((hooks server n).handle s i ans event).1.pool.Shows
      (if event = .disable then b else b.event i event ans.stepped) := by
  have mode := h.mode i
  cases here : (s.pool.slot i).handler with
  | idle =>
    rw [here] at mode
    simp only [Virtual.handle, hooks, here, Switchboard.event, ← mode]
    cases event with
    | shutdown => exact absurd rfl ordinary
    | _ => exact h
  | release =>
    have busy : (b.mode i).phase = .busy := by rw [← mode, here]; rfl
    rw [here] at mode
    simp only [Virtual.handle, hooks, here, Switchboard.event, ← mode]
    cases event with
    | shutdown => exact absurd rfl ordinary
    | timeout | release => exact release_shows h ans busy
    | _ => exact h
  | script =>
    have busy : (b.mode i).phase = .busy := by rw [← mode, here]; rfl
    rw [here] at mode
    simp only [Virtual.handle, hooks, here, Switchboard.event, ← mode]
    cases event with
    | release => exact release_shows h ans busy
    | drop => exact disconnect_shows h busy
    | hangup => exact hangup_shows h busy
    | shutdown => exact absurd rfl ordinary
    | timeout =>
      simp only [Virtual.scriptHandler, here, if_true]
      cases ans.stepped with
      | false => exact hangup_shows h busy
      | true => exact h.still (f := (·.arm ans.stepping)) rfl rfl
    | _ => exact h
  | offline =>
    rw [here] at mode
    simp only [Virtual.handle, hooks, here, Switchboard.event, ← mode]
    cases event with
    | shutdown => exact absurd rfl ordinary
    | enable => exact h.restore here
    | _ => exact h

theorem post_shows (h : s.pool.Shows b) (ans : Answers) {event : EventId}
    (ordinary : event ≠ .shutdown) : ((hooks server n).post s i ans event).1.pool.Shows
      (if event = .disable then b else b.event i event ans.stepped) := by
  have locked : (s.lift (·.lock i)).pool.Shows b := ⟨h.mode, h.board⟩
  have handled := @handle_shows n server _ b i locked ans event ordinary
  simp only [Virtual.post]
  split
  · exact handled
  · exact ⟨handled.mode, handled.board⟩

theorem expire_shows (h : s.pool.Shows b) (read : Timeout → Timeout) (ans : Answers) :
    ((hooks server n).expire ((hooks server n).getExpires s i read) i ans).1.pool.Shows
      ((if read (s.pool.slot i).timer = .after 0 then
        [.event i .timeout ans.stepped] else []).foldl Switchboard.serve b) := by
  have locked : (s.pool.lock i).Shows b := ⟨h.mode, h.board⟩
  have kept : ((hooks server n).getExpires s i read).pool.Shows b :=
    locked.still (f := (·.readTimer read)) rfl rfl
  have shown : (((hooks server n).getExpires s i read).pool.slot i).expires =
      read (s.pool.slot i).timer :=
    congrArg Timeslot.expires (Pool.slot_modify (s.pool.lock i) i (·.readTimer read))
  generalize (hooks server n).getExpires s i read = t at kept shown
  by_cases due : read (s.pool.slot i).timer = .after 0
  · have handled : ((hooks server n).handle t i ans .timeout).1.pool.Shows
        (b.event i .timeout ans.stepped) := handle_shows kept ans (by decide)
    rw [if_pos due]
    simp only [Virtual.expire, hooks, shown, due, if_true]
    split
    · exact handled.expired
    · exact ⟨handled.expired.mode, handled.expired.board⟩
  · rw [if_neg due]
    simp only [Virtual.expire, hooks, shown, due, if_false]
    split
    · exact kept.expired
    · exact ⟨kept.expired.mode, kept.expired.board⟩

end Hooks

section Invite
variable {reg : SipRegistration} {m : Message} {tid did : Int} {out : Outside} {ctx : Context}

theorem incoming_calm (s : Sip n) (i : Fin n) (reg : SipRegistration) (m : Message)
    (tid did : Int) (out : Outside) :
    ∃ f : Timeslot → Timeslot,
      (s.incoming i reg m tid did out).2 =
        (s.setLeg i fun l => { l with tid := tid, did := did }).lift (·.modify i f) ∧
      ((s.incoming i reg m tid did out).1 = none ↔ scripted reg m out = true) ∧
      ∀ t, t.handler.phase = .busy → (f t).line = t.line ∧
        (f t).handler = (if scripted reg m out then .script else t.handler) ∧
        (f t).mapped.id = if scripted reg m out then '$' else 'i' := by
  have routes : (∃ status, reg.route m (m.remote reg.localnames) = .error status) ∨
      ∃ route, reg.route m (m.remote reg.localnames) = .ok route := by
    cases reg.route m (m.remote reg.localnames) with
    | error status => exact .inl ⟨status, rfl⟩
    | ok route => exact .inr ⟨route, rfl⟩
  rcases routes with ⟨status, routed⟩ | ⟨route, routed⟩
  · simp only [incoming, scripted, routed]
    exact ⟨_, rfl, ⟨by rintro ⟨⟩, by rintro ⟨⟩⟩, fun t _ => ⟨rfl, rfl, rfl⟩⟩
  · simp only [incoming, scripted, routed]
    cases loaded : out.getIncoming route.script with
    | false => exact ⟨_, rfl, ⟨by rintro ⟨⟩, by rintro ⟨⟩⟩, fun t _ => ⟨rfl, rfl, rfl⟩⟩
    | true =>
      cases attached : out.attach route.script route.entry with
      | false =>
        simp only [if_true, lift, Pool.modify_modify]
        exact ⟨_, rfl, ⟨by rintro ⟨⟩, by rintro ⟨⟩⟩, fun t _ => ⟨rfl, rfl, rfl⟩⟩
      | true =>
        simp only [if_true, lift, Pool.modify_modify]
        refine ⟨_, rfl, ⟨fun _ => rfl, fun _ => trivial⟩, fun t busy => ⟨?_, rfl, rfl⟩⟩
        simp only [Timeslot.setScripting, Timeslot.arm, Timeslot.line, Mapped.setMapped, busy]
        rfl

theorem incoming_shows (h : s.pool.Shows b) (busy : (b.mode i).phase = .busy) :
    ((s.incoming i reg m tid did out).1 = none ↔ scripted reg m out = true) ∧
      (s.incoming i reg m tid did out).2.pool.Shows
        (if scripted reg m out then b.turn i .script else b) := by
  obtain ⟨f, next, taken, calm⟩ := incoming_calm s i reg m tid did out
  rw [← h.mode] at busy
  obtain ⟨same, handler, -⟩ := calm _ busy
  refine ⟨taken, ?_⟩
  rw [next]
  cases found : scripted reg m out with
  | true =>
    rw [found] at handler
    exact h.turn same handler
  | false =>
    rw [found] at handler
    exact h.still same handler

theorem connect_mode {cid : Nat} (given : b.idle.head? = some i) :
    (b.connect cid).mode i = .release := by
  obtain ⟨rest, idle⟩ := List.head?_eq_some_iff.mp given
  rw [Switchboard.connect, idle]
  exact Function.update_self _ _ _

theorem admitTo_shows (h : s.pool.Shows b) (busy : (b.mode i).phase = .busy)
    (moved : s.admitTo i reg ctx m tid did out = some t) :
    t.pool.Shows (if check m reg out.realm = some .passed ∧ scripted reg m out then
      b.turn i .script else b) := by
  unfold admitTo at moved
  obtain ⟨verdict, checked, rfl⟩ := Option.map_eq_some_iff.mp moved
  rw [checked]
  cases verdict with
  | challenge =>
    simp only [Option.some.injEq, reduceCtorEq, false_and, if_false]
    split
    · exact h
    · exact h
  | forbidden => exact h
  | passed =>
    obtain ⟨-, next⟩ := @incoming_shows n s b i reg m tid did out h busy
    simp only [true_and]
    generalize s.incoming i reg m tid did out = done at next
    obtain ⟨status, u⟩ := done
    cases status with
    | none => exact next
    | some status => exact next

theorem invite_shows (h : s.pool.Shows b) {cid : Nat}
    (moved : s.invite driver ctx m tid did cid out = some t) :
    t.pool.Shows ((invitation driver s m cid out).foldl Switchboard.serve b) ∧
      ((callee driver m).bind fun reg => driver.server.registrations[reg.base]?.bind fun base =>
        (s.pool.invite driver.server base reg.base cid out.now out.ending).1) =
          (invitation driver s m cid out).head?.bind b.reply := by
  unfold invite at moved
  unfold invitation callee
  cases toHeader : m.toHeader with
  | none =>
    rw [toHeader] at moved
    cases moved
    exact ⟨h, rfl⟩
  | some to' =>
  cases fromHeader : m.fromHeader with
  | none =>
    rw [toHeader, fromHeader] at moved
    cases moved
    exact ⟨h, rfl⟩
  | some from' =>
  cases reqUri : m.reqUri with
  | none =>
    rw [toHeader, fromHeader, reqUri] at moved
    cases moved
    exact ⟨h, rfl⟩
  | some uri =>
  rw [toHeader, fromHeader, reqUri] at moved
  simp only at moved ⊢
  by_cases empty : uri.username.getD "" = ""
  · rw [if_pos empty] at moved ⊢
    cases moved
    exact ⟨h, rfl⟩
  rw [if_neg empty] at moved ⊢
  cases found : contact driver.registrations (uri.username.getD "") with
  | none =>
    rw [found] at moved
    cases moved
    exact ⟨h, rfl⟩
  | some reg =>
  rw [found] at moved
  simp only [Option.bind_some] at moved ⊢
  cases known : driver.server.registrations[reg.base]? with
  | none =>
    rw [known] at moved
    cases moved
  | some base =>
  rw [known] at moved
  simp only [Option.bind_some] at moved ⊢
  obtain ⟨next, given⟩ := @Pool.Shows.invite n driver.server s.pool b h base reg.base cid out.now
    out.ending
  cases allowed : (s.pool.attach base .incoming).1 with
  | false =>
    rw [allowed] at next given
    generalize s.pool.invite driver.server base reg.base cid out.now out.ending = admission
      at moved next given
    obtain ⟨line, p⟩ := admission
    cases given
    cases moved
    exact ⟨next, rfl⟩
  | true =>
    rw [allowed, if_pos rfl] at next given
    rw [if_pos rfl]
    generalize s.pool.invite driver.server base reg.base cid out.now out.ending = admission
      at moved next given
    obtain ⟨line, p⟩ := admission
    cases line with
    | none =>
      cases moved
      exact ⟨next, given⟩
    | some i =>
      have mode := @connect_mode n b i cid given.symm
      have answered := @admitTo_shows n _ t (b.connect cid) i reg m tid did out ctx next
        (by rw [mode]; rfl) moved
      simp only
      by_cases taken : check m reg out.realm = some .passed ∧ scripted reg m out
      · rw [if_pos taken] at answered ⊢
        exact ⟨answered, given⟩
      · rw [if_neg taken] at answered ⊢
        exact ⟨answered, given⟩

end Invite

theorem postCall_shows (h : s.pool.Shows b) (cid : Nat) {event : EventId} (out : Outside)
    (ordinary : event ≠ .shutdown ∧ event ≠ .disable) :
    (s.postCall driver cid event out).pool.Shows
      (b.serve (.call cid event out.ans.stepped)) := by
  rw [postCall, h.find, Switchboard.serve]
  cases b.find cid with
  | none => exact h
  | some i =>
    have posted := @post_shows n driver.server s b i h out.ans event ordinary.1
    rwa [if_neg ordinary.2] at posted

theorem run_shows (h : s.pool.Shows b) {ctx : Context} {out : Outside} {e : SipEvent}
    (moved : s.run driver ctx out e = some t) :
    t.pool.Shows ((asks driver s (.event ctx e out)).foldl Switchboard.serve b) ∧
      lineOf driver s (.event ctx e out) =
        (asks driver s (.event ctx e out)).head?.bind b.reply := by
  cases e with
  | callInvite request tid did cid =>
    cases request with
    | none =>
      cases moved
      exact ⟨h, rfl⟩
    | some m =>
      simp only [run] at moved
      simp only [asks, lineOf]
      by_cases early : cid < 1
      · rw [if_pos early] at moved
        rw [if_pos early, if_pos early]
        cases moved
        exact ⟨h, rfl⟩
      · rw [if_neg early] at moved
        rw [if_neg early, if_neg early]
        exact invite_shows h moved
  | callClosed cid =>
    cases moved
    exact ⟨postCall_shows h cid out (by decide), h.find cid⟩
  | callReleased cid =>
    cases moved
    exact ⟨postCall_shows h cid out (by decide), h.find cid⟩
  | messageNew request tid cid =>
    have shown := @postCall_shows n driver s b h cid .drop out (by decide)
    cases request with
    | none =>
      cases moved
      exact ⟨h, rfl⟩
    | some method =>
      cases method with
      | options | other =>
        cases moved
        exact ⟨h, rfl⟩
      | bye =>
        refine ⟨?_, h.find cid⟩
        simp only [run, h.find] at moved
        show t.pool.Shows (b.serve (.call cid .drop out.ans.stepped))
        cases found : b.find cid with
        | none =>
          rw [found] at moved
          cases moved
          rw [Switchboard.serve, found]
          exact h
        | some i =>
          rw [found] at moved
          cases moved
          exact shown
  | other =>
    cases moved
    exact ⟨h, rfl⟩

theorem simulates (driver : SipDriver) : Refine.Simulates (step driver) (lineOf driver (n := n))
    (fun b => List.foldl Switchboard.serve b) (fun b asked => asked.head?.bind b.reply)
    (asks driver) (fun _ a => a.Ordinary) (fun s b => s.pool.Shows b) := by
  intro s b a t h ordinary moved
  cases a with
  | event ctx e out =>
    simp only [step] at moved
    cases id : e.tid with
    | none =>
      rw [id] at moved
      exact run_shows h moved
    | some tid =>
      rw [id] at moved
      simp only at moved
      split at moved
      · cases moved
      · have received : ({ s with requests := s.requests ++ [tid] } : Sip n).pool.Shows b := h
        exact run_shows received moved
  | expire i read ans =>
    cases moved
    refine ⟨expire_shows h read ans, ?_⟩
    simp only [asks, lineOf]
    split <;> rfl
  | post i event ans =>
    cases moved
    have posted := @post_shows n driver.server s b i h ans event ordinary
    simp only [asks, lineOf]
    by_cases off : event = .disable
    · rw [if_pos off] at posted ⊢
      exact ⟨posted, rfl⟩
    · rw [if_neg off] at posted ⊢
      exact ⟨posted, rfl⟩

/-- The SIP server is a switchboard: over every run of events from the user agent library, of
timers and of posts, an INVITE is given the line that it hands out, a BYE, the end of a call and
its release come to the line that it has for the call id, and nothing else moves a line between
the idle ones and the calls. -/
theorem switched (driver : SipDriver) (raw : Fin n → Raw) (leg : Fin n → Leg)
    {as : List (SipAction n)} (ordinary : ∀ a ∈ as, a.Ordinary)
    (run : Run.exec (step driver) (start driver raw leg) as = some s) :
    let asked := Refine.observe (step driver) (asks driver) (start driver raw leg) as
    let board := asked.flatten.foldl Switchboard.serve (.start n)
    Refine.observe (step driver) (lineOf driver) (start driver raw leg) as =
        Refine.answers (fun b => List.foldl Switchboard.serve b)
          (fun b asked => asked.head?.bind b.reply) (.start n) asked ∧
      (∀ cid, s.pool.get cid = board.find cid) ∧
      Linked.Chain s.pool.links.next (s.pool.links.root .timeslots) board.idle := by
  have begun : (start driver raw leg).pool.Shows (.start n) := Pool.construct_shows raw
  obtain ⟨shown, replies⟩ := (simulates driver).run begun (.of_all ordinary) run
  rw [← List.foldl_flatten] at shown
  exact ⟨replies, shown.find, shown.board.valid.holds.chain .timeslots⟩

def greeter : SipDriver := ⟨.sample, [⟨0, "alice", some "welcome", none, none⟩], none⟩

def greeting (now : Now) : Outside :=
  { plainly now with getIncoming := fun _ => true, attach := fun _ _ => true }

theorem switched_bye :
    let calls : List (SipAction 2) := [.event 0 (.callInvite (some inviteAlice) 5 1 7)
        (greeting (tick 0)), .event 0 (.messageNew (some .bye) 6 7) (greeting (tick 1)),
      .event 0 (.callReleased 7) (greeting (tick 2))]
    let s := start greeter (fun _ => ⟨0, .incoming, none, none, none, none⟩) fun _ => ⟨none, 0, 0⟩
    Refine.observe (step greeter) (lineOf greeter) s calls = [some 1, some 1, some 1] ∧
      ∃ t, Run.exec (step greeter) s calls = some t ∧ t.pool.get 7 =
        ((Refine.observe (step greeter) (asks greeter) s calls).flatten.foldl Switchboard.serve
          (.start 2)).find 7 :=
  ⟨rfl, _, rfl, (switched greeter _ _ (by decide) rfl).2.1 7⟩

end Sip

end Bayonne
