import Bayonne.Sip.Accounts

/-! The SIP server when all is over. A call that the user agent library has released holds no
line, whatever became of it before, and with its line all that it took is given back. -/
namespace Bayonne

namespace Switchboard
variable {n : Nat} {b : Switchboard n} {i : Fin n}

/-- Each call id is in use once, and every line is in service. -/
structure Plain (b : Switchboard n) : Prop where
  once : (b.calls.map Prod.fst).Nodup
  online : ∀ j, b.mode j ≠ .offline

theorem event_calls (b : Switchboard n) (i : Fin n) (id : EventId) (more : Bool) :
    (b.event i id more).calls.Sublist b.calls := by
  unfold event
  split <;> first
    | exact List.filter_sublist
    | exact .refl _
    | skip
  split <;> exact .refl _

theorem turn_online (h : ∀ j, b.mode j ≠ .offline) {mode : Handler} (online : mode ≠ .offline) :
    ∀ j, Function.update b.mode i mode j ≠ .offline := by
  intro j
  by_cases here : j = i
  · rw [here, Function.update_self]
    exact online
  · rw [Function.update_of_ne here]
    exact h j

theorem event_online (h : ∀ j, b.mode j ≠ .offline) {id : EventId} (stays : id ≠ .disable)
    (more : Bool) : ∀ j, (b.event i id more).mode j ≠ .offline := by
  unfold event
  split <;> first
    | exact h
    | exact absurd rfl stays
    | exact turn_online h (by decide)
    | skip
  split
  · exact h
  · exact turn_online h (by decide)

theorem Plain.event (h : b.Plain) {id : EventId} (stays : id ≠ .disable) (more : Bool) :
    (b.event i id more).Plain :=
  ⟨h.once.sublist ((event_calls b i id more).map _), event_online h.online stays more⟩

theorem Plain.script (h : b.Plain) (i : Fin n) : (b.turn i .script).Plain :=
  ⟨h.once, turn_online h.online (by decide)⟩

theorem Plain.connect (h : b.Plain) {cid : Nat} (fresh : b.find cid = none) :
    (b.connect cid).Plain ∧ ∀ e ∈ (b.connect cid).calls, e ∈ b.calls ∨ e.1 = cid := by
  unfold Switchboard.connect
  cases b.idle with
  | nil => exact ⟨h, fun _ mem => .inl mem⟩
  | cons i idle =>
    refine ⟨⟨List.nodup_cons.mpr ⟨fun used => ?_, h.once⟩, turn_online h.online (by decide)⟩,
      fun e mem => ?_⟩
    · obtain ⟨e, mem, same⟩ := List.mem_map.mp used
      exact absurd same.symm (by simpa using List.lookup_eq_none_iff.mp fresh e mem)
    · rcases List.mem_cons.mp mem with rfl | mem
      · exact .inr rfl
      · exact .inl mem

end Switchboard

def SipAction.Invites {n : Nat} (a : SipAction n) (cid : Nat) : Prop :=
  match a with
  | .event _ (.callInvite (some _) _ _ id) _ => id = cid ∧ 1 ≤ cid
  | _ => False

def SipAction.Releases {n : Nat} (a : SipAction n) (cid : Nat) : Prop :=
  match a with
  | .event _ (.callReleased id) _ => id = cid
  | _ => False

namespace Sip
variable {n : Nat} {driver : SipDriver} {s t : Sip n} {b : Switchboard n} {i : Fin n}

/-- No INVITE comes with the id of a call in progress. -/
def Fresh (s : Sip n) (a : SipAction n) : Prop := ∀ cid, a.Invites cid → s.pool.get cid = none

def Holds (s : Sip n) (cid : Nat) : Prop :=
  ∃ i, Pool.classOf (s.pool.slot i).handler = .inCall ∧ (s.pool.slot i).cid = cid

def Orderly (s : Sip n) : Prop := ∃ b, s.pool.Shows b ∧ b.Plain

theorem holds_call (h : s.pool.Shows b) {cid : Nat} (holds : s.Holds cid) :
    ∃ i, (cid, i) ∈ b.calls := by
  obtain ⟨i, busy, own⟩ := holds
  have call := h.board.call ((Pool.inCall_iff s.pool i).mp busy)
  have same : (s.pool.exchange.line i).cid = cid := own
  exact ⟨i, same ▸ call⟩

theorem call_holds (h : s.pool.Shows b) {cid : Nat} (mem : (cid, i) ∈ b.calls) : s.Holds cid :=
  ⟨i, (Pool.inCall_iff s.pool i).mpr (h.board.busy_of_call mem), h.board.own _ mem⟩

theorem invitation_cases (driver : SipDriver) (s : Sip n) (m : Message) (cid : Nat)
    (out : Outside) : invitation driver s m cid out = [] ∨
      invitation driver s m cid out = [.connect cid] ∨
      ∃ i, invitation driver s m cid out = [.connect cid, .script i] := by
  unfold invitation
  split
  · exact .inl rfl
  · split
    · exact .inl rfl
    · split
      · split
        · exact .inr (.inl rfl)
        · split
          · exact .inr (.inr ⟨_, rfl⟩)
          · exact .inr (.inl rfl)
      · exact .inl rfl

/-- What is left of the calls, and of which calls there can be new ones. -/
structure After (a : SipAction n) (b b' : Switchboard n) : Prop where
  plain : b'.Plain
  calls : ∀ e ∈ b'.calls, e ∈ b.calls ∨ a.Invites e.1
  released : ∀ e ∈ b'.calls, ¬ a.Releases e.1

theorem event_after (h : b.Plain) {a : SipAction n} {id : EventId} (stays : id ≠ .disable)
    (more : Bool) (quiet : ∀ cid, ¬ a.Releases cid) : After a b (b.event i id more) :=
  ⟨h.event stays more, fun _ mem => .inl ((Switchboard.event_calls b i id more).subset mem),
    fun _ _ => quiet _⟩

theorem call_after (h : b.Plain) {a : SipAction n} {id : EventId} (stays : id ≠ .disable)
    (cid : Nat) (more : Bool) (quiet : ∀ cid, ¬ a.Releases cid) :
    After a b (b.serve (.call cid id more)) := by
  simp only [Switchboard.serve]
  cases b.find cid with
  | none => exact ⟨h, fun _ mem => .inl mem, fun _ _ => quiet _⟩
  | some i => exact event_after h stays more quiet

theorem release_after (shows' : s.pool.Shows b) (h : b.Plain) (ctx : Context) (cid : Nat)
    (out : Outside) : After (.event ctx (.callReleased cid) out) b
      (b.serve (.call cid .release out.ans.stepped)) := by
  simp only [Switchboard.serve]
  cases found : b.find cid with
  | none =>
    refine ⟨h, fun _ mem => .inl mem, fun e mem same => ?_⟩
    have other := List.lookup_eq_none_iff.mp found e mem
    have same : cid = e.1 := same
    simp [same] at other
  | some i =>
    have call : (cid, i) ∈ b.calls := by
      obtain ⟨before, after, split, -⟩ := List.lookup_eq_some_iff.mp found
      rw [split]
      exact List.mem_append_right _ List.mem_cons_self
    have busy := shows'.board.busy_of_call call
    have mode : (b.mode i).phase = .busy := by
      rw [← shows'.mode]
      exact busy
    have ended : b.event i .release out.ans.stepped = b.hangUp i := by
      unfold Switchboard.event
      cases at' : b.mode i with
      | release | script => rfl
      | idle | offline =>
        rw [at'] at mode
        cases mode
    refine ⟨h.event (by decide) _, fun _ mem =>
      .inl ((Switchboard.event_calls b i .release _).subset mem), fun e mem same => ?_⟩
    have mem : e ∈ (b.event i .release out.ans.stepped).calls := mem
    rw [ended] at mem
    obtain ⟨mem, away⟩ := Buckets.mem_drop.mp mem
    have same : cid = e.1 := same
    have unique : e.2 = i := by
      have keys := List.inj_on_of_nodup_map h.once call mem same
      rw [← keys]
    exact away unique

theorem step_after (shown : s.pool.Shows b) (h : b.Plain) {a : SipAction n}
    (fresh : s.Fresh a) (ordinary : a.Ordinary) :
    After a b ((asks driver s a).foldl Switchboard.serve b) := by
  cases a with
  | expire i read ans =>
    simp only [asks]
    split
    · exact event_after h (by decide) _ fun _ => id
    · exact ⟨h, fun _ mem => .inl mem, fun _ _ => id⟩
  | post i event ans =>
    simp only [asks]
    split
    · exact ⟨h, fun _ mem => .inl mem, fun _ _ => id⟩
    · rename_i stays
      exact event_after h stays _ fun _ => id
  | event ctx e out =>
    have nothing : ∀ {a : SipAction n}, (∀ cid, ¬ a.Releases cid) → After a b b := fun quiet =>
      ⟨h, fun _ mem => .inl mem, fun _ _ => quiet _⟩
    cases e with
    | callInvite request tid did cid =>
      cases request with
      | none => exact nothing fun _ => id
      | some m =>
        simp only [asks]
        split
        · exact nothing fun _ => id
        · rename_i late
          have invites : (SipAction.event ctx (.callInvite (some m) tid did cid) out :
              SipAction n).Invites cid.toNat := ⟨by omega, by omega⟩
          have unused : b.find cid.toNat = none := by
            rw [← shown.find]
            exact fresh _ invites
          obtain ⟨plain, calls⟩ := h.connect unused
          have invited : ∀ e ∈ (b.connect cid.toNat).calls, e ∈ b.calls ∨
              (SipAction.event ctx (.callInvite (some m) tid did cid) out :
                SipAction n).Invites e.1 := fun e mem => (calls e mem).imp_right fun same => by
            rw [same]
            exact invites
          rcases invitation_cases driver s m cid.toNat out with asked | asked | ⟨i, asked⟩
          · rw [asked]
            exact nothing fun _ => id
          · rw [asked]
            exact ⟨plain, invited, fun _ _ => id⟩
          · rw [asked]
            exact ⟨plain.script i, invited, fun _ _ => id⟩
    | callClosed cid => exact call_after h (by decide) cid _ fun _ => id
    | callReleased cid => exact release_after shown h ctx cid out
    | messageNew request tid cid =>
      cases request with
      | none => exact nothing fun _ => id
      | some method =>
        cases method with
        | bye => exact call_after h (by decide) cid _ fun _ => id
        | options | other => exact nothing fun _ => id
    | other => exact nothing fun _ => id

section Run
variable {registries : UInt32} {timeslots : Nat} {boards spans : List Nat} {keys : List RegKeys}
  {raw : Fin n → Raw} {leg : Fin n → Leg} {as : List (SipAction n)}

theorem step_orderly {a : SipAction n} (orderly : s.Orderly) (ok : a.Ordinary ∧ s.Fresh a)
    (moved : s.step driver a = some t) : t.Orderly ∧
      ∀ cid, t.Holds cid → (s.Holds cid ∨ a.Invites cid) ∧ ¬ a.Releases cid := by
  obtain ⟨b, shown, plain⟩ := orderly
  have next := (simulates driver s b a t shown ok.1 moved).1
  have after := @step_after n driver s b shown plain a ok.2 ok.1
  refine ⟨⟨_, next, after.plain⟩, fun cid holds => ?_⟩
  obtain ⟨i, mem⟩ := holds_call next holds
  exact ⟨(after.calls _ mem).imp_left fun before => call_holds shown before, after.released _ mem⟩

theorem start_orderly : (start driver raw leg).Orderly :=
  ⟨_, Pool.construct_shows raw, List.nodup_nil, fun _ same => by cases same⟩

/-- The server loses nothing: if every call that was let in by an INVITE has been released by the
library, then whatever else came, in whatever order, every line is idle and on the free list, the
last record of each line is a STOP, and every counter is back at zero. -/
theorem all_returned (started : Server.start registries timeslots boards spans keys = some driver.server)
    (ordinary : ∀ a ∈ as, a.Ordinary)
    (fresh : Run.Along (step driver) Fresh (start driver raw leg) as)
    (settles : Run.Settles SipAction.Invites SipAction.Releases as)
    (run : Run.exec (step driver) (start driver raw leg) as = some s) :
    (∀ i, (s.pool.slot i).handler = .idle ∧ i ∈ s.pool.freeSlots ∧
        ∀ r, (s.pool.records i).getLast? = some r → r.type = .stop) ∧
      ∀ o k stat, driver.server.node o = some k →
        (s.pool.counters.shm k).current stat = 0 := by
  have along := (Run.Along.of_all (f := step driver) ordinary).and fresh
  have none : ∀ cid, ¬ s.Holds cid := Run.settled
    (fun s a t orderly ok moved => (step_orderly orderly ok moved).1)
    (fun s a t orderly ok moved => (step_orderly orderly ok moved).2) start_orderly along run
    (fun cid holds => by obtain ⟨i, busy, -⟩ := holds; cases busy) settles
  obtain ⟨b, shown, plain⟩ := Run.preserved
    (fun s a t orderly ok moved => (step_orderly orderly ok moved).1) start_orderly along run
  have books := audited started raw leg ordinary run
  have free : ∀ i, (s.pool.slot i).handler = .idle := fun i => by
    have online := plain.online i
    rw [← shown.mode] at online
    cases here : (s.pool.slot i).handler with
    | idle => rfl
    | offline => exact absurd here online
    | release | script =>
      exact absurd ⟨i, by rw [here]; rfl, rfl⟩ (none (s.pool.slot i).cid)
  refine ⟨fun i => ⟨free i, ?_, fun r last => ?_⟩, fun o k stat hk => ?_⟩
  · refine ⟨_, shown.board.valid.holds.chain .timeslots, (shown.board.valid.free i).mpr ?_⟩
    exact congrArg Handler.phase (free i)
  · obtain ⟨c, log⟩ := books.logged i
    have calls := Pool.CallLog.of_log log
    have ended : r.type ≠ .start := fun type => by
      have busy := calls.inCall.mpr ⟨r, last, type⟩
      rw [free i] at busy
      cases busy
    rw [List.getLast?_eq_getElem?] at last
    have either := calls.alternate _ r last
    split at either
    · exact absurd either ended
    · exact either
  · have counted := books.counted o k stat hk
    have idle : s.pool.exchange.inProgress o stat = 0 :=
      Tally.tally_eq_zero fun i counts => by
        have busy := counts.1
        have phase : (s.pool.exchange.line i).phase = .free := congrArg Handler.phase (free i)
        rw [phase] at busy
        cases busy
    rw [idle] at counted
    exact counted

theorem all_returned_farewell :
    ∃ s, Run.exec (step greeter) (start greeter (fun _ => ⟨0, .incoming, none, none, none, none⟩)
        fun _ => ⟨none, 0, 0⟩) farewell = some s ∧
      ∀ i, (s.pool.slot i).handler = .idle ∧ i ∈ s.pool.freeSlots ∧
        ∀ r, (s.pool.records i).getLast? = some r → r.type = .stop := by
  have ordinary : ∀ a ∈ farewell, a.Ordinary := by decide
  have fresh : Run.Along (step greeter) Fresh (start greeter
      (fun _ => ⟨0, .incoming, none, none, none, none⟩) fun _ => ⟨none, 0, 0⟩) farewell := by
    refine ⟨?_, fun _ first => ⟨fun _ => False.elim, fun _ _ => ⟨fun _ => False.elim, ?_⟩⟩⟩
    · rintro cid ⟨-, -⟩
      rfl
    · exact fun _ _ => trivial
  have settles : Run.Settles SipAction.Invites SipAction.Releases farewell := by
    refine ⟨?_, fun _ => False.elim, fun _ => False.elim, trivial⟩
    rintro cid ⟨same, -⟩
    have released : (7 : Nat) = cid := Int.ofNat.inj same
    exact ⟨.event 0 (.callReleased 7) (greeting (tick 2)), .tail _ (.head _), released⟩
  exact ⟨_, rfl, (all_returned greeter_started ordinary fresh settles rfl).1⟩

end Run

end Sip

end Bayonne
