import Bayonne.Sip.Refusal
import Bayonne.Sip.Switchboard
import Bayonne.Timeslot.Books
import Bayonne.Timeslot.Drops

/-! The accounts of the SIP server. The driver puts its own hooks between the events and the
timeslots, and what the exchange keeps in its books comes through them unchanged. -/
namespace Bayonne

def Exchange.Moves {n : Nat} (server : Server) (x y : Exchange n) : Prop :=
  y = x ∨ ∃ a : Action n, a.Admission ∧ x.Outcome server a y

theorem Pool.construct_logged {n : Nat} (server : Server) (raw : Fin n → Raw) :
    (construct server raw).exchange.Logged := fun i => by
  refine ⟨0, ?_⟩
  constructor <;>
    simp [exchange, construct, Timeslot.construct, Timeslot.line, Line.inCall, Handler.phase,
      Exchange.marks]

namespace Sip
variable {n : Nat} {server : Server} {driver : SipDriver} {s t : Sip n} {b : Switchboard n}
  {i : Fin n}

section Hooks

theorem drop_exchange (s : Sip n) (i : Fin n) : (s.drop i).pool.exchange = s.pool.exchange := by
  unfold drop
  simp only
  split
  · exact (Pool.exchange_quiet _ i (f := (·.disarm)) rfl).trans
      (Pool.exchange_quiet s.pool i (f := fun t => { t with connected := false }) rfl)
  · split <;> exact Pool.exchange_quiet s.pool i (f := (·.disarm)) rfl

theorem disconnect_exchange (busy : (s.pool.slot i).handler.phase = .busy) :
    (s.disconnect i).pool.exchange = s.pool.exchange := by
  refine Pool.exchange_quiet s.pool i
    (f := fun t => { t with connected := false }.disarm.disconnect) ?_
  exact busy_disconnect (t := ({ s.pool.slot i with connected := false } : Timeslot).disarm) busy

theorem hangup_exchange (busy : (s.pool.slot i).handler.phase = .busy) :
    (s.hangup i).pool.exchange = s.pool.exchange := by
  have same := drop_exchange s i
  have line : ((s.drop i).pool.slot i).line = (s.pool.slot i).line :=
    congrFun (congrArg Exchange.line same) i
  have busy : ((s.drop i).pool.slot i).handler.phase = .busy :=
    (congrArg Line.phase line).trans busy
  exact (Pool.exchange_quiet (s.drop i).pool i (f := (·.disarm.disconnect))
    (busy_disconnect (t := ((s.drop i).pool.slot i).disarm) busy)).trans same

theorem release_response (busy : (s.pool.slot i).handler.phase = .busy) (ans : Answers) :
    s.pool.exchange.Response server i ans
      ((s.drop i).lift (·.release server i ans)).pool.exchange := by
  have released := @Pool.exchange_release n server (s.drop i).pool i ans
  rw [drop_exchange] at released
  rw [lift, released]
  exact .finish busy

theorem handle_response (s : Sip n) (i : Fin n) (ans : Answers) {event : EventId}
    (ordinary : event ≠ .shutdown) : s.pool.exchange.Response server i ans
      ((hooks server n).handle s i ans event).1.pool.exchange := by
  have quiet : ∀ {t : Sip n}, t.pool.exchange = s.pool.exchange →
      s.pool.exchange.Response server i ans t.pool.exchange := fun same => by
    rw [same]
    exact .quiet
  cases here : (s.pool.slot i).handler with
  | idle =>
    simp only [Virtual.handle, hooks, here]
    cases event with
    | shutdown => exact absurd rfl ordinary
    | _ => exact .quiet
  | release =>
    have busy : (s.pool.slot i).handler.phase = .busy := by rw [here]; rfl
    simp only [Virtual.handle, hooks, here]
    cases event with
    | shutdown => exact absurd rfl ordinary
    | timeout | release => exact release_response busy ans
    | _ => exact .quiet
  | script =>
    have busy : (s.pool.slot i).handler.phase = .busy := by rw [here]; rfl
    simp only [Virtual.handle, hooks, here]
    cases event with
    | release => exact release_response busy ans
    | drop => exact quiet (disconnect_exchange busy)
    | hangup => exact quiet (hangup_exchange busy)
    | shutdown => exact absurd rfl ordinary
    | timeout =>
      simp only [Virtual.scriptHandler, here, if_true]
      split
      · exact quiet (hangup_exchange busy)
      · exact quiet (Pool.exchange_quiet s.pool i (f := (·.arm ans.stepping)) rfl)
    | _ => exact .quiet
  | offline =>
    simp only [Virtual.handle, hooks, here]
    cases event with
    | shutdown => exact absurd rfl ordinary
    | enable =>
      have offline : (s.pool.exchange.line i).phase = .offline := congrArg Handler.phase here
      simp only [Virtual.offlineHandler, lift, Pool.exchange_enable]
      exact .on offline
    | _ => exact .quiet

theorem post_response (s : Sip n) (i : Fin n) (ans : Answers) {event : EventId}
    (ordinary : event ≠ .shutdown) : s.pool.exchange.Response server i ans
      ((hooks server n).post s i ans event).1.pool.exchange := by
  have handled : s.pool.exchange.Response server i ans
      ((hooks server n).handle (s.lift (·.lock i)) i ans event).1.pool.exchange :=
    handle_response (s.lift (·.lock i)) i ans ordinary
  simp only [Virtual.post]
  split <;> exact handled

theorem expire_response (s : Sip n) (i : Fin n) (read : Timeout → Timeout) (ans : Answers) :
    s.pool.exchange.Response server i ans
      ((hooks server n).expire ((hooks server n).getExpires s i read) i ans).1.pool.exchange := by
  have same : ((hooks server n).getExpires s i read).pool.exchange = s.pool.exchange :=
    Pool.exchange_quiet (s.pool.lock i) i (f := (·.readTimer read)) rfl
  generalize (hooks server n).getExpires s i read = t at same
  rw [← same]
  have after : ∀ u : Sip n,
      (u.lift (·.modify i fun t => { t with expires := .inf })).pool.exchange = u.pool.exchange :=
    fun u => Pool.exchange_quiet u.pool i (f := fun t => { t with expires := .inf }) rfl
  have closed : ∀ out : Sip n × EventId,
      t.pool.exchange.Response server i ans out.1.pool.exchange →
      let u := out.1.lift (·.modify i fun t => { t with expires := .inf })
      t.pool.exchange.Response server i ans
        (if out.2 = .release then u else u.lift (·.unlock i)).pool.exchange := by
    intro out response
    have rested := after out.1
    rw [← rested] at response
    simp only
    split <;> exact response
  refine closed _ ?_
  split
  · exact handle_response t i ans (by decide)
  · exact .quiet

end Hooks

section Invite
variable {reg : SipRegistration} {m : Message} {tid did : Int} {out : Outside} {ctx : Context}

theorem admitTo_pool (moved : s.admitTo i reg ctx m tid did out = some t) :
    ∃ f : Timeslot → Timeslot, t.pool = s.pool.modify i f ∧
      ∀ u : Timeslot, u.handler.phase = .busy → (f u).line = u.line := by
  have still : s.pool = s.pool.modify i id := by simp [Pool.modify]
  obtain ⟨verdict, -, rfl⟩ := Option.map_eq_some_iff.mp moved
  cases verdict with
  | challenge =>
    simp only
    split <;> exact ⟨id, still, fun _ _ => rfl⟩
  | forbidden => exact ⟨id, still, fun _ _ => rfl⟩
  | passed =>
    obtain ⟨f, next, -, calm⟩ := incoming_calm s i reg m tid did out
    refine ⟨f, ?_, fun u busy => (calm u busy).1⟩
    have pool : (s.incoming i reg m tid did out).2.pool = s.pool.modify i f := by
      rw [next]
      rfl
    simp only
    generalize s.incoming i reg m tid did out = done at pool
    obtain ⟨status, u⟩ := done
    cases status <;> exact pool

theorem invite_unreached (nobody : ¬ ∃ reg base, Reaches driver m reg base) {cid : Nat}
    (moved : s.invite driver ctx m tid did cid out = some t) : t.pool = s.pool := by
  simp only [invite] at moved
  split at moved
  · rename_i uri toHeader fromHeader reqUri
    split at moved
    · cases moved
      rfl
    · rename_i named
      split at moved
      · cases moved
        rfl
      · rename_i reg found
        split at moved
        · cases moved
        · rename_i base known
          refine absurd ⟨reg, base, ?_, ?_, ⟨uri, reqUri, named, found⟩, known⟩ nobody
          · simp [toHeader]
          · simp [fromHeader]
  · cases moved
    rfl

theorem invite_moves (h : s.pool.Shows b) {cid : Nat}
    (moved : s.invite driver ctx m tid did cid out = some t) :
    Exchange.Moves driver.server s.pool.exchange t.pool.exchange := by
  by_cases reached : ∃ reg base, Reaches driver m reg base
  · obtain ⟨reg, base, reaches⟩ := reached
    have outcome : s.pool.exchange.Outcome driver.server
        (.invite reg.base cid out.now out.ending)
        (s.pool.invite driver.server base reg.base cid out.now out.ending).2.exchange := by
      refine Pool.Valid.outcome ⟨_, h.board.valid⟩ trivial ?_
      exact congrArg (Option.map _) reaches.base
    refine .inr ⟨.invite reg.base cid out.now out.ending, trivial, ?_⟩
    obtain ⟨next, given⟩ := @Pool.Shows.invite n driver.server s.pool b h base reg.base cid out.now
      out.ending
    rw [invite_reaches reaches] at moved
    generalize s.pool.invite driver.server base reg.base cid out.now out.ending = admission
      at moved outcome next given
    obtain ⟨line, p⟩ := admission
    cases line with
    | none =>
      cases moved
      exact outcome
    | some i =>
      have busy : (p.slot i).handler.phase = .busy := by
        rw [next.mode]
        cases attached : (s.pool.attach base .incoming).1 with
        | false =>
          rw [attached] at given
          cases given
        | true =>
          rw [attached] at given
          rw [if_pos rfl, connect_mode given.symm]
          rfl
      obtain ⟨f, pool, calm⟩ := admitTo_pool moved
      rw [pool]
      have same := Pool.exchange_quiet p i (calm _ busy)
      exact same ▸ outcome
  · exact .inl (congrArg Pool.exchange (invite_unreached reached moved))

theorem postCall_moves (s : Sip n) (cid : Nat) {event : EventId} (ordinary : event ≠ .shutdown)
    (out : Outside) : Exchange.Moves driver.server s.pool.exchange
      (s.postCall driver cid event out).pool.exchange := by
  unfold postCall
  cases s.pool.get cid with
  | none => exact .inl rfl
  | some i =>
    exact .inr ⟨.post i event out.ans, trivial, .posted (post_response s i out.ans ordinary)⟩

theorem run_moves (h : s.pool.Shows b) {e : SipEvent} (moved : s.run driver ctx out e = some t) :
    Exchange.Moves driver.server s.pool.exchange t.pool.exchange := by
  cases e with
  | callInvite request tid did cid =>
    cases request with
    | none =>
      cases moved
      exact .inl rfl
    | some m =>
      simp only [run] at moved
      split at moved
      · cases moved
        exact .inl rfl
      · exact invite_moves h moved
  | callClosed cid =>
    cases moved
    exact postCall_moves s cid (by decide) out
  | callReleased cid =>
    cases moved
    exact postCall_moves s cid (by decide) out
  | messageNew request tid cid =>
    cases request with
    | none =>
      cases moved
      exact .inl rfl
    | some method =>
      cases method with
      | options | other =>
        cases moved
        exact .inl rfl
      | bye =>
        simp only [run] at moved
        split at moved
        · cases moved
          exact .inl rfl
        · cases moved
          exact @postCall_moves n driver s cid .drop (by decide) out
  | other =>
    cases moved
    exact .inl rfl

end Invite

theorem step_moves (h : s.pool.Shows b) {a : SipAction n} (ordinary : a.Ordinary)
    (moved : s.step driver a = some t) :
    Exchange.Moves driver.server s.pool.exchange t.pool.exchange := by
  cases a with
  | event ctx e out =>
    simp only [step] at moved
    cases id : e.tid with
    | none =>
      rw [id] at moved
      exact run_moves h moved
    | some tid =>
      rw [id] at moved
      simp only at moved
      split at moved
      · cases moved
      · exact run_moves (s := { s with requests := s.requests ++ [tid] }) h moved
  | expire i read ans =>
    cases moved
    exact .inr ⟨.expire i read ans, trivial, .expired (expire_response s i read ans)⟩
  | post i event ans =>
    cases moved
    exact .inr ⟨.post i event ans, trivial, .posted (post_response s i ans ordinary)⟩

/-- What every admission and every event of the exchange keeps, the SIP server keeps. -/
theorem exchange_kept {I : Exchange n → Prop}
    (step : ∀ x (a : Action n) y, I x → a.Admission → x.Outcome driver.server a y → I y)
    {raw : Fin n → Raw} {leg : Fin n → Leg}
    (begun : I (Pool.construct driver.server raw).exchange) {as : List (SipAction n)}
    (ordinary : ∀ a ∈ as, a.Ordinary)
    (run : Run.exec (Sip.step driver) (start driver raw leg) as = some s) :
    I s.pool.exchange ∧ ∃ b, s.pool.Shows b := by
  refine Run.preserved_of_all (I := fun s : Sip n => I s.pool.exchange ∧ ∃ b, s.pool.Shows b)
    (fun s a t inv ok moved => ?_) ⟨begun, _, Pool.construct_shows raw⟩ ordinary run
  obtain ⟨kept, b, h⟩ := inv
  refine ⟨?_, _, (simulates driver s b a t h ok moved).1⟩
  rcases step_moves h ok moved with same | ⟨a', admission, outcome⟩
  · rw [same]
    exact kept
  · exact step _ a' _ kept admission outcome

section Accounts
variable {registries : UInt32} {timeslots : Nat} {boards spans : List Nat} {keys : List RegKeys}

/-- The books of the exchange, with the lines of each owner. -/
structure Audited (server : Server) (own : Owner → Fin n → Bool) (x : Exchange n) : Prop where
  counted : x.Counted server fun _ _ => 0
  logged : x.Logged
  booked : ∀ o k, o.isRegistry = false → server.node o = some k → x.Booked o k (own o)

theorem Audited.outcome {own : Owner → Fin n → Bool} {x y : Exchange n}
    (h : Audited server own x) (apart : server.Apart) {a : Action n} (admission : a.Admission)
    (moved : x.Outcome server a y) : Audited server own y where
  counted := h.counted.outcome apart admission moved
  logged := h.logged.outcome moved
  booked o k shared hk := (h.booked o k shared hk).outcome apart shared hk moved

theorem audited (started : Server.start registries timeslots boards spans keys = some driver.server)
    (raw : Fin n → Raw) (leg : Fin n → Leg) {as : List (SipAction n)}
    (ordinary : ∀ a ∈ as, a.Ordinary)
    (run : Run.exec (step driver) (start driver raw leg) as = some s) :
    Audited driver.server
      (fun o i => ((Pool.construct driver.server raw).slot i).line.carries o) s.pool.exchange := by
  have apart : driver.server.Apart := fun _ _ _ ha hb => Server.node_distinct started ha hb
  refine (exchange_kept (fun x a y h admission moved => h.outcome apart admission moved)
    ⟨Pool.construct_counted started raw, ?_, fun o k _ _ => ?_⟩ ordinary run).1
  · exact Pool.construct_logged driver.server raw
  · exact Pool.construct_booked started raw o k

/-- The SIP driver keeps the accounts of the timeslots: over every run of its events, timers and
posts the records of each line are START and STOP in turn, each counter is the number of calls in
progress that its owner carries, and for the system, a board or a span there are as many START
records as STOP records and calls in progress, which is what its node has counted. -/
theorem accounted
    (started : Server.start registries timeslots boards spans keys = some driver.server)
    (raw : Fin n → Raw) (leg : Fin n → Leg) {as : List (SipAction n)}
    (ordinary : ∀ a ∈ as, a.Ordinary)
    (run : Run.exec (step driver) (start driver raw leg) as = some s) :
    (∀ i, s.pool.CallLog i) ∧
      (∀ o k stat, driver.server.node o = some k →
        (s.pool.counters.shm k).current stat = UInt16.ofNat (s.pool.inProgress o stat)) ∧
      ∀ o k, o.isRegistry = false → driver.server.node o = some k →
        s.pool.posted o .start = s.pool.posted o .stop + s.pool.serving o ∧
          s.pool.counters.totals k = UInt64.ofNat (s.pool.posted o .start) := by
  have books := audited started raw leg ordinary run
  refine ⟨fun i => ?_, fun o k stat hk => ?_, fun o k shared hk => ?_⟩
  · obtain ⟨c, log⟩ := books.logged i
    exact .of_log log
  · have counted := books.counted o k stat hk
    rwa [Nat.add_zero, Pool.inProgress_exchange] at counted
  · obtain ⟨matched, total, -⟩ := Pool.agree_of_booked (books.booked o k shared hk)
    exact ⟨matched, total⟩

def farewell : List (SipAction 2) :=
  [.event 0 (.callInvite (some inviteAlice) 5 1 7) (greeting (tick 0)),
    .event 0 (.messageNew (some .bye) 6 7) (greeting (tick 1)),
    .event 0 (.callReleased 7) (greeting (tick 2))]

theorem greeter_started :
    Server.start 2 4 [] [] [⟨"alice", some 1⟩, ⟨"bob", none⟩] = some greeter.server :=
  Server.sample_started

theorem accounted_farewell :
    ∃ s, Run.exec (step greeter) (start greeter (fun _ => ⟨0, .incoming, none, none, none, none⟩)
        fun _ => ⟨none, 0, 0⟩) farewell = some s ∧
      s.pool.posted .system .start = 1 ∧ ∀ i, s.pool.CallLog i := by
  have ordinary : ∀ a ∈ farewell, a.Ordinary := by decide
  exact ⟨_, rfl, rfl, (accounted greeter_started _ _ ordinary rfl).1⟩

end Accounts

end Sip

end Bayonne
