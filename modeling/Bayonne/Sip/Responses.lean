import Bayonne.Base.Run
import Bayonne.Sip
import Bayonne.Sip.Desk

/-! How often the SIP driver answers a request. A slot that runs a script owes the answer
to its INVITE; a slot whose INVITE has been refused keeps the transaction id, and declines
it once more when it is released. -/
namespace Bayonne
open Linked (Holds)

def debtOf (handler : Handler) (tid : Int) : Debt :=
  if tid = -1 then .none
  else match handler with
    | .script => .owed tid
    | .release => .answered tid
    | .idle | .offline => .none

@[simp] theorem debtOf_cleared (handler : Handler) : debtOf handler (-1) = .none := rfl

@[simp] theorem debtOf_idle (tid : Int) : debtOf .idle tid = .none := by
  unfold debtOf
  split <;> rfl

theorem Status.final (status : Status) : 200 ≤ status.code := by cases status <;> decide

/-- The lists of the driver's timeslots: only idle slots are free, and the driver neither
takes a slot offline nor marks one connected. -/
structure Pool.Tidy {n : Nat} (p : Pool n) (lists : Root → List (Fin n)) : Prop where
  holds : Holds p.links lists
  free : ∀ {i}, i ∈ lists .timeslots → (p.slot i).handler = .idle
  assigned : ∀ {i b}, i ∈ lists (.assigned b) → b = path (p.slot i).cid
  online : ∀ i, (p.slot i).handler ≠ .offline
  apart : ∀ i, (p.slot i).connected = false

namespace Pool.Tidy
variable {n : Nat} {server : Server} {p : Pool n} {lists : Root → List (Fin n)}

theorem modify (h : p.Tidy lists) {i : Fin n} {f : Timeslot → Timeslot}
    (cid : (f (p.slot i)).cid = (p.slot i).cid)
    (handler : (f (p.slot i)).handler = (p.slot i).handler ∨
      (f (p.slot i)).handler = .idle ∨
      (p.slot i).handler ≠ .idle ∧ (f (p.slot i)).handler ≠ .offline)
    (connected : (f (p.slot i)).connected = false) : (p.modify i f).Tidy lists := by
  have slot : ∀ {j}, j ≠ i → (p.modify i f).slot j = p.slot j := fun ne =>
    slot_modify_of_ne p f ne
  refine ⟨h.holds, fun {j} on => ?_, fun {j b} on => ?_, fun j => ?_, fun j => ?_⟩ <;>
    by_cases hj : j = i
  · subst hj
    rw [slot_modify]
    have idle := h.free on
    rcases handler with same | now | ⟨busy, _⟩
    · rw [same, idle]
    · exact now
    · exact absurd idle busy
  · rw [slot hj]
    exact h.free on
  · subst hj
    rw [slot_modify, cid]
    exact h.assigned on
  · rw [slot hj]
    exact h.assigned on
  · subst hj
    rw [slot_modify]
    rcases handler with same | now | ⟨_, inService⟩
    · rw [same]
      exact h.online j
    · simp [now]
    · exact inService
  · rw [slot hj]
    exact h.online j
  · subst hj
    rw [slot_modify]
    exact connected
  · rw [slot hj]
    exact h.apart j

theorem same {q : Pool n} (h : p.Tidy lists) (slot : q.slot = p.slot) (links : q.links = p.links) :
    q.Tidy lists :=
  ⟨links ▸ h.holds, slot ▸ h.free, slot ▸ h.assigned, slot ▸ h.online, slot ▸ h.apart⟩

theorem only (h : p.Tidy lists) {i : Fin n} (busy : (p.slot i).handler ≠ .idle) :
    ∀ q, i ∈ lists q → q = .assigned (path (p.slot i).cid)
  | .timeslots, on => absurd (h.free on) busy
  | .assigned _, on => congrArg Root.assigned (h.assigned on)

theorem move (h : p.Tidy lists) {q : Pool n} {i : Fin n} {r r' : Root}
    (only : ∀ q, i ∈ lists q → q = r)
    (links : q.links = (p.links.delist r i).enlist r' i) {t : Timeslot}
    (slot : q.slot = Function.update p.slot i t)
    (free : r' = .timeslots → t.handler = .idle)
    (assigned : ∀ b, r' = .assigned b → b = path t.cid)
    (online : t.handler ≠ .offline) (connected : t.connected = false) :
    ∃ lists', q.Tidy lists' := by
  obtain ⟨lists', holds, members⟩ := h.holds.move only r'
  refine ⟨lists', links ▸ holds, fun {j} on => ?_, fun {j b} on => ?_, fun j => ?_,
    fun j => ?_⟩ <;> rw [slot]
  · rcases (members _ j).mp on with ⟨hj, old⟩ | ⟨rfl, e⟩
    · rw [Function.update_of_ne hj]
      exact h.free old
    · rw [Function.update_self]
      exact free e.symm
  · rcases (members _ j).mp on with ⟨hj, old⟩ | ⟨rfl, e⟩
    · rw [Function.update_of_ne hj]
      exact h.assigned old
    · rw [Function.update_self]
      exact assigned b e.symm
  all_goals
    by_cases hj : j = i
    · subst hj
      rwa [Function.update_self]
    · rw [Function.update_of_ne hj]
      first | exact h.online j | exact h.apart j

theorem release (h : p.Tidy lists) {i : Fin n} (busy : (p.slot i).handler ≠ .idle)
    (ans : Answers) : ∃ lists', (p.release server i ans).Tidy lists' :=
  h.move (h.only busy) (links_release server p i ans) (slot_release server p i ans)
    (fun _ => rfl) (fun _ e => by cases e) (by simp [Timeslot.setIdle, Timeslot.disarm]) rfl

theorem allocate (h : p.Tidy lists) {i : Fin n} (head : p.links.root .timeslots = some i)
    (cid : Nat) (stat : Stat) (reg : Option Nat) (now : Now) :
    ∃ lists', (p.allocate server i cid stat reg now).Tidy lists' := by
  have on := h.holds.head_mem head
  have idle := h.free on
  refine h.move (fun q other => (h.holds.apart q .timeslots i other on))
    (links_allocate server p i cid stat reg now) (slot_allocate server p i cid stat reg now)
    (fun e => by cases e) (fun b e => ?_) ?_ ?_
  · cases e
    rfl
  · simp [Timeslot.serve, Timeslot.stamp, idle]
  · exact h.apart i

theorem invite (h : p.Tidy lists) (reg : Registration) (r cid : Nat) (now : Now) (ending : Time) :
    match p.invite server reg r cid now ending with
    | (none, q) => q.slot = p.slot ∧ q.links = p.links
    | (some i, q) => (∃ lists', q.Tidy lists') ∧
        ∃ t, t.handler = .release ∧ q.slot = Function.update p.slot i t := by
  have attached : (p.attach reg .incoming).2.Tidy lists := h.same rfl rfl
  have links : (p.attach reg .incoming).2.links = p.links := rfl
  simp only [Pool.invite, Pool.assign, links]
  cases (p.attach reg .incoming).1 with
  | false => exact ⟨rfl, rfl⟩
  | true =>
    cases head : p.links.root .timeslots with
    | none => exact ⟨rfl, rfl⟩
    | some i =>
      refine ⟨attached.allocate head cid .incoming (some r) now, _, ?_, slot_allocate ..⟩
      have idle : ((p.attach reg .incoming).2.slot i).handler = .idle :=
        attached.free (attached.holds.head_mem head)
      simp [Timeslot.serve, Timeslot.stamp, idle]

end Pool.Tidy

namespace Sip
variable {n : Nat} {driver : SipDriver} {s s' : Sip n} {i : Fin n}

def desk (s : Sip n) : Desk n where
  debt := fun i => debtOf (s.pool.slot i).handler (s.leg i).tid
  requests := s.requests
  finals := (s.sent.filter (·.Final)).map (·.tid)

theorem desk_send (s : Sip n) (r : Response) : (s.send r).desk = s.desk.answer r.tid := by
  have final : r.Final := r.status.final
  simp [desk, send, Desk.answer, final]

theorem desk_settle {t : Timeslot} {l : Leg} (slot : s'.pool.slot = Function.update s.pool.slot i t)
    (leg : s'.leg = Function.update s.leg i l) (requests : s'.requests = s.requests)
    (sent : s'.sent = s.sent) : s'.desk = s.desk.settle i (debtOf t.handler l.tid) := by
  have debt : s'.desk.debt = Function.update s.desk.debt i (debtOf t.handler l.tid) := by
    funext j
    by_cases hj : j = i
    · subst hj
      simp [desk, slot, leg]
    · simp [desk, slot, leg, Function.update_of_ne hj]
  have rest : s'.desk = ⟨s'.desk.debt, s.desk.requests, s.desk.finals⟩ := by
    simp only [desk, requests, sent]
  rw [rest, debt]
  rfl

theorem desk_modify (s : Sip n) (i : Fin n) (f : Timeslot → Timeslot) :
    (s.lift (·.modify i f)).desk =
      s.desk.settle i (debtOf (f (s.pool.slot i)).handler (s.leg i).tid) :=
  desk_settle rfl (Function.update_eq_self ..).symm rfl rfl

theorem settle_same (s : Sip n) (i : Fin n) :
    s.desk.settle i (debtOf (s.pool.slot i).handler (s.leg i).tid) = s.desk := by
  simp only [Desk.settle, desk, Function.update_eq_self]

theorem settle_settle (d : Desk n) (i : Fin n) (a b : Debt) :
    (d.settle i a).settle i b = d.settle i b := by
  simp [Desk.settle]

theorem drop_pool (s : Sip n) (i : Fin n) (apart : (s.pool.slot i).connected = false) :
    (s.drop i).pool = s.pool.modify i (·.disarm) := by
  simp only [drop, apart, Bool.false_eq_true, if_false]
  split <;> rfl

theorem drop_leg (s : Sip n) (i : Fin n) (apart : (s.pool.slot i).connected = false) :
    (s.drop i).leg = Function.update s.leg i { s.leg i with tid := -1 } := by
  simp only [drop, apart, Bool.false_eq_true, if_false]
  split <;> rfl

theorem desk_drop (s : Sip n) (i : Fin n) (apart : (s.pool.slot i).connected = false) :
    (s.drop i).desk =
      if (s.leg i).tid = -1 then s.desk.settle i .none
      else (s.desk.settle i .none).answer (s.leg i).tid := by
  have cleared : ∀ s' : Sip n, ((s'.setLeg i fun l => { l with tid := -1 }).lift
      (·.modify i (·.disarm))).desk = s'.desk.settle i .none :=
    fun s' => desk_settle (s := s') (t := (s'.pool.slot i).disarm)
      (l := { s'.leg i with tid := -1 }) rfl rfl rfl rfl
  simp only [drop, apart, Bool.false_eq_true, if_false]
  by_cases gone : (s.leg i).tid = -1
  · simp only [gone, ne_eq, not_true_eq_false, if_false, if_true]
    exact cleared s
  · simp only [gone, ne_eq, not_false_eq_true, if_true, if_false]
    rw [cleared, desk_send, Desk.settle_answer]

/-- What one step does: the lists stay in order, and the desk does one step. -/
structure Turn (s s' : Sip n) (change : Desk n → Desk n → Prop) : Prop where
  tidy : ∃ lists, s'.pool.Tidy lists
  change : change s.desk s'.desk

theorem turn_quiet {lists : Root → List (Fin n)} (tidy : s'.pool.Tidy lists)
    (same : s'.desk = s.desk) : s.Turn s' Desk.Fine :=
  ⟨⟨lists, tidy⟩, same ▸ .quiet⟩

theorem fine_drop {lists : Root → List (Fin n)} (tidy : s.pool.Tidy lists)
    (owes : (s.leg i).tid ≠ -1 → (s.pool.slot i).handler = .script) :
    s.desk.Fine (s.drop i).desk := by
  rw [desk_drop s i (tidy.apart i)]
  split
  · exact .less i .none (.inl rfl)
  · rename_i held
    exact .decline i _ (by simp [desk, debtOf, held, owes held])

theorem wrong_drop {lists : Root → List (Fin n)} (tidy : s.pool.Tidy lists)
    (handler : (s.pool.slot i).handler = .release) (held : (s.leg i).tid ≠ -1) :
    s.desk.Wrong (s.drop i).desk := by
  rw [desk_drop s i (tidy.apart i), if_neg held]
  exact .again i _ (by simp [desk, debtOf, held, handler])

theorem desk_dropped (s' : Sip n) {t : Timeslot} (apart : (s.pool.slot i).connected = false)
    (slot : s'.pool.slot = Function.update (s.drop i).pool.slot i t)
    (leg : s'.leg = (s.drop i).leg) (requests : s'.requests = (s.drop i).requests)
    (sent : s'.sent = (s.drop i).sent) : s'.desk = (s.drop i).desk := by
  have held : ((s.drop i).leg i).tid = -1 := by rw [drop_leg s i apart, Function.update_self]
  have settled := desk_settle (l := (s.drop i).leg i) slot
    (by rw [leg, Function.update_eq_self]) requests sent
  rw [settled]
  have none : debtOf t.handler ((s.drop i).leg i).tid =
      debtOf ((s.drop i).pool.slot i).handler ((s.drop i).leg i).tid := by rw [held]; rfl
  rw [none]
  exact settle_same _ i

theorem tidy_drop {lists : Root → List (Fin n)} (tidy : s.pool.Tidy lists) (i : Fin n) :
    (s.drop i).pool.Tidy lists := by
  rw [drop_pool s i (tidy.apart i)]
  exact tidy.modify rfl (.inl rfl) (tidy.apart i)

theorem release_turn {server : Server} {lists : Root → List (Fin n)} (tidy : s.pool.Tidy lists)
    (busy : (s.pool.slot i).handler ≠ .idle) (ans : Answers) {change : Desk n → Desk n → Prop}
    (dropped : change s.desk (s.drop i).desk) :
    s.Turn ((s.drop i).lift (·.release server i ans)) change := by
  have busy' : ((s.drop i).pool.slot i).handler ≠ .idle := by
    rw [drop_pool s i (tidy.apart i), Pool.slot_modify]
    exact busy
  refine ⟨(tidy_drop tidy i).release busy' ans, ?_⟩
  rw [desk_dropped ((s.drop i).lift (·.release server i ans)) (tidy.apart i)
    (Pool.slot_release server _ i ans) rfl rfl rfl]
  exact dropped

theorem hangup_turn {lists : Root → List (Fin n)} (tidy : s.pool.Tidy lists)
    (script : (s.pool.slot i).handler = .script) : s.Turn (s.hangup i) Desk.Fine := by
  have busy : ((s.drop i).pool.slot i).handler ≠ .idle := by
    rw [drop_pool s i (tidy.apart i), Pool.slot_modify]
    simp [Timeslot.disarm, script]
  have tidy' : ((s.drop i).pool.modify i (·.disarm.disconnect)).Tidy lists :=
    (tidy_drop tidy i).modify rfl (.inr (.inr ⟨busy, by simp [Timeslot.disconnect]⟩)) rfl
  refine ⟨⟨lists, tidy'⟩, ?_⟩
  rw [desk_dropped (s.hangup i) (tidy.apart i) rfl rfl rfl rfl]
  exact fine_drop tidy fun _ => script

theorem disconnect_turn {lists : Root → List (Fin n)} (tidy : s.pool.Tidy lists)
    (script : (s.pool.slot i).handler = .script) : s.Turn (s.disconnect i) Desk.Fine := by
  have busy : (s.pool.slot i).handler ≠ .idle := by simp [script]
  have tidy' : (s.pool.modify i fun t =>
      ({ t with connected := false } : Timeslot).disarm.disconnect).Tidy lists :=
    tidy.modify rfl (.inr (.inr ⟨busy, by simp [Timeslot.disconnect]⟩)) rfl
  have desk : (s.disconnect i).desk = s.desk.settle i .none :=
    desk_settle (s := s) (l := { s.leg i with tid := -1, did := -1 })
      (t := ({ s.pool.slot i with connected := false } : Timeslot).disarm.disconnect)
      rfl rfl rfl rfl
  refine ⟨⟨lists, tidy'⟩, ?_⟩
  rw [desk]
  exact .less i .none (.inl rfl)

theorem shutdown_turn {lists : Root → List (Fin n)} (tidy : s.pool.Tidy lists) :
    s.Turn (s.lift (·.modify i (·.setIdle))) Desk.Fine := by
  refine ⟨⟨lists, tidy.modify rfl (.inr (.inl rfl)) rfl⟩, ?_⟩
  rw [desk_modify]
  refine .less i _ (.inl ?_)
  simp [debtOf, Timeslot.setIdle, Timeslot.disarm]

/-- The slot keeps the transaction of a request that has been answered. -/
def Kept (s : Sip n) (i : Fin n) : Prop :=
  (s.pool.slot i).handler = .release ∧ (s.leg i).tid ≠ -1

theorem handle_fine {server : Server} {lists : Root → List (Fin n)} (tidy : s.pool.Tidy lists)
    (ans : Answers) {event : EventId}
    (ok : event = .timeout ∨ event = .release → ¬ s.Kept i) :
    s.Turn ((hooks server n).handle s i ans event).1 Desk.Fine := by
  have quiet : s.Turn s Desk.Fine := turn_quiet tidy rfl
  cases h : (s.pool.slot i).handler with
  | idle =>
    simp only [Virtual.handle, hooks, h]
    cases event with
    | shutdown => exact shutdown_turn tidy
    | _ => exact quiet
  | release =>
    have held : event = .timeout ∨ event = .release → (s.leg i).tid ≠ -1 →
        (s.pool.slot i).handler = .script := fun e held => absurd ⟨h, held⟩ (ok e)
    simp only [Virtual.handle, hooks, h]
    cases event with
    | shutdown => exact shutdown_turn tidy
    | timeout => exact release_turn tidy (by simp [h]) ans (fine_drop tidy (held (.inl rfl)))
    | release => exact release_turn tidy (by simp [h]) ans (fine_drop tidy (held (.inr rfl)))
    | _ => exact quiet
  | script =>
    simp only [Virtual.handle, hooks, h]
    cases event with
    | release => exact release_turn tidy (by simp [h]) ans (fine_drop tidy fun _ => h)
    | drop => exact disconnect_turn tidy h
    | hangup => exact hangup_turn tidy h
    | timeout =>
      simp only [Virtual.scriptHandler, h, if_true]
      split
      · exact hangup_turn tidy h
      · have tidy' : (s.pool.modify i (·.arm ans.stepping)).Tidy lists :=
          tidy.modify rfl (.inl rfl) (tidy.apart i)
        refine turn_quiet tidy' ?_
        rw [desk_modify]
        exact settle_same s i
    | _ => exact quiet
  | offline => exact absurd h (tidy.online i)

/-- The release of a slot that keeps an answered transaction answers it again. -/
theorem handle_wrong {server : Server} {lists : Root → List (Fin n)} (tidy : s.pool.Tidy lists)
    (ans : Answers) {event : EventId} (kept : s.Kept i)
    (released : event = .timeout ∨ event = .release) :
    s.Turn ((hooks server n).handle s i ans event).1 Desk.Wrong := by
  obtain ⟨handler, held⟩ := kept
  have turn : s.Turn ((s.drop i).lift (·.release server i ans)) Desk.Wrong :=
    release_turn tidy (by simp [handler]) ans (wrong_drop tidy handler held)
  simp only [Virtual.handle, hooks, handler]
  rcases released with rfl | rfl <;> exact turn

theorem post_turn {server : Server} {ans : Answers} {event : EventId}
    {change : Desk n → Desk n → Prop}
    (handled : (s.lift (·.lock i)).Turn
      ((hooks server n).handle (s.lift (·.lock i)) i ans event).1 change) :
    s.Turn ((hooks server n).post s i ans event).1 change := by
  obtain ⟨⟨lists, tidy⟩, change⟩ := handled
  simp only [Virtual.post]
  split
  · exact ⟨⟨lists, tidy⟩, change⟩
  · exact ⟨⟨lists, tidy.same rfl rfl⟩, change⟩

theorem post_fine {server : Server} {lists : Root → List (Fin n)} (tidy : s.pool.Tidy lists)
    (ans : Answers) {event : EventId}
    (ok : event = .timeout ∨ event = .release → ¬ s.Kept i) :
    s.Turn ((hooks server n).post s i ans event).1 Desk.Fine :=
  have locked : (s.lift (·.lock i)).pool.Tidy lists := tidy.same rfl rfl
  post_turn (handle_fine locked ans ok)

theorem post_wrong {server : Server} {lists : Root → List (Fin n)} (tidy : s.pool.Tidy lists)
    (ans : Answers) {event : EventId} (kept : s.Kept i)
    (released : event = .timeout ∨ event = .release) :
    s.Turn ((hooks server n).post s i ans event).1 Desk.Wrong :=
  have locked : (s.lift (·.lock i)).pool.Tidy lists := tidy.same rfl rfl
  post_turn (handle_wrong locked ans kept released)

def Expires (s : Sip n) (i : Fin n) (read : Timeout → Timeout) : Prop :=
  read (s.pool.slot i).timer = .after 0

theorem expire_turn {server : Server} {lists : Root → List (Fin n)} (tidy : s.pool.Tidy lists)
    {read : Timeout → Timeout} {ans : Answers} {change : Desk n → Desk n → Prop}
    (handled : ∀ q : Sip n, q.pool.Tidy lists → q.desk = s.desk → (q.Kept i ↔ s.Kept i) →
      s.Expires i read → q.Turn ((hooks server n).handle q i ans .timeout).1 change)
    (quiet : ¬ s.Expires i read → change s.desk s.desk) :
    s.Turn ((hooks server n).expire ((hooks server n).getExpires s i read) i ans).1 change := by
  have tidy' : ((hooks server n).getExpires s i read).pool.Tidy lists :=
    (tidy.same rfl rfl : (s.pool.lock i).Tidy lists).modify (f := (·.readTimer read)) rfl (.inl rfl)
      (tidy.apart i)
  have same : ((hooks server n).getExpires s i read).desk = s.desk :=
    (desk_modify (s.lift (·.lock i)) i (·.readTimer read)).trans (settle_same s i)
  have kept : ((hooks server n).getExpires s i read).Kept i ↔ s.Kept i := by
    simp [Kept, Virtual.getExpires, hooks, lift, Timeslot.readTimer]
  have expires : (((hooks server n).getExpires s i read).pool.slot i).expires = .after 0 ↔
      s.Expires i read := by
    simp [Expires, Virtual.getExpires, hooks, lift, Timeslot.readTimer]
  generalize (hooks server n).getExpires s i read = q at tidy' same kept expires
  -- the end of `expire` touches neither the desk nor the lists
  have closed : ∀ out : Sip n × EventId, s.Turn out.1 change →
      let r := out.1.lift (·.modify i fun t => { t with expires := .inf })
      s.Turn (if out.2 = .release then r else r.lift (·.unlock i)) change := by
    rintro ⟨r, event⟩ ⟨⟨lists', tidy⟩, changed⟩
    have rested : (r.lift (·.modify i fun t => { t with expires := .inf })).desk = r.desk :=
      (desk_modify r i _).trans (settle_same r i)
    have tidy' : (r.pool.modify i fun t => { t with expires := .inf }).Tidy lists' :=
      tidy.modify rfl (.inl rfl) (tidy.apart i)
    simp only
    split
    · exact ⟨⟨lists', tidy'⟩, rested ▸ changed⟩
    · exact ⟨⟨lists', tidy'.same rfl rfl⟩, rested ▸ changed⟩
  refine closed _ ?_
  split
  · obtain ⟨tidy, changed⟩ := handled q tidy' same kept (expires.mp ‹_›)
    exact ⟨tidy, same ▸ changed⟩
  · refine ⟨⟨lists, tidy'⟩, ?_⟩
    rw [same]
    exact quiet fun due => absurd (expires.mpr due) ‹_›

theorem incoming_turn {lists : Root → List (Fin n)} (tidy : s.pool.Tidy lists)
    (handler : (s.pool.slot i).handler = .release) (reg : SipRegistration) (m : Message)
    {tid : Int} (some : tid ≠ -1) (did : Int) (out : Outside) :
    ((s.incoming i reg m tid did out).2.pool.Tidy lists) ∧
      (s.incoming i reg m tid did out).2.desk = s.desk.settle i
        (if (s.incoming i reg m tid did out).1 = none then .owed tid else .answered tid) := by
  obtain ⟨f, eq, spec⟩ := incoming_spec s i reg m tid did out
  obtain ⟨cid, _, connected, handler'⟩ := spec (s.pool.slot i)
  rw [eq]
  constructor
  · refine tidy.modify cid (.inr (.inr ⟨by simp [handler], ?_⟩)) (connected.trans (tidy.apart i))
    rw [handler', handler]
    split <;> simp
  · have settled : ((s.setLeg i fun l => { l with tid := tid, did := did }).lift
        (·.modify i f)).desk = s.desk.settle i (debtOf (f (s.pool.slot i)).handler tid) :=
      desk_settle (l := { s.leg i with tid := tid, did := did }) rfl rfl rfl rfl
    rw [settled, handler', handler]
    split <;> simp [debtOf, some]

def received (s : Sip n) (tid : Int) : Sip n := { s with requests := s.requests ++ [tid] }

theorem reply_turn {lists : Root → List (Fin n)} (tidy : s.pool.Tidy lists) {q : Sip n}
    {tid : Int} (fresh : tid ∉ s.requests) (slot : q.pool.slot = s.pool.slot)
    (links : q.pool.links = s.pool.links) (same : q.desk = s.desk.receive tid) (sender : Sender)
    (ctx : Option Context) (status : Status) :
    s.Turn (q.send ⟨sender, ctx, tid, status⟩) Desk.Fine := by
  refine ⟨⟨lists, tidy.same slot links⟩, ?_⟩
  rw [desk_send, same]
  exact .reply tid fresh

theorem admitTo_turn {q : Sip n} {lists : Root → List (Fin n)} (tidy : q.pool.Tidy lists) {tid : Int}
    (some : tid ≠ -1) (fresh : tid ∉ s.requests)
    (desk : q.desk = (s.desk.receive tid).settle i .none)
    (held : (q.pool.slot i).handler = .release) {reg : SipRegistration} {ctx : Context}
    {m : Message} {did : Int} {out : Outside}
    (run : q.admitTo i reg ctx m tid did out = .some s') : s.Turn s' Desk.Fine := by
  have refused : ∀ status, s.Turn (q.send ⟨.answer, .some ctx, tid, status⟩) Desk.Fine := by
    intro status
    refine ⟨⟨lists, tidy⟩, ?_⟩
    rw [desk_send, desk]
    exact .replyLess i .none tid fresh (.inl rfl)
  obtain ⟨check, _, run⟩ := Option.map_eq_some_iff.mp run
  cases check with
  | challenge =>
    simp only at run
    split at run <;> subst run
    · exact refused _
    · have fine : s.desk.Fine q.desk := desk ▸ .drop i tid fresh
      exact ⟨⟨lists, tidy⟩, fine⟩
  | forbidden =>
    subst run
    exact refused _
  | passed =>
    obtain ⟨tidy', owed⟩ := incoming_turn (s := q) tidy held reg m some did out
    have run : reject ctx tid (q.incoming i reg m tid did out) = s' := run
    generalize q.incoming i reg m tid did out = r at tidy' owed run
    obtain ⟨status, r⟩ := r
    have tidy' : r.pool.Tidy lists := tidy'
    have owed : r.desk = q.desk.settle i (if status = none then .owed tid else .answered tid) := owed
    rw [desk, settle_settle] at owed
    cases status with
    | none =>
      subst run
      exact ⟨⟨lists, tidy'⟩, owed ▸ .accept i tid fresh⟩
    | some status =>
      subst run
      refine ⟨⟨lists, tidy'⟩, ?_⟩
      simp only [reject]
      rw [desk_send, owed]
      exact .refuse i tid fresh

theorem invite_turn {lists : Root → List (Fin n)} (tidy : s.pool.Tidy lists) {ctx : Context}
    {m : Message} {tid did : Int} {cid : Nat} {out : Outside} (some : tid ≠ -1)
    (fresh : tid ∉ s.requests)
    (run : (s.received tid).invite driver ctx m tid did cid out = .some s') :
    s.Turn s' Desk.Fine := by
  have replied : ∀ status, s.Turn ((s.received tid).send ⟨.answer, .some ctx, tid, status⟩)
      Desk.Fine :=
    fun status => reply_turn (q := s.received tid) tidy fresh rfl rfl rfl _ _ _
  simp only [invite] at run
  split at run
  · split at run
    · cases run
      exact replied _
    · split at run
      · cases run
        exact replied _
      · rename_i reg _
        split at run
        · cases run
        · rename_i base _
          have given := @Pool.Tidy.invite n driver.server s.pool lists tidy base reg.base cid
            out.now out.ending
          have pool : (s.received tid).pool = s.pool := rfl
          rw [pool] at run
          generalize s.pool.invite driver.server base reg.base cid out.now out.ending = r
            at given run
          obtain ⟨_ | i, p⟩ := r
          · cases run
            exact reply_turn tidy fresh given.1 given.2
              (by simp [desk, received, given.1, Desk.receive]) _ _ _
          · obtain ⟨⟨lists', tidy'⟩, t, handler, slot⟩ := given
            let q := ({ s.received tid with pool := p } : Sip n).clearLeg i
              (out.context.or driver.outContext)
            have settled : q.desk = (s.received tid).desk.settle i (debtOf t.handler (-1)) :=
              desk_settle (t := t)
                (l := ⟨out.context.or driver.outContext, -1, -1⟩) slot rfl rfl rfl
            have held : (q.pool.slot i).handler = .release := by
              have given : q.pool.slot = Function.update s.pool.slot i t := slot
              rw [given, Function.update_self, handler]
            exact admitTo_turn (q := q) tidy' some fresh settled held run
  · cases run
    exact replied _

/-- An action that answers a request a second time: an OPTIONS message, which is answered
by `options` and by its caller, or the release of a slot whose INVITE has been refused. -/
def Repeats (s : Sip n) : SipAction n → Prop
  | .event _ (.messageNew (some .options) _ _) _ => True
  | .event _ (.callReleased cid) _ => ∃ i, s.pool.get cid = some i ∧ s.Kept i
  | .event _ _ _ => False
  | .expire i read _ => s.Expires i read ∧ s.Kept i
  | .post i event _ => (event = .timeout ∨ event = .release) ∧ s.Kept i

theorem post_drop {server : Server} {lists : Root → List (Fin n)} (tidy : s.pool.Tidy lists)
    (ans : Answers) :
    (∃ lists', ((hooks server n).post s i ans .drop).1.pool.Tidy lists') ∧
      ∃ debt, s.desk.Less i debt ∧
        ((hooks server n).post s i ans .drop).1.desk = s.desk.settle i debt := by
  have fine : s.Turn ((hooks server n).post s i ans .drop).1 Desk.Fine :=
    post_fine tidy ans (by simp)
  refine ⟨fine.tidy, ?_⟩
  have quiet : ∃ debt, s.desk.Less i debt ∧ s.desk = s.desk.settle i debt :=
    ⟨s.desk.debt i, .inr rfl, (settle_same s i).symm⟩
  cases h : (s.pool.slot i).handler with
  | script =>
    refine ⟨.none, .inl rfl, ?_⟩
    simp only [Virtual.post, Virtual.handle, hooks, lift, Pool.slot_lock, h]
    exact desk_settle (l := { s.leg i with tid := -1, did := -1 })
      (t := ({ s.pool.slot i with connected := false } : Timeslot).disarm.disconnect) rfl rfl rfl rfl
  | _ =>
    simp only [Virtual.post, Virtual.handle, hooks, lift, Pool.slot_lock, h]
    exact quiet

theorem postCall_fine {lists : Root → List (Fin n)} (tidy : s.pool.Tidy lists) {cid : Nat}
    {event : EventId} {out : Outside}
    (ok : ∀ i, s.pool.get cid = some i → event = .timeout ∨ event = .release → ¬ s.Kept i) :
    s.Turn (s.postCall driver cid event out) Desk.Fine := by
  cases found : s.pool.get cid with
  | none =>
    simp only [postCall, found]
    exact turn_quiet tidy rfl
  | some i =>
    simp only [postCall, found]
    exact post_fine tidy out.ans (ok i found)

theorem messageNew_fine {lists : Root → List (Fin n)} (tidy : s.pool.Tidy lists) {ctx : Context}
    {request : Option Method} {tid : Int} {cid : Nat} {out : Outside} (fresh : tid ∉ s.requests)
    (other : request ≠ some .options)
    (run : (s.received tid).run driver ctx out (.messageNew request tid cid) = some s') :
    s.Turn s' Desk.Fine := by
  have bad : s.Turn ((s.received tid).send ⟨.answer, some ctx, tid, .badRequest⟩) Desk.Fine :=
    reply_turn (q := s.received tid) tidy fresh rfl rfl rfl _ _ _
  match request, other, run with
  | none, _, run | some .other, _, run =>
    cases run
    exact bad
  | some .bye, _, run =>
    simp only [Sip.run] at run
    cases found : (s.received tid).pool.get cid with
    | none =>
      rw [found] at run
      cases run
      exact bad
    | some i =>
      rw [found] at run
      cases run
      have received : (s.received tid).pool.Tidy lists := tidy.same rfl rfl
      obtain ⟨tidy', debt, less, same⟩ := @post_drop n _ i driver.server lists received out.ans
      simp only [postCall, found]
      refine ⟨tidy', ?_⟩
      rw [desk_send, same]
      exact .replyLess i debt tid fresh less

theorem step_fine {lists : Root → List (Fin n)} (tidy : s.pool.Tidy lists) {a : SipAction n}
    (once : ¬ s.Repeats a) (step : s.step driver a = some s') : s.Turn s' Desk.Fine := by
  cases a with
  | event ctx e out =>
    cases e with
    | callInvite request tid did cid =>
      simp only [Sip.step, SipEvent.tid] at step
      split at step
      · cases step
      · rename_i known
        obtain ⟨some', fresh⟩ := not_or.mp known
        have ignored : s.Turn (s.received tid) Desk.Fine :=
          ⟨⟨lists, tidy.same rfl rfl⟩, .ignore tid fresh⟩
        simp only [run] at step
        split at step
        · cases step
          exact ignored
        · split at step
          · cases step
            exact ignored
          · exact invite_turn tidy some' fresh step
    | callClosed cid =>
      cases step
      exact postCall_fine tidy fun _ _ event => by simp at event
    | callReleased cid =>
      cases step
      exact postCall_fine tidy fun i found _ kept => once ⟨i, found, kept⟩
    | messageNew request tid cid =>
      simp only [Sip.step, SipEvent.tid] at step
      split at step
      · cases step
      · rename_i known
        refine messageNew_fine tidy (not_or.mp known).2 (fun options => ?_) step
        subst options
        exact once trivial
    | other =>
      cases step
      exact turn_quiet tidy rfl
  | expire i read ans =>
    cases step
    refine expire_turn tidy (fun q tidy' _ same due => ?_) fun _ => .quiet
    exact handle_fine tidy' ans fun _ kept => once ⟨due, same.mp kept⟩
  | post i event ans =>
    cases step
    exact post_fine tidy ans fun released kept => once ⟨released, kept⟩

theorem step_wrong {lists : Root → List (Fin n)} (tidy : s.pool.Tidy lists) {a : SipAction n}
    (twice : s.Repeats a) (step : s.step driver a = some s') : s.Turn s' Desk.Wrong := by
  cases a with
  | event ctx e out =>
    cases e with
    | callReleased cid =>
      cases step
      obtain ⟨i, found, kept⟩ := twice
      simp only [postCall, found]
      exact post_wrong tidy out.ans kept (.inr rfl)
    | messageNew request tid cid =>
      match request, twice, step with
      | some .options, _, step =>
        simp only [Sip.step, SipEvent.tid] at step
        split at step
        · cases step
        · cases step
          refine ⟨⟨lists, tidy.same rfl rfl⟩, ?_⟩
          rw [desk_send, desk_send]
          exact .twice tid
    | _ => exact absurd twice id
  | expire i read ans =>
    cases step
    refine expire_turn tidy (fun q tidy' _ same due => ?_) fun undue => absurd twice.1 undue
    exact handle_wrong tidy' ans (same.mpr twice.2) (.inl rfl)
  | post i event ans =>
    cases step
    exact post_wrong tidy ans twice.2 twice.1

/-- Each incoming request has been sent one final response at most. -/
def Once (s : Sip n) : Prop :=
  ∀ tid, (s.sent.filter fun r => r.Final ∧ r.tid = tid).length ≤ 1

theorem once_iff (s : Sip n) : s.Once ↔ s.desk.finals.Nodup := by
  rw [List.nodup_iff_count_le_one]
  refine forall_congr' fun tid => ?_
  have same : (s.sent.filter fun r => r.Final ∧ r.tid = tid).length = s.desk.finals.count tid := by
    rw [desk, List.count, List.countP_map, List.countP_eq_length_filter, List.filter_filter]
    congr 2
    funext r
    simp only [Function.comp, Bool.decide_and, Bool.and_comm, beq_eq_decide]
  rw [same]

structure Answering (s : Sip n) : Prop where
  tidy : ∃ lists, s.pool.Tidy lists
  fair : s.desk.Fair

theorem start_answering (driver : SipDriver) (raw : Fin n → Raw) (leg : Fin n → Leg) :
    (start driver raw leg).Answering := by
  obtain ⟨lists, holds, members⟩ :=
    Linked.exists_pushed (r := Root.timeslots) (List.nodup_finRange n)
  have debt : ∀ i, (start driver raw leg).desk.debt i = .none := by
    intro i
    simp [desk, start, Pool.construct, Timeslot.construct]
  refine ⟨⟨lists, holds, fun _ => rfl, fun {i b} on => ?_, fun i => ?_, fun i => rfl⟩,
    fun owed => ?_, fun owed => ?_, fun kept => ?_, fun sent => ?_, ?_⟩
  · cases ((members _ i).mp on).1
  · simp [start, Pool.construct, Timeslot.construct]
  · rw [debt] at owed
    cases owed
  · rw [debt] at owed
    cases owed
  · rw [debt] at kept
    cases kept
  · cases sent
  · exact List.nodup_nil

/-- In any run of events, timer expiries and posts, no request is answered twice if and
only if no step answers an OPTIONS message or releases a slot that keeps the transaction
of a refused INVITE. -/
theorem once_iff_along (driver : SipDriver) (raw : Fin n → Raw) (leg : Fin n → Leg)
    (as : List (SipAction n)) (u : Sip n)
    (run : Run.exec (step driver) (start driver raw leg) as = some u) :
    Run.Always (step driver) Once (start driver raw leg) as ↔
      Run.Along (step driver) (fun s a => ¬ s.Repeats a) (start driver raw leg) as := by
  refine Run.always_iff_along (I := Answering) ?_ ?_ ?_ (start_answering driver raw leg) run
  · rintro s a s' ⟨⟨lists, tidy⟩, fair⟩ ok step
    have turn := step_fine tidy ok step
    exact ⟨turn.tidy, fair.fine turn.change⟩
  · rintro s ⟨_, fair⟩
    exact (once_iff s).mpr fair.once
  · rintro s a s' ⟨⟨lists, tidy⟩, fair⟩ twice step
    have turn := step_wrong tidy (not_not.mp twice) step
    exact fun once => fair.wrong turn.change ((once_iff s').mp once)

def aloneDriver : SipDriver := ⟨.sample, [⟨0, "alice", some "none", none, none⟩], none⟩

def plainly (now : Now) : Outside where
  realm := none
  context := none
  made := true
  getIncoming := fun _ => false
  attach := fun _ _ => false
  now := now
  ending := now
  ans := .at now true

def inviteAlice : Message where
  toHeader := some none
  fromHeader := some none
  reqUri := some ⟨none, some "alice", none, none⟩
  vias := []
  authorization := none

theorem once_iff_along_two :
    Run.Always (step aloneDriver) Once
      (start aloneDriver (fun _ => ⟨0, .incoming, none, none, none, none⟩) fun _ => ⟨none, 0, 0⟩ :
        Sip 1)
      [.event 0 (.callInvite (some inviteAlice) 5 1 7) (plainly (tick 0)),
        .event 0 (.messageNew (some .other) 6 0) (plainly (tick 1))] :=
  (once_iff_along _ _ _ _ _ rfl).mpr ⟨id, fun _ _ => ⟨id, fun _ _ => trivial⟩⟩

/-- An OPTIONS message gets two answers, and so does an INVITE that is refused and then
released. -/
theorem not_once :
    ¬ Run.Always (step aloneDriver) Once
        (start aloneDriver (fun _ => ⟨0, .incoming, none, none, none, none⟩) fun _ => ⟨none, 0, 0⟩ :
          Sip 1)
        [.event 0 (.messageNew (some .options) 5 0) (plainly (tick 0))] ∧
      ¬ Run.Always (step aloneDriver) Once
        (start aloneDriver (fun _ => ⟨0, .incoming, none, none, none, none⟩) fun _ => ⟨none, 0, 0⟩ :
          Sip 1)
        [.event 0 (.callInvite (some inviteAlice) 5 1 7) (plainly (tick 0)),
          .event 0 (.callReleased 7) (plainly (tick 1))] := by
  constructor
  · intro always
    have last := always.last rfl 5
    revert last
    decide
  · intro always
    have last := always.last rfl 5
    revert last
    decide

end Sip

end Bayonne
