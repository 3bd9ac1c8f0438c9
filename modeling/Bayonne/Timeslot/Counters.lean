import Bayonne.Base.Tally
import Bayonne.Timeslot.Index

/-! The call counters. Whatever the order of admissions and events, the counter of every
owner is the number of calls in progress that the owner carries. -/
namespace Bayonne
open Tally

def Line.carries (l : Line) : Owner → Prop
  | .system => True
  | .registry r => l.registry = some r
  | .board b => l.board = some b
  | .span s => l.span = some s

instance (l : Line) : (o : Owner) → Decidable (l.carries o)
  | .system => .isTrue trivial
  | .registry r => inferInstanceAs (Decidable (l.registry = some r))
  | .board b => inferInstanceAs (Decidable (l.board = some b))
  | .span s => inferInstanceAs (Decidable (l.span = some s))

def Line.counts (l : Line) (o : Owner) (s : Stat) : Prop :=
  l.phase = .busy ∧ l.stats = s ∧ l.carries o

instance (l : Line) (o : Owner) (s : Stat) : Decidable (l.counts o s) :=
  inferInstanceAs (Decidable (_ ∧ _ ∧ _))

namespace Counters

def value (c : Counters) (k : Nat) (s : Stat) : UInt16 := (c.shm k).current s

theorem assign_value (c : Counters) (node : Option Nat) (stat : Stat) (k : Nat) (s : Stat) :
    (c.assign node stat).value k s =
      if node = some k ∧ s = stat then c.value k s + 1 else c.value k s := by
  cases node with
  | none => simp [assign]
  | some j =>
    by_cases hk : k = j
    · subst hk; simp [assign, value]
    · simp [assign, value, Function.update_of_ne hk, Ne.symm hk]

theorem release_value (c : Counters) (node : Option Nat) (stat : Stat) (now : Time) (k : Nat)
    (s : Stat) :
    (c.release node stat now).value k s =
      if node = some k ∧ s = stat then c.value k s - 1 else c.value k s := by
  cases node with
  | none => simp [release]
  | some j =>
    by_cases hk : k = j
    · subst hk; simp [release, value]
    · simp [release, value, Function.update_of_ne hk, Ne.symm hk]

theorem assign_drops (c : Counters) (node : Option Nat) (stat : Stat) :
    (c.assign node stat).drops = c.drops := by
  cases node <;> rfl

theorem release_drops (c : Counters) (node : Option Nat) (stat : Stat) (now : Time) :
    (c.release node stat now).drops = c.drops ++ (node.map (c.value · stat)).toList := by
  cases node <;> simp [release, value]

end Counters

def Server.Apart (server : Server) : Prop :=
  ∀ a b k, server.node a = some k → server.node b = some k → a = b

namespace Server
variable {server : Server}

theorem node_iff (apart : server.Apart) {o a : Owner} {k : Nat} (hk : server.node o = some k) :
    server.node a = some k ↔ a = o :=
  ⟨fun ha => apart a o k ha hk, fun e => e ▸ hk⟩

theorem nodeOf_iff (apart : server.Apart) {o : Owner} {k : Nat} (hk : server.node o = some k)
    (owner : Nat → Owner) (id : Option Nat) :
    server.nodeOf owner id = some k ↔ ∃ j, id = some j ∧ owner j = o := by
  rw [nodeOf, Option.bind_eq_some_iff]
  simp only [node_iff apart hk]

theorem stats_iff (apart : server.Apart) {r : Nat} {reg : Registration}
    (hr : server.registrations[r]? = some reg) {o : Owner} {k : Nat}
    (hk : server.node o = some k) : reg.stats = some k ↔ o = .registry r := by
  have node : server.node (.registry r) = reg.stats := by simp [Server.node, hr]
  rw [← node, node_iff apart hk, eq_comm]

end Server

namespace Exchange
variable {n : Nat} {server : Server} {x : Exchange n}

def inProgress (x : Exchange n) (o : Owner) (s : Stat) : Nat :=
  tally fun i => (x.line i).counts o s

/-- Every counter is the number of calls in progress on the lines its owner carries, and of
`extra` calls that have taken their registration's allowance and have no line. -/
def Counted (server : Server) (x : Exchange n) (extra : Owner → Stat → Nat) : Prop :=
  ∀ o k s, server.node o = some k →
    x.counters.value k s = UInt16.ofNat (x.inProgress o s + extra o s)

def waiting (r : Nat) (o : Owner) (s : Stat) : Nat :=
  if o = .registry r ∧ s = .incoming then 1 else 0

theorem ofNat_succ (t : Nat) : UInt16.ofNat (t + 1) = UInt16.ofNat t + 1 := UInt16.ofNat_add t 1

theorem ofNat_pred (t : Nat) : UInt16.ofNat (t + 1) - 1 = UInt16.ofNat t := by
  rw [ofNat_succ]
  simp

/-- `allocate` counts for the system, the span and the board, not for the registration. -/
theorem start_value (apart : server.Apart) {o : Owner} {k : Nat} (hk : server.node o = some k)
    (i : Fin n) (cid : Nat) (stat : Stat) (reg : Option Nat) (now : Now) (s : Stat) :
    (x.start server i cid stat reg now).counters.value k s =
      if (o.isRegistry = false ∧ (x.line i).carries o) ∧ s = stat then x.counters.value k s + 1
      else x.counters.value k s := by
  simp only [start, Counters.assign_value, Server.node_iff apart hk, Server.nodeOf_iff apart hk]
  cases o <;> simp [Line.start, Line.carries, Owner.isRegistry]

theorem finish_value (apart : server.Apart) {o : Owner} {k : Nat} (hk : server.node o = some k)
    (i : Fin n) (lastcall : Owner → Time) (s : Stat) :
    (x.finish server i lastcall).counters.value k s =
      if (x.line i).carries o ∧ s = (x.line i).stats then x.counters.value k s - 1
      else x.counters.value k s := by
  simp only [finish, Counters.release_value, Server.node_iff apart hk, Server.nodeOf_iff apart hk]
  cases o <;> simp [Line.carries] <;> congr

theorem inProgress_start {i : Fin n} (free : (x.line i).phase = .free) (cid : Nat) (stat : Stat)
    (reg : Option Nat) (now : Now) (o : Owner) (s : Stat) :
    (x.start server i cid stat reg now).inProgress o s =
      x.inProgress o s +
        if stat = s ∧ ((x.line i).start cid stat reg now).carries o then 1 else 0 := by
  have others : ∀ j, j ≠ i → ((x.line j).counts o s ↔
      ((x.start server i cid stat reg now).line j).counts o s) := fun j hj => by
    rw [line_start_of_ne x hj]
  have before : ¬ (x.line i).counts o s := fun h => by
    have busy := h.1
    rw [free] at busy
    cases busy
  by_cases counted : stat = s ∧ ((x.line i).start cid stat reg now).carries o
  · rw [if_pos counted]
    exact tally_add others before (by rw [line_start]; exact ⟨rfl, counted⟩)
  · rw [if_neg counted]
    refine (tally_same others (iff_of_false before fun h => counted ?_)).symm
    rw [line_start] at h
    exact h.2

theorem inProgress_finish {i : Fin n} (busy : (x.line i).phase = .busy)
    (lastcall : Owner → Time) (o : Owner) (s : Stat) :
    x.inProgress o s = (x.finish server i lastcall).inProgress o s +
      if (x.line i).carries o ∧ s = (x.line i).stats then 1 else 0 := by
  have others : ∀ j, j ≠ i →
      (((x.finish server i lastcall).line j).counts o s ↔ (x.line j).counts o s) := fun j hj => by
    rw [line_finish_of_ne x hj]
  have after : ¬ ((x.finish server i lastcall).line i).counts o s := fun h => by
    rw [line_finish] at h
    cases h.1
  by_cases counted : (x.line i).carries o ∧ s = (x.line i).stats
  · rw [if_pos counted]
    exact tally_add others after ⟨busy, counted.2.symm, counted.1⟩
  · rw [if_neg counted]
    exact (tally_same others (iff_of_false after fun h => counted ⟨h.2.2, h.2.1.symm⟩)).symm

theorem inProgress_idle {y : Exchange n} {i : Fin n}
    (others : ∀ j, j ≠ i → y.line j = x.line j) (free : (x.line i).phase ≠ .busy)
    (free' : (y.line i).phase ≠ .busy) (o : Owner) (s : Stat) :
    y.inProgress o s = x.inProgress o s :=
  tally_same (fun j hj => by rw [others j hj])
    (iff_of_false (fun h => free' h.1) (fun h => free h.1))

theorem Counted.attach (apart : server.Apart) (h : x.Counted server fun _ _ => 0) {r : Nat}
    {reg : Registration} (hr : server.registrations[r]? = some reg)
    (attached : (reg.attach x.counters.shm .incoming).1 = true) :
    (x.attach reg).Counted server (waiting r) := by
  intro o k s hk
  have assigned : (x.attach reg).counters = x.counters.assign reg.stats .incoming := by
    unfold Registration.attach at attached
    simp only [Exchange.attach, Registration.attach, Counters.assign]
    cases hs : reg.stats with
    | none => rfl
    | some k =>
      simp only [hs] at attached ⊢
      split
      · rfl
      · rename_i full
        rw [if_neg full] at attached
        cases attached
  have same : (x.attach reg).inProgress o s = x.inProgress o s := rfl
  have here := Server.stats_iff apart hr hk
  rw [assigned, same, Counters.assign_value, h o k s hk, waiting]
  by_cases counted : o = .registry r ∧ s = .incoming
  · rw [if_pos ⟨here.mpr counted.1, counted.2⟩, if_pos counted, Nat.add_zero, ofNat_succ]
  · rw [if_neg fun c => counted ⟨here.mp c.1, c.2⟩, if_neg counted]

theorem Counted.start (apart : server.Apart) {r : Nat} (h : x.Counted server (waiting r))
    {i : Fin n} (free : (x.line i).phase = .free) (cid : Nat) (now : Now) :
    (x.start server i cid .incoming (some r) now).Counted server fun _ _ => 0 := by
  intro o k s hk
  rw [start_value apart hk, inProgress_start free, h o k s hk, waiting, Nat.add_zero]
  cases o with
  | registry r' =>
    by_cases counted : s = .incoming ∧ r' = r
    · simp [Owner.isRegistry, Line.carries, Line.start, counted.1, counted.2]
    · have other : ¬ (Owner.registry r' = .registry r ∧ s = .incoming) := fun c => by
        exact counted ⟨c.2, by simpa using c.1⟩
      have other' : ¬ (Stat.incoming = s ∧
          ((x.line i).start cid .incoming (some r) now).carries (.registry r')) := fun c =>
        counted ⟨c.1.symm, by simpa [Line.carries, Line.start] using c.2.symm⟩
      rw [if_neg other, if_neg other']
      simp [Owner.isRegistry]
  | system | board b | span sp =>
    have notWaiting : ∀ {a}, Owner.isRegistry a = false → ¬ (a = .registry r ∧ s = .incoming) :=
      fun ha c => by rw [c.1] at ha; cases ha
    rw [if_neg (notWaiting rfl), Nat.add_zero]
    split
    · rename_i c
      rw [if_pos ⟨c.2.symm, c.1.2⟩, ofNat_succ]
    · rename_i c
      rw [if_neg fun d => c ⟨⟨rfl, d.2⟩, d.1.symm⟩, Nat.add_zero]

theorem Counted.finish (apart : server.Apart) (h : x.Counted server fun _ _ => 0) {i : Fin n}
    (busy : (x.line i).phase = .busy) (lastcall : Owner → Time) :
    (x.finish server i lastcall).Counted server fun _ _ => 0 := by
  intro o k s hk
  have before := @inProgress_finish n server x i busy lastcall o s
  rw [finish_value apart hk, h o k s hk, before]
  split
  · exact ofNat_pred _
  · rfl

theorem Counted.idle (h : x.Counted server fun _ _ => 0) {y : Exchange n} {i : Fin n}
    (counters : y.counters = x.counters) (others : ∀ j, j ≠ i → y.line j = x.line j)
    (free : (x.line i).phase ≠ .busy) (free' : (y.line i).phase ≠ .busy) :
    y.Counted server fun _ _ => 0 := by
  intro o k s hk
  rw [counters, inProgress_idle others free free']
  exact h o k s hk

theorem Counted.refund (apart : server.Apart) {r : Nat} (h : x.Counted server (waiting r))
    {reg : Registration} (hr : server.registrations[r]? = some reg) (ending : Time) :
    Counted server { x with counters := x.counters.release reg.stats .incoming ending }
      fun _ _ => 0 := by
  intro o k s hk
  have here := Server.stats_iff apart hr hk
  have same : inProgress { x with counters := x.counters.release reg.stats .incoming ending } o s =
      x.inProgress o s := rfl
  rw [same, Counters.release_value, h o k s hk, waiting]
  by_cases counted : o = .registry r ∧ s = .incoming
  · rw [if_pos ⟨here.mpr counted.1, counted.2⟩, if_pos counted, ofNat_pred, Nat.add_zero]
  · rw [if_neg fun c => counted ⟨here.mp c.1, c.2⟩, if_neg counted]

theorem Counted.response (apart : server.Apart) (h : x.Counted server fun _ _ => 0) {i : Fin n}
    {ans : Answers} {y : Exchange n} (r : x.Response server i ans y) :
    y.Counted server fun _ _ => 0 := by
  cases r with
  | quiet => exact h
  | finish busy => exact h.finish apart busy _
  | off free => exact h.idle rfl (fun j hj => line_off_of_ne x hj _) (by simp [free]) (by simp)
  | finishOff busy =>
    exact (h.finish apart busy ans.lastcall).idle rfl (fun j hj => line_off_of_ne _ hj _)
      (by simp [Line.finish]) (by simp)
  | on offline => exact h.idle rfl (fun j hj => line_on_of_ne x hj) (by simp [offline]) (by simp)

end Exchange

def Action.Admission {n : Nat} : Action n → Prop
  | .assign .. => False
  | _ => True

instance {n : Nat} : (a : Action n) → Decidable a.Admission
  | .assign .. => .isFalse id
  | .invite .. | .setScripting .. | .post .. | .expire .. => .isTrue trivial

namespace Exchange
variable {n : Nat} {server : Server} {x : Exchange n}

theorem Counted.outcome (apart : server.Apart) (h : x.Counted server fun _ _ => 0) {a : Action n}
    {y : Exchange n} (admission : a.Admission) (o : x.Outcome server a y) :
    y.Counted server fun _ _ => 0 := by
  cases o with
  | full | assigned => cases admission
  | refused | scripted => exact h
  | returned reg hr attached => exact (h.attach apart hr attached).refund apart hr _
  | admitted reg i hr attached _ free => exact (h.attach apart hr attached).start apart free _ _
  | posted r => exact h.response apart r
  | expired r => exact h.response apart r

end Exchange

end Bayonne
