import Mathlib.Algebra.Order.BigOperators.Group.Finset
import Bayonne.Base.Fair
import Bayonne.Sip.Shutdown

/-! Whether `thread::shutdown` comes to its end. It waits for the background thread, for the
events in hand and for the event threads, and nobody waits for it. -/
namespace Bayonne

inductive Party (n : Nat) where
  | background
  | event (i : Fin n)
  | shutdown
  deriving DecidableEq

namespace ClosingMove
variable {n : Nat}

def who : ClosingMove n → Option (Party n)
  | .background _ => some .background
  | .notify => none
  | .event i _ => some (.event i)
  | .shutdown => some .shutdown

end ClosingMove

/-- The statements that are left for a background thread that finds itself stopped. -/
def BackgroundPc.left : BackgroundPc → Nat
  | .done => 0
  | .clearing => 1
  | .leaving => 2
  | .locked => 3
  | .head => 4
  | .automatic => 5
  | .scan | .idleUnlock => 6
  | .scanUnlock | .idleClear => 7
  | .scanClear => 8
  | .woken => 9
  | .waiting => 10
  | .about => 11
  | .reading => 12
  | .begin => 13

theorem Background.left_step {b : Background} (stopped : b.running = false)
    (begun : b.pc ≠ .begin) (due : Bool) : b.pc = .done ∨ (b.step due).pc.left < b.pc.left := by
  obtain ⟨running, signalled, pc⟩ := b
  cases stopped
  cases pc with
  | begin => exact absurd rfl begun
  | done => exact .inl rfl
  | reading => cases signalled <;> cases due <;> exact .inr (by decide)
  | woken => cases signalled <;> cases due <;> exact .inr (by decide)
  | _ => exact .inr (Nat.lt_succ_self _)

def EventPc.left : EventPc → Nat
  | .done => 0
  | .stop => 1
  | .test => 2
  | .top | .get => 3
  | .begin | .handling => 4
  | .have => 5

theorem EventLoop.left_next (t : EventLoop) (got : Bool) :
    t.pc = .done ∨ (t.next true got).pc.left < t.pc.left := by
  obtain ⟨pc, sevent⟩ := t
  cases pc with
  | done => exact .inl rfl
  | _ => exact .inr (Nat.lt_succ_self _)

theorem EventLoop.next_done {t : EventLoop} (gone : t.pc = .done) (flag got : Bool) :
    t.next flag got = t := by
  rw [next, gone]

def ShutdownPc.left : ShutdownPc → Nat
  | .begin => 10
  | .background => 9
  | .stopping => 8
  | .notifying => 7
  | .spinning => 6
  | .draining => 5
  | .releaseTcp => 4
  | .releaseUdp => 3
  | .releaseTls => 2
  | .joining => 1
  | .done => 0

namespace Closing
variable {n : Nat} {s t : Closing n}

/-- The thread waits for a background thread that has returned, and that was signalled again or
is about to be. -/
def Stuck (s : Closing n) : Prop :=
  s.bk.pc = .done ∧ (s.pc = .notifying ∨ s.pc = .spinning ∧ s.bk.signalled = true)

/-- What the counters stand for, and what stops the other threads. -/
structure Halting (s : Closing n) : Prop where
  active : s.activeCount = Tally.tally fun i => (s.thread i).pc = .handling
  started : s.startupCount = Tally.tally fun i => (s.thread i).pc ≠ .begin
  stopped : s.shutdownCount = Tally.tally fun i => (s.thread i).pc = .done
  flag : s.pc ≠ .begin → s.shutdownFlag = true
  begun : s.bk.pc = .begin → s.bk.running = false
  stopping : s.pc = .stopping → s.bk.pc ≠ .begin
  leaving : s.pc = .notifying ∨ s.pc = .spinning → s.bk.running = false ∧ s.bk.pc ≠ .begin

def remaining (s : Closing n) : Nat :=
  (match s.pc with
    | .begin | .background | .stopping => 13
    | .notifying | .spinning => s.bk.pc.left
    | _ => 0) +
  if s.pc = .begin then 5 * n else Finset.univ.sum fun i => (s.thread i).pc.left

def rank (s : Closing n) : Nat := s.pc.left + s.remaining

/-- The party whose move brings the shutdown on. -/
def Helps (s : Closing n) (p : Party n) : Prop :=
  match s.pc with
  | .notifying | .spinning =>
    if s.bk.pc = .done then p = .shutdown else p = .background
  | .draining =>
    if s.activeCount = 0 then p = .shutdown
    else ∃ i, p = .event i ∧ (s.thread i).pc = .handling
  | .joining =>
    if s.shutdownCount < s.startupCount then
      ∃ i, p = .event i ∧ (s.thread i).pc ≠ .begin ∧ (s.thread i).pc ≠ .done
    else p = .shutdown
  | _ => p = .shutdown

def Over (s : Closing n) : Prop := s.pc = .done ∨ Stuck s

theorem start_halting : Halting (start n) where
  active := (Tally.tally_eq_zero fun i => nofun).symm
  started := (Tally.tally_eq_zero fun i began => began rfl).symm
  stopped := (Tally.tally_eq_zero fun i => nofun).symm
  flag h := absurd rfl h
  begun _ := rfl
  stopping := nofun
  leaving := by rintro (h | h) <;> cases h

section Event
variable {i : Fin n}

theorem tally_event {q : EventPc → Prop} [DecidablePred q] (got : Bool) :
    (¬ q (s.thread i).pc ∧ q ((s.thread i).next s.shutdownFlag got).pc →
      (Tally.tally fun j => q ((s.eventStep i got).thread j).pc) =
        (Tally.tally fun j => q (s.thread j).pc) + 1) ∧
    ((q (s.thread i).pc ↔ q ((s.thread i).next s.shutdownFlag got).pc) →
      (Tally.tally fun j => q ((s.eventStep i got).thread j).pc) =
        Tally.tally fun j => q (s.thread j).pc) := by
  have others : ∀ j, j ≠ i → (q (s.thread j).pc ↔ q ((s.eventStep i got).thread j).pc) :=
    fun j hj => by rw [eventStep_other s got hj]
  refine ⟨fun ⟨off, on⟩ => ?_, fun same => ?_⟩
  · exact Tally.tally_add others off (by rwa [eventStep_self])
  · exact (Tally.tally_same others (by rwa [eventStep_self])).symm

theorem next_begun (t : EventLoop) (flag got : Bool) : (t.next flag got).pc ≠ .begin := by
  obtain ⟨pc, sevent⟩ := t
  cases pc <;> cases flag <;> cases sevent <;> exact nofun

theorem next_done_iff {t : EventLoop} (flag got : Bool) (stays : t.pc ≠ .stop) :
    t.pc = .done ↔ (t.next flag got).pc = .done := by
  obtain ⟨pc, sevent⟩ := t
  cases pc with
  | stop => exact absurd rfl stays
  | done => exact iff_of_true rfl rfl
  | _ => cases flag <;> cases sevent <;> exact iff_of_false nofun nofun

theorem event_halting (h : Halting s) (got : Bool) : Halting (s.eventStep i got) where
  active := eventStep_active got h.active
  started := by
    obtain ⟨more, same⟩ := tally_event (s := s) (i := i) (q := (· ≠ .begin)) got
    have began := next_begun (s.thread i) s.shutdownFlag got
    show (if (s.thread i).pc = .begin then s.startupCount + 1 else s.startupCount) = _
    rw [h.started]
    by_cases new : (s.thread i).pc = .begin
    · rw [if_pos new, more ⟨fun other => other new, began⟩]
    · rw [if_neg new, same (iff_of_true new began)]
  stopped := by
    obtain ⟨more, same⟩ := tally_event (s := s) (i := i) (q := (· = .done)) got
    show (if (s.thread i).pc = .stop then s.shutdownCount + 1 else s.shutdownCount) = _
    rw [h.stopped]
    by_cases stops : (s.thread i).pc = .stop
    · rw [if_pos stops, more ⟨by rw [stops]; nofun, by rw [EventLoop.next, stops]⟩]
    · rw [if_neg stops, same (next_done_iff _ _ stops)]
  flag := h.flag
  begun := h.begun
  stopping := h.stopping
  leaving := h.leaving

end Event

theorem background_halting (h : Halting s) (due : Bool) :
    Halting { s with bk := s.bk.step due } where
  active := h.active
  started := h.started
  stopped := h.stopped
  flag := h.flag
  begun start := absurd start (Background.step_ne_begin _ _)
  stopping _ := Background.step_ne_begin _ _
  leaving here := ⟨(Background.step_running (h.leaving here).2 due).trans (h.leaving here).1,
    Background.step_ne_begin _ _⟩

theorem notify_halting (h : Halting s) :
    Halting { s with bk := { s.bk with signalled := true } } :=
  ⟨h.active, h.started, h.stopped, h.flag, h.begun, h.stopping, h.leaving⟩

theorem shutdown_halting (h : Halting s) (moved : s.shutdownStep = some t) : Halting t := by
  obtain ⟨active, started, stopped, flag, begun, stopping, leaving⟩ := h
  unfold shutdownStep at moved
  cases here : s.pc with
  | begin =>
    rw [here] at moved
    cases moved
    exact ⟨active, started, stopped, fun _ => rfl, begun, nofun, by rintro (h | h) <;> cases h⟩
  | background =>
    have flag := flag (by rw [here]; nofun)
    rw [here] at moved
    cases moved
    refine ⟨active, started, stopped, fun _ => flag, begun, fun stops start => ?_, ?_⟩
    · have idle := begun start
      cases (if_neg (Bool.eq_false_iff.mp idle)).symm.trans stops
    · rintro (h | h) <;> cases running : s.bk.running <;> simp [running] at h
  | stopping =>
    have flag := flag (by rw [here]; nofun)
    rw [here] at moved
    cases moved
    exact ⟨active, started, stopped, fun _ => flag, fun _ => rfl, nofun,
      fun _ => ⟨rfl, stopping here⟩⟩
  | notifying =>
    have flag := flag (by rw [here]; nofun)
    rw [here] at moved
    obtain ⟨bk, notified, rfl⟩ := Option.map_eq_some_iff.mp moved
    obtain ⟨-, rfl⟩ := Background.notify_some notified
    exact ⟨active, started, stopped, fun _ => flag, begun, nofun, fun _ => leaving (.inl here)⟩
  | spinning =>
    have flag := flag (by rw [here]; nofun)
    rw [here] at moved
    cases moved
    refine ⟨active, started, stopped, fun _ => flag, begun, fun stops => ?_,
      fun _ => leaving (.inr here)⟩
    cases signal : s.bk.signalled <;> simp [signal] at stops
  | draining | joining =>
    have flag := flag (by rw [here]; nofun)
    rw [here] at moved
    cases moved
    refine ⟨active, started, stopped, fun _ => flag, begun, fun stops => ?_, ?_⟩
    · simp only at stops
      split at stops <;> cases stops
    · rintro (h | h) <;> simp only at h <;> split at h <;> cases h
  | releaseTcp | releaseUdp | releaseTls | done =>
    have flag := flag (by rw [here]; nofun)
    rw [here] at moved
    cases moved
    exact ⟨active, started, stopped, fun _ => flag, begun, by simp [here], by simp [here]⟩

theorem step_halting {m : ClosingMove n} (h : Halting s) (moved : s.step m = some t) :
    Halting t := by
  cases m with
  | background due =>
    cases moved
    exact background_halting h due
  | notify =>
    obtain ⟨bk, notified, rfl⟩ := Option.map_eq_some_iff.mp moved
    obtain ⟨-, rfl⟩ := Background.notify_some notified
    exact notify_halting h
  | event i got =>
    cases moved
    exact event_halting h got
  | shutdown => exact shutdown_halting h moved

/-- Nothing wakes a shutdown that waits for a thread that has returned. -/
theorem stuck_step {m : ClosingMove n} (h : Stuck s) (moved : s.step m = some t) : Stuck t := by
  obtain ⟨gone, waits⟩ := h
  cases m with
  | background due =>
    cases moved
    rw [Background.step_done gone]
    exact ⟨gone, waits⟩
  | notify =>
    obtain ⟨bk, notified, rfl⟩ := Option.map_eq_some_iff.mp moved
    obtain ⟨-, rfl⟩ := Background.notify_some notified
    exact ⟨gone, waits.imp_right fun h => ⟨h.1, rfl⟩⟩
  | event i got =>
    cases moved
    exact ⟨gone, waits⟩
  | shutdown =>
    change s.shutdownStep = some t at moved
    unfold shutdownStep at moved
    rcases waits with here | ⟨here, signalled⟩
    · rw [here] at moved
      obtain ⟨bk, notified, rfl⟩ := Option.map_eq_some_iff.mp moved
      obtain ⟨-, rfl⟩ := Background.notify_some notified
      exact ⟨gone, .inr ⟨rfl, rfl⟩⟩
    · rw [here, signalled] at moved
      cases moved
      exact ⟨gone, .inr ⟨rfl, signalled⟩⟩

theorem over_step {m : ClosingMove n} (h : Over s) (moved : s.step m = some t) : Over t := by
  rcases h with done | stuck
  · refine .inl ?_
    cases m with
    | background due =>
      cases moved
      exact done
    | notify =>
      obtain ⟨bk, notified, rfl⟩ := Option.map_eq_some_iff.mp moved
      exact done
    | event i got =>
      cases moved
      exact done
    | shutdown =>
      change s.shutdownStep = some t at moved
      rw [shutdownStep, done] at moved
      cases moved
      exact done
  · exact .inr (stuck_step stuck moved)

def Calm (s t : Closing n) : Prop := rank t = rank s ∧ ∀ p, Helps s p → Helps t p

theorem Calm.rfl : Calm s s := ⟨Eq.refl _, fun _ h => h⟩

section Rank
variable {i : Fin n}

theorem left_le (pc : EventPc) : pc.left ≤ 5 := by cases pc <;> decide

theorem bk_left_le (pc : BackgroundPc) : pc.left ≤ 13 := by cases pc <;> decide

theorem sum_left_le (s : Closing n) :
    (Finset.univ.sum fun i => (s.thread i).pc.left) ≤ 5 * n := by
  have bound := Finset.sum_le_card_nsmul Finset.univ (fun i => (s.thread i).pc.left) 5
    fun i _ => left_le _
  simpa [Nat.mul_comm] using bound

theorem calm_bk (b : Background) (away : s.pc ≠ .notifying ∧ s.pc ≠ .spinning) :
    Calm s { s with bk := b } := by
  obtain ⟨bk, flag, active, startup, shutdown, thread, pc⟩ := s
  cases pc with
  | notifying => exact absurd rfl away.1
  | spinning => exact absurd rfl away.2
  | _ => exact .rfl

theorem rank_waiting (waits : s.pc = .notifying ∨ s.pc = .spinning) : rank s =
    s.pc.left + (s.bk.pc.left + Finset.univ.sum fun i => (s.thread i).pc.left) := by
  obtain ⟨bk, flag, active, startup, shutdown, thread, pc⟩ := s
  rcases waits with rfl | rfl <;> rfl

theorem background_rank (h : Halting s) (due : Bool) :
    (Calm s { s with bk := s.bk.step due } ∨ rank { s with bk := s.bk.step due } < rank s) ∧
      (Helps s .background → rank { s with bk := s.bk.step due } < rank s) := by
  by_cases waits : s.pc = .notifying ∨ s.pc = .spinning
  · obtain ⟨stopped, begun⟩ := h.leaving waits
    rcases Background.left_step stopped begun due with gone | less
    · rw [Background.step_done gone]
      refine ⟨.inl .rfl, fun helps => ?_⟩
      rcases waits with here | here <;> simp [Helps, here, gone] at helps
    · have lower : rank { s with bk := s.bk.step due } < rank s := by
        rw [rank_waiting waits, rank_waiting (s := { s with bk := s.bk.step due }) waits]
        exact Nat.add_lt_add_left (Nat.add_lt_add_right less _) _
      exact ⟨.inr lower, fun _ => lower⟩
  · rw [not_or] at waits
    refine ⟨.inl (calm_bk _ waits), fun helps => ?_⟩
    unfold Helps at helps
    cases here : s.pc with
    | notifying => exact absurd here waits.1
    | spinning => exact absurd here waits.2
    | draining =>
      rw [here] at helps
      simp only at helps
      split at helps
      · cases helps
      · obtain ⟨i, same, -⟩ := helps
        cases same
    | joining =>
      rw [here] at helps
      simp only at helps
      split at helps
      · obtain ⟨i, same, -⟩ := helps
        cases same
      · cases helps
    | _ =>
      rw [here] at helps
      cases helps

theorem notify_calm : Calm s { s with bk := { s.bk with signalled := true } } := by
  obtain ⟨bk, flag, active, startup, shutdown, thread, pc⟩ := s
  cases pc <;> exact .rfl

theorem eventStep_done (gone : (s.thread i).pc = .done) (got : Bool) : s.eventStep i got = s := by
  have same : (s.thread i).next s.shutdownFlag got = s.thread i := EventLoop.next_done gone _ _
  rw [eventStep, same, gone, Function.update_eq_self]
  rfl

theorem event_sum (flag : s.shutdownFlag = true) (more : (s.thread i).pc ≠ .done) (got : Bool) :
    (Finset.univ.sum fun j => ((s.eventStep i got).thread j).pc.left) <
      Finset.univ.sum fun j => (s.thread j).pc.left := by
  have less : ((s.eventStep i got).thread i).pc.left < (s.thread i).pc.left := by
    rw [eventStep_self, flag]
    exact ((s.thread i).left_next got).resolve_left more
  refine Finset.sum_lt_sum (fun j _ => ?_) ⟨i, Finset.mem_univ i, less⟩
  by_cases same : j = i
  · rw [same]
    exact Nat.le_of_lt less
  · rw [eventStep_other s got same]

theorem event_rank (h : Halting s) (got : Bool) :
    (Calm s (s.eventStep i got) ∨ rank (s.eventStep i got) < rank s) ∧
      (Helps s (.event i) → rank (s.eventStep i got) < rank s) := by
  by_cases new : s.pc = .begin
  · have calm : Calm s (s.eventStep i got) := by
      refine ⟨?_, fun p helps => ?_⟩
      · simp [rank, remaining, eventStep, new]
      · simpa [Helps, eventStep, new] using helps
    refine ⟨.inl calm, fun helps => ?_⟩
    simp [Helps, new] at helps
  have lower : (s.thread i).pc ≠ .done → rank (s.eventStep i got) < rank s := fun more => by
    have less := event_sum (h.flag new) more got
    have new' : (s.eventStep i got).pc ≠ .begin := new
    rw [rank, rank, remaining, remaining, if_neg new, if_neg new']
    exact Nat.add_lt_add_left (Nat.add_lt_add_left less _) _
  by_cases more : (s.thread i).pc = .done
  · rw [eventStep_done more]
    refine ⟨.inl .rfl, fun helps => ?_⟩
    unfold Helps at helps
    cases here : s.pc with
    | draining =>
      rw [here] at helps
      simp only at helps
      split at helps
      · cases helps
      · obtain ⟨j, same, handles⟩ := helps
        cases same
        cases more.symm.trans handles
    | joining =>
      rw [here] at helps
      simp only at helps
      split at helps
      · obtain ⟨j, same, -, goes⟩ := helps
        cases same
        exact absurd more goes
      · cases helps
    | notifying | spinning =>
      rw [here] at helps
      simp only at helps
      split at helps <;> cases helps
    | _ =>
      rw [here] at helps
      cases helps
  · exact ⟨.inr (lower more), fun _ => lower more⟩

theorem rank_drained (drained : s.pc.left ≤ 5) :
    rank s = s.pc.left + Finset.univ.sum fun i => (s.thread i).pc.left := by
  rw [rank, remaining]
  cases here : s.pc with
  | begin | background | stopping | notifying | spinning =>
    rw [here] at drained
    exact absurd drained (by decide)
  | _ => exact congrArg (_ + ·) (Nat.zero_add _)

theorem rank_ahead {t : ShutdownPc} (drained : s.pc.left ≤ 5) (later : t.left < s.pc.left) :
    rank { s with pc := t } < rank s := by
  rw [rank_drained drained,
    rank_drained (s := { s with pc := t }) (Nat.le_trans (Nat.le_of_lt later) drained)]
  exact Nat.add_lt_add_right later _

theorem shutdown_rank (moved : s.shutdownStep = some t) (going : ¬ Over s) :
    (Calm s t ∨ rank t < rank s) ∧ (Helps s .shutdown → rank t < rank s) := by
  unfold shutdownStep at moved
  cases here : s.pc with
  | begin =>
    rw [here] at moved
    cases moved
    have less : rank { s with shutdownFlag := true, pc := .background } < rank s := by
      have bound := sum_left_le s
      simp only [rank, remaining, here, ShutdownPc.left, if_true, reduceCtorEq, if_false]
      omega
    exact ⟨.inr less, fun _ => less⟩
  | background =>
    rw [here] at moved
    cases moved
    have less : rank { s with pc := if s.bk.running then .stopping else .draining } < rank s := by
      cases running : s.bk.running with
      | true => simp [rank, remaining, here, ShutdownPc.left]
      | false =>
        simp only [rank, remaining, here, ShutdownPc.left, reduceCtorEq, if_false]
        omega
    exact ⟨.inr less, fun _ => less⟩
  | stopping =>
    rw [here] at moved
    cases moved
    have less : rank { s with bk := { s.bk with running := false }, pc := .notifying } <
        rank s := by
      have bound := bk_left_le s.bk.pc
      simp only [rank, remaining, here, ShutdownPc.left, reduceCtorEq, if_false]
      omega
    exact ⟨.inr less, fun _ => less⟩
  | notifying =>
    rw [here] at moved
    obtain ⟨bk, notified, rfl⟩ := Option.map_eq_some_iff.mp moved
    obtain ⟨-, rfl⟩ := Background.notify_some notified
    have less : rank { s with bk := { s.bk with signalled := true }, pc := .spinning } <
        rank s := by
      simp only [rank, remaining, here, ShutdownPc.left, reduceCtorEq, if_false]
      omega
    exact ⟨.inr less, fun _ => less⟩
  | spinning =>
    rw [here] at moved
    cases moved
    cases signal : s.bk.signalled with
    | true =>
      rw [if_pos rfl, ← here]
      refine ⟨.inl .rfl, fun helps => ?_⟩
      by_cases gone : s.bk.pc = .done
      · exact absurd (.inr ⟨gone, .inr ⟨here, signal⟩⟩) going
      · simp [Helps, here, gone] at helps
    | false =>
      have less : rank { s with pc := .draining } < rank s := by
        simp only [rank, remaining, here, ShutdownPc.left, reduceCtorEq, if_false]
        omega
      exact ⟨.inr less, fun _ => less⟩
  | draining =>
    rw [here] at moved
    cases moved
    by_cases none : s.activeCount = 0
    · rw [if_pos none]
      have less := rank_ahead (s := s) (t := .releaseTcp) (by rw [here]; decide)
        (by rw [here]; decide)
      exact ⟨.inr less, fun _ => less⟩
    · rw [if_neg none, ← here]
      exact ⟨.inl .rfl, fun helps => by simp [Helps, here, none] at helps⟩
  | joining =>
    rw [here] at moved
    cases moved
    by_cases more : s.shutdownCount < s.startupCount
    · rw [if_pos more, ← here]
      exact ⟨.inl .rfl, fun helps => by simp [Helps, here, more] at helps⟩
    · rw [if_neg more]
      have less := rank_ahead (s := s) (t := .done) (by rw [here]; decide)
        (by rw [here]; decide)
      exact ⟨.inr less, fun _ => less⟩
  | releaseTcp =>
    rw [here] at moved
    cases moved
    have less := rank_ahead (s := s) (t := .releaseUdp) (by rw [here]; decide)
      (by rw [here]; decide)
    exact ⟨.inr less, fun _ => less⟩
  | releaseUdp =>
    rw [here] at moved
    cases moved
    have less := rank_ahead (s := s) (t := .releaseTls) (by rw [here]; decide)
      (by rw [here]; decide)
    exact ⟨.inr less, fun _ => less⟩
  | releaseTls =>
    rw [here] at moved
    cases moved
    have less := rank_ahead (s := s) (t := .joining) (by rw [here]; decide)
      (by rw [here]; decide)
    exact ⟨.inr less, fun _ => less⟩
  | done => exact absurd (.inl here) going

/-- Only the lock of a background thread that is at work holds the shutdown up. -/
theorem shutdown_moves (helps : Helps s .shutdown) (going : ¬ Over s) :
    s.shutdownStep ≠ none := by
  unfold shutdownStep
  cases here : s.pc with
  | notifying =>
    by_cases gone : s.bk.pc = .done
    · exact absurd (.inr ⟨gone, .inl here⟩) going
    · simp [Helps, here, gone] at helps
  | _ => exact nofun

/-- What a turn does: the party that helps comes nearer to the end, anybody else leaves it at
its turn. -/
theorem offer_rank (h : Halting s) (going : ¬ Over s) (m : ClosingMove n) :
    (Calm s (Fair.offer step s m) ∨ rank (Fair.offer step s m) < rank s) ∧
      (∀ p, m.who = some p → Helps s p → rank (Fair.offer step s m) < rank s) := by
  cases m with
  | background due =>
    obtain ⟨either, down⟩ := background_rank h due
    refine ⟨either, fun p own helps => ?_⟩
    cases own
    exact down helps
  | notify =>
    refine ⟨.inl ?_, nofun⟩
    cases notified : step s .notify with
    | none =>
      rw [Fair.offer_none notified]
      exact .rfl
    | some t =>
      rw [Fair.offer_some notified]
      obtain ⟨bk, free, rfl⟩ := Option.map_eq_some_iff.mp notified
      obtain ⟨-, rfl⟩ := Background.notify_some free
      exact notify_calm
  | event i got =>
    obtain ⟨either, down⟩ := event_rank (i := i) h got
    refine ⟨either, fun p own helps => ?_⟩
    cases own
    exact down helps
  | shutdown =>
    cases moved : step s .shutdown with
    | none =>
      rw [Fair.offer_none moved]
      refine ⟨.inl .rfl, fun p own helps => ?_⟩
      cases own
      exact absurd moved (shutdown_moves helps going)
    | some t =>
      rw [Fair.offer_some moved]
      obtain ⟨either, down⟩ := shutdown_rank moved going
      refine ⟨either, fun p own helps => ?_⟩
      cases own
      exact down helps

/-- While it is not over somebody can bring the shutdown on: the event in hand and the event
threads that it waits for are the ones that its counters count. -/
theorem helper (h : Halting s) : ∃ p, Helps s p := by
  unfold Helps
  cases here : s.pc with
  | notifying | spinning =>
    by_cases gone : s.bk.pc = .done
    · exact ⟨.shutdown, by simp [gone]⟩
    · exact ⟨.background, by simp [gone]⟩
  | draining =>
    by_cases none : s.activeCount = 0
    · exact ⟨.shutdown, by simp [none]⟩
    have busy : ∃ i, (s.thread i).pc = .handling := by
      by_contra idle
      exact none (h.active.trans (Tally.tally_eq_zero (not_exists.mp idle)))
    obtain ⟨i, handles⟩ := busy
    exact ⟨.event i, by simp [none, handles]⟩
  | joining =>
    by_cases more : s.shutdownCount < s.startupCount
    · have goes : ∃ i, (s.thread i).pc ≠ .begin ∧ (s.thread i).pc ≠ .done := by
        by_contra gone
        have all : ∀ i, (s.thread i).pc ≠ .begin → (s.thread i).pc = .done := fun i began =>
          by_contra fun stays => gone ⟨i, began, stays⟩
        rw [h.started, h.stopped] at more
        exact absurd (Tally.tally_mono all) (Nat.not_le_of_lt more)
      obtain ⟨i, began, stays⟩ := goes
      exact ⟨.event i, by simp [more, began, stays]⟩
    · exact ⟨.shutdown, by simp [more]⟩
  | _ => exact ⟨.shutdown, rfl⟩

theorem ranked : Fair.Ranked (step (n := n)) ClosingMove.who Halting Over Helps rank where
  keeps _ m h := Fair.offer_keeps (fun _ _ _ h moved => step_halting h moved) m h
  final _ m _ ended := Fair.offer_keeps (fun _ _ _ ended moved => over_step ended moved) m ended
  helper _ h _ := helper h
  down _ m p h going helps own := .inr ((offer_rank h going m).2 p own helps)
  stays _ m p h going helps := by
    rcases (offer_rank h going m).1 with calm | less
    · exact .inr (.inr ⟨calm.1, calm.2 p helps⟩)
    · exact .inr (.inl less)

theorem rank_le (s : Closing n) : rank s ≤ 23 + 5 * n := by
  have events := sum_left_le s
  have bk := bk_left_le s.bk.pc
  unfold rank remaining
  cases s.pc <;> simp only [ShutdownPc.left, if_true, reduceCtorEq, if_false] <;> omega

theorem reachable_halting {moves : List (ClosingMove n)}
    (run : Run.exec step (start n) moves = some s) : Halting s :=
  Run.invariant (fun _ _ _ h moved => step_halting h moved) start_halting run

theorem stuck_offers (h : Stuck s) (more : List (ClosingMove n)) :
    Stuck (Fair.offers step s more) :=
  Fair.offers_keeps
    (fun _ m h => Fair.offer_keeps (fun _ _ _ h moved => stuck_step h moved) m h) more h

/-- Whatever was done before it, a shutdown that gives every thread its turns returns within a
bounded number of rounds, unless it has come to wait for a background thread that is gone: then it
never returns. -/
theorem returns_or_stuck {moves : List (ClosingMove n)}
    (run : Run.exec step (start n) moves = some s) {rounds : List (List (ClosingMove n))}
    (fair : ∀ r ∈ rounds, Fair.Round ClosingMove.who r) (many : 23 + 5 * n < rounds.length) :
    (Fair.offers step s rounds.flatten).pc = .done ∨
      Stuck (Fair.offers step s rounds.flatten) ∧
        ∀ more, (Fair.offers step (Fair.offers step s rounds.flatten) more).pc ≠ .done := by
  have enough : rank s < rounds.length := Nat.lt_of_le_of_lt (rank_le s) many
  rcases ranked.reaches (reachable_halting run) fair enough with done | stuck
  · exact .inl done
  · refine .inr ⟨stuck, fun more => ?_⟩
    obtain ⟨-, waits⟩ := stuck_offers stuck more
    rcases waits with here | ⟨here, -⟩ <;> rw [here] <;> nofun

theorem returns_or_stuck_alone :
    let turns : List (ClosingMove 1) := [.background true, .event 0 false, .shutdown]
    let t := Fair.offers step (start 1) (List.replicate 29 turns).flatten
    t.pc = .done ∨ Stuck t ∧ ∀ more, (Fair.offers step t more).pc ≠ .done := by
  refine @returns_or_stuck 1 (start 1) [] rfl _ (fun r mem p => ?_) (by decide)
  rw [List.eq_of_mem_replicate mem]
  cases p with
  | background => exact ⟨_, List.mem_cons_self, rfl⟩
  | event i =>
    refine ⟨.event 0 false, List.mem_cons_of_mem _ List.mem_cons_self, ?_⟩
    rw [Subsingleton.elim i 0]
    rfl
  | shutdown => exact ⟨.shutdown, by simp, rfl⟩

end Rank

end Closing

end Bayonne
