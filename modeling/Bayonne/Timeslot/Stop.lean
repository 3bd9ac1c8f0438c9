import Bayonne.Timeslot.Counters

/-! The end of the server. `Driver::stop` posts SHUTDOWN to every timeslot, which makes a
slot idle without what `release` does for its call, and which a slot that runs a script
rejects. -/
namespace Bayonne
open Tally

namespace Pool
variable {n : Nat} (server : Server)

def postShutdown (p : Pool n) (i : Fin n) (ans : Answers) : Pool n :=
  ((base server n).post p i ans .shutdown).1

def stop (p : Pool n) (ans : Fin n → Answers) : Pool n :=
  (List.finRange n).foldl (fun p i => p.postShutdown server i (ans i)) p

/-- Every slot is free again, and each call has posted its STOP record and left the
counters. -/
structure Stopped (p q : Pool n) : Prop where
  free : ∃ lists, (∀ r, Linked.Chain q.links.next (q.links.root r) (lists r)) ∧
    ∀ i, q.In lists i .free
  stops : ∀ i, q.stops i =
    p.stops i + if classOf (p.slot i).handler = .inCall then 1 else 0
  counters : ∀ o, o = .system ∨ o.isRegistry → ∀ k, server.node o = some k → ∀ s,
    q.counters.value k s + UInt16.ofNat (p.exchange.inProgress o s) = p.counters.value k s

variable {server} {p q : Pool n} {i : Fin n}

def shutdownSlot (t : Timeslot) : Timeslot := if t.handler = .script then t else t.setIdle

structure ShutDown (p q : Pool n) (is : List (Fin n)) : Prop where
  slot : ∀ i, q.slot i = if i ∈ is then shutdownSlot (p.slot i) else p.slot i
  links : q.links = p.links
  calls : q.calls = p.calls
  counters : q.counters = p.counters

theorem postShutdown_shutDown (p : Pool n) (i : Fin n) (ans : Answers) :
    p.ShutDown (p.postShutdown server i ans) [i] := by
  have idled : p.ShutDown (((p.lock i).modify i (·.setIdle)).unlock i) [i] ∨
      (p.slot i).handler = .script := by
    by_cases script : (p.slot i).handler = .script
    · exact .inr script
    · refine .inl ⟨fun j => ?_, rfl, rfl, rfl⟩
      by_cases hj : j = i
      · subst hj
        simp [shutdownSlot, script]
      · simp [slot_modify_of_ne _ _ hj, hj]
  have rejected : (p.slot i).handler = .script → p.ShutDown ((p.lock i).unlock i) [i] := by
    intro script
    refine ⟨fun j => ?_, rfl, rfl, rfl⟩
    by_cases hj : j = i
    · subst hj
      simp [shutdownSlot, script]
    · simp [hj]
  cases h : (p.slot i).handler with
  | script =>
    simp only [postShutdown, Virtual.post, Virtual.handle, base, id, slot_lock, h]
    exact rejected h
  | _ =>
    simp only [postShutdown, Virtual.post, Virtual.handle, base, id, slot_lock, h]
    exact idled.resolve_right (by simp [h])

theorem ShutDown.cons {r : Pool n} {is : List (Fin n)} (fresh : i ∉ is) (first : p.ShutDown q [i])
    (rest : q.ShutDown r is) : p.ShutDown r (i :: is) := by
  refine ⟨fun j => ?_, rest.links.trans first.links, rest.calls.trans first.calls,
    rest.counters.trans first.counters⟩
  rw [rest.slot, first.slot]
  by_cases hj : j = i
  · subst hj
    simp [fresh]
  · simp [hj]

theorem fold_shutDown (ans : Fin n → Answers) :
    ∀ (is : List (Fin n)) (p : Pool n), is.Nodup →
      p.ShutDown (is.foldl (fun p i => p.postShutdown server i (ans i)) p) is
  | [], p, _ => ⟨fun _ => by simp, rfl, rfl, rfl⟩
  | i :: is, p, nodup =>
    have ⟨fresh, nodup⟩ := List.nodup_cons.mp nodup
    (postShutdown_shutDown p i (ans i)).cons fresh (fold_shutDown ans is _ nodup)

theorem stop_shutDown (server : Server) (p : Pool n) (ans : Fin n → Answers) :
    p.ShutDown (p.stop server ans) (List.finRange n) :=
  fold_shutDown ans _ p (List.nodup_finRange n)

theorem stop_slot (server : Server) (p : Pool n) (ans : Fin n → Answers) (i : Fin n) :
    (p.stop server ans).slot i = shutdownSlot (p.slot i) := by
  rw [(stop_shutDown server p ans).slot, if_pos (List.mem_finRange i)]

/-- A slot in a call or offline is not on the free list, and SHUTDOWN does not put it
there. -/
theorem not_stopped {lists : Root → List (Fin n)} (v : p.exchange.Valid lists)
    {ans : Fin n → Answers} (stopped : p.Stopped server (p.stop server ans)) (i : Fin n) :
    (p.slot i).handler = .idle := by
  obtain ⟨lists', chain, free⟩ := stopped.free
  have same := (stop_shutDown server p ans).links
  have on : i ∈ lists' .timeslots := List.count_pos_iff.mp (by rw [(free i).1]; exact Nat.one_pos)
  have chain := chain .timeslots
  rw [same] at chain
  rw [chain.unique (v.holds.chain .timeslots)] at on
  exact idle_of_free ((v.free i).mp on)

theorem stop_idle {lists : Root → List (Fin n)} (v : p.exchange.Valid lists)
    (idle : ∀ i, (p.slot i).handler = .idle) (ans : Fin n → Answers) :
    p.Stopped server (p.stop server ans) := by
  have same := stop_shutDown server p ans
  refine ⟨⟨lists, fun r => same.links ▸ v.holds.chain r, fun i => ?_⟩, fun i => ?_, ?_⟩
  · obtain ⟨once, apart, _, _⟩ := show p.In lists i .free by
      have here := in_class v i
      rwa [idle i] at here
    have slot := stop_slot server p ans i
    refine ⟨once, apart, ?_, ?_⟩ <;> rw [slot, shutdownSlot, if_neg (by simp [idle i])] <;> rfl
  · have none : classOf (p.slot i).handler ≠ .inCall := by simp [idle i, classOf]
    rw [if_neg none]
    simp only [stops, records, same.calls, Nat.add_zero]
  · intro o _ k _ s
    have zero : p.exchange.inProgress o s = 0 := by
      refine tally_eq_zero fun i busy => ?_
      have phase := (inCall_iff p i).mpr busy.1
      rw [idle i] at phase
      cases phase
    rw [zero, same.counters]
    exact UInt16.add_zero _

/-- In every state that a run of whole operations reaches, the loop of `Driver::stop`
does its work if and only if every slot is idle already. -/
theorem stopped_iff (server : Server) (raw : Fin n → Raw) (as : List (Action n)) (p : Pool n)
    (ordinary : ∀ a ∈ as, a.Ordinary)
    (run : Run.exec (step server) (construct server raw) as = some p) (ans : Fin n → Answers) :
    p.Stopped server (p.stop server ans) ↔ ∀ i, (p.slot i).handler = .idle := by
  obtain ⟨lists, v⟩ := run_valid ordinary run
  exact ⟨not_stopped v, fun idle => stop_idle v idle ans⟩

theorem stopped_iff_one :
    ∃ p, Run.exec (step .sample)
        (construct .sample fun _ => ⟨0, .incoming, none, none, none, none⟩ : Pool 1)
        [.assign none .incoming 5 (tick 0), .post 0 .release (.at (tick 1) true)] = some p ∧
      p.Stopped .sample (p.stop .sample fun _ => .at (tick 2) true) :=
  ⟨_, rfl, (stopped_iff .sample (fun _ => ⟨0, .incoming, none, none, none, none⟩)
    [.assign none .incoming 5 (tick 0), .post 0 .release (.at (tick 1) true)] _ (by decide) rfl
    _).mpr (by decide)⟩

/-- A call posts no STOP record, whether or not it runs a script, and a slot that is
offline goes on no list. -/
theorem not_stopped_busy :
    let p : Pool 1 := construct .sample fun _ => ⟨0, .incoming, none, none, none, none⟩
    (∃ q, Run.exec (step .sample) p [.assign none .incoming 5 (tick 0)] = some q ∧
      ¬ q.Stopped .sample (q.stop .sample fun _ => .at (tick 2) true)) ∧
    (∃ q, Run.exec (step .sample) p [.assign none .incoming 5 (tick 0),
        .setScripting 0 (.after 50)] = some q ∧
      ¬ q.Stopped .sample (q.stop .sample fun _ => .at (tick 2) true)) ∧
    ∃ q, Run.exec (step .sample) p [.post 0 .disable (.at (tick 1) true)] = some q ∧
      ¬ q.Stopped .sample (q.stop .sample fun _ => .at (tick 2) true) := by
  refine ⟨⟨_, rfl, fun stopped => ?_⟩, ⟨_, rfl, fun stopped => ?_⟩, _, rfl, fun stopped => ?_⟩
  · have posted := stopped.stops 0
    revert posted
    decide
  · have posted := stopped.stops 0
    revert posted
    decide
  · obtain ⟨lists, chain, free⟩ := stopped.free
    have empty : lists .timeslots = [] := (chain .timeslots).unique .nil
    have once := (free 0).1
    rw [empty] at once
    cases once

end Pool

end Bayonne
