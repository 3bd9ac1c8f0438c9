import Bayonne.Timeslot.Threads

/-! Whether a timeslot is ever handed to two callers, or handed out offline. Under any
interleaving it is not, as long as no thread begins an operation on a slot that another
thread is in the middle of one on: then each thread runs its code as if it were alone, and
the lists are what the others see of it. -/
namespace Bayonne
open Threads (Code Owned Clear)
open Linked (Holds)

/-- What the threads share about one timeslot: the slot, the lists it is on and whether it
is out. It goes down when the slot drops off a list. -/
structure View where
  slot : Timeslot
  lists : Root → Prop
  out : Bool

instance : Preorder View where
  le v w := v.slot = w.slot ∧ v.out = w.out ∧ ∀ r, v.lists r → w.lists r
  le_refl v := ⟨rfl, rfl, fun _ => id⟩
  le_trans u v w uv vw :=
    ⟨uv.1.trans vw.1, uv.2.1.trans vw.2.1, fun r h => vw.2.2 r (uv.2.2 r h)⟩

namespace View

def Only (v : View) (r : Root) : Prop := ∀ q, v.lists q → q = r

def Nowhere (v : View) : Prop := ∀ q, ¬ v.lists q

def Quiet (v : View) : Prop :=
  match v.slot.handler with
  | .idle => v.slot.mapped.started = 0 ∧ v.out = false ∧ v.Only .timeslots
  | .release | .script => v.slot.mapped.started ≠ 0 ∧ v.Only (.assigned (path v.slot.cid))
  | .offline => v.slot.mapped.started ≠ 0 ∧ v.Nowhere

theorem Only.mono {v w : View} {r : Root} (le : v ≤ w) (h : w.Only r) : v.Only r :=
  fun q on => h q (le.2.2 q on)

theorem Nowhere.mono {v w : View} (le : v ≤ w) (h : w.Nowhere) : v.Nowhere :=
  fun q on => h q (le.2.2 q on)

theorem Quiet.mono {v w : View} (le : w ≤ v) (h : v.Quiet) : w.Quiet := by
  unfold Quiet at h ⊢
  rw [le.1, le.2.1]
  cases hv : v.slot.handler <;> rw [hv] at h
  · exact ⟨h.1, h.2.1, h.2.2.mono le⟩
  · exact ⟨h.1, h.2.mono le⟩
  · exact ⟨h.1, h.2.mono le⟩
  · exact ⟨h.1, h.2.mono le⟩

theorem Quiet.idle {v : View} (h : v.Quiet) (unused : v.slot.mapped.started = 0) :
    v.slot.handler = .idle := by
  unfold Quiet at h
  cases hv : v.slot.handler <;> rw [hv] at h
  all_goals exact absurd unused h.1

theorem Quiet.call {v : View} (h : v.Quiet) (started : v.slot.mapped.started ≠ 0)
    (inService : v.slot.handler ≠ .offline) : v.Only (.assigned (path v.slot.cid)) := by
  unfold Quiet at h
  cases hv : v.slot.handler <;> rw [hv] at h
  · exact absurd h.1 started
  · exact h.2
  · exact h.2
  · exact absurd hv inService

theorem Quiet.listed {v : View} (h : v.Quiet) (free : v.lists .timeslots) :
    v.slot.handler = .idle := by
  unfold Quiet at h
  cases hv : v.slot.handler <;> rw [hv] at h
  · cases h.2 _ free
  · cases h.2 _ free
  · exact absurd free (h.2 _)

end View

namespace Stmt

def pre (s : Stmt) (l : Locals) (v : View) : Prop :=
  match s with
  | .skip => v.Only .timeslots
  | .delist r => v.Only r
  | .enlist _ => v.Nowhere
  | .relist => v.Only (.assigned l.path)
  | .ret cid => v.slot.cid = cid ∧ v.slot.handler ≠ .offline ∧ v.out = false
  | _ => True

def effect (s : Stmt) (v : View) : View :=
  match s with
  | .write f => { v with slot := f v.slot }
  | .skip | .delist _ => { v with lists := fun _ => False }
  | .enlist r => { v with lists := fun q => q = r }
  | .relist => { v with lists := fun q => q = .timeslots, out := false }
  | .ret _ => { v with out := true }
  | _ => v

def notes (s : Stmt) (l : Locals) (v : View) : Locals :=
  match s with
  | .note f => f v.slot l
  | _ => l

end Stmt

def Cond.can (c : Cond) (v : View) (b : Bool) : Prop :=
  match c with
  | .head => True
  | .slot c => c v.slot = b

def spec : Threads.Spec Stmt Cond Locals View where
  pre := Stmt.pre
  note := Stmt.notes
  effect := fun s _ => s.effect
  can := Cond.can
  pre_mono := by
    intro s l v w le h
    cases s with
    | skip | delist | relist => exact View.Only.mono le h
    | enlist => exact View.Nowhere.mono le h
    | ret cid =>
      simp only [Stmt.pre] at h ⊢
      rwa [le.1, le.2.1]
    | _ => trivial
  note_eq := by
    intro s l v w le
    cases s with
    | note f => exact congrArg (fun t => f t l) le.1
    | _ => rfl
  effect_mono := by
    intro s l v w le
    cases s with
    | write f => exact ⟨congrArg f le.1, le.2⟩
    | skip | delist | enlist => exact ⟨le.1, le.2.1, fun _ => id⟩
    | relist => exact ⟨le.1, rfl, fun _ => id⟩
    | ret => exact ⟨le.1, rfl, le.2.2⟩
    | _ => exact le
  can_mono := by
    intro c v w b le h
    cases c with
    | head => trivial
    | slot c => simpa only [Cond.can, le.1] using h

@[simp] theorem spec_pre : spec.pre = Stmt.pre := rfl
@[simp] theorem spec_note : spec.note = Stmt.notes := rfl
@[simp] theorem spec_effect (s : Stmt) (l : Locals) (v : View) :
    spec.effect s l v = s.effect v := rfl
@[simp] theorem spec_can : spec.can = Cond.can := rfl

section Programs
variable (server : Server)

theorem allocate_wp {v : View} (idle : v.slot.handler = .idle) (quiet : v.Quiet) (cid : Nat)
    (stat : Stat) (reg : Option Nat) (now : Now) (l : Locals) :
    (Stmt.allocate server cid stat reg now (.step (.ret cid) .done)).wp spec View.Quiet l v := by
  simp only [View.Quiet, idle] at quiet
  obtain ⟨_, out, only⟩ := quiet
  have stamped : now.1 ≠ 0 := now.2
  simpa [Stmt.allocate, Code.wp, Code.steps, Code.guarded, Stmt.fillCall, Stmt.fillTexts,
    Stmt.fill, Stmt.pre, Stmt.effect, Cond.can, View.Only, View.Nowhere, View.Quiet,
    Timeslot.stamp, idle, out, stamped] using only

theorem release_wp {v : View} (call : v.Only (.assigned (path v.slot.cid))) (ans : Answers)
    (rest : Code Stmt Cond)
    (after : ∀ l w, w.slot.handler = .idle → w.slot.mapped.started = 0 → w.out = false →
      w.Only .timeslots → rest.wp spec View.Quiet l w) (l : Locals) :
    (Stmt.release server ans rest).wp spec View.Quiet l v := by
  have free : ∀ l (t : Timeslot), t.handler = .idle → t.mapped.started = 0 →
      rest.wp spec View.Quiet l ⟨t, fun q => q = .timeslots, false⟩ :=
    fun l t idle unused => after l _ idle unused rfl fun _ => id
  have both : ∀ l l' (t t' : Timeslot), t.handler = .idle → t.mapped.started = 0 →
      t'.handler = .idle → t'.mapped.started = 0 →
      (v.slot.registry.isSome = true → (∀ q, v.lists q → q = .assigned (path v.slot.cid)) ∧
        rest.wp spec View.Quiet l ⟨t, fun q => q = .timeslots, false⟩) ∧
      (v.slot.registry = none → (∀ q, v.lists q → q = .assigned (path v.slot.cid)) ∧
        rest.wp spec View.Quiet l' ⟨t', fun q => q = .timeslots, false⟩) :=
    fun l l' t t' idle unused idle' unused' =>
      ⟨fun _ => ⟨call, free l t idle unused⟩, fun _ => ⟨call, free l' t' idle' unused'⟩⟩
  simp [Stmt.release, Code.wp, Code.steps, Code.guarded, Stmt.fillCall, Stmt.fillTexts,
    Stmt.setIdle, Stmt.setMapped, Stmt.fill, Stmt.pre, Stmt.notes, Stmt.effect, Cond.can,
    Timeslot.giveReason, Timeslot.disarm, View.Only]
  exact ⟨fun _ => both _ _ _ _ rfl rfl rfl rfl, fun _ => both _ _ _ _ rfl rfl rfl rfl⟩

theorem disable_wp {v : View} (quiet : v.Quiet) (inService : v.slot.handler ≠ .offline)
    (ans : Answers) (l : Locals) : (Stmt.disable server ans .done).wp spec View.Quiet l v := by
  have stamped : ans.now.1 ≠ 0 := ans.now.2
  have offline : ∀ l (w : View), w.Only .timeslots →
     (Stmt.offline ans .done).wp spec View.Quiet l w := by
    intro l w only
    simpa [Stmt.offline, Code.wp, Code.steps, Stmt.setMapped, Stmt.pre, Stmt.effect, View.Only, View.Nowhere, View.Quiet,
    Timeslot.stamp, Timeslot.disarm, stamped] using only
  refine ⟨fun started => ?_, fun unused => ?_⟩
  · have started : v.slot.mapped.started ≠ 0 := by simpa [Cond.can] using started
    have busy := quiet.call started inService
    have ended : ∀ (t : Timeslot) (l : Locals), t.cid = v.slot.cid →
        (Stmt.release server ans (Stmt.offline ans .done)).wp spec View.Quiet l
          ⟨t, v.lists, v.out⟩ := by
      intro t l same
      refine release_wp server (fun q on => ?_) ans _ (fun l w _ _ _ only => offline l w only) l
      rw [same]
      exact busy q on
    simp only [Stmt.hangup, Stmt.setMapped, Code.steps, Code.wp, List.cons_append, List.nil_append,
      spec_pre, spec_note, spec_effect, Stmt.pre, Stmt.notes, Stmt.effect, true_and]
    exact ended _ l rfl
  · refine offline l v ?_
    have unused : v.slot.mapped.started = 0 := by simpa [Cond.can] using unused
    have idle := quiet.idle unused
    simp only [View.Quiet, idle] at quiet
    exact quiet.2.2

end Programs

namespace Machine
variable {n : Nat} {server : Server}

def view (m : Machine n) (lists : Root → List (Fin n)) (i : Fin n) : View :=
  ⟨m.pool.slot i, fun r => i ∈ lists r, m.out i⟩

theorem exec_view {m : Machine n} {lists : Root → List (Fin n)} (holds : Holds m.pool.links lists)
    (i : Fin n) (s : Stmt) (l : Locals) (pre : s.pre l (m.view lists i))
    (listed : s = .skip → i ∈ lists .timeslots) :
    ∃ lists', Holds (exec i s (m, l)).1.pool.links lists' ∧
      (exec i s (m, l)).1.view lists' i ≤ s.effect (m.view lists i) ∧
      ∀ j, j ≠ i → (exec i s (m, l)).1.view lists' j ≤ m.view lists j := by
  cases s with
  | write f =>
    refine ⟨lists, holds, ⟨?_, rfl, fun _ => id⟩, fun j hj => ⟨?_, rfl, fun _ => id⟩⟩
    · exact Pool.slot_modify _ _ _
    · exact Pool.slot_modify_of_ne _ _ hj
  | note | tally | record | unlock =>
    exact ⟨lists, holds, le_rfl, fun _ _ => le_rfl⟩
  | ret cid =>
    refine ⟨lists, holds, ⟨rfl, ?_, fun _ => id⟩, fun j hj => ⟨rfl, ?_, fun _ => id⟩⟩
    · exact Function.update_self ..
    · exact Function.update_of_ne hj ..
  | skip =>
    obtain ⟨before, after, split⟩ := List.append_of_mem (listed rfl)
    have nodup := holds.nodup .timeslots
    rw [split] at nodup
    have gone : i ∉ after := (List.nodup_cons.mp (List.nodup_append.mp nodup).2.1).1
    refine ⟨_, holds.skip .timeslots i split, ⟨rfl, rfl, fun r on => ?_⟩,
      fun j hj => ⟨rfl, rfl, fun r on => ?_⟩⟩
    · by_cases hr : r = .timeslots
      · subst hr
        simp only [view, Function.update_self] at on
        exact gone on
      · simp only [view, Function.update_of_ne hr] at on
        exact hr (pre r on)
    · by_cases hr : r = .timeslots
      · subst hr
        simp only [view, Function.update_self] at on
        simp only [view, split]
        exact List.mem_append_right _ (List.mem_cons_of_mem _ on)
      · simpa only [view, Function.update_of_ne hr] using on
  | delist r =>
    obtain ⟨lists', holds', members⟩ := holds.remove pre
    refine ⟨lists', holds', ⟨rfl, rfl, fun q on => ?_⟩, fun j _ => ⟨rfl, rfl, fun q on => ?_⟩⟩
    · exact ((members q i).mp on).1 rfl
    · exact ((members q j).mp on).2
  | enlist r =>
    obtain ⟨lists', holds', members⟩ := holds.insert pre r
    refine ⟨lists', holds', ⟨rfl, rfl, fun q on => ?_⟩, fun j hj => ⟨rfl, rfl, fun q on => ?_⟩⟩
    · rcases (members q i).mp on with ⟨ne, _⟩ | ⟨_, hq⟩
      · exact absurd rfl ne
      · exact hq
    · rcases (members q j).mp on with ⟨_, old⟩ | ⟨hji, _⟩
      · exact old
      · exact absurd hji hj
  | relist =>
    obtain ⟨lists', holds', members⟩ := holds.move pre .timeslots
    refine ⟨lists', holds', ⟨rfl, ?_, fun q on => ?_⟩, fun j hj => ⟨rfl, ?_, fun q on => ?_⟩⟩
    · exact Function.update_self ..
    · rcases (members q i).mp on with ⟨ne, _⟩ | ⟨_, hq⟩
      · exact absurd rfl ne
      · exact hq
    · exact Function.update_of_ne hj ..
    · rcases (members q j).mp on with ⟨_, old⟩ | ⟨hji, _⟩
      · exact old
      · exact absurd hji hj

end Machine

def Thread.job {n : Nat} : Thread n → Threads.Job (Fin n) Locals Stmt Cond
  | .running i l code => code.job i l
  | _ => none

theorem Thread.job_at {n : Nat} (i : Fin n) (l : Locals) (code : Code Stmt Cond) :
    (Thread.at i l code).job = code.job i l := by
  cases code <;> rfl

namespace Machine
variable {n : Nat} {server : Server}

def jobs (m : Machine n) (t : Nat) : Threads.Job (Fin n) Locals Stmt Cond := (m.thread t).job

theorem jobs_move (m : Machine n) (t : Nat) (at' : Thread n) :
    (m.move t at').jobs = Function.update m.jobs t at'.job := by
  funext u
  by_cases h : u = t
  · subst h; simp [jobs, move]
  · simp [jobs, move, Function.update_of_ne h]

/-- Every `assign` so far has given its caller the slot to itself. -/
def Safe (m : Machine n) : Prop := ∀ r ∈ m.returns, r.Good

structure Ordered (m : Machine n) (lists : Root → List (Fin n)) : Prop where
  holds : Holds m.pool.links lists
  owned : Owned spec View.Quiet m.jobs (m.view lists)
  safe : m.Safe

/-- A thread is in the middle of an operation on the slot. -/
def Busy (m : Machine n) (i : Fin n) : Prop := ∃ t l code, m.thread t = .running i l code

/-- The step begins no operation on a busy slot, and sets the free list to the link of a
slot that is still on it. -/
def Undisturbed (server : Server) (m : Machine n) : Move n → Prop
  | .assign .. => ∀ i, m.pool.links.root .timeslots = some i → ¬ m.Busy i
  | .next t =>
    match m.thread t with
    | .scanning _ pos _ _ _ => ∀ i, m.unused pos = some i → ¬ m.Busy i
    | .posting i order ans =>
      (order.code server ans (m.pool.slot i).handler).isSome → ¬ m.Busy i
    | .running i _ (.step .skip _) =>
      ∃ free, Linked.Chain m.pool.links.next (m.pool.links.root .timeslots) free ∧ i ∈ free
    | _ => True
  | _ => True

theorem clear_of_not_busy {m : Machine n} {i : Fin n} (h : ¬ m.Busy i) (t : Nat) :
    Clear m.jobs t i := by
  intro t' l c at_i
  cases ht : m.thread t' with
  | running j l' code =>
    simp only [jobs, ht, Thread.job] at at_i
    cases code <;> simp only [Code.job] at at_i <;> cases at_i <;> exact absurd ⟨t', _, _, ht⟩ h
  | _ => simp [jobs, ht, Thread.job] at at_i

theorem Ordered.move {m m' : Machine n} {lists lists' : Root → List (Fin n)}
    (h : m.Ordered lists) {t : Nat} {i : Fin n} {l : Locals} {code : Code Stmt Cond}
    (same : m'.thread = m.thread) (holds : Holds m'.pool.links lists')
    (clear : Clear m.jobs t i) (mine : ∀ j l c, m.jobs t = some (j, l, c) → j = i)
    (le : ∀ j, j ≠ i → m'.view lists' j ≤ m.view lists j)
    (wp : code.wp spec View.Quiet l (m'.view lists' i)) (safe : m'.Safe) :
    (m'.move t (.at i l code)).Ordered lists' := by
  refine ⟨holds, ?_, safe⟩
  have jobs : m'.jobs = m.jobs := by funext u; simp [Machine.jobs, same]
  rw [jobs_move, Thread.job_at, jobs]
  exact h.owned.move View.Quiet.mono clear mine le wp

theorem Ordered.idle {m : Machine n} {lists : Root → List (Fin n)} (h : m.Ordered lists)
    {t : Nat} {at' : Thread n} (off : m.jobs t = none) (off' : at'.job = none) :
    (m.move t at').Ordered lists := by
  refine ⟨h.holds, ?_, h.safe⟩
  rw [jobs_move, off', ← off, Function.update_eq_self]
  exact h.owned

theorem Ordered.assign {m m' : Machine n} {lists : Root → List (Fin n)} (h : m.Ordered lists)
    {t : Nat} {reg : Option Nat} {stat : Stat} {cid : Nat} {now : Now}
    (ok : m.Undisturbed server (.assign t reg stat cid now))
    (step : m.step server (.assign t reg stat cid now) = some m') :
    ∃ lists', m'.Ordered lists' := by
  cases ht : m.thread t with
  | ready =>
    cases head : m.pool.links.root .timeslots with
    | none =>
      simp only [Machine.step, ht, Pool.assign, head] at step
      cases step
      exact ⟨lists, h⟩
    | some i =>
      simp only [Machine.step, ht, Pool.assign, head] at step
      cases step
      have off : m.jobs t = none := by simp [jobs, ht, Thread.job]
      have clear := clear_of_not_busy (ok i head) t
      have quiet : (m.view lists i).Quiet := h.owned.quiet fun t' l c at_i => by
        cases clear t' l c at_i
        rw [off] at at_i
        cases at_i
      have listed : i ∈ lists .timeslots := h.holds.head_mem head
      have idle := quiet.listed listed
      simp only [View.Quiet, idle] at quiet
      obtain ⟨unused, out, only⟩ := quiet
      obtain ⟨lists', holds, members⟩ := h.holds.move only (.assigned (path cid))
      refine ⟨lists', @Ordered.move _ _ _ _ lists' h t i .fresh (.step (.ret cid) .done) rfl ?_ clear
        (fun j l c at_j => ?_) (fun j hj => ⟨?_, rfl, fun q on => ?_⟩) ?_ h.safe⟩
      · rw [Pool.links_allocate]
        exact holds
      · rw [off] at at_j
        cases at_j
      · simp only [view, Pool.slot_allocate, Function.update_of_ne hj]
      · rcases (members q j).mp on with ⟨_, old⟩ | ⟨hji, _⟩
        · exact old
        · exact absurd hji hj
      · have handler : (m.pool.slot i).handler = .idle := idle
        have stamped : now.1 ≠ 0 := now.2
        have out : m.out i = false := out
        simp only [Code.wp, spec_pre, spec_effect, Stmt.pre, Stmt.effect, View.Quiet, view,
          Pool.slot_allocate, Function.update_self, Timeslot.serve, Timeslot.stamp, handler, if_true]
        refine ⟨⟨trivial, by decide, out⟩, stamped, fun q on => ?_⟩
        rcases (members q i).mp on with ⟨ne, _⟩ | ⟨_, hq⟩
        · exact absurd rfl ne
        · exact hq
  | _ => simp [Machine.step, ht] at step

theorem exec_thread (m : Machine n) (i : Fin n) (s : Stmt) (l : Locals) :
    (exec i s (m, l)).1.thread = m.thread := by
  cases s <;> rfl

theorem exec_notes (m : Machine n) (lists : Root → List (Fin n)) (i : Fin n) (s : Stmt)
    (l : Locals) : (exec i s (m, l)).2 = s.notes l (m.view lists i) := by
  cases s <;> rfl

theorem exec_safe {m : Machine n} (safe : m.Safe) {lists : Root → List (Fin n)} {i : Fin n}
    {s : Stmt} {l : Locals} (pre : s.pre l (m.view lists i)) : (exec i s (m, l)).1.Safe := by
  cases s with
  | ret cid =>
    intro r hr
    rcases List.mem_append.mp hr with old | new
    · exact safe r old
    · cases List.mem_singleton.mp new
      exact pre
  | _ => exact safe

theorem Ordered.exec {m : Machine n} {lists : Root → List (Fin n)} (h : m.Ordered lists) {t : Nat}
    {i : Fin n} {l : Locals} {s : Stmt} {rest : Code Stmt Cond}
    (at_i : m.jobs t = some (i, l, .step s rest))
    (listed : s = .skip → i ∈ lists .timeslots) :
    ∃ lists', ((Machine.exec i s (m, l)).1.move t
      (.at i (Machine.exec i s (m, l)).2 rest)).Ordered lists' := by
  obtain ⟨pre, wp⟩ := h.owned.ready at_i
  obtain ⟨lists', holds, here, le⟩ := exec_view h.holds i s l pre listed
  refine ⟨lists', h.move (exec_thread m i s l) holds (h.owned.alone at_i) ?_ le ?_
    (exec_safe h.safe pre)⟩
  · intro j l' c at_j
    rw [at_i] at at_j
    cases at_j
    rfl
  · rw [exec_notes m lists]
    exact Code.wp_mono View.Quiet.mono here wp

theorem Ordered.eval {m : Machine n} {lists : Root → List (Fin n)} (h : m.Ordered lists) {t : Nat}
    {i : Fin n} {l : Locals} {c : Cond} {yes no : Code Stmt Cond}
    (at_i : m.jobs t = some (i, l, .test c yes no)) :
    (m.move t (.at i l (if Machine.eval i c (m, l) then yes else no))).Ordered lists := by
  have can : c.can (m.view lists i) (Machine.eval i c (m, l)) := by
    cases c <;> trivial
  obtain ⟨hyes, hno⟩ := h.owned.ready at_i
  refine h.move rfl h.holds (h.owned.alone at_i) ?_ (fun _ _ => le_rfl) ?_ h.safe
  · intro j l' c at_j
    rw [at_i] at at_j
    cases at_j
    rfl
  · cases which : Machine.eval i c (m, l) <;> rw [which] at can
    · exact hno can
    · exact hyes can

theorem Ordered.begin {m : Machine n} {lists : Root → List (Fin n)} (h : m.Ordered lists) {t : Nat}
    {i : Fin n} (off : m.jobs t = none) (free : ¬ m.Busy i) {code : Code Stmt Cond}
    (wp : (m.view lists i).Quiet → code.wp spec View.Quiet .fresh (m.view lists i)) :
    (m.move t (.at i .fresh code)).Ordered lists := by
  have clear := clear_of_not_busy free t
  refine h.move rfl h.holds clear (fun j l c at_j => ?_) (fun _ _ => le_rfl) (wp ?_) h.safe
  · rw [off] at at_j
    cases at_j
  · refine h.owned.quiet fun t' l c at_i => ?_
    cases clear t' l c at_i
    rw [off] at at_i
    cases at_i

theorem order_wp {v : View} (quiet : v.Quiet) {order : Order} {ans : Answers}
    {code : Code Stmt Cond} (accepted : order.code server ans v.slot.handler = some code) :
    code.wp spec View.Quiet .fresh v := by
  have inService : v.slot.handler ≠ .offline := by
    intro offline
    rw [offline] at accepted
    cases order <;> cases accepted
  cases order with
  | disable =>
    cases h : v.slot.handler <;> rw [h] at accepted <;> cases accepted <;>
      exact disable_wp server quiet inService ans _
  | release =>
    have busy : v.slot.handler ≠ .idle := by
      intro idle
      rw [idle] at accepted
      cases accepted
    have call := quiet.call (fun unused => busy (quiet.idle unused)) inService
    have same : Stmt.release server ans .done = code := by
      cases h : v.slot.handler <;> rw [h] at accepted <;> cases accepted <;> rfl
    rw [← same]
    refine release_wp server call ans .done (fun l w idle unused out only => ?_) _
    simp only [Code.wp, View.Quiet, idle]
    exact ⟨unused, out, only⟩

theorem Ordered.next {m m' : Machine n} {lists : Root → List (Fin n)} (h : m.Ordered lists)
    {t : Nat} (ok : m.Undisturbed server (.next t)) (step : m.step server (.next t) = some m') :
    ∃ lists', m'.Ordered lists' := by
  simp only [Machine.step] at step
  cases ht : m.thread t with
  | ready => simp [Machine.next, ht] at step
  | scanning stat pos ending cid now =>
    have off : m.jobs t = none := by simp [jobs, ht, Thread.job]
    simp only [Undisturbed, ht] at ok
    simp only [Machine.next, ht] at step
    split at step
    · cases unused : m.unused pos with
      | none =>
        rw [unused] at step
        cases step
        exact ⟨lists, h.idle off rfl⟩
      | some i =>
        rw [unused] at step
        cases step
        have zero : (m.view lists i).slot.mapped.started = 0 := by
          simp only [Machine.unused] at unused
          split at unused
          · split at unused
            · cases unused
              assumption
            · cases unused
          · cases unused
        exact ⟨lists, h.begin off (ok i unused) fun quiet =>
          allocate_wp server (quiet.idle zero) quiet _ _ _ _ _⟩
    · cases step
      exact ⟨lists, h.idle off rfl⟩
  | posting i order ans =>
    have off : m.jobs t = none := by simp [jobs, ht, Thread.job]
    simp only [Undisturbed, ht] at ok
    simp only [Machine.next, ht] at step
    cases accepted : order.code server ans (m.pool.slot i).handler with
    | none =>
      rw [accepted] at step
      cases step
      exact ⟨lists, h.idle off rfl⟩
    | some code =>
      rw [accepted] at step
      cases step
      exact ⟨lists, h.begin off (ok (by rw [accepted]; rfl)) fun quiet =>
        order_wp quiet accepted⟩
  | rejected i =>
    have off : m.jobs t = none := by simp [jobs, ht, Thread.job]
    simp only [Machine.next, ht] at step
    cases step
    have unlocked : (Machine.exec i .unlock (m, .fresh)).1.Ordered lists :=
      ⟨h.holds, h.owned, h.safe⟩
    exact ⟨lists, unlocked.idle off rfl⟩
  | running i l code =>
    simp only [Undisturbed, ht] at ok
    cases code with
    | done => simp [Machine.next, ht] at step
    | step s rest =>
      have at_i : m.jobs t = some (i, l, .step s rest) := by simp [jobs, ht, Thread.job, Code.job]
      simp only [Machine.next, ht] at step
      cases step
      refine h.exec at_i fun skip => ?_
      subst skip
      obtain ⟨free, chain, here⟩ := ok
      rwa [chain.unique (h.holds.chain .timeslots)] at here
    | test c yes no =>
      have at_i : m.jobs t = some (i, l, .test c yes no) := by simp [jobs, ht, Thread.job, Code.job]
      simp only [Machine.next, ht] at step
      cases step
      exact ⟨lists, h.eval at_i⟩

theorem Ordered.step {m m' : Machine n} {lists : Root → List (Fin n)} (h : m.Ordered lists)
    {a : Move n} (ok : m.Undisturbed server a) (step : m.step server a = some m') :
    ∃ lists', m'.Ordered lists' := by
  cases a with
  | assign t reg stat cid now => exact h.assign ok step
  | range t stat starting ending cid now =>
    cases ht : m.thread t with
    | ready =>
      simp only [Machine.step, ht] at step
      cases step
      exact ⟨lists, h.idle (by simp [jobs, ht, Thread.job]) rfl⟩
    | _ => simp [Machine.step, ht] at step
  | post t i order ans =>
    cases ht : m.thread t with
    | ready =>
      cases held : m.held i with
      | true => simp [Machine.step, ht, held] at step
      | false =>
        simp only [Machine.step, ht, held] at step
        cases step
        have locked : ({ m with
            pool := m.pool.lock i
            held := Function.update m.held i true } : Machine n).Ordered lists :=
          ⟨h.holds, h.owned, h.safe⟩
        exact ⟨lists, locked.idle (by simp [jobs, ht, Thread.job]) rfl⟩
    | _ => simp [Machine.step, ht] at step
  | next t => exact h.next ok step

theorem start_ordered (server : Server) (raw : Fin n → Raw) :
    ∃ lists, (start server raw).Ordered lists := by
  obtain ⟨lists, holds, members⟩ :=
    Linked.exists_pushed (r := Root.timeslots) (List.nodup_finRange n)
  refine ⟨lists, holds, ⟨?_, ?_, fun {i} _ => ?_⟩, fun r hr => by cases hr⟩
  · intro t i l c at_i
    simp [jobs, start, Thread.job] at at_i
  · intro t i l c at_i
    simp [jobs, start, Thread.job] at at_i
  · refine ⟨rfl, rfl, fun q on => ?_⟩
    exact ((members q i).mp on).1

/-- In every interleaving whose steps leave busy slots alone, each `assign` gives its
caller a slot that is in service and with no other caller. -/
theorem handout_safe (server : Server) (raw : Fin n → Raw) (as : List (Move n))
    (undisturbed : Run.Along (step server) (Undisturbed server) (start server raw) as) :
    Run.Always (step server) Safe (start server raw) as := by
  refine Run.Always.of_invariant (I := fun m => ∃ lists, m.Ordered lists) ?_ ?_
    (start_ordered server raw) undisturbed
  · rintro m a m' ⟨lists, h⟩ ok step
    exact h.step ok step
  · rintro m ⟨lists, h⟩
    exact h.safe

theorem handout_safe_one :
    Run.Always (step .sample) Safe
      (start .sample fun _ => ⟨0, .incoming, none, none, none, none⟩ : Machine 1)
      [.assign 0 none .incoming 7 (tick 0), .next 0, .post 1 0 .release (.at (tick 1) true)] := by
  refine handout_safe _ _ _ ⟨?_, fun m hm => ?_⟩
  · rintro i _ ⟨t, l, code, at_i⟩
    cases at_i
  · cases hm
    exact ⟨trivial, fun m hm => ⟨trivial, fun _ _ => trivial⟩⟩

instance (m : Machine n) : Decidable m.Safe := inferInstanceAs (Decidable (∀ r ∈ m.returns, _))

def twoRanges {n : Nat} : List (Move n) :=
  [.range 0 .outgoing 0 0 none (tick 0), .range 1 .outgoing 0 0 none (tick 0), .next 0, .next 1] ++
    List.replicate 27 (.next 0) ++ List.replicate 26 (.next 1)

def offlineFirst {n : Nat} (i : Fin n) : List (Move n) :=
  .post 0 i .disable (.at (tick 0) true) :: List.replicate 8 (.next 0) ++
    [.assign 1 none .incoming 7 (tick 1), .next 1]

/-- A slot is handed to two callers, and an offline slot to one. -/
theorem not_safe :
    ¬ Run.Always (step .sample) Safe
        (start .sample fun _ => ⟨0, .incoming, none, none, none, none⟩ : Machine 1) twoRanges ∧
      ¬ Run.Always (step .sample) Safe
        (start .sample fun _ => ⟨0, .incoming, none, none, none, none⟩ : Machine 1)
        (offlineFirst 0) := by
  constructor
  · intro always
    have last := always.last rfl
    revert last
    decide
  · intro always
    have last := always.last rfl
    revert last
    decide

end Machine
end Bayonne
