import Bayonne.Registry
import Bayonne.Stats.History

/-! What `baycontrol pstats` prints, against what the last collection wrote to the log. -/
namespace Bayonne

namespace Table
variable {t : Table}

structure Laid (t : Table) : Prop where
  within : t.used ≤ t.count
  typed : ∀ k < t.used, (t.shm k).type ≠ .unused

theorem laid_take (h : t.Laid) {l : Label} (typed : l.type ≠ .unused) : (t.take l).2.Laid := by
  unfold take
  split
  · exact h
  · rename_i room
    have free : t.used < t.count := by omega
    refine ⟨free, fun k hk => ?_⟩
    by_cases here : k = t.used
    · subst here
      simpa [Label.fill] using typed
    · have before : k < t.used := Nat.lt_of_le_of_ne (Nat.le_of_lt_succ hk) here
      simpa [Function.update_of_ne here] using h.typed k before

theorem laid_serve {α : Type} (label : α → Label) (typed : ∀ a, (label a).type ≠ .unused)
    (as : List α) (h : t.Laid) : (serve (fun t a => t.take (label a)) t as).2.Laid := by
  induction as generalizing t with
  | nil => exact h
  | cons a as ih => exact ih (laid_take h (typed a))

/-- The lines about the first `m` nodes, and the table once these are rotated. -/
def collected (t : Table) (fp : Bool) (m : Nat) : List LogLine × Table :=
  (if fp then ((List.range m).filter fun k => (t.shm k).type ≠ .unused).map
      fun k => (t.shm k).logLine else [],
    { t with shm := fun k =>
        if k < m ∧ (t.shm k).type ≠ .unused then (t.shm k).collect else t.shm k })

theorem collectNode_collected (t : Table) (fp : Bool) (m : Nat) :
    collectNode fp (t.collected fp m) m = t.collected fp (m + 1) := by
  have here : (t.collected fp m).2.shm m = t.shm m := if_neg fun h => Nat.lt_irrefl m h.1
  unfold collectNode
  simp only [here]
  by_cases free : (t.shm m).type = .unused
  · have same : ∀ k, (k < m + 1 ∧ (t.shm k).type ≠ .unused) ↔
        (k < m ∧ (t.shm k).type ≠ .unused) := by
      intro k
      refine ⟨fun h => ⟨?_, h.2⟩, fun h => ⟨Nat.lt_succ_of_lt h.1, h.2⟩⟩
      refine Nat.lt_of_le_of_ne (Nat.le_of_lt_succ h.1) ?_
      rintro rfl
      exact h.2 free
    simp only [collected, same, List.range_succ]
    simp [free]
  · have rotated : Function.update (t.collected fp m).2.shm m (t.shm m).collect =
        (t.collected fp (m + 1)).2.shm := by
      funext k
      by_cases hk : k = m
      · subst hk
        simp [collected, free]
      · have near : k < m + 1 ↔ k < m := by omega
        simp only [collected, Function.update_of_ne hk, near]
    rw [if_neg free, rotated]
    cases fp <;> simp [collected, List.range_succ, free]

theorem period_eq (t : Table) (fp : Bool) : t.period fp = t.collected fp t.count := by
  have fold : ∀ m, (List.range m).foldl (collectNode fp) ([], t) = t.collected fp m := by
    intro m
    induction m with
    | zero => cases fp <;> simp [collected]
    | succ m ih =>
      rw [List.range_succ, List.foldl_append, ih]
      exact collectNode_collected t fp m
  exact fold t.count

variable {k : Nat}

theorem Laid.split (h : t.Laid) : ∃ rest, List.range t.count = List.range t.used ++ rest := by
  obtain ⟨free, hfree⟩ := Nat.exists_eq_add_of_le h.within
  exact ⟨_, hfree ▸ List.range_add⟩

/-- Both reports have a line for every node in use, in the order of the nodes. -/
theorem pstats_line (h : t.Laid) (used : k < t.used) :
    t.pstats[k]? = some (t.shm k).pstatsLine := by
  obtain ⟨rest, split⟩ := h.split
  have typed : ∀ m ∈ (List.range t.used).map t.shm, decide (m.type ≠ .unused) = true := by
    intro m hm
    obtain ⟨j, hj, rfl⟩ := List.mem_map.mp hm
    exact decide_eq_true (h.typed j (List.mem_range.mp hj))
  unfold pstats
  rw [split, List.map_append, List.takeWhile_append_of_pos typed, List.map_append,
    List.getElem?_append_left (by simpa using used), List.getElem?_map, List.getElem?_map,
    List.getElem?_range used]
  rfl

theorem period_line (h : t.Laid) (used : k < t.used) :
    (t.period true).1[k]? = some (t.shm k).logLine := by
  obtain ⟨rest, split⟩ := h.split
  have typed : ∀ j ∈ List.range t.used, decide ((t.shm j).type ≠ .unused) = true := by
    intro j hj
    exact decide_eq_true (h.typed j (List.mem_range.mp hj))
  rw [period_eq]
  show (((List.range t.count).filter fun j => decide ((t.shm j).type ≠ .unused)).map _)[k]? = _
  rw [split, List.filter_append, List.filter_eq_self.mpr typed, List.map_append,
    List.getElem?_append_left (by simpa using used), List.getElem?_map, List.getElem?_range used]
  rfl

end Table

namespace StatOp

/-- The calls in progress, in the 16 bits of `current`. -/
def level (ops : List StatOp) : UInt16 :=
  UInt16.ofNat (ops.count .update) - UInt16.ofNat (ops.count .release)

/-- The numbers of calls that `max` sees: after each new call since the last collection,
and right after that collection. -/
def highs : List StatOp → Set Nat :=
  Window.values (· = .period) (fun past => past.getLast? ≠ some .release) (level ·|>.toNat)

/-- The numbers of calls that `min` sees: after each call that ended. -/
def lows : List StatOp → Set Nat :=
  Window.values (· = .period) (fun past => past.getLast? ≠ some .update) (level ·|>.toNat)

variable {ops : List StatOp}

theorem level_update : level (ops ++ [.update]) = level ops + 1 := by
  simp only [level, List.count_append, UInt16.ofNat_add]
  simp
  grind

theorem level_release : level (ops ++ [.release]) = level ops - 1 := by
  simp only [level, List.count_append, UInt16.ofNat_add]
  simp
  grind

theorem level_period : level (ops ++ [.period]) = level ops := by
  simp [level, List.count_append]

end StatOp

namespace Entry
open StatOp
variable {ops : List StatOp}

theorem run_current (ops : List StatOp) : (run ops).current = level ops := by
  induction ops using List.reverseRecOn with
  | nil => rfl
  | append_singleton ops op ih =>
    rw [run_concat]
    cases op with
    | update => rw [level_update, ← ih]; rfl
    | release => rw [level_release, ← ih]; rfl
    | period => rw [level_period, ← ih]; rfl

/-- `max` is moved by the new calls only. -/
theorem run_max (ops : List StatOp) : IsGreatest (highs ops) (run ops).max.toNat := by
  induction ops using List.reverseRecOn with
  | nil =>
    rw [highs, Window.values_nil (by simp)]
    exact isGreatest_singleton
  | append_singleton ops op ih =>
    rw [run_concat]
    cases op with
    | update =>
      have next : highs (ops ++ [.update]) =
          insert (level (ops ++ [.update])).toNat (highs ops) :=
        Window.values_kept nofun (by simp)
      rw [next, level_update, ← run_current]
      show IsGreatest _ (if (run ops).max < (run ops).current + 1 then _ else _ : UInt16).toNat
      rw [toNat_raised]
      exact ih.insert _
    | release =>
      have next : highs (ops ++ [.release]) = highs ops := Window.values_skipped nofun (by simp)
      rw [next]
      exact ih
    | period =>
      have next : highs (ops ++ [.period]) = {(level (ops ++ [.period])).toNat} :=
        Window.values_boundary rfl (by simp)
      rw [next, level_period, ← run_current]
      exact isGreatest_singleton

theorem run_min (ops : List StatOp) : IsLeast (lows ops) (run ops).min.toNat := by
  induction ops using List.reverseRecOn with
  | nil =>
    rw [lows, Window.values_nil (by simp)]
    exact isLeast_singleton
  | append_singleton ops op ih =>
    rw [run_concat]
    cases op with
    | update =>
      have next : lows (ops ++ [.update]) = lows ops := Window.values_skipped nofun (by simp)
      rw [next]
      exact ih
    | release =>
      have next : lows (ops ++ [.release]) =
          insert (level (ops ++ [.release])).toNat (lows ops) :=
        Window.values_kept nofun (by simp)
      rw [next, level_release, ← run_current]
      show IsLeast _ (if (run ops).current - 1 < (run ops).min then _ else _ : UInt16).toNat
      rw [toNat_lowered]
      exact ih.insert _
    | period =>
      have next : lows (ops ++ [.period]) = {(level (ops ++ [.period])).toNat} :=
        Window.values_boundary rfl (by simp)
      rw [next, level_period, ← run_current]
      exact isLeast_singleton

theorem run_pperiod (done later : List StatOp) (clear : .period ∉ later) :
    (run (done ++ .period :: later)).pperiod = (run done).period := by
  induction later using List.reverseRecOn with
  | nil => rw [run_concat]; rfl
  | append_singleton later op ih =>
    have before := ih fun h => clear (List.mem_append_left _ h)
    have split : done ++ .period :: (later ++ [op]) = (done ++ .period :: later) ++ [op] := by simp
    rw [split, run_concat, ← before]
    cases op with
    | period => exact absurd (List.mem_append_right _ List.mem_cons_self) clear
    | _ => rfl

end Entry

/-- What happens to the table: calls on its nodes, and collections, each with the log open
or not. -/
inductive TableOp where
  | update (pos : Nat) (entry : Stat)
  | release (pos : Nat) (entry : Stat) (now : Time)
  | period (fp : Bool)
  deriving DecidableEq, Repr

def TableOp.on (k : Nat) (s : Stat) : TableOp → Option StatOp
  | .update pos entry => if pos = k then NodeOp.on s (.update entry) else none
  | .release pos entry now => if pos = k then NodeOp.on s (.release entry now) else none
  | .period _ => some .period

def TableOp.entry (k : Nat) (s : Stat) (ops : List TableOp) : List StatOp :=
  ops.filterMap (on k s)

namespace Table
variable {t : Table} {k : Nat}

def step (t : Table) : TableOp → Table
  | .update pos entry =>
    { t with shm := Function.update t.shm pos ((t.shm pos).update entry) }
  | .release pos entry now =>
    { t with shm := Function.update t.shm pos ((t.shm pos).release entry now) }
  | .period fp => (t.period fp).2

def run (t : Table) (ops : List TableOp) : Table := ops.foldl step t

theorem run_concat (t : Table) (ops : List TableOp) (op : TableOp) :
    t.run (ops ++ [op]) = (t.run ops).step op := by
  simp [run]

theorem step_nodes (t : Table) (op : TableOp) :
    (t.step op).used = t.used ∧ (t.step op).count = t.count ∧
    ∀ k, ((t.step op).shm k).type = (t.shm k).type := by
  cases op with
  | update pos entry =>
    refine ⟨rfl, rfl, fun k => ?_⟩
    by_cases here : k = pos
    · subst here; simp [step, Statmap.update]
    · simp [step, Function.update_of_ne here]
  | release pos entry now =>
    refine ⟨rfl, rfl, fun k => ?_⟩
    by_cases here : k = pos
    · subst here; simp [step, Statmap.release]
    · simp [step, Function.update_of_ne here]
  | period fp =>
    simp only [step, period_eq]
    refine ⟨rfl, rfl, fun k => ?_⟩
    simp only [collected]
    split <;> rfl

theorem laid_run (h : t.Laid) (ops : List TableOp) :
    (t.run ops).Laid ∧ (t.run ops).used = t.used := by
  induction ops using List.reverseRecOn with
  | nil => exact ⟨h, rfl⟩
  | append_singleton ops op ih =>
    obtain ⟨laid, same⟩ := ih
    obtain ⟨used, count, type⟩ := step_nodes (t.run ops) op
    rw [run_concat]
    refine ⟨⟨?_, fun k hk => ?_⟩, used.trans same⟩
    · rw [used, count]
      exact laid.within
    · rw [type]
      exact laid.typed k (used ▸ hk)

theorem step_entry (h : t.Laid) (used : k < t.used) (s : Stat) (op : TableOp) :
    ((t.step op).shm k).stats s =
      (TableOp.on k s op).toList.foldl Entry.step ((t.shm k).stats s) := by
  cases op with
  | update pos entry =>
    by_cases here : pos = k
    · subst here
      by_cases same : entry = s
      · subst same
        simp [step, TableOp.on, NodeOp.on, Statmap.update, Entry.step]
      · simp [step, TableOp.on, NodeOp.on, Statmap.update, same,
          Function.update_of_ne (Ne.symm same)]
    · simp [step, TableOp.on, here, Function.update_of_ne (Ne.symm here)]
  | release pos entry now =>
    by_cases here : pos = k
    · subst here
      by_cases same : entry = s
      · subst same
        simp [step, TableOp.on, NodeOp.on, Statmap.release, Entry.step]
      · simp [step, TableOp.on, NodeOp.on, Statmap.release, same,
          Function.update_of_ne (Ne.symm same)]
    · simp [step, TableOp.on, here, Function.update_of_ne (Ne.symm here)]
  | period fp =>
    have rotated : k < t.count ∧ (t.shm k).type ≠ .unused :=
      ⟨Nat.lt_of_lt_of_le used h.within, h.typed k used⟩
    simp only [step, period_eq, collected, if_pos rotated]
    rfl

theorem run_entry (h : t.Laid) (used : k < t.used) (s : Stat) (ops : List TableOp) :
    ((t.run ops).shm k).stats s =
      (TableOp.entry k s ops).foldl Entry.step ((t.shm k).stats s) := by
  induction ops using List.reverseRecOn with
  | nil => rfl
  | append_singleton ops op ih =>
    obtain ⟨laid, same⟩ := laid_run h ops
    have one := step_entry laid (same ▸ used) s op
    rw [run_concat, one, ih, ← List.foldl_append]
    cases on : TableOp.on k s op <;> simp [TableOp.entry, on]

end Table

namespace Server
open StatOp
variable {registries : UInt32} {timeslots : Nat} {boards spans : List Nat}
  {keys : List RegKeys} {server : Server} {k : Nat}

theorem start_laid (started : start registries timeslots boards spans keys = some server) :
    server.table.Laid := by
  simp only [start] at started
  split at started
  · cases started
  · rename_i nonzero
    cases started
    have first : (created (registries + 1).toNat timeslots).Laid := by
      refine ⟨?_, fun k hk => ?_⟩
      · have : (registries + 1).toNat ≠ 0 := fun zero => nonzero (UInt32.toNat_inj.mp zero)
        show 1 ≤ (registries + 1).toNat
        omega
      · have zero : k = 0 := Nat.lt_one_iff.mp hk
        subst zero
        simp [created, Label.fill]
    have boardTable := Table.laid_serve boardLabel (by simp [boardLabel]) boards.zipIdx first
    have spanTable := Table.laid_serve spanLabel (by simp [spanLabel]) spans.zipIdx boardTable
    exact Table.laid_serve registryLabel (by simp [registryLabel]) keys spanTable

theorem started_entry (started : start registries timeslots boards spans keys = some server)
    (used : k < server.table.used) (s : Stat) (ops : List TableOp) :
    ((server.table.run ops).shm k).stats s = Entry.run (TableOp.entry k s ops) := by
  rw [Table.run_entry (start_laid started) used, start_stats started]
  rfl

/-- Since the last collection neither the greatest nor the least number of calls differs
from that of the period which that collection closed. -/
def SameRange (done ops : List StatOp) : Prop :=
  (∀ v, IsGreatest (highs done) v ↔ IsGreatest (highs ops) v) ∧
  ∀ v, IsLeast (lows done) v ↔ IsLeast (lows ops) v

theorem sameRange_iff (done ops : List StatOp) : SameRange done ops ↔
    (Entry.run ops).min = (Entry.run done).min ∧ (Entry.run ops).max = (Entry.run done).max := by
  have high := Entry.run_max done
  have high' := Entry.run_max ops
  have low := Entry.run_min done
  have low' := Entry.run_min ops
  constructor
  · rintro ⟨greatest, least⟩
    exact ⟨UInt16.toNat_inj.mp (low'.unique ((least _).mp low)),
      UInt16.toNat_inj.mp (high'.unique ((greatest _).mp high))⟩
  · rintro ⟨min, max⟩
    refine ⟨fun v => ?_, fun v => ?_⟩
    · rw [max] at high'
      exact ⟨fun h => h.unique high ▸ high', fun h => h.unique high' ▸ high⟩
    · rw [min] at low'
      exact ⟨fun h => h.unique low ▸ low', fun h => h.unique low' ▸ low⟩

/-- `pstats` shows what the last collection logged about a node exactly when both stats
have since ranged as far as in the period that it closed: it prints the count of that
period, but the running minimum and maximum. -/
theorem pstats_shows (started : start registries timeslots boards spans keys = some server)
    (used : k < server.table.used) (done later : List TableOp)
    (clear : ∀ fp, .period fp ∉ later) :
    let ops := done ++ .period true :: later
    ∃ line shown, ((server.table.run done).period true).1[k]? = some line ∧
      (server.table.run ops).pstats[k]? = some shown ∧
      (shown.entries = line.entries ↔
        ∀ s, SameRange (TableOp.entry k s done) (TableOp.entry k s ops)) := by
  intro ops
  have laid := start_laid started
  obtain ⟨before, usedBefore⟩ := Table.laid_run laid done
  obtain ⟨after, usedAfter⟩ := Table.laid_run laid ops
  refine ⟨_, _, Table.period_line before (usedBefore ▸ used),
    Table.pstats_line after (usedAfter ▸ used), ?_⟩
  have split : ∀ s, TableOp.entry k s ops =
      TableOp.entry k s done ++ .period :: TableOp.entry k s later := by
    intro s
    simp [ops, TableOp.entry, TableOp.on]
  have quiet : ∀ s, .period ∉ TableOp.entry k s later := by
    intro s collected
    obtain ⟨op, hop, on⟩ := List.mem_filterMap.mp collected
    cases op with
    | update pos entry =>
      simp only [TableOp.on, NodeOp.on] at on
      split_ifs at on
      cases on
    | release pos entry now =>
      simp only [TableOp.on, NodeOp.on] at on
      split_ifs at on
      cases on
    | period fp => exact clear fp hop
  have count : ∀ s, (Entry.run (TableOp.entry k s ops)).pperiod =
      (Entry.run (TableOp.entry k s done)).period := by
    intro s
    rw [split]
    exact Entry.run_pperiod _ _ (quiet s)
  rw [funext_iff]
  refine forall_congr' fun s => ?_
  rw [sameRange_iff]
  simp only [Statmap.pstatsLine, Statmap.logLine, started_entry started used, count,
    Triple.mk.injEq, true_and]

theorem pstats_shows_call :
    let done : List TableOp := [.update 1 .incoming, .release 1 .incoming 5]
    ∃ line shown, ((sample.table.run done).period true).1[1]? = some line ∧
      (sample.table.run (done ++ .period true :: done)).pstats[1]? = some shown ∧
      (shown.entries = line.entries ↔ ∀ s, SameRange (TableOp.entry 1 s done)
        (TableOp.entry 1 s (done ++ .period true :: done))) ∧
      shown.entries .incoming = ⟨1, 0, 1⟩ := by
  intro done
  obtain ⟨line, shown, logged, printed, same⟩ :=
    pstats_shows sample_started (by decide : 1 < sample.table.used) done done (by simp [done])
  refine ⟨line, shown, logged, printed, same, ?_⟩
  cases printed
  rfl

/-- A call still there at the collection is shown as the minimum of the period in which
it began. -/
theorem not_pstats_shows :
    ¬ ∀ (done later : List TableOp) (k : Nat), k < sample.table.used →
      (∀ fp, .period fp ∉ later) →
      ∃ line shown, ((sample.table.run done).period true).1[k]? = some line ∧
        (sample.table.run (done ++ .period true :: later)).pstats[k]? = some shown ∧
        shown.entries = line.entries := by
  intro whole
  obtain ⟨line, shown, logged, printed, same⟩ :=
    whole [.update 1 .incoming] [] 1 (by decide) (by simp)
  cases logged
  cases printed
  exact absurd (congrArg Triple.min (congrFun same .incoming)) (by decide)

end Server
end Bayonne
