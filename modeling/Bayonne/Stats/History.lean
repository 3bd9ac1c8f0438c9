import Bayonne.Base.Window
import Bayonne.Stats
import Mathlib.Data.List.Induction

/-! The counters of a statistics node, against the history of the calls and collections
they have seen. -/
namespace Bayonne

inductive StatOp where
  | update | release | period
  deriving DecidableEq, Repr

namespace Entry

def step (e : Entry) : StatOp → Entry
  | .update => e.update
  | .release => e.release
  | .period => e.collect

def run (ops : List StatOp) : Entry := ops.foldl step {}

theorem run_concat (ops : List StatOp) (op : StatOp) : run (ops ++ [op]) = (run ops).step op := by
  simp [run]

end Entry

namespace StatOp

/-- The updates that no release has followed. -/
def unmatched (ops : List StatOp) : Nat := ops.count .update - ops.count .release

def Paired (ops : List StatOp) : Prop :=
  ∀ k < ops.length, ops[k]? = some .release → 0 < unmatched (ops.take k)

/-- `current` never leaves its 16 bits. -/
def Fits (ops : List StatOp) : Prop := ∀ k < ops.length + 1, unmatched (ops.take k) < 65536

instance (ops : List StatOp) : Decidable (Paired ops) := inferInstanceAs (Decidable (∀ _ < _, _))

instance (ops : List StatOp) : Decidable (Fits ops) := inferInstanceAs (Decidable (∀ _ < _, _))

/-- The values of `current` since the last collection, right after it included, or since
the start. -/
def recent : List StatOp → Set Nat := Window.values (· = .period) (fun _ => True) unmatched

def ever : List StatOp → Set Nat := Window.values (fun _ => False) (fun _ => True) unmatched

def fresh (ops : List StatOp) : Nat := (ops.reverse.takeWhile (· ≠ .period)).count .update

variable {ops : List StatOp} {op : StatOp}

theorem Paired.init (h : Paired (ops ++ [op])) : Paired ops := by
  intro k hk released
  have here := h k (by rw [List.length_append]; omega)
  rw [List.getElem?_append_left hk, List.take_append_of_le_length (Nat.le_of_lt hk)] at here
  exact here released

theorem Paired.last (h : Paired (ops ++ [.release])) : 0 < unmatched ops := by
  have here := h ops.length (by simp) (by simp)
  rwa [List.take_left] at here

theorem Fits.init (h : Fits (ops ++ [op])) : Fits ops := by
  intro k hk
  have here := h k (by rw [List.length_append]; omega)
  rwa [List.take_append_of_le_length (by omega)] at here

theorem Fits.last (h : Fits ops) : unmatched ops < 65536 := by
  have here := h ops.length (by omega)
  rwa [List.take_length] at here

theorem Paired.concat (h : Paired ops) (some : op = .release → 0 < unmatched ops) :
    Paired (ops ++ [op]) := by
  intro k hk released
  rcases Nat.lt_or_ge k ops.length with before | after
  · rw [List.getElem?_append_left before] at released
    rw [List.take_append_of_le_length (Nat.le_of_lt before)]
    exact h k before released
  · have last : k = ops.length := by
      rw [List.length_append] at hk
      exact Nat.le_antisymm (Nat.le_of_lt_succ hk) after
    subst last
    rw [List.take_left]
    exact some (by simpa using released)

theorem Fits.concat (h : Fits ops) (room : unmatched (ops ++ [op]) < 65536) :
    Fits (ops ++ [op]) := by
  intro k hk
  rcases Nat.lt_or_ge k (ops.length + 1) with before | after
  · rw [List.take_append_of_le_length (Nat.le_of_lt_succ before)]
    exact h k before
  · rw [List.take_of_length_le (by simpa using after)]
    exact room

theorem released_le (h : Paired ops) : ops.count .release ≤ ops.count .update := by
  induction ops using List.reverseRecOn with
  | nil => exact Nat.le_refl 0
  | append_singleton ops op ih =>
    have before := ih h.init
    rw [List.count_append, List.count_append]
    cases op with
    | release =>
      have some := h.last
      unfold unmatched at some
      simp
      omega
    | _ => simp; omega

theorem unmatched_update (h : Paired ops) : unmatched (ops ++ [.update]) = unmatched ops + 1 := by
  have le := released_le h
  simp [unmatched]
  omega

theorem unmatched_release : unmatched (ops ++ [.release]) = unmatched ops - 1 := by
  simp [unmatched]
  omega

theorem unmatched_period : unmatched (ops ++ [.period]) = unmatched ops := by
  simp [unmatched]

theorem fresh_concat : fresh (ops ++ [op]) =
    if op = .period then 0 else fresh ops + if op = .update then 1 else 0 := by
  cases op <;> simp [fresh]

theorem recent_concat (other : op ≠ .period) :
    recent (ops ++ [op]) = insert (unmatched (ops ++ [op])) (recent ops) :=
  Window.values_kept other trivial

theorem recent_period : recent (ops ++ [.period]) = {unmatched ops} := by
  rw [← unmatched_period]
  exact Window.values_boundary rfl trivial

theorem closed_period {done later : List StatOp} :
    Window.Closed (· = .period) (ops ++ [.period]) done later ↔ done = ops ∧ later = [] :=
  @Window.closed_boundary _ (· = .period) ops .period rfl done later

theorem ever_concat : ever (ops ++ [op]) = insert (unmatched (ops ++ [op])) (ever ops) :=
  Window.values_kept id trivial

theorem unmatched_mem (ops : List StatOp) : unmatched ops ∈ recent ops :=
  ⟨ops, [], (List.append_nil _).symm, nofun, trivial, rfl⟩

theorem recent_subset (ops : List StatOp) : recent ops ⊆ ever ops := by
  rintro v ⟨past, later, split, -, -, value⟩
  exact ⟨past, later, split, fun _ _ => id, trivial, value⟩

def calls : Nat → List StatOp
  | 0 => []
  | n + 1 => calls n ++ [.update] ++ [.release]

theorem unmatched_calls (n : Nat) : unmatched (calls n) = 0 ∧ (calls n).count .update = n := by
  induction n with
  | zero => exact ⟨rfl, rfl⟩
  | succ n ih =>
    obtain ⟨none, count⟩ := ih
    unfold unmatched at none ⊢
    simp only [calls, List.count_append]
    simp
    omega

theorem calls_room (n : Nat) : Paired (calls n) ∧ Fits (calls n) := by
  induction n with
  | zero => exact ⟨nofun, by decide⟩
  | succ n ih =>
    have one : unmatched (calls n ++ [.update]) = 1 := by
      rw [unmatched_update ih.1, (unmatched_calls n).1]
    have paired : Paired (calls n ++ [.update]) := ih.1.concat (by simp)
    have small : Fits (calls n ++ [.update]) := ih.2.concat (by omega)
    have after : unmatched (calls n ++ [.update] ++ [.release]) < 65536 := by
      rw [unmatched_release, one]
      decide
    exact ⟨paired.concat fun _ => by omega, small.concat after⟩

end StatOp

namespace Entry
open StatOp

/-- What the counters of an entry say about its history. -/
structure Tracks (e : Entry) (ops : List StatOp) : Prop where
  current : e.current.toNat = unmatched ops
  total : e.total = UInt64.ofNat (ops.count .update)
  period : e.period = UInt64.ofNat (fresh ops)
  max : IsGreatest (recent ops) e.max.toNat
  min : IsLeast (recent ops) e.min.toNat
  peak : IsGreatest (ever ops) e.peak.toNat
  closed : ∀ done later, Window.Closed (· = .period) ops done later →
    e.pperiod = UInt64.ofNat (fresh done) ∧ IsGreatest (recent done) e.pmax.toNat ∧
      IsLeast (recent done) e.pmin.toNat

theorem Tracks.ordered {e : Entry} {ops : List StatOp} (h : e.Tracks ops) :
    e.min ≤ e.current ∧ e.current ≤ e.max ∧ e.max ≤ e.peak := by
  have here : e.current.toNat ∈ recent ops := h.current ▸ unmatched_mem ops
  exact ⟨UInt16.le_iff_toNat_le.mpr (h.min.2 here), UInt16.le_iff_toNat_le.mpr (h.max.2 here),
    UInt16.le_iff_toNat_le.mpr (h.peak.2 (recent_subset ops h.max.1))⟩

theorem tracks_start : ({} : Entry).Tracks [] where
  current := rfl
  total := rfl
  period := rfl
  max := by
    rw [recent, Window.values_nil trivial]
    exact isGreatest_singleton
  min := by
    rw [recent, Window.values_nil trivial]
    exact isLeast_singleton
  peak := by
    rw [ever, Window.values_nil trivial]
    exact isGreatest_singleton
  closed := fun _ _ none => absurd none Window.not_closed_nil

variable {e : Entry} {ops : List StatOp}

theorem Tracks.still_closed (h : e.Tracks ops) {op : StatOp} (other : op ≠ .period)
    {done later : List StatOp} (last : Window.Closed (· = .period) (ops ++ [op]) done later) :
    e.pperiod = UInt64.ofNat (fresh done) ∧ IsGreatest (recent done) e.pmax.toNat ∧
      IsLeast (recent done) e.pmin.toNat := by
  have open_last : ¬ (fun a => a = StatOp.period) op := other
  obtain ⟨front, -, before⟩ := (@Window.closed_other StatOp _ ops op open_last done later).mp last
  exact h.closed done front before

theorem toNat_up (small : e.current.toNat + 1 < 65536) :
    (e.current + 1).toNat = e.current.toNat + 1 := by
  rw [UInt16.toNat_add]
  exact Nat.mod_eq_of_lt small

theorem toNat_down (some : 0 < e.current.toNat) :
    (e.current - 1).toNat = e.current.toNat - 1 := by
  rw [UInt16.toNat_sub_of_le]
  · rfl
  · exact UInt16.le_iff_toNat_le.mpr some

theorem toNat_raised (a b : UInt16) :
    (if a < b then b else a).toNat = Max.max b.toNat a.toNat := by
  split
  · rename_i lt
    exact (Nat.max_eq_left (Nat.le_of_lt (UInt16.lt_iff_toNat_lt.mp lt))).symm
  · rename_i ge
    exact (Nat.max_eq_right (UInt16.le_iff_toNat_le.mp (UInt16.not_lt.mp ge))).symm

theorem toNat_lowered (a b : UInt16) :
    (if b < a then b else a).toNat = Min.min b.toNat a.toNat := by
  split
  · rename_i lt
    exact (Nat.min_eq_left (Nat.le_of_lt (UInt16.lt_iff_toNat_lt.mp lt))).symm
  · rename_i ge
    exact (Nat.min_eq_right (UInt16.le_iff_toNat_le.mp (UInt16.not_lt.mp ge))).symm

theorem tracks_update (h : e.Tracks ops) (paired : Paired (ops ++ [.update]))
    (small : Fits (ops ++ [.update])) : e.update.Tracks (ops ++ [.update]) := by
  have next := unmatched_update paired.init
  have fits : e.current.toNat + 1 < 65536 := by
    have last := small.last
    rw [next] at last
    rwa [h.current]
  have value : (e.current + 1).toNat = unmatched (ops ++ [.update]) := by
    rw [toNat_up fits, next, h.current]
  have raised : recent (ops ++ [.update]) = insert (e.current + 1).toNat (recent ops) := by
    rw [value]
    exact recent_concat (by decide)
  refine ⟨value, ?_, ?_, ?_, ?_, ?_, ?_⟩
  · show e.total + 1 = _
    rw [h.total, List.count_append]
    exact (UInt64.ofNat_add _ _).symm
  · show e.period + 1 = _
    rw [h.period, fresh_concat]
    exact (UInt64.ofNat_add _ _).symm
  · rw [raised]
    show IsGreatest _ (if e.max < e.current + 1 then e.current + 1 else e.max).toNat
    rw [toNat_raised]
    exact h.max.insert _
  · rw [raised]
    have low : e.min.toNat ≤ (e.current + 1).toNat := by
      have here := h.min.2 (unmatched_mem ops)
      rw [toNat_up fits, h.current]
      omega
    have least := h.min.insert (e.current + 1).toNat
    rwa [Nat.min_eq_right low] at least
  · rw [ever_concat, ← value]
    show IsGreatest _ (if e.peak < e.current + 1 then e.current + 1 else e.peak).toNat
    rw [toNat_raised]
    exact h.peak.insert _
  · exact fun done later last => h.still_closed (by decide) last

theorem tracks_release (h : e.Tracks ops) (paired : Paired (ops ++ [.release])) :
    e.release.Tracks (ops ++ [.release]) := by
  have some : 0 < e.current.toNat := h.current ▸ paired.last
  have value : (e.current - 1).toNat = unmatched (ops ++ [.release]) := by
    rw [toNat_down some, unmatched_release, h.current]
  have here := unmatched_mem ops
  have lowered : recent (ops ++ [.release]) = insert (e.current - 1).toNat (recent ops) := by
    rw [value]
    exact recent_concat (by decide)
  refine ⟨value, ?_, ?_, ?_, ?_, ?_, ?_⟩
  · rw [List.count_append]
    exact h.total
  · rw [fresh_concat]
    exact h.period
  · rw [lowered]
    have high : (e.current - 1).toNat ≤ e.max.toNat := by
      have bound := h.max.2 here
      rw [toNat_down some, h.current]
      omega
    have greatest := h.max.insert (e.current - 1).toNat
    rwa [Nat.max_eq_right high] at greatest
  · rw [lowered]
    show IsLeast _ (if e.current - 1 < e.min then e.current - 1 else e.min).toNat
    rw [toNat_lowered]
    exact h.min.insert _
  · rw [ever_concat, ← value]
    have high : (e.current - 1).toNat ≤ e.peak.toNat := by
      have bound := h.peak.2 (recent_subset ops here)
      rw [toNat_down some, h.current]
      omega
    have greatest := h.peak.insert (e.current - 1).toNat
    rwa [Nat.max_eq_right high] at greatest
  · exact fun done later last => h.still_closed (by decide) last

theorem tracks_collect (h : e.Tracks ops) : e.collect.Tracks (ops ++ [.period]) := by
  have value : e.current.toNat = unmatched (ops ++ [.period]) := by
    rw [unmatched_period, h.current]
  refine ⟨value, ?_, ?_, ?_, ?_, ?_, ?_⟩
  · rw [List.count_append]
    exact h.total
  · rw [fresh_concat]
    rfl
  · rw [recent_period, ← h.current]
    exact isGreatest_singleton
  · rw [recent_period, ← h.current]
    exact isLeast_singleton
  · rw [ever_concat, unmatched_period]
    have old := recent_subset ops (unmatched_mem ops)
    rw [Set.insert_eq_of_mem old]
    exact h.peak
  · intro done later last
    obtain ⟨rfl, -⟩ := closed_period.mp last
    exact ⟨h.period, h.max, h.min⟩

theorem run_tracks (paired : Paired ops) (small : Fits ops) : (run ops).Tracks ops := by
  induction ops using List.reverseRecOn with
  | nil => exact tracks_start
  | append_singleton ops op ih =>
    have before := ih paired.init small.init
    rw [run_concat]
    cases op with
    | update => exact tracks_update before paired small
    | release => exact tracks_release before paired
    | period => exact tracks_collect before

end Entry

/-- What happens to a node. A collection rotates both of its entries. -/
inductive NodeOp where
  | update (entry : Stat)
  | release (entry : Stat) (now : Time)
  | period
  deriving DecidableEq, Repr

namespace NodeOp
open StatOp

def on (s : Stat) : NodeOp → Option StatOp
  | .update entry => if entry = s then some .update else none
  | .release entry _ => if entry = s then some .release else none
  | .period => some .period

def entry (s : Stat) (ops : List NodeOp) : List StatOp := ops.filterMap (on s)

def busy (ops : List NodeOp) : Nat := unmatched (entry .incoming ops) + unmatched (entry .outgoing ops)

/-- The time of the last release at which the sum goes from 1 to 0, if there was one. -/
def LastCall (ops : List NodeOp) (lastcall : Time) : Prop :=
  ∀ past s now later, ops = past ++ .release s now :: later → busy past = 1 →
    (∀ front s' now' rest, later = front ++ .release s' now' :: rest →
      busy (past ++ .release s now :: front) ≠ 1) → lastcall = now

variable {ops : List NodeOp} {op : NodeOp} {s : Stat}

theorem entry_concat : entry s (ops ++ [op]) = entry s ops ++ (on s op).toList := by
  cases h : on s op <;> simp [entry, h]

theorem paired_init (h : Paired (entry s (ops ++ [op]))) : Paired (entry s ops) := by
  rw [entry_concat] at h
  cases ho : on s op with
  | none => simpa [ho] using h
  | some o =>
    rw [ho] at h
    exact h.init

theorem fits_init (h : Fits (entry s (ops ++ [op]))) : Fits (entry s ops) := by
  rw [entry_concat] at h
  cases ho : on s op with
  | none => simpa [ho] using h
  | some o =>
    rw [ho] at h
    exact h.init

end NodeOp

namespace Statmap
open StatOp NodeOp

def step (m : Statmap) : NodeOp → Statmap
  | .update entry => m.update entry
  | .release entry now => m.release entry now
  | .period => m.collect

def run (ops : List NodeOp) : Statmap := ops.foldl step {}

theorem run_concat (ops : List NodeOp) (op : NodeOp) : run (ops ++ [op]) = (run ops).step op := by
  simp [run]

variable {ops : List NodeOp}

theorem run_stats (ops : List NodeOp) (s : Stat) :
    (run ops).stats s = Entry.run (entry s ops) := by
  induction ops using List.reverseRecOn with
  | nil => rfl
  | append_singleton ops op ih =>
    rw [run_concat, entry_concat]
    cases op with
    | update t =>
      by_cases same : t = s
      · subst same
        simp [step, update, on, ih, Entry.run_concat, Entry.step]
      · simp [step, update, on, same, Function.update_of_ne (Ne.symm same), ih]
    | release t now =>
      by_cases same : t = s
      · subst same
        simp [step, release, on, ih, Entry.run_concat, Entry.step]
      · simp [step, release, on, same, Function.update_of_ne (Ne.symm same), ih]
    | period => simp [step, collect, on, ih, Entry.run_concat, Entry.step]

theorem run_active (paired : ∀ s, Paired (entry s ops)) (small : ∀ s, Fits (entry s ops)) :
    (run ops).active = busy ops := by
  unfold active busy
  rw [run_stats, run_stats, (Entry.run_tracks (paired .incoming) (small .incoming)).current,
    (Entry.run_tracks (paired .outgoing) (small .outgoing)).current]

theorem run_lastcall (paired : ∀ s, Paired (entry s ops)) (small : ∀ s, Fits (entry s ops)) :
    LastCall ops (run ops).lastcall := by
  induction ops using List.reverseRecOn with
  | nil =>
    intro past s now later split
    cases past <;> cases split
  | append_singleton ops op ih =>
    have paired' := fun s => paired_init (paired s)
    have small' := fun s => fits_init (small s)
    have before := ih paired' small'
    have active := run_active paired' small'
    intro past s now later split one final
    rw [run_concat]
    rcases List.eq_nil_or_concat later with rfl | ⟨front, x, rfl⟩
    · obtain ⟨rfl, last⟩ := List.append_inj' split rfl
      cases last
      show (if (run ops).active = 1 then now else (run ops).lastcall) = now
      rw [active, if_pos one]
    · have split : ops ++ [op] = (past ++ .release s now :: front) ++ [x] := by simpa using split
      obtain ⟨rfl, last⟩ := List.append_inj' split rfl
      cases last
      have old : (run (past ++ .release s now :: front)).lastcall = now := by
        refine before past s now front rfl one fun front' s' now' rest split' => ?_
        refine final front' s' now' (rest ++ [op]) ?_
        rw [split']
        simp
      cases op with
      | release s' now' =>
        have more := final front s' now' [] (by simp)
        show (if (run _).active = 1 then now' else (run _).lastcall) = now
        rw [active, if_neg more]
        exact old
      | _ => exact old

/-- Every counter of an entry is a number or an extreme of its history, and `lastcall` the
last moment at which no call was left, for every history with room for `current`. -/
theorem counters_track :
    (∀ ops : List StatOp, Paired ops → Fits ops →
      let e := Entry.run ops
      e.Tracks ops ∧ e.min ≤ e.current ∧ e.current ≤ e.max ∧ e.max ≤ e.peak) ∧
    ∀ ops : List NodeOp, (∀ s, Paired (entry s ops) ∧ Fits (entry s ops)) →
      (∀ s, ((run ops).stats s).Tracks (entry s ops)) ∧ LastCall ops (run ops).lastcall := by
  refine ⟨fun ops paired small => ?_, fun ops room => ⟨fun s => ?_, ?_⟩⟩
  · have tracks := Entry.run_tracks paired small
    exact ⟨tracks, tracks.ordered⟩
  · rw [run_stats]
    exact Entry.run_tracks (room s).1 (room s).2
  · exact run_lastcall (fun s => (room s).1) fun s => (room s).2

theorem counters_track_two :
    let ops : List NodeOp :=
      [.update .incoming, .update .incoming, .period, .release .incoming 7, .release .incoming 9]
    let m := run ops
    (m.stats .incoming).Tracks (entry .incoming ops) ∧ LastCall ops m.lastcall ∧
      m.lastcall = 9 ∧ (m.stats .incoming).pmax = 2 ∧ (m.stats .incoming).min = 0 := by
  intro ops m
  have kept := counters_track.2 ops fun s => by cases s <;> decide
  exact ⟨kept.1 .incoming, kept.2, rfl, rfl, rfl⟩

/-- After as many calls as `total` has values, one after the other, it says that there was
none. -/
theorem not_total :
    ¬ ∀ ops, Paired ops → Fits ops → (Entry.run ops).total.toNat = ops.count .update := by
  intro whole
  have room := calls_room 18446744073709551616
  have total := whole _ room.1 room.2
  rw [(Entry.run_tracks room.1 room.2).total, (unmatched_calls _).2] at total
  exact absurd total (by decide)

end Statmap
end Bayonne
