import Bayonne.Segment.Cycle
import Mathlib.Order.WellFounded

/-! The range forms of `assign`, with the loop that looks for a free timeslot. Its counter is a
machine number, compared with the end of the range by `<=`. -/
namespace Bayonne

namespace Pool
variable {n : Nat} (p : Pool n)

def unused (i : Fin n) : Bool := (p.slot i).mapped.started = 0

/-- The loop of the range forms, for so many turns: the timeslot it breaks at, or none when the
range is over. There is no result while it would go on. -/
def scan (ending : UInt32) : Nat → UInt32 → Option (Option (Fin n))
  | 0, _ => none
  | turns + 1, path =>
    if path ≤ ending then
      match entry n path with
      | some i => if p.unused i then some (some i) else scan ending turns (path + 1)
      | none => scan ending turns (path + 1)
    else some none

def assigned (server : Server) (stat : Stat) (cid : Option Nat) (now : Now) :
    Option (Fin n) → Pool n
  | some i => p.allocate server i (cid.getD i) stat none now
  | none => p

def InRange (starting ending : UInt32) (i : Fin n) : Prop :=
  starting.toNat ≤ i ∧ i ≤ ending.toNat

/-- The timeslot has moved from the free list to the front of the bucket of its call id and is
in a call there, and nothing else has changed. -/
structure Moved (q : Pool n) (lists lists' : Root → List (Fin n)) (i : Fin n) (cid : Nat) : Prop where
  call : q.In lists' i .inCall
  id : (q.slot i).cid = cid
  others : ∀ j, j ≠ i → q.slot j = p.slot j
  free : lists' .timeslots = (lists .timeslots).erase i
  bucket : lists' (.assigned (path cid)) = i :: lists (.assigned (path cid))
  rest : ∀ b, b ≠ path cid → lists' (.assigned b) = lists (.assigned b)

/-- The loop ends, at the first free timeslot of the range, which is moved, or at none when no
timeslot of the range is free, and nothing is changed. -/
def Finds (server : Server) (stat : Stat) (starting ending : UInt32) (cid : Option Nat) (now : Now) :
    Prop :=
  ∃ turns r, p.scan ending turns starting = some r ∧ ∃ lists lists',
    (∀ root, Linked.Chain p.links.next (p.links.root root) (lists root)) ∧
    (∀ root, Linked.Chain (p.assigned server stat cid now r).links.next
      ((p.assigned server stat cid now r).links.root root) (lists' root)) ∧
    match r with
    | some i => InRange starting ending i ∧ p.In lists i .free ∧
        (∀ j, InRange starting ending j → j < i → ¬ p.In lists j .free) ∧
        p.Moved (p.assigned server stat cid now r) lists lists' i (cid.getD i)
    | none => p.assigned server stat cid now r = p ∧
        ∀ j, InRange starting ending j → ¬ p.In lists j .free

variable {p}

theorem entry_of {i : Fin n} {path : UInt32} (same : path.toNat = i) :
    entry n path = some i := by
  have inside : path.toNat < n := same ▸ i.isLt
  rw [entry, dif_pos inside]
  exact congrArg some (Fin.ext same)

theorem succ_toNat {path : UInt32} (small : path.toNat + 1 < UInt32.size) :
    (path + 1).toNat = path.toNat + 1 := by
  rw [UInt32.toNat_add]
  exact Nat.mod_eq_of_lt (by simpa only [UInt32.toNat_one, UInt32.size] using small)

theorem scan_past {ending path : UInt32} (past : ending.toNat < path.toNat) (turns : Nat) :
    p.scan ending (turns + 1) path = some none := by
  have out : ¬ path ≤ ending := fun inside =>
    absurd (UInt32.le_iff_toNat_le.mp inside) (Nat.not_le_of_lt past)
  rw [scan, if_neg out]

theorem scan_turn {ending path : UInt32} {turns : Nat} (inside : path ≤ ending)
    (used : ∀ i : Fin n, path.toNat = i → p.unused i = false) :
    p.scan ending (turns + 1) path = p.scan ending turns (path + 1) := by
  rw [scan, if_pos inside]
  cases here : entry n path with
  | none => rfl
  | some i => simp [used i (entry_some here)]

/-- The loop comes to the first free timeslot of the range, also of the last. -/
theorem scan_some {ending path : UInt32} {i : Fin n} (low : path.toNat ≤ i)
    (high : i ≤ ending.toNat) (free : p.unused i = true)
    (least : ∀ j : Fin n, path.toNat ≤ j → j < i → p.unused j = false) :
    ∃ turns, p.scan ending turns path = some (some i) := by
  obtain ⟨k, hk⟩ : ∃ k, path.toNat + k = i := ⟨i - path.toNat, by omega⟩
  induction k generalizing path with
  | zero =>
    refine ⟨1, ?_⟩
    have inside : path ≤ ending := UInt32.le_iff_toNat_le.mpr (by omega)
    rw [scan, if_pos inside, entry_of hk]
    simp [free]
  | succ k ih =>
    have inside : path ≤ ending := UInt32.le_iff_toNat_le.mpr (by omega)
    have small : path.toNat + 1 < UInt32.size := by
      have last := ending.toNat_lt
      simp only [UInt32.size]
      omega
    have next := succ_toNat small
    obtain ⟨turns, found⟩ := @ih (path + 1) (by omega)
      (fun j hj => least j (by omega)) (by omega)
    refine ⟨turns + 1, ?_⟩
    rw [scan_turn inside fun j hj => least j (Nat.le_of_eq hj) (Fin.lt_def.mpr (by omega))]
    exact found

theorem scan_none {ending path : UInt32} (bounded : ending.toNat + 1 < UInt32.size)
    (low : path.toNat ≤ ending.toNat + 1)
    (used : ∀ j : Fin n, path.toNat ≤ j → j ≤ ending.toNat → p.unused j = false) :
    ∃ turns, p.scan ending turns path = some none := by
  obtain ⟨k, hk⟩ : ∃ k, path.toNat + k = ending.toNat + 1 :=
    ⟨ending.toNat + 1 - path.toNat, by omega⟩
  induction k generalizing path with
  | zero =>
    exact ⟨1, scan_past (by omega) 0⟩
  | succ k ih =>
    have inside : path ≤ ending := UInt32.le_iff_toNat_le.mpr (by omega)
    have next : (path + 1).toNat = path.toNat + 1 := succ_toNat (by omega)
    obtain ⟨turns, ended⟩ := @ih (path + 1) (by omega) (fun j hj => used j (by omega)) (by omega)
    refine ⟨turns + 1, ?_⟩
    rw [scan_turn inside fun j hj => used j (Nat.le_of_eq hj) (by omega)]
    exact ended

theorem scan_mono {ending path : UInt32} {turns more : Nat} {r : Option (Fin n)}
    (enough : p.scan ending turns path = some r) (le : turns ≤ more) :
    p.scan ending more path = some r := by
  induction turns generalizing path more with
  | zero => cases enough
  | succ turns ih =>
    obtain ⟨more, rfl⟩ := Nat.exists_eq_succ_of_ne_zero (by omega : more ≠ 0)
    have le := Nat.le_of_succ_le_succ le
    rw [scan] at enough ⊢
    split
    · rename_i inside
      rw [if_pos inside] at enough
      cases here : entry n path with
      | none =>
        rw [here] at enough
        exact ih enough le
      | some i =>
        rw [here] at enough
        simp only at enough ⊢
        split
        · rename_i free
          rwa [if_pos free] at enough
        · rename_i used
          rw [if_neg used] at enough
          exact ih enough le
    · rename_i out
      rwa [if_neg out] at enough

theorem find_succ (path : UInt32) (count : Nat) :
    (entries n path (count + 1)).find? p.unused =
      match entry n path with
      | some i => if p.unused i then some i else (entries n (path + 1) count).find? p.unused
      | none => (entries n (path + 1) count).find? p.unused := by
  rw [entries_succ]
  cases entry n path with
  | none => rfl
  | some i =>
    simp only [Option.toList_some, List.cons_append, List.nil_append, List.find?_cons]
    cases p.unused i <;> rfl

theorem scan_bounded {ending path : UInt32} {count : Nat} (bounded : ending.toNat + 1 < UInt32.size)
    (length : path.toNat + count = ending.toNat + 1) :
    p.scan ending (count + 1) path = some ((entries n path count).find? p.unused) := by
  induction count generalizing path with
  | zero =>
    exact scan_past (by omega) 0
  | succ count ih =>
    have inside : path ≤ ending := UInt32.le_iff_toNat_le.mpr (by omega)
    have next : (path + 1).toNat = path.toNat + 1 := succ_toNat (by omega)
    have rest := @ih (path + 1) (by omega)
    rw [scan, if_pos inside, find_succ, rest]
    cases entry n path with
    | none => rfl
    | some i => cases h : p.unused i <;> simp [h]

/-- Up to the last number it goes on around all positions. -/
theorem scan_around {ending : UInt32} (last : ending.toNat + 1 = UInt32.size) (turns : Nat)
    (path : UInt32) :
    p.scan ending turns path = ((entries n path turns).find? p.unused).map some := by
  induction turns generalizing path with
  | zero => rfl
  | succ turns ih =>
    have inside : path ≤ ending := by
      have small := path.toNat_lt
      refine UInt32.le_iff_toNat_le.mpr ?_
      simp only [UInt32.size] at last
      omega
    rw [scan, if_pos inside, find_succ, ih (path + 1)]
    cases entry n path with
    | none => rfl
    | some i => cases h : p.unused i <;> simp [h]

theorem entries_around {path : UInt32} {turns : Nat} {i : Fin n} (mem : i ∈ entries n path turns) :
    i ∈ entries n path UInt32.size := by
  obtain ⟨k, -, here⟩ := List.mem_filterMap.mp mem
  refine List.mem_filterMap.mpr ⟨k % UInt32.size, ?_, ?_⟩
  · exact List.mem_range.mpr (Nat.mod_lt k (by decide))
  · have same : UInt32.ofNat (k % UInt32.size) = UInt32.ofNat k := by
      refine UInt32.toNat_inj.mp ?_
      simp only [UInt32.toNat_ofNat', UInt32.size]
      omega
    rw [same]
    exact here

theorem scan_last {ending : UInt32} (last : ending.toNat + 1 = UInt32.size) (turns : Nat)
    (path : UInt32) : p.scan ending turns path ≠ some none := by
  rw [scan_around last]
  cases (entries n path turns).find? p.unused with
  | none => exact fun none => by cases none
  | some i => exact fun found => by cases found

variable {server : Server} {stat : Stat} {starting ending : UInt32} {cid : Option Nat} {now : Now}

theorem unused_iff {lists : Root → List (Fin n)} (v : p.exchange.Valid lists) (i : Fin n) :
    p.unused i = true ↔ p.In lists i .free := by
  constructor
  · intro free
    have phase : (p.exchange.line i).phase = .free := (v.timed i).mpr (of_decide_eq_true free)
    have class' := in_class v i
    rw [idle_of_free phase] at class'
    exact class'
  · intro free
    exact decide_eq_true free.2.2.2

theorem moved {lists : Root → List (Fin n)} (v : p.exchange.Valid lists) {i : Fin n}
    (free : p.unused i = true) (cid : Nat) : ∃ lists',
      (∀ root, Linked.Chain (p.allocate server i cid stat none now).links.next
        ((p.allocate server i cid stat none now).links.root root) (lists' root)) ∧
      p.Moved (p.allocate server i cid stat none now) lists lists' i cid := by
  have phase : (p.exchange.line i).phase = .free := (v.timed i).mpr (of_decide_eq_true free)
  have began := @exchange_allocate n server p i cid stat none now (idle_of_free phase)
  obtain ⟨lists', valid⟩ :=
    @Exchange.Valid.start n server p.exchange lists v i phase cid stat none now
  rw [← began] at valid
  have only :=
    @Exchange.Valid.only_free n p.exchange lists v i (by rw [phase]; exact Phase.noConfusion)
  have fresh : ∀ q, i ∉ Function.update lists .timeslots ((lists .timeslots).erase i) q := by
    intro q hq
    by_cases root : q = .timeslots
    · subst root
      rw [Function.update_self, (v.holds.nodup _).mem_erase_iff] at hq
      exact hq.1 rfl
    · rw [Function.update_of_ne root] at hq
      exact root (only q hq)
  have holds := (v.holds.delist .timeslots i).enlist (.assigned (path cid)) i fresh
  have same : ∀ root, lists' root = Function.update
      (Function.update lists .timeslots ((lists .timeslots).erase i)) (.assigned (path cid))
      (i :: Function.update lists .timeslots ((lists .timeslots).erase i) (.assigned (path cid)))
      root := by
    intro root
    have chain := valid.holds.chain root
    have chain' := holds.chain root
    have links : (p.allocate server i cid stat none now).exchange.links =
        (p.exchange.links.delist .timeslots i).enlist (.assigned (path cid)) i :=
      congrArg Exchange.links began
    rw [← links] at chain'
    exact Linked.Chain.unique chain chain'
  have slot := @slot_allocate n server p i cid stat none now
  refine ⟨lists', valid.holds.chain, ?_, ?_, ?_, ?_, ?_, ?_⟩
  · have idle := idle_of_free phase
    have handler : ((p.allocate server i cid stat none now).slot i).handler = .release := by
      rw [slot, Function.update_self]
      simp [Timeslot.serve, Timeslot.stamp, idle]
    have class' := in_class valid i
    rw [handler] at class'
    exact class'
  · rw [slot, Function.update_self]
    rfl
  · intro j ne
    rw [slot, Function.update_of_ne ne]
  · rw [same, Function.update_of_ne Root.noConfusion, Function.update_self]
  · rw [same, Function.update_self, Function.update_of_ne Root.noConfusion]
  · intro b ne
    rw [same, Function.update_of_ne fun e => ne (Root.assigned.inj e),
      Function.update_of_ne Root.noConfusion]

theorem least_unused (starting ending : UInt32) :
    (∃ i, InRange starting ending i ∧ p.unused i = true ∧
      ∀ j, InRange starting ending j → j < i → p.unused j = false) ∨
    ∀ i, InRange starting ending i → p.unused i = false := by
  by_cases some' : ∃ i : Fin n, InRange starting ending i ∧ p.unused i = true
  · obtain ⟨i, ⟨range, free⟩, least⟩ := WellFounded.has_min (wellFounded_lt (α := Fin n))
      {i | InRange starting ending i ∧ p.unused i = true} some'
    refine .inl ⟨i, range, free, fun j range' lt => Bool.eq_false_iff.mpr fun free' => ?_⟩
    exact least j ⟨range', free'⟩ lt
  · refine .inr fun i range => Bool.eq_false_iff.mpr fun free => some' ⟨i, range, free⟩

theorem finds_some {lists : Root → List (Fin n)} (v : p.exchange.Valid lists) {i : Fin n}
    (range : InRange starting ending i) (free : p.unused i = true)
    (least : ∀ j, InRange starting ending j → j < i → p.unused j = false) :
    p.Finds server stat starting ending cid now := by
  obtain ⟨turns, found⟩ := @scan_some n p ending starting i range.1 range.2 free
    fun j low lt => least j ⟨low, Nat.le_trans (Nat.le_of_lt lt) range.2⟩ lt
  obtain ⟨lists', chains, moved⟩ := @moved n p server stat now lists v i free (cid.getD i)
  refine ⟨turns, some i, found, lists, lists', v.holds.chain, chains, range,
    (unused_iff v i).mp free, fun j range' lt free' => ?_, moved⟩
  have used := least j range' lt
  rw [(unused_iff v j).mpr free'] at used
  cases used

theorem finds_none {lists : Root → List (Fin n)} (v : p.exchange.Valid lists)
    (bounded : ending.toNat + 1 < UInt32.size)
    (used : ∀ i, InRange starting ending i → p.unused i = false) :
    p.Finds server stat starting ending cid now := by
  obtain ⟨turns, ended⟩ : ∃ turns, p.scan ending turns starting = some none := by
    by_cases low : starting.toNat ≤ ending.toNat + 1
    · exact scan_none bounded low fun j low high => used j ⟨low, high⟩
    · exact ⟨1, scan_past (by omega) 0⟩
  refine ⟨turns, none, ended, lists, lists, v.holds.chain, v.holds.chain, rfl, ?_⟩
  intro j range free
  have used := used j range
  rw [(unused_iff v j).mpr free] at used
  cases used

theorem finds_iff (v : p.Valid) : p.Finds server stat starting ending cid now ↔
    ending.toNat + 1 < UInt32.size ∨ ∃ i, InRange starting ending i ∧ p.unused i = true := by
  obtain ⟨lists, v⟩ := v
  constructor
  · rintro ⟨turns, r, found, lists, lists', chains, -, outcome⟩
    by_cases bounded : ending.toNat + 1 < UInt32.size
    · exact .inl bounded
    · have last : ending.toNat + 1 = UInt32.size := by
        have small := ending.toNat_lt
        simp only [UInt32.size] at bounded ⊢
        omega
      cases r with
      | none => exact absurd found (scan_last last turns starting)
      | some i =>
        obtain ⟨range, free, -⟩ := outcome
        exact .inr ⟨i, range, decide_eq_true free.2.2.2⟩
  · intro condition
    rcases @least_unused n p starting ending with ⟨i, range, free, least⟩ | used
    · exact finds_some v range free least
    · rcases condition with bounded | ⟨i, range, free⟩
      · exact finds_none v bounded used
      · rw [used i range] at free
        cases free

theorem scan_unique {path : UInt32} {turns turns' : Nat} {r r' : Option (Fin n)}
    (h : p.scan ending turns path = some r) (h' : p.scan ending turns' path = some r') : r = r' := by
  have left := scan_mono h (Nat.le_max_left turns turns')
  have right := scan_mono h' (Nat.le_max_right turns turns')
  exact Option.some.inj (left.symm.trans right)

/-- The range form of the pool's operations is what the loop and the move come to. -/
theorem assignRange_iff {q : Pool n} : p.assignRange server stat starting ending cid now = some q ↔
    ∃ turns r, p.scan ending turns starting = some r ∧ q = p.assigned server stat cid now r := by
  have small := ending.toNat_lt
  have test : (fun i => decide ((p.slot i).mapped.started = 0)) = p.unused := rfl
  by_cases last : ending.toNat + 1 = UInt32.size
  · have form : p.assignRange server stat starting ending cid now =
        ((entries n starting UInt32.size).find? p.unused).map
          fun i => p.assigned server stat cid now (some i) := by
      simp only [assignRange, if_pos last, test]
      generalize (entries n starting UInt32.size).find? p.unused = r
      cases r <;> rfl
    rw [form]
    constructor
    · intro found
      obtain ⟨i, first, rfl⟩ := Option.map_eq_some_iff.mp found
      exact ⟨UInt32.size, some i, by rw [scan_around last, first]; rfl, rfl⟩
    · rintro ⟨turns, r, found, rfl⟩
      have around := scan_around (p := p) last UInt32.size starting
      cases first : (entries n starting UInt32.size).find? p.unused with
      | none =>
        rw [scan_around last] at found
        obtain ⟨i, here, -⟩ := Option.map_eq_some_iff.mp found
        have used := List.find?_eq_none.mp first i (entries_around (List.mem_of_find?_eq_some here))
        exact absurd (List.find?_some here) used
      | some i =>
        rw [first] at around
        rw [scan_unique found around]
        rfl
  · have bounded : ending.toNat + 1 < UInt32.size := by
      simp only [UInt32.size] at last ⊢
      omega
    have form : p.assignRange server stat starting ending cid now =
        some (p.assigned server stat cid now
          ((entries n starting (ending.toNat + 1 - starting.toNat)).find? p.unused)) := by
      simp only [assignRange, if_neg last, test]
      generalize (entries n starting (ending.toNat + 1 - starting.toNat)).find? p.unused = r
      cases r <;> rfl
    obtain ⟨turns, ended⟩ : ∃ turns, p.scan ending turns starting =
        some ((entries n starting (ending.toNat + 1 - starting.toNat)).find? p.unused) := by
      by_cases low : starting.toNat ≤ ending.toNat + 1
      · exact ⟨_, scan_bounded bounded (by omega)⟩
      · have empty : ending.toNat + 1 - starting.toNat = 0 := by omega
        rw [empty]
        exact ⟨1, scan_past (by omega) 0⟩
    rw [form]
    constructor
    · intro same
      exact ⟨turns, _, ended, (Option.some.inj same).symm⟩
    · rintro ⟨turns', r, found, rfl⟩
      rw [scan_unique found ended]

/-- In every state that operations without SHUTDOWN reach, a range form does what it should just
when the range ends before the last number or has a free timeslot. -/
theorem range_finds_iff (server : Server) (raw : Fin n → Raw) (ops : List (Operation n)) (p : Pool n)
    (ordinary : ∀ op ∈ ops, op.Ordinary)
    (run : Run.exec (operate server) (construct server raw) ops = some p) (stat : Stat)
    (starting ending : UInt32) (cid : Option Nat) (now : Now) :
    p.Finds server stat starting ending cid now ↔
      ending.toNat + 1 < UInt32.size ∨ ∃ i, InRange starting ending i ∧ p.unused i = true :=
  finds_iff (Run.preserved_of_all (fun _ _ _ v ok h => v.operate ok h) (construct_valid raw)
    ordinary run)

def engaged : List (Operation 1) := [.act (.assign none .incoming 5 (tick 0))]

theorem range_finds_engaged : ∃ p, Run.exec (operate .sample)
      (construct .sample fun _ : Fin 1 => ⟨0, .incoming, none, none, none, none⟩) engaged = some p ∧
    p.Finds .sample .outgoing 0 7 none (tick 1) := by
  have finds := range_finds_iff .sample (fun _ : Fin 1 => ⟨0, .incoming, none, none, none, none⟩)
    engaged _ (by decide) rfl .outgoing 0 7 none (tick 1)
  exact ⟨_, rfl, finds.mpr (.inl (by decide))⟩

/-- Asked for any timeslot at all, it does not come back when none is free. -/
theorem not_finds : ¬ ∀ (ops : List (Operation 1)) (p : Pool 1), (∀ op ∈ ops, op.Ordinary) →
    Run.exec (operate .sample)
        (construct .sample fun _ : Fin 1 => ⟨0, .incoming, none, none, none, none⟩) ops = some p →
      ∀ (stat : Stat) (starting ending : UInt32) (cid : Option Nat) (now : Now),
        p.Finds .sample stat starting ending cid now := by
  intro all
  have ordinary : ∀ op ∈ engaged, op.Ordinary := by decide
  have run : Run.exec (operate .sample)
      (construct .sample fun _ : Fin 1 => ⟨0, .incoming, none, none, none, none⟩) engaged =
      some _ := rfl
  have valid := Run.preserved_of_all (fun _ _ _ v ok h => Valid.operate v ok h)
    (construct_valid _) ordinary run
  rcases (finds_iff valid).mp (all engaged _ ordinary run .outgoing 0 4294967295 none (tick 1)) with
    bounded | ⟨i, -, free⟩
  · revert bounded
    decide
  · cases Subsingleton.elim i 0
    revert free
    decide

end Pool

end Bayonne
