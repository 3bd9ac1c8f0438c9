import Bayonne.Uri.Resolver
import Mathlib.Order.WellFounded

/-! The records a caller goes through with `set` and `next`. -/
namespace Bayonne
namespace Uri

variable {α : Type} {L : List (Address α)} {o : Object α}

structure Object.Holds (o : Object α) (L : List (Address α)) : Prop where
  block : ∃ b, o.srvlist = some b ∧ ∀ i, b.cell i = L[i]?
  count : o.count = L.length

/-- What the records stored so far make of the object. -/
structure Object.Filled (o : Object α) (L : List (Address α)) : Prop where
  holds : o.Holds L
  pri : ∀ a, L.getLast? = some a → o.pri = a.priority
  entry : o.entry =
    if L = [] then none else o.srvlist.map fun b => .element b.serial (L.length - 1)

def Object.current (o : Object α) : Option (Address α) :=
  match o.entry, o.srvlist with
  | some (.element serial index), some b => if b.serial = serial then b.cell index else none
  | _, _ => none

theorem Object.Holds.cell (h : o.Holds L) (i : Nat) : o.cell i = L[i]? := by
  obtain ⟨b, found, cells⟩ := h.block
  rw [Object.cell, found]
  exact cells i

theorem current_element (h : o.Holds L) {i : Nat}
    (entry : o.entry = o.srvlist.map fun b => .element b.serial i) : o.current = L[i]? := by
  obtain ⟨b, found, cells⟩ := h.block
  rw [found] at entry
  simp [Object.current, entry, found, cells]

theorem Object.Filled.current (h : o.Filled L) (stored : L ≠ []) : o.current = L.getLast? := by
  have entry := h.entry
  rw [if_neg stored] at entry
  rw [current_element h.holds entry, List.getLast?_eq_getElem?]

theorem filled_allocate (n : Nat) (clear : o.entry = none) (zero : o.count = 0) :
    (o.allocate n).Filled [] where
  holds := ⟨⟨_, rfl, fun i => by simp⟩, zero⟩
  pri := nofun
  entry := clear

theorem filled_store (h : o.Filled L) (addr : α) (weight priority : UInt16) :
    (o.store addr weight priority).Filled (L ++ [⟨addr, weight, priority⟩]) := by
  obtain ⟨b, found, cells⟩ := h.holds.block
  have count := h.holds.count
  refine ⟨⟨⟨_, by rw [Object.store, found]; rfl, fun i => ?_⟩, ?_⟩, fun a last => ?_, ?_⟩
  · by_cases here : i = o.count
    · subst here
      simp [count]
    · have apart : i ≠ L.length := count ▸ here
      simp only [Function.update_of_ne here, cells]
      grind
  · simp [Object.store, count]
  · rw [List.getLast?_concat] at last
    cases last
    rfl
  · simp [Object.store, found, count]

/-- `next` takes the leader of the records from the next priority on. -/
theorem scan_eq (cell : Nat → Option (Address α)) (pri : UInt16) (rest : List (Address α))
    (index : Nat) (node : Option (Address α × Nat)) (cells : ∀ i, cell (index + i) = rest[i]?) :
    scan cell pri rest.length index node =
      some (((rest.zipIdx index).filter fun x => pri ≤ x.1.priority).foldl
        (Leader.pick fun x y => beats x.1 y.1) node) := by
  induction rest generalizing index node with
  | nil => rfl
  | cons a rest ih =>
    have here : cell index = some a := cells 0
    have later : ∀ i, cell (index + 1 + i) = rest[i]? := by
      intro i
      have found := cells (i + 1)
      rwa [List.getElem?_cons_succ, ← Nat.add_assoc, Nat.add_right_comm] at found
    simp only [List.length_cons, scan, here, ih _ _ later, List.zipIdx_cons, List.filter_cons,
      decide_eq_true_eq]
    by_cases low : a.priority < pri
    · rw [if_pos low, if_neg (UInt16.not_le.mpr low)]
    · rw [if_neg low, if_pos (UInt16.not_lt.mp low)]
      rfl

/-- The record that one pass of `next` finds, from a priority on. -/
def lead (L : List (Address α)) (pri : UInt16) : Option (Address α) :=
  Leader.leader beats (L.filter fun x => pri ≤ x.priority)

theorem Object.Holds.next (h : o.Holds L) : ∃ t, o.next = some t ∧ t.Holds L ∧
    t.current = lead L (o.pri + 1) ∧ (t.entry = none ↔ lead L (o.pri + 1) = none) ∧
    ∀ a, lead L (o.pri + 1) = some a → t.pri = a.priority := by
  have cells : ∀ i, o.cell (0 + i) = L[i]? := by
    intro i
    rw [Nat.zero_add]
    exact h.cell i
  have scanned := scan_eq o.cell (o.pri + 1) L 0 none cells
  rw [← h.count] at scanned
  have leads := @Leader.leader_map _ beats _ Prod.fst
    ((L.zipIdx 0).filter fun x => o.pri + 1 ≤ x.1.priority)
  have records : ((L.zipIdx 0).filter fun x => o.pri + 1 ≤ x.1.priority).map Prod.fst =
      L.filter fun x => o.pri + 1 ≤ x.priority := by
    have mapped := @List.filter_map _ _ (Prod.fst : Address α × Nat → Address α)
      (fun x => decide (o.pri + 1 ≤ x.priority)) (L.zipIdx 0)
    rw [List.zipIdx_map_fst] at mapped
    exact mapped.symm
  rw [records] at leads
  rw [lead, ← leads, Object.next, scanned]
  obtain ⟨b, found, cells⟩ := h.block
  cases led : Leader.leader (fun x y : Address α × Nat => beats x.1 y.1)
    ((L.zipIdx 0).filter fun x => o.pri + 1 ≤ x.1.priority) with
  | none =>
    rw [Leader.leader] at led
    rw [led]
    exact ⟨_, rfl, ⟨⟨b, found, cells⟩, h.count⟩, rfl, by simp, fun _ led => by cases led⟩
  | some node =>
    have place : L[node.2]? = some node.1 := by
      have mem := List.mem_of_mem_filter (Leader.leader_mem led)
      exact List.mem_zipIdx_iff_getElem?.mp mem
    rw [Leader.leader] at led
    rw [led]
    refine ⟨_, rfl, ⟨⟨b, found, cells⟩, h.count⟩, ?_, by simp [found], ?_⟩
    · have kept : ({ o with
          pri := node.1.priority
          entry := o.srvlist.map fun b => .element b.serial node.2 } : Object α).Holds L :=
        ⟨⟨b, found, cells⟩, h.count⟩
      exact (current_element kept rfl).trans place
    · rintro a ⟨⟩
      rfl

/-- `next` returns one after another exactly these records, and then null. -/
def Object.Goes (o : Object α) : List (Address α) → Prop
  | [] => ∃ t, o.next = some t ∧ t.entry = none
  | r :: rs => ∃ t, o.next = some t ∧ t.current = some r ∧ t.Goes rs

def Leads (L : List (Address α)) (pri : UInt16) : List (Address α) → Prop
  | [] => lead L (pri + 1) = none
  | r :: rs => lead L (pri + 1) = some r ∧ Leads L r.priority rs

theorem goes_iff {rs : List (Address α)} (h : o.Holds L) : o.Goes rs ↔ Leads L o.pri rs := by
  induction rs generalizing o with
  | nil =>
    obtain ⟨t, stepped, -, -, entry, -⟩ := h.next
    simp [Object.Goes, Leads, stepped, entry]
  | cons r rs ih =>
    obtain ⟨t, stepped, holds, current, -, pri⟩ := h.next
    rw [Object.Goes, Leads, ← current]
    constructor
    · rintro ⟨t', again, found, goes⟩
      cases stepped.symm.trans again
      refine ⟨found, ?_⟩
      rw [← pri r (current ▸ found)]
      exact (ih holds).mp goes
    · rintro ⟨found, leads⟩
      refine ⟨t, stepped, found, (ih holds).mpr ?_⟩
      rw [pri r (current ▸ found)]
      exact leads

def Heaviest (L : List (Address α)) (r : Address α) : Prop :=
  r ∈ L ∧ ∀ s ∈ L, s.priority = r.priority → s.weight ≤ r.weight

/-- One of the heaviest records for each priority from a set of them, in increasing order. -/
structure Ranked (L : List (Address α)) (above : UInt16 → Prop) (rs : List (Address α)) :
    Prop where
  increasing : rs.Pairwise fun r s => r.priority < s.priority
  heaviest : ∀ r ∈ rs, Heaviest L r ∧ above r.priority
  all : ∀ s ∈ L, above s.priority → ∃ r ∈ rs, r.priority = s.priority

/-- The caller first gets a record of the lowest priority, then one for each further
priority in order, and then nothing. -/
def Object.FailsOver (o : Object α) (L : List (Address α)) : Prop :=
  ∃ r rs, Ranked L (fun _ => True) (r :: rs) ∧ o.current = some r ∧ o.Goes rs

/-- No record that follows all the heaviest of a priority, and ranks behind them, has a
higher weight. -/
def Settled (L : List (Address α)) (r : Address α) : Prop :=
  ∃ pre b post, L = pre ++ b :: post ∧ b.priority = r.priority ∧ b.weight = r.weight ∧
    ∀ s ∈ post, r.priority < s.priority → s.weight ≤ r.weight

structure Ordered (L : List (Address α)) : Prop where
  last : ∃ r, L.getLast? = some r ∧ Heaviest L r ∧ ∀ s ∈ L, r.priority ≤ s.priority
  settled : ∀ r, Heaviest L r → Settled L r
  below : ∀ s ∈ L, s.priority ≠ 65535

theorem lead_iff {pri : UInt16} {r : Address α} (heaviest : Heaviest L r) (high : pri ≤ r.priority)
    (lowest : ∀ s ∈ L, pri ≤ s.priority → r.priority ≤ s.priority) :
    (∃ a, lead L pri = some a ∧ a.priority = r.priority ∧ a.weight = r.weight) ↔
      Settled L r := by
  have win : ∀ a ∈ L.filter (fun x => pri ≤ x.priority),
      ∀ b ∈ L.filter (fun x => pri ≤ x.priority),
      (a.priority = r.priority ∧ a.weight = r.weight) →
      ¬ (b.priority = r.priority ∧ b.weight = r.weight) → beats a b = true := by
    rintro a - b hb ⟨ap, aw⟩ low
    obtain ⟨mem, reach⟩ := List.mem_filter.mp hb
    have least := lowest b mem (of_decide_eq_true reach)
    rw [beats, ap, aw, Bool.or_eq_true, decide_eq_true_eq, decide_eq_true_eq]
    by_cases same : b.priority = r.priority
    · have other : b.weight ≠ r.weight := fun equal => low ⟨same, equal⟩
      exact .inr (UInt16.lt_of_le_of_ne (heaviest.2 b mem same) other)
    · exact .inl (UInt16.lt_of_le_of_ne least (Ne.symm same))
  have alike : ∀ a b s : Address α, (a.priority = r.priority ∧ a.weight = r.weight) →
      (b.priority = r.priority ∧ b.weight = r.weight) → beats s a = beats s b := by
    rintro a b s ⟨ap, aw⟩ ⟨bp, bw⟩
    rw [beats, beats, ap, aw, bp, bw]
  have top := Leader.leader_top win alike
  rw [lead, top]
  have lost : ∀ s ∈ L, pri ≤ s.priority → ∀ b : Address α, b.priority = r.priority →
      b.weight = r.weight → (beats s b = false ↔ s.weight ≤ r.weight) := by
    intro s mem reach b bp bw
    have least := UInt16.not_lt.mpr (lowest s mem reach)
    simp [beats, bp, bw, least]
  constructor
  · rintro ⟨pre, b, post, split, ⟨bp, bw⟩, later⟩
    obtain ⟨front, back, rfl, rfl, filtered⟩ := List.filter_eq_append_iff.mp split
    obtain ⟨skipped, rest, rfl, -, kept, rfl⟩ := List.filter_eq_cons_iff.mp filtered
    refine ⟨front ++ skipped, b, rest, by simp, bp, bw, fun s hs behind => ?_⟩
    have reach : pri ≤ s.priority := UInt16.le_trans high (UInt16.le_of_lt behind)
    have mem : s ∈ front ++ (skipped ++ b :: rest) := by simp [hs]
    refine (lost s mem reach b bp bw).mp (later s ?_ ?_)
    · exact List.mem_filter.mpr ⟨hs, decide_eq_true reach⟩
    · rintro ⟨same, -⟩
      rw [same] at behind
      exact UInt16.lt_irrefl _ behind
  · rintro ⟨pre, b, post, rfl, bp, bw, later⟩
    have kept : pri ≤ b.priority := bp ▸ high
    refine ⟨pre.filter fun x => pri ≤ x.priority, b, post.filter fun x => pri ≤ x.priority,
      ?_, ⟨bp, bw⟩, fun s hs _ => ?_⟩
    · simp [kept]
    · obtain ⟨hs, reach⟩ := List.mem_filter.mp hs
      have reach := of_decide_eq_true reach
      have mem : s ∈ pre ++ b :: post := by simp [hs]
      refine (lost s mem reach b bp bw).mpr ?_
      by_cases same : s.priority = r.priority
      · exact heaviest.2 s mem same
      · exact later s hs (UInt16.lt_of_le_of_ne (lowest s mem reach) (Ne.symm same))

theorem exists_first {keep : UInt16 → Prop} (found : ∃ s ∈ L, keep s.priority) :
    ∃ r, Heaviest L r ∧ keep r.priority ∧
      ∀ s ∈ L, keep s.priority → r.priority ≤ s.priority := by
  -- the least of a number that has the priority in front of the weight
  obtain ⟨r, ⟨mem, kept⟩, least⟩ := (measure fun s : Address α =>
    65536 * s.priority.toNat + (65535 - s.weight.toNat)).wf.has_min
    {s | s ∈ L ∧ keep s.priority} found
  have rank : ∀ s ∈ L, keep s.priority → r.priority ≤ s.priority ∧
      (s.priority = r.priority → s.weight ≤ r.weight) := by
    intro s hs keeps
    have key : 65536 * r.priority.toNat + (65535 - r.weight.toNat) ≤
        65536 * s.priority.toNat + (65535 - s.weight.toNat) :=
      Nat.not_lt.mp (least s ⟨hs, keeps⟩)
    have small := r.weight.toNat_lt
    have small' := s.weight.toNat_lt
    refine ⟨UInt16.le_iff_toNat_le.mpr (by omega), fun same => UInt16.le_iff_toNat_le.mpr ?_⟩
    rw [same] at key
    omega
  exact ⟨r, ⟨mem, fun s hs same => (rank s hs (same ▸ kept)).2 same⟩, kept,
    fun s hs keeps => (rank s hs keeps).1⟩

theorem succ_le_iff {p q : UInt16} (h : p ≠ 65535) : p + 1 ≤ q ↔ p < q := by
  rw [UInt16.le_iff_toNat_le, UInt16.lt_iff_toNat_lt, UInt16.toNat_add]
  have small := p.toNat_lt
  have other : p.toNat ≠ 65535 := fun same => h (UInt16.toNat_inj.mp same)
  rw [show (1 : UInt16).toNat = 1 from rfl, Nat.mod_eq_of_lt (by omega)]
  omega

theorem ne_last_of_lt {p q : UInt16} (h : p < q) : p ≠ 65535 := by
  rintro rfl
  have high := UInt16.lt_iff_toNat_lt.mp h
  have small := q.toNat_lt
  rw [show (65535 : UInt16).toNat = 65535 from rfl] at high
  omega

theorem Heaviest.weight_eq {r a : Address α} (hr : Heaviest L r) (ha : Heaviest L a)
    (same : a.priority = r.priority) : a.weight = r.weight :=
  UInt16.le_antisymm (hr.2 a ha.1 same) (ha.2 r hr.1 same.symm)

section Ranked
variable {above : UInt16 → Prop} {a : Address α} {rs : List (Address α)}

theorem Ranked.cons (h : Ranked L (a.priority < ·) rs) (heaviest : Heaviest L a)
    (high : above a.priority) (up : ∀ x, a.priority < x → above x)
    (lowest : ∀ s ∈ L, above s.priority → a.priority ≤ s.priority) : Ranked L above (a :: rs) where
  increasing := List.pairwise_cons.mpr ⟨fun s hs => (h.heaviest s hs).2, h.increasing⟩
  heaviest := by
    intro s hs
    rcases List.mem_cons.mp hs with rfl | hs
    · exact ⟨heaviest, high⟩
    · exact ⟨(h.heaviest s hs).1, up _ (h.heaviest s hs).2⟩
  all := by
    intro s hs keeps
    by_cases same : s.priority = a.priority
    · exact ⟨a, List.mem_cons_self, same.symm⟩
    · obtain ⟨t, ht, equal⟩ := h.all s hs
        (UInt16.lt_of_le_of_ne (lowest s hs keeps) (Ne.symm same))
      exact ⟨t, List.mem_cons_of_mem a ht, equal⟩

theorem Ranked.lowest (h : Ranked L above (a :: rs)) {s : Address α} (hs : s ∈ L)
    (keeps : above s.priority) : a.priority ≤ s.priority := by
  obtain ⟨t, ht, same⟩ := h.all s hs keeps
  rcases List.mem_cons.mp ht with rfl | ht
  · exact UInt16.le_of_eq same
  · exact same ▸ UInt16.le_of_lt (List.rel_of_pairwise_cons h.increasing ht)

theorem Ranked.tail (h : Ranked L above (a :: rs)) (up : ∀ x, a.priority < x → above x) :
    Ranked L (a.priority < ·) rs where
  increasing := (List.pairwise_cons.mp h.increasing).2
  heaviest := fun s hs => ⟨(h.heaviest s (List.mem_cons_of_mem a hs)).1,
    (List.pairwise_cons.mp h.increasing).1 s hs⟩
  all := by
    intro s hs behind
    obtain ⟨t, ht, same⟩ := h.all s hs (up _ behind)
    rcases List.mem_cons.mp ht with rfl | ht
    · rw [same] at behind
      exact absurd behind (UInt16.lt_irrefl _)
    · exact ⟨t, ht, same⟩

end Ranked

/-- From a record on, `next` does well if all that rank behind it are settled. -/
theorem exists_leads (settled : ∀ r, Heaviest L r → Settled L r)
    (below : ∀ s ∈ L, s.priority ≠ 65535) (p : UInt16) (inside : p ≠ 65535) :
    ∃ rs, Leads L p rs ∧ Ranked L (p < ·) rs := by
  induction left : 65535 - p.toNat using Nat.strong_induction_on generalizing p with
  | _ n ih =>
    by_cases more : ∃ s ∈ L, p < s.priority
    · obtain ⟨r, heaviest, high, lowest⟩ := exists_first more
      have reach : p + 1 ≤ r.priority := (succ_le_iff inside).mpr high
      obtain ⟨a, led, ap, aw⟩ := (lead_iff heaviest reach fun s hs keeps =>
        lowest s hs ((succ_le_iff inside).mp keeps)).mpr (settled r heaviest)
      have mem : a ∈ L := List.mem_of_mem_filter (Leader.leader_mem led)
      have top : Heaviest L a := by
        refine ⟨mem, fun s hs same => ?_⟩
        rw [aw]
        exact heaviest.2 s hs (same.trans ap)
      rw [← ap] at high lowest
      have high' := UInt16.lt_iff_toNat_lt.mp high
      have small := a.priority.toNat_lt
      obtain ⟨rs, leads, ranked⟩ := ih (65535 - a.priority.toNat) (by omega) a.priority
        (below a mem) rfl
      exact ⟨a :: rs, ⟨led, leads⟩,
        ranked.cons top high (fun x hx => UInt16.lt_trans high hx) lowest⟩
    · refine ⟨[], ?_, .nil, nofun, fun s hs behind => absurd ⟨s, hs, behind⟩ more⟩
      refine Leader.leader_eq_none.mpr (List.filter_eq_nil_iff.mpr fun s hs reach => ?_)
      exact more ⟨s, hs, (succ_le_iff inside).mp (of_decide_eq_true reach)⟩

theorem below_of_leads (stored : L ≠ []) {p : UInt16} {rs : List (Address α)}
    (leads : Leads L p rs) (ranked : Ranked L (p < ·) rs) :
    p ≠ 65535 ∧ ∀ s ∈ L, p < s.priority → s.priority ≠ 65535 := by
  induction rs generalizing p with
  | nil =>
    refine ⟨?_, fun s hs behind => ?_⟩
    · rintro rfl
      have none := List.filter_eq_nil_iff.mp (Leader.leader_eq_none.mp leads)
      refine stored (List.eq_nil_iff_forall_not_mem.mpr fun s hs => none s hs ?_)
      exact decide_eq_true (UInt16.zero_le)
    · obtain ⟨t, ht, -⟩ := ranked.all s hs behind
      cases ht
  | cons a rs ih =>
    have high := (ranked.heaviest a List.mem_cons_self).2
    have rest := ranked.tail fun x hx => UInt16.lt_trans high hx
    obtain ⟨inside, below⟩ := ih leads.2 rest
    refine ⟨ne_last_of_lt high, fun s hs behind => ?_⟩
    by_cases same : s.priority = a.priority
    · rw [same]
      exact inside
    · exact below s hs (UInt16.lt_of_le_of_ne (ranked.lowest hs behind) (Ne.symm same))

theorem settled_of_leads {p : UInt16} {rs : List (Address α)} (inside : p ≠ 65535)
    (leads : Leads L p rs) (ranked : Ranked L (p < ·) rs) {r : Address α}
    (heaviest : Heaviest L r) (behind : p < r.priority) : Settled L r := by
  induction rs generalizing p with
  | nil =>
    obtain ⟨t, ht, -⟩ := ranked.all r heaviest.1 behind
    cases ht
  | cons a rs ih =>
    obtain ⟨top, high⟩ := ranked.heaviest a List.mem_cons_self
    by_cases same : a.priority = r.priority
    · refine (lead_iff heaviest ((succ_le_iff inside).mpr behind) fun s hs reach => ?_).mp
        ⟨a, leads.1, same, heaviest.weight_eq top same⟩
      rw [← same]
      exact ranked.lowest hs ((succ_le_iff inside).mp reach)
    · have further := UInt16.lt_of_le_of_ne (ranked.lowest heaviest.1 behind) same
      exact ih (ne_last_of_lt further) leads.2 (ranked.tail fun x hx => UInt16.lt_trans high hx)
        further

/-- `set` and `next` lead through the records as they should exactly when the last record is
one that should come first, none that ranks behind others follows all the heaviest of them
with a higher weight, and no priority is the highest there is. -/
theorem failsOver_iff (filled : o.Filled L) (stored : L ≠ []) : o.FailsOver L ↔ Ordered L := by
  have current := filled.current stored
  constructor
  · rintro ⟨r, rs, ranked, found, goes⟩
    rw [current] at found
    have leads := (goes_iff filled.holds).mp goes
    rw [filled.pri r found] at leads
    have rest := ranked.tail fun _ _ => trivial
    obtain ⟨inside, below⟩ := below_of_leads stored leads rest
    have lowest : ∀ s ∈ L, r.priority ≤ s.priority := fun s hs => ranked.lowest hs trivial
    have top := (ranked.heaviest r List.mem_cons_self).1
    refine ⟨⟨r, found, top, lowest⟩, fun s heaviest => ?_, fun s hs => ?_⟩
    · by_cases same : r.priority = s.priority
      · obtain ⟨pre, rfl⟩ := List.getLast?_eq_some_iff.mp found
        exact ⟨pre, r, [], rfl, same, heaviest.weight_eq top same, nofun⟩
      · exact settled_of_leads inside leads rest heaviest
          (UInt16.lt_of_le_of_ne (lowest s heaviest.1) same)
    · by_cases same : r.priority = s.priority
      · rw [← same]
        exact inside
      · exact below s hs (UInt16.lt_of_le_of_ne (lowest s hs) same)
  · intro order
    obtain ⟨r, found, top, lowest⟩ := order.last
    obtain ⟨rs, leads, ranked⟩ := exists_leads order.settled order.below r.priority
      (order.below r top.1)
    refine ⟨r, rs, ?_, current.trans found, (goes_iff filled.holds).mpr ?_⟩
    · exact ranked.cons top trivial (fun _ _ => trivial) fun s hs _ => lowest s hs
    · rwa [filled.pri r found]

def offers : List (Address Nat) := [⟨1, 5, 20⟩, ⟨2, 1, 10⟩, ⟨3, 7, 10⟩]

def holding (L : List (Address α)) : Object α :=
  L.foldl (fun o a => o.store a.addr a.weight a.priority)
    (Object.allocate ⟨none, none, none, 0, 0, 0⟩ L.length)

theorem filled_holding (L : List (Address α)) : (holding L).Filled L := by
  have run : ∀ (l stored : List (Address α)) (o : Object α), o.Filled stored →
      (l.foldl (fun o a => o.store a.addr a.weight a.priority) o).Filled (stored ++ l) := by
    intro l
    induction l with
    | nil =>
      intro stored o filled
      rwa [List.append_nil]
    | cons a l ih =>
      intro stored o filled
      have next := ih _ _ (filled_store filled a.addr a.weight a.priority)
      rwa [List.append_assoc] at next
  exact run L [] _ (filled_allocate L.length rfl rfl)

theorem ordered_offers : Ordered offers where
  last := ⟨⟨3, 7, 10⟩, rfl, by simp [Heaviest, offers], by simp [offers]⟩
  settled := by
    intro r heaviest
    obtain ⟨mem, most⟩ := heaviest
    have cases : r = ⟨1, 5, 20⟩ ∨ r = ⟨2, 1, 10⟩ ∨ r = ⟨3, 7, 10⟩ := by simpa [offers] using mem
    rcases cases with rfl | rfl | rfl
    · exact ⟨[], _, [⟨2, 1, 10⟩, ⟨3, 7, 10⟩], rfl, rfl, rfl, by simp⟩
    · exact absurd (most ⟨3, 7, 10⟩ (by simp [offers]) rfl) (by decide)
    · exact ⟨[⟨1, 5, 20⟩, ⟨2, 1, 10⟩], _, [], rfl, rfl, rfl, by simp⟩
  below := by simp [offers]

theorem failsOver_iff_offers : (holding offers).FailsOver offers :=
  (failsOver_iff (filled_holding offers) (by decide)).mpr ordered_offers

/-- In the order of their priorities, the second of two records is the first choice. -/
theorem not_failsOver : ¬ ∀ (L : List (Address Nat)) (o : Object Nat), o.Filled L → L ≠ [] →
    o.FailsOver L := by
  intro whole
  have filled := filled_holding [(⟨1, 0, 1⟩ : Address Nat), ⟨2, 0, 2⟩]
  obtain ⟨r, rs, ranked, found, -⟩ := whole _ _ filled (by decide)
  rw [filled.current (by decide)] at found
  cases found
  have least := ranked.lowest List.mem_cons_self trivial
  exact absurd least (by decide)

end Uri
end Bayonne
