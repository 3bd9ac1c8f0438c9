import Mathlib.Data.Fintype.Card
import Mathlib.Data.List.Nodup
import Mathlib.Logic.Function.Basic

/-! Intrusive singly linked lists. Every node carries one link field, and all roots
share it, so a node can be on one list at a time. A list is what following the
links from its root visits; nothing here assumes that the walk ends. -/
namespace Linked

universe u v
variable {ι : Type u} {ρ : Type v}

/-- The nodes visited from a head pointer, up to the null link. -/
inductive Chain (next : ι → Option ι) : Option ι → List ι → Prop where
  | nil : Chain next none []
  | cons {x : ι} {xs : List ι} : Chain next (next x) xs → Chain next (some x) (x :: xs)

@[simp] theorem chain_nil {next : ι → Option ι} {h : Option ι} :
    Chain next h [] ↔ h = none := by
  constructor
  · intro hx; cases hx; rfl
  · rintro rfl; exact .nil

@[simp] theorem chain_cons {next : ι → Option ι} {h : Option ι} {x : ι} {xs : List ι} :
    Chain next h (x :: xs) ↔ h = some x ∧ Chain next (next x) xs := by
  constructor
  · intro hx
    cases hx with
    | cons rest => exact ⟨rfl, rest⟩
  · rintro ⟨rfl, rest⟩; exact .cons rest

theorem Chain.unique {next : ι → Option ι} {h : Option ι} {xs ys : List ι}
    (hx : Chain next h xs) (hy : Chain next h ys) : xs = ys := by
  induction hx generalizing ys with
  | nil => cases hy; rfl
  | cons _ ih =>
    cases hy with
    | cons hy => rw [ih hy]

theorem Chain.frame {next next' : ι → Option ι} {h : Option ι} {xs : List ι}
    (hx : Chain next h xs) (same : ∀ x ∈ xs, next' x = next x) : Chain next' h xs := by
  induction hx with
  | nil => exact .nil
  | @cons x xs _ ih =>
    refine .cons ?_
    rw [same x List.mem_cons_self]
    exact ih fun y hy => same y (List.mem_cons_of_mem x hy)

theorem Chain.suffix {next : ι → Option ι} {x : ι} {post : List ι} :
    ∀ {h : Option ι} {pre : List ι}, Chain next h (pre ++ x :: post) → Chain next (next x) post
  | _, [], .cons hp => hp
  | _, _ :: _, .cons hp => hp.suffix

variable [DecidableEq ι] [DecidableEq ρ]

structure Links (ρ : Type v) (ι : Type u) where
  next : ι → Option ι
  root : ρ → Option ι

def Links.enlist (s : Links ρ ι) (r : ρ) (x : ι) : Links ρ ι where
  next := Function.update s.next x (s.root r)
  root := Function.update s.root r (some x)

def Links.skip (s : Links ρ ι) (r : ρ) (x : ι) : Links ρ ι where
  next := s.next
  root := Function.update s.root r (s.next x)

def before (next : ι → Option ι) (x : ι) : Nat → ι → Option ι
  | 0, _ => none
  | fuel + 1, y =>
    match next y with
    | none => none
    | some z => if z = x then some y else before next x fuel z

/-- Walk from the root and unlink the node if the walk meets it. The walk visits no
node twice before it meets `x`, so the number of nodes bounds it. -/
def Links.delist [Fintype ι] (s : Links ρ ι) (r : ρ) (x : ι) : Links ρ ι :=
  match s.root r with
  | none => s
  | some y =>
    if y = x then s.skip r x
    else match before s.next x (Fintype.card ι) y with
      | none => s
      | some p => { s with next := Function.update s.next p (s.next x) }

def find (next : ι → Option ι) (p : ι → Bool) : Nat → Option ι → Option ι
  | _, none => none
  | 0, some _ => none
  | fuel + 1, some x => if p x then some x else find next p fuel (next x)

omit [DecidableEq ι] in
theorem find_some {next : ι → Option ι} {p : ι → Bool} {x : ι} :
    ∀ {fuel : Nat} {h : Option ι}, find next p fuel h = some x → p x = true
  | 0, none, found | 0, some _, found | _ + 1, none, found => by cases found
  | fuel + 1, some y, found => by
    simp only [find] at found
    split at found
    · cases found
      assumption
    · exact find_some found

omit [DecidableEq ι] in
theorem find_chain {next : ι → Option ι} (p : ι → Bool) {h : Option ι} {xs : List ι}
    (hx : Chain next h xs) (fuel : Nat) (enough : xs.length ≤ fuel) :
    find next p fuel h = xs.find? p := by
  induction hx generalizing fuel with
  | nil => cases fuel <;> rfl
  | @cons x xs _ ih =>
    cases fuel with
    | zero => simp at enough
    | succ fuel =>
      have shorter : xs.length ≤ fuel := by simpa using enough
      simp only [find, List.find?_cons, ih fuel shorter]
      cases p x <;> rfl

def prec (x : ι) : List ι → Option ι
  | y :: z :: l => if z = x then some y else prec x (z :: l)
  | _ => none

theorem before_chain {next : ι → Option ι} (x : ι) :
    ∀ {fuel : Nat} {y : ι} {ys : List ι}, Chain next (next y) ys → ys.length ≤ fuel →
      before next x fuel y = prec x (y :: ys)
  | 0, _, [], _, _ => rfl
  | fuel + 1, y, [], hy, _ => by
    simp only [before, chain_nil.mp hy, prec]
  | fuel + 1, y, z :: ys, hy, enough => by
    obtain ⟨link, rest⟩ := chain_cons.mp hy
    have shorter : ys.length ≤ fuel := by simpa using enough
    simp only [before, link, prec, before_chain x rest shorter]

theorem prec_mem {x p : ι} : ∀ {l : List ι}, prec x l = some p → p ∈ l
  | y :: z :: l, h => by
    simp only [prec] at h
    split at h
    · cases h; exact List.mem_cons_self
    · exact List.mem_cons_of_mem y (prec_mem h)

theorem prec_eq_none {x : ι} : ∀ {y : ι} {l : List ι}, prec x (y :: l) = none ↔ x ∉ l
  | _, [] => by simp [prec]
  | y, z :: l => by
    by_cases hz : z = x
    · simp [prec, hz]
    · simp only [prec, if_neg hz, prec_eq_none, List.mem_cons, not_or]
      exact ⟨fun h => ⟨Ne.symm hz, h⟩, And.right⟩

theorem Chain.unlink {next : ι → Option ι} {x p : ι} :
    ∀ {l : List ι} {h : Option ι}, Chain next h l → l.Nodup → prec x l = some p →
      Chain (Function.update next p (next x)) h (l.erase x)
  | y :: z :: l, h, whole, nodup, hp => by
    obtain ⟨rfl, hy⟩ := chain_cons.mp whole
    obtain ⟨fresh, tail⟩ := List.nodup_cons.mp nodup
    have hyx : y ≠ x := by
      rintro rfl
      rw [prec_eq_none.mpr fresh] at hp
      cases hp
    rw [List.erase_cons_tail (by simpa using hyx)]
    refine .cons ?_
    simp only [prec] at hp
    split at hp
    · rename_i hz
      cases hp
      subst hz
      rw [Function.update_self, List.erase_cons_head]
      have rest := (chain_cons.mp hy).2
      refine rest.frame fun w hw => ?_
      have hw : w ≠ p := fun e => fresh (e ▸ List.mem_cons_of_mem z hw)
      rw [Function.update_of_ne hw]
    · have hpy : y ≠ p := fun e => fresh (e ▸ prec_mem hp)
      rw [Function.update_of_ne hpy]
      exact hy.unlink tail hp

/-- What the roots hold: a node is on one list at most, and there once. -/
structure Holds (s : Links ρ ι) (lists : ρ → List ι) : Prop where
  chain : ∀ r, Chain s.next (s.root r) (lists r)
  nodup : ∀ r, (lists r).Nodup
  apart : ∀ r q x, x ∈ lists r → x ∈ lists q → r = q

omit [DecidableEq ι] [DecidableEq ρ] in
theorem Holds.head_mem {s : Links ρ ι} {lists : ρ → List ι} (h : Holds s lists) {r : ρ} {x : ι}
    (head : s.root r = some x) : x ∈ lists r := by
  have chain := h.chain r
  rw [head] at chain
  cases hl : lists r with
  | nil => rw [hl] at chain; cases chain
  | cons y ys =>
    rw [hl, chain_cons] at chain
    cases chain.1
    exact List.mem_cons_self

theorem Holds.enlist {s : Links ρ ι} {lists : ρ → List ι} (h : Holds s lists) (r : ρ) (x : ι)
    (fresh : ∀ q, x ∉ lists q) :
    Holds (s.enlist r x) (Function.update lists r (x :: lists r)) := by
  have keep : ∀ q, Chain (Function.update s.next x (s.root r)) (s.root q) (lists q) := fun q =>
    (h.chain q).frame fun y hy => by
      have ne : y ≠ x := fun e => fresh q (e ▸ hy)
      rw [Function.update_of_ne ne]
  constructor
  · intro q
    by_cases hq : q = r
    · subst hq
      simpa [Links.enlist] using keep q
    · simpa [Links.enlist, hq] using keep q
  · intro q
    by_cases hq : q = r
    · subst hq
      simpa using ⟨fresh q, h.nodup q⟩
    · simpa [hq] using h.nodup q
  · intro q q' y hy hy'
    have origin : ∀ {k}, y ∈ Function.update lists r (x :: lists r) k →
        (y = x ∧ k = r) ∨ y ∈ lists k := by
      intro k hk
      by_cases hkr : k = r
      · subst hkr
        rw [Function.update_self] at hk
        exact (List.mem_cons.mp hk).imp (fun e => ⟨e, rfl⟩) id
      · rw [Function.update_of_ne hkr] at hk
        exact Or.inr hk
    rcases origin hy with ⟨hyx, hq⟩ | hq <;> rcases origin hy' with ⟨hyx', hq'⟩ | hq'
    · rw [hq, hq']
    · exact absurd (hyx ▸ hq') (fresh q')
    · exact absurd (hyx' ▸ hq) (fresh q)
    · exact h.apart q q' y hq hq'

omit [DecidableEq ι] in
theorem Holds.shrink {s t : Links ρ ι} {lists : ρ → List ι} (h : Holds s lists) (r : ρ)
    {l : List ι} (sub : l.Sublist (lists r)) (here : Chain t.next (t.root r) l)
    (others : ∀ q, q ≠ r → Chain t.next (t.root q) (lists q)) :
    Holds t (Function.update lists r l) := by
  have inside : ∀ q y, y ∈ Function.update lists r l q → y ∈ lists q := by
    intro q y hy
    by_cases hq : q = r
    · subst hq
      rw [Function.update_self] at hy
      exact sub.subset hy
    · rwa [Function.update_of_ne hq] at hy
  constructor
  · intro q
    by_cases hq : q = r
    · subst hq; simpa using here
    · simpa [hq] using others q hq
  · intro q
    by_cases hq : q = r
    · subst hq; simpa using (h.nodup q).sublist sub
    · simpa [hq] using h.nodup q
  · intro q q' y hy hy'
    exact h.apart q q' y (inside q y hy) (inside q' y hy')

omit [DecidableEq ι] in
theorem Holds.skip {s : Links ρ ι} {lists : ρ → List ι} (h : Holds s lists) (r : ρ) (x : ι)
    {pre post : List ι} (split : lists r = pre ++ x :: post) :
    Holds (s.skip r x) (Function.update lists r post) := by
  refine h.shrink r ?_ ?_ fun q hq => ?_
  · rw [split]
    exact (List.sublist_cons_self x post).trans (List.sublist_append_right pre _)
  · have whole := h.chain r
    rw [split] at whole
    simpa [Links.skip] using whole.suffix
  · simpa [Links.skip, hq] using h.chain q

variable [Fintype ι]

theorem delist_head {s : Links ρ ι} {r : ρ} {x : ι} (head : s.root r = some x) :
    s.delist r x = s.skip r x := by
  simp only [Links.delist, head, if_true]

theorem Holds.delist {s : Links ρ ι} {lists : ρ → List ι} (h : Holds s lists) (r : ρ) (x : ι) :
    Holds (s.delist r x) (Function.update lists r ((lists r).erase x)) := by
  cases hl : lists r with
  | nil =>
    have root : s.root r = none := by simpa [hl] using h.chain r
    have same : Function.update lists r ([].erase x) = lists := by
      rw [List.erase_nil, ← hl, Function.update_eq_self]
    rw [same]
    simpa only [Links.delist, root] using h
  | cons y ys =>
    have chain := h.chain r
    have nodup := h.nodup r
    rw [hl] at chain nodup
    obtain ⟨root, rest⟩ := chain_cons.mp chain
    by_cases hyx : y = x
    · subst hyx
      rw [List.erase_cons_head, delist_head root]
      have split : lists r = [] ++ y :: ys := hl
      exact h.skip r y split
    · have bound : ys.length ≤ Fintype.card ι :=
        (List.Nodup.length_le_card (List.nodup_cons.mp nodup).2)
      have walk := before_chain x rest bound
      cases hp : prec x (y :: ys) with
      | none =>
        have absent : x ∉ y :: ys := by
          simp only [List.mem_cons, not_or]
          exact ⟨Ne.symm hyx, prec_eq_none.mp hp⟩
        have same : Function.update lists r ((y :: ys).erase x) = lists := by
          rw [List.erase_of_not_mem absent, ← hl, Function.update_eq_self]
        rw [same]
        simpa only [Links.delist, root, if_neg hyx, walk, hp] using h
      | some p =>
        have eq : s.delist r x = { s with next := Function.update s.next p (s.next x) } := by
          simp only [Links.delist, root, if_neg hyx, walk, hp]
        rw [eq]
        refine h.shrink r ?_ ?_ fun q hq => ?_
        · rw [hl]; exact List.erase_sublist
        · exact chain.unlink nodup hp
        · refine (h.chain q).frame fun w hw => Function.update_of_ne ?_ _ _
          rintro rfl
          exact hq (h.apart q r w hw (hl ▸ prec_mem hp))

omit [Fintype ι] in
theorem Holds.insert {s : Links ρ ι} {lists : ρ → List ι} (h : Holds s lists) {x : ι}
    (fresh : ∀ q, x ∉ lists q) (r : ρ) :
    ∃ lists', Holds (s.enlist r x) lists' ∧
      ∀ q y, y ∈ lists' q ↔ y ≠ x ∧ y ∈ lists q ∨ y = x ∧ q = r := by
  refine ⟨_, h.enlist r x fresh, fun q y => ?_⟩
  have ne : y ∈ lists q → y ≠ x := fun hy e => fresh q (e ▸ hy)
  by_cases hq : q = r
  · subst hq
    rw [Function.update_self, List.mem_cons]
    grind
  · rw [Function.update_of_ne hq]
    grind

theorem Holds.remove {s : Links ρ ι} {lists : ρ → List ι} (h : Holds s lists) {r : ρ} {x : ι}
    (only : ∀ q, x ∈ lists q → q = r) :
    ∃ lists', Holds (s.delist r x) lists' ∧ ∀ q y, y ∈ lists' q ↔ y ≠ x ∧ y ∈ lists q := by
  refine ⟨_, h.delist r x, fun q y => ?_⟩
  by_cases hq : q = r
  · subst hq
    rw [Function.update_self, (h.nodup q).mem_erase_iff]
  · rw [Function.update_of_ne hq]
    exact ⟨fun hy => ⟨fun e => hq (only q (e ▸ hy)), hy⟩, And.right⟩

theorem Holds.move {s : Links ρ ι} {lists : ρ → List ι} (h : Holds s lists) {r : ρ} {x : ι}
    (only : ∀ q, x ∈ lists q → q = r) (r' : ρ) :
    ∃ lists', Holds ((s.delist r x).enlist r' x) lists' ∧
      ∀ q y, y ∈ lists' q ↔ y ≠ x ∧ y ∈ lists q ∨ y = x ∧ q = r' := by
  obtain ⟨rest, holds, members⟩ := h.remove only
  obtain ⟨lists', holds', members'⟩ := holds.insert (fun q hx => ((members q x).mp hx).1 rfl) r'
  refine ⟨lists', holds', fun q y => ?_⟩
  rw [members', members]
  tauto

omit [DecidableEq ρ] [DecidableEq ι] [Fintype ι] in
theorem Holds.unique {s : Links ρ ι} {lists lists' : ρ → List ι} (h : Holds s lists)
    (h' : Holds s lists') : lists = lists' :=
  funext fun r => (h.chain r).unique (h'.chain r)

theorem Holds.moved {s : Links ρ ι} {lists : ρ → List ι} (h : Holds s lists) {r : ρ} {x : ι}
    (only : ∀ q, x ∈ lists q → q = r) (r' : ρ) :
    Holds ((s.delist r x).enlist r' x)
      (Function.update (Function.update lists r ((lists r).erase x)) r'
        (x :: Function.update lists r ((lists r).erase x) r')) := by
  refine (h.delist r x).enlist r' x fun q inside => ?_
  by_cases hq : q = r
  · rw [hq, Function.update_self] at inside
    exact (h.nodup r).not_mem_erase inside
  · rw [Function.update_of_ne hq] at inside
    exact hq (only q inside)

omit [Fintype ι] in
theorem Holds.pushed {r : ρ} :
    ∀ {xs : List ι} {s : Links ρ ι} {lists : ρ → List ι}, Holds s lists → xs.Nodup →
      (∀ x ∈ xs, ∀ q, x ∉ lists q) →
      ∃ lists', Holds (xs.foldl (fun l x => l.enlist r x) s) lists' ∧
        ∀ q y, y ∈ lists' q ↔ y ∈ lists q ∨ q = r ∧ y ∈ xs
  | [], _, lists, h, _, _ => ⟨lists, h, by simp⟩
  | x :: xs, s, lists, h, nodup, fresh => by
    obtain ⟨absent, nodup⟩ := List.nodup_cons.mp nodup
    obtain ⟨lists₁, h₁, members₁⟩ := h.insert (fresh x List.mem_cons_self) r
    obtain ⟨lists', h', members⟩ := h₁.pushed nodup fun y hy q hq => by
      rcases (members₁ q y).mp hq with ⟨_, old⟩ | ⟨rfl, _⟩
      · exact fresh y (List.mem_cons_of_mem x hy) q old
      · exact absent hy
    refine ⟨lists', h', fun q y => ?_⟩
    have away : y ∈ lists q → y ≠ x := fun hy e => fresh x List.mem_cons_self q (e ▸ hy)
    rw [members, members₁, List.mem_cons]
    tauto

omit [Fintype ι] in
theorem Holds.pushed_reverse {r : ρ} :
    ∀ {xs : List ι} {s : Links ρ ι} {lists : ρ → List ι}, Holds s lists → xs.Nodup →
      (∀ x ∈ xs, ∀ q, x ∉ lists q) → Holds (xs.foldl (fun l x => l.enlist r x) s)
        (Function.update lists r (xs.reverse ++ lists r))
  | [], _, _, h, _, _ => by
    rw [List.reverse_nil, List.nil_append, Function.update_eq_self]
    exact h
  | x :: xs, _, lists, h, nodup, fresh => by
    obtain ⟨absent, nodup⟩ := List.nodup_cons.mp nodup
    have next := (h.enlist r x (fresh x List.mem_cons_self)).pushed_reverse (r := r) nodup
      fun y mem q inside => by
        by_cases hq : q = r
        · rw [hq, Function.update_self, List.mem_cons] at inside
          rcases inside with rfl | inside
          · exact absent mem
          · exact fresh y (List.mem_cons_of_mem x mem) r inside
        · rw [Function.update_of_ne hq] at inside
          exact fresh y (List.mem_cons_of_mem x mem) q inside
    rw [Function.update_idem, Function.update_self] at next
    rw [List.foldl_cons, List.reverse_cons, List.append_assoc]
    exact next

omit [Fintype ι] in
theorem exists_pushed {r : ρ} {xs : List ι} (nodup : xs.Nodup) : ∃ lists : ρ → List ι,
    Holds (xs.foldl (fun l x => l.enlist r x) ⟨fun _ => none, fun _ => none⟩) lists ∧
      ∀ q y, y ∈ lists q ↔ q = r ∧ y ∈ xs := by
  have empty : Holds (⟨fun _ => none, fun _ => none⟩ : Links ρ ι) (fun _ => []) :=
    ⟨fun _ => .nil, fun _ => List.nodup_nil, fun _ _ _ h => by cases h⟩
  obtain ⟨lists, holds, members⟩ := empty.pushed (r := r) nodup (fun _ _ _ h => by cases h)
  exact ⟨lists, holds, fun q y => by simp [members]⟩

end Linked
