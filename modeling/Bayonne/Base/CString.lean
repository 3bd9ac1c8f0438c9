import Mathlib.Data.List.DropRight

/-! Strings that end at a terminator, in a buffer of fixed size. A position is an index
into the buffer, and an access outside of it has no result. -/
namespace CString

universe u
variable {α : Type u} [DecidableEq α] (z : α)

def text (b : List α) (i : Nat) : List α := (b.drop i).takeWhile (· ≠ z)

def store (b : List α) (i : Nat) (x : α) : Option (List α) :=
  if i < b.length then some (b.set i x) else none

def scan (p : α → Bool) (b : List α) (i : Nat) : Option Nat :=
  ((b.drop i).findIdx? p).map (i + ·)

def strlen (b : List α) : Option Nat := scan (· = z) b 0

def chop (p : α → Bool) (i : Nat) : Nat → List α → List α
  | 0, b => b
  | n + 1, b => if (b[i + n]?).any p then chop p i n (b.set (i + n) z) else b

/-- Skip the elements with `p` at the start of the buffer's string and cut those at its
end. -/
def strip (p : α → Bool) (b : List α) : Option (Nat × List α) :=
  (scan (fun x => x = z || !p x) b 0).bind fun i =>
    (scan (· = z) b i).map fun e => (i, chop z p i (e - i) b)

/-- Print into the `size` places at `i`, with the terminator, as much as fits. -/
def print (b : List α) (i size : Nat) (out : List α) : Option (List α) :=
  if size = 0 then some b
  else
    let s := out.take (size - 1)
    if i + s.length < b.length then
      some (b.take i ++ s ++ z :: b.drop (i + s.length + 1))
    else none

def trimmed (p : α → Bool) (s : List α) : List α := (s.dropWhile p).rdropWhile p

abbrev Text := { s : List α // z ∉ s }

def Text.stored {z : α} (s : Text z) : List α := s.1 ++ [z]

variable {z}

theorem text_append (pre post : List α) {s : List α} (clean : z ∉ s) :
    text z (pre ++ s ++ z :: post) pre.length = s := by
  have keep : ∀ x ∈ s, decide (x ≠ z) = true := by
    intro x hx
    simpa using fun same : x = z => clean (same ▸ hx)
  rw [text, List.append_assoc, List.drop_left, List.takeWhile_append_of_pos keep]
  simp

theorem text_stored (s : Text z) : text z s.stored 0 = s.1 := text_append [] [] s.2

theorem not_mem_takeWhile (z : α) (s : List α) : z ∉ s.takeWhile (· ≠ z) := by
  intro mem
  have kept := List.mem_takeWhile_imp mem
  simp at kept

theorem takeWhile_append (z : α) (s post : List α) :
    ∃ rest, s ++ z :: post = s.takeWhile (· ≠ z) ++ z :: rest := by
  induction s with
  | nil => exact ⟨post, rfl⟩
  | cons x s ih =>
    obtain ⟨rest, split⟩ := ih
    by_cases hx : x = z
    · refine ⟨s ++ z :: post, ?_⟩
      simp [hx]
    · refine ⟨rest, ?_⟩
      simpa [hx] using split

theorem head_text {p : α → Bool} (hz : p z = false) (b : List α) (i : Nat) :
    (text z b i).head?.any p = (b[i]?).any p := by
  rw [text, List.head?_takeWhile, List.head?_drop]
  cases b[i]? with
  | none => rfl
  | some x =>
    by_cases hx : x = z
    · simp [Option.filter, hx, hz]
    · simp [Option.filter, hx]

omit [DecidableEq α] in
theorem store_append (pre post : List α) (x y : α) :
    store (pre ++ x :: post) pre.length y = some (pre ++ y :: post) := by
  simp [store]

omit [DecidableEq α] in
theorem scan_append {p : α → Bool} (pre post : List α) {s : List α} {y : α}
    (skip : ∀ x ∈ s, p x = false) (found : p y = true) :
    scan p (pre ++ s ++ y :: post) pre.length = some (pre.length + s.length) := by
  have here : (s ++ y :: post).findIdx? p = some s.length := by
    induction s with
    | nil => rw [List.nil_append, List.findIdx?_cons, found]; rfl
    | cons x s ih =>
      rw [List.cons_append, List.findIdx?_cons, skip x List.mem_cons_self,
        ih fun x hx => skip x (List.mem_cons_of_mem _ hx)]
      simp
  rw [scan, List.append_assoc, List.drop_left, here]
  rfl

omit [DecidableEq α] in
theorem scan_none {p : α → Bool} (pre : List α) {s : List α} (skip : ∀ x ∈ s, p x = false) :
    scan p (pre ++ s) pre.length = none := by
  rw [scan, List.drop_left, List.findIdx?_eq_none_iff.mpr skip]
  rfl

omit [DecidableEq α] in
theorem scan_mem {p : α → Bool} {b : List α} {i : Nat} (found : scan p b 0 = some i) :
    ∃ x, b[i]? = some x ∧ p x = true := by
  rw [scan, List.drop_zero, Option.map_eq_some_iff] at found
  obtain ⟨j, here, rfl⟩ := found
  obtain ⟨inside, holds, -⟩ := List.findIdx?_eq_some_iff_getElem.mp here
  exact ⟨b[j], by rw [Nat.zero_add, List.getElem?_eq_getElem inside], holds⟩

omit [DecidableEq α] in
theorem scan_of_mem {p : α → Bool} {b : List α} {x : α} (mem : x ∈ b) (holds : p x = true) :
    ∃ i, scan p b 0 = some i := by
  have found : (b.findIdx? p).isSome = true := by
    rw [List.findIdx?_isSome]
    exact List.any_eq_true.mpr ⟨x, mem, holds⟩
  obtain ⟨i, here⟩ := Option.isSome_iff_exists.mp found
  exact ⟨i, by rw [scan, List.drop_zero, here]; simp⟩

theorem strlen_append {s : List α} (rest : List α) (clean : z ∉ s) :
    strlen z (s ++ z :: rest) = some s.length := by
  have skip : ∀ x ∈ s, decide (x = z) = false := by
    intro x hx
    simpa using fun same : x = z => clean (same ▸ hx)
  have scanned := scan_append (p := fun x => decide (x = z)) (y := z) [] rest skip
    (decide_eq_true rfl)
  simpa [strlen] using scanned

omit [DecidableEq α] in
theorem print_start {b : List α} {size : Nat} (out : List α) (some' : 0 < size)
    (room : size ≤ b.length) :
    print z b 0 size out =
      some (out.take (size - 1) ++ z :: b.drop ((out.take (size - 1)).length + 1)) := by
  have short : (out.take (size - 1)).length ≤ size - 1 := List.length_take_le _ _
  have fits : 0 + (out.take (size - 1)).length < b.length := by omega
  simp only [print, if_neg (Nat.pos_iff_ne_zero.mp some'), if_pos fits]
  simp

omit [DecidableEq α] in
theorem chop_append {p : α → Bool} (pre : List α) {s : List α}
    (last : ∀ x ∈ s.getLast?, p x = false) (t rest : List α) (cut : ∀ x ∈ t, p x = true) :
    chop z p pre.length (s.length + t.length) (pre ++ s ++ t ++ rest) =
      pre ++ s ++ List.replicate t.length z ++ rest := by
  induction t using List.reverseRecOn generalizing rest with
  | nil =>
    rcases List.eq_nil_or_concat s with rfl | ⟨s, x, rfl⟩
    · simp [chop]
    · have stop : p x = false := last x (by simp)
      simp [chop, stop]
  | append_singleton t x ih =>
    have hx : p x = true := cut x (by simp)
    have before : ∀ y ∈ t, p y = true := fun y hy => cut y (by simp [hy])
    have here : pre.length + (s.length + t.length) = (pre ++ s ++ t).length := by
      simp
    have shape : pre ++ s ++ (t ++ [x]) ++ rest = (pre ++ s ++ t) ++ x :: rest := by simp
    have read : ((pre ++ s ++ t) ++ x :: rest)[(pre ++ s ++ t).length]? = some x := by simp
    have written : ((pre ++ s ++ t) ++ x :: rest).set (pre ++ s ++ t).length z =
        pre ++ s ++ t ++ z :: rest := by
      rw [List.set_append_right _ _ (Nat.le_refl _)]
      simp
    rw [List.length_append, List.length_singleton, ← Nat.add_assoc, chop, shape, here, read,
      written]
    simp only [Option.any_some, hx, if_true]
    rw [ih (z :: rest) before]
    simp [List.replicate_succ']

omit [DecidableEq α] in
theorem print_append {s : List α} (post out : List α) {k : Nat} (low : s.length ≤ k)
    (high : k < (s ++ z :: post).length) : ∃ rest,
    print z (s ++ z :: post) s.length (k + 1 - s.length) out =
        some ((s ++ out).take k ++ z :: rest) ∧
      ((s ++ out).take k ++ z :: rest).length = (s ++ z :: post).length := by
  have room : k + 1 - s.length ≠ 0 := by omega
  have size : k + 1 - s.length - 1 = k - s.length := by omega
  have short : (out.take (k - s.length)).length ≤ k - s.length :=
    List.length_take_le _ _
  have fits : s.length + (out.take (k - s.length)).length < (s ++ z :: post).length := by omega
  have cut : (s ++ out).take k = s ++ out.take (k - s.length) := by
    rw [List.take_append, List.take_of_length_le low]
  refine ⟨(s ++ z :: post).drop (s.length + (out.take (k - s.length)).length + 1), ?_, ?_⟩
  · simp only [print, if_neg room, size, if_pos fits, cut, List.take_left]
  · simp only [cut, List.length_append, List.length_cons, List.length_drop] at fits ⊢
    omega

omit [DecidableEq α] in
theorem trimmed_last (p : α → Bool) (s : List α) :
    ∀ x ∈ (trimmed p s).getLast?, p x = false := by
  intro x hx
  obtain ⟨some, rfl⟩ := List.mem_getLast?_eq_getLast hx
  have stop := List.rdropWhile_last_not p (s.dropWhile p) some
  exact Bool.eq_false_iff.mpr stop

omit [DecidableEq α] in
theorem trimmed_sublist (p : α → Bool) (s : List α) : (trimmed p s).Sublist s :=
  (List.rdropWhile_prefix p _).sublist.trans (List.dropWhile_sublist p)

omit [DecidableEq α] in
theorem trimmed_append {p : α → Bool} {lead s tail : List α} (leads : ∀ x ∈ lead, p x = true)
    (first : ∀ x ∈ s.head?, p x = false) (last : ∀ x ∈ s.getLast?, p x = false)
    (cut : ∀ x ∈ tail, p x = true) (some : s ≠ []) : trimmed p (lead ++ s ++ tail) = s := by
  have dropped : (s ++ tail).dropWhile p = s ++ tail := by
    cases s with
    | nil => exact absurd rfl some
    | cons x s =>
      rw [List.cons_append, List.dropWhile_cons, first x rfl]
      rfl
  have kept : s.rdropWhile p = s := by
    rw [List.rdropWhile_eq_self_iff]
    intro hs
    rw [last _ (List.getLast?_eq_getLast_of_ne_nil hs)]
    exact Bool.false_ne_true
  have back : ∀ x ∈ tail.reverse, p x = true := fun x hx => cut x (List.mem_reverse.mp hx)
  rw [trimmed, List.append_assoc, List.dropWhile_append_of_pos leads, dropped, List.rdropWhile,
    List.reverse_append, List.dropWhile_append_of_pos back]
  exact kept

omit [DecidableEq α] in
theorem trimmed_around {p : α → Bool} {lead tail : List α} (leads : ∀ x ∈ lead, p x = true)
    (s : List α) (cut : ∀ x ∈ tail, p x = true) : trimmed p (lead ++ s ++ tail) = trimmed p s := by
  have back : ∀ x ∈ tail.reverse, p x = true := fun x hx => cut x (List.mem_reverse.mp hx)
  have none : tail.dropWhile p = [] := List.dropWhile_eq_nil_iff.mpr cut
  rw [trimmed, trimmed, List.append_assoc, List.dropWhile_append_of_pos leads]
  by_cases all : s.dropWhile p = []
  · rw [List.dropWhile_append, all]
    simp [none]
  · have some : (s.dropWhile p).isEmpty = false := by simpa using all
    rw [List.dropWhile_append, some, List.rdropWhile, List.rdropWhile]
    simp only [Bool.false_eq_true, if_false, List.reverse_append]
    rw [List.dropWhile_append_of_pos back]

theorem strip_eq (p : α → Bool) {s : List α} (clean : z ∉ s) (post : List α) :
    strip z p (s ++ z :: post) = some ((s.takeWhile p).length, s.takeWhile p ++ trimmed p s ++
      z :: (List.replicate ((s.dropWhile p).rtakeWhile p).length z ++ post)) := by
  set lead := s.takeWhile p with hlead
  set mid := trimmed p s with hmid
  set tail := (s.dropWhile p).rtakeWhile p with htail
  have split : s = lead ++ (mid ++ tail) := by
    rw [hmid, htail, trimmed, List.rdropWhile_append_rtakeWhile, List.takeWhile_append_dropWhile]
  have leads : ∀ x ∈ lead, p x = true := fun x hx => List.mem_takeWhile_imp hx
  have cut : ∀ x ∈ tail, p x = true := fun x hx => List.mem_rtakeWhile_imp hx
  have noZ : ∀ x ∈ s, x ≠ z := fun x hx same => clean (same ▸ hx)
  have start : scan (fun x => decide (x = z) || !p x) (s ++ z :: post) 0 = some lead.length := by
    have skip : ∀ x ∈ lead, (decide (x = z) || !p x) = false := by
      intro x hx
      simp [leads x hx, noZ x (split ▸ List.mem_append_left _ hx)]
    cases more : mid ++ tail with
    | nil =>
      have found : (decide (z = z) || !p z) = true := by simp
      have scanned := scan_append [] post skip found
      rw [split, more]
      simpa using scanned
    | cons x xs =>
      have stop : p x = false := by
        have dropped : s.dropWhile p = x :: xs := by
          rw [← more, hmid, htail, trimmed, List.rdropWhile_append_rtakeWhile]
        have first := List.head_dropWhile_not p (by rw [dropped]; simp : s.dropWhile p ≠ [])
        simpa [dropped] using first
      have found : (decide (x = z) || !p x) = true := by simp [stop]
      have scanned := scan_append [] (xs ++ z :: post) skip found
      rw [split, more]
      simpa using scanned
  have ended : scan (fun x => decide (x = z)) (s ++ z :: post) lead.length =
      some (lead.length + (mid ++ tail).length) := by
    have skip : ∀ x ∈ mid ++ tail, decide (x = z) = false := by
      intro x hx
      simpa using noZ x (split ▸ List.mem_append_right _ hx)
    have scanned := scan_append (p := fun x => decide (x = z)) (y := z) lead post skip
      (decide_eq_true rfl)
    rw [split]
    simpa using scanned
  have chopped := chop_append (z := z) lead (trimmed_last p s) tail (z :: post) cut
  rw [strip, start, Option.bind_some, ended, Option.map_some, Nat.add_sub_cancel_left,
    List.length_append, split]
  rw [← hmid] at chopped
  rw [show lead ++ (mid ++ tail) ++ z :: post = lead ++ mid ++ tail ++ z :: post by simp, chopped]
  have shift : List.replicate tail.length z ++ z :: post =
      z :: (List.replicate tail.length z ++ post) := by
    rw [← List.cons_append, ← List.replicate_succ, List.replicate_succ']
    simp
  rw [List.append_assoc _ (List.replicate _ _), shift]

theorem strip_append (p : α → Bool) {s : List α} (clean : z ∉ s) (post : List α) :
    ∃ lead rest, strip z p (s ++ z :: post) =
      some (lead.length, lead ++ trimmed p s ++ z :: rest) :=
  ⟨_, _, strip_eq p clean post⟩

end CString
