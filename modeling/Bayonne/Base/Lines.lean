import Mathlib.Data.List.Basic

/-! A stream of lines as a reader with a fixed buffer sees it: a read takes what is left of the
line, or as much of it as fits, and the next read goes on from there. -/
namespace Lines

universe u
variable {α : Type u}

/-- One read, with what else there is of the line it is from. -/
structure Piece (α : Type u) where
  before : List α
  text : List α
  after : List α

def Piece.line (p : Piece α) : List α := p.before ++ p.text ++ p.after

variable [DecidableEq α] (nl : α)

def chunk : Nat → List α → List α
  | 0, _ => []
  | _ + 1, [] => []
  | k + 1, x :: xs => if x = nl then [x] else x :: chunk k xs

def upTo : List α → List α
  | [] => []
  | x :: xs => if x = nl then [x] else x :: upTo xs

/-- The reads that return, after `before` has been read of a line: a read waits for a line end
or `k` elements. -/
def pieces (k : Nat) : Nat → List α → List α → List (Piece α)
  | 0, _, _ => []
  | n + 1, before, stream =>
    let text := chunk nl k stream
    let rest := stream.drop text.length
    if text.getLast? = some nl then ⟨before, text, []⟩ :: pieces k n [] rest
    else if text.length = k then ⟨before, text, upTo nl rest⟩ :: pieces k n (before ++ text) rest
    else []

def reads (k : Nat) (stream : List α) : List (Piece α) := pieces nl k stream.length [] stream

/-- A line of a stream: it begins at the start or behind a line end, and goes through the next
line end or to the end of the stream. -/
structure IsLine (stream line : List α) : Prop where
  place : ∃ pre post, stream = pre ++ line ++ post ∧ (pre = [] ∨ pre.getLast? = some nl) ∧
    (line.getLast? = some nl ∨ post = [])
  one : nl ∉ line.dropLast

structure Fits (k : Nat) (text : List α) : Prop where
  short : text.length ≤ k
  one : nl ∉ text.dropLast
  ended : text.length = k ∨ text.getLast? = some nl

variable {nl} {k n : Nat} {stream before done : List α}

variable (nl) in
theorem chunk_cases (k : Nat) (stream : List α) :
    (∃ body rest, nl ∉ body ∧ body.length < k ∧ stream = body ++ nl :: rest ∧
      chunk nl k stream = body ++ [nl]) ∨
    nl ∉ chunk nl k stream ∧ chunk nl k stream = stream.take k := by
  induction k generalizing stream with
  | zero => exact .inr ⟨List.not_mem_nil, (List.take_zero).symm⟩
  | succ k ih =>
    cases stream with
    | nil => exact .inr ⟨List.not_mem_nil, rfl⟩
    | cons x xs =>
      by_cases here : x = nl
      · exact .inl ⟨[], xs, List.not_mem_nil, Nat.succ_pos k, by rw [here]; rfl,
          by rw [chunk, if_pos here, here]; rfl⟩
      · rw [chunk, if_neg here]
        rcases ih xs with ⟨body, rest, clean, short, split, taken⟩ | ⟨clean, taken⟩
        · refine .inl ⟨x :: body, rest, ?_, Nat.succ_lt_succ short, by rw [split]; rfl,
            by rw [taken]; rfl⟩
          exact fun mem => (List.mem_cons.mp mem).elim (fun same => here same.symm) clean
        · refine .inr ⟨?_, by rw [taken]; rfl⟩
          exact fun mem => (List.mem_cons.mp mem).elim (fun same => here same.symm) clean

theorem chunk_full {text : List α} (clean : nl ∉ text) (rest : List α) :
    chunk nl text.length (text ++ rest) = text := by
  induction text with
  | nil => rfl
  | cons x xs ih =>
    have other : x ≠ nl := fun same => clean (same ▸ List.mem_cons_self)
    rw [List.length_cons, List.cons_append, chunk, if_neg other,
      ih fun mem => clean (List.mem_cons_of_mem x mem)]

theorem chunk_line {body : List α} (clean : nl ∉ body) (short : body.length < k) (rest : List α) :
    chunk nl k (body ++ nl :: rest) = body ++ [nl] := by
  induction body generalizing k with
  | nil =>
    obtain ⟨k, rfl⟩ := Nat.exists_eq_succ_of_ne_zero (Nat.pos_iff_ne_zero.mp short)
    rw [List.nil_append, chunk, if_pos rfl]
    rfl
  | cons x xs ih =>
    obtain ⟨k, rfl⟩ :=
      Nat.exists_eq_succ_of_ne_zero (Nat.pos_iff_ne_zero.mp (Nat.zero_lt_of_lt short))
    have other : x ≠ nl := fun same => clean (same ▸ List.mem_cons_self)
    rw [List.cons_append, chunk, if_neg other,
      ih (fun mem => clean (List.mem_cons_of_mem x mem)) (Nat.lt_of_succ_lt_succ short)]
    rfl

variable (nl) in
theorem upTo_cases (stream : List α) :
    (∃ body rest, nl ∉ body ∧ stream = body ++ nl :: rest ∧ upTo nl stream = body ++ [nl]) ∨
    nl ∉ stream ∧ upTo nl stream = stream := by
  induction stream with
  | nil => exact .inr ⟨List.not_mem_nil, rfl⟩
  | cons x xs ih =>
    by_cases here : x = nl
    · exact .inl ⟨[], xs, List.not_mem_nil, by rw [here]; rfl, by rw [upTo, if_pos here, here]; rfl⟩
    · rw [upTo, if_neg here]
      rcases ih with ⟨body, rest, clean, split, taken⟩ | ⟨clean, taken⟩
      · refine .inl ⟨x :: body, rest, ?_, by rw [split]; rfl, by rw [taken]; rfl⟩
        exact fun mem => (List.mem_cons.mp mem).elim (fun same => here same.symm) clean
      · refine .inr ⟨?_, by rw [taken]⟩
        exact fun mem => (List.mem_cons.mp mem).elim (fun same => here same.symm) clean

variable (nl) in
theorem chunk_append (k : Nat) (stream : List α) :
    chunk nl k stream ++ stream.drop (chunk nl k stream).length = stream := by
  rcases chunk_cases nl k stream with ⟨body, rest, -, -, split, taken⟩ | ⟨-, taken⟩
  · rw [taken, split]
    simp
  · rw [taken, List.length_take]
    by_cases short : k ≤ stream.length
    · rw [Nat.min_eq_left short, List.take_append_drop]
    · rw [Nat.min_eq_right (by omega), List.take_of_length_le (by omega), List.drop_length,
        List.append_nil]

omit [DecidableEq α] in
theorem not_ended {text : List α} (clean : nl ∉ text) : text.getLast? ≠ some nl := fun last =>
  clean (List.mem_of_getLast? last)

theorem isLine_upTo (clean : nl ∉ before) (start : done = [] ∨ done.getLast? = some nl)
    (rest : List α) : IsLine nl (done ++ before ++ rest) (before ++ upTo nl rest) := by
  rcases upTo_cases nl rest with ⟨body, more, bare, split, upto⟩ | ⟨bare, upto⟩
  · rw [upto, split]
    refine ⟨⟨done, more, by simp, start, .inl (by simp)⟩, ?_⟩
    rw [← List.append_assoc, List.dropLast_concat]
    exact fun mem => (List.mem_append.mp mem).elim clean bare
  · rw [upto]
    refine ⟨⟨done, [], by simp, start, .inr rfl⟩, fun mem => ?_⟩
    exact (List.mem_append.mp ((List.dropLast_sublist _).subset mem)).elim clean bare

theorem upTo_append {body : List α} (clean : nl ∉ body) (rest : List α) :
    upTo nl (body ++ nl :: rest) = body ++ [nl] := by
  induction body with
  | nil => rw [List.nil_append, upTo, if_pos rfl]; rfl
  | cons x xs ih =>
    have other : x ≠ nl := fun same => clean (same ▸ List.mem_cons_self)
    rw [List.cons_append, upTo, if_neg other, ih fun mem => clean (List.mem_cons_of_mem x mem)]
    rfl

theorem pieces_spec (clean : nl ∉ before) (start : done = [] ∨ done.getLast? = some nl) :
    ∀ p ∈ pieces nl k n before stream,
      IsLine nl (done ++ before ++ stream) p.line ∧ Fits nl k p.text := by
  induction n generalizing before stream done with
  | zero => exact fun p mem => absurd mem List.not_mem_nil
  | succ n ih =>
    intro p mem
    have whole := chunk_append nl k stream
    rw [pieces] at mem
    rcases chunk_cases nl k stream with ⟨body, rest, bare, short, split, taken⟩ | ⟨bare, taken⟩
    · have last : (chunk nl k stream).getLast? = some nl := by rw [taken]; simp
      rw [if_pos last] at mem
      rcases List.mem_cons.mp mem with rfl | mem
      · have line := isLine_upTo clean start stream
        rw [split, upTo_append bare, ← split] at line
        refine ⟨?_, ?_, ?_, .inr last⟩
        · rw [Piece.line, taken, List.append_nil]
          exact line
        · rw [taken, List.length_append]
          exact short
        · rw [taken, List.dropLast_concat]
          exact bare
      · have next : done ++ before ++ stream =
            done ++ before ++ chunk nl k stream ++ [] ++ stream.drop (chunk nl k stream).length := by
          rw [List.append_nil, List.append_assoc _ (chunk nl k stream), whole]
        rw [next]
        refine ih List.not_mem_nil (.inr ?_) p mem
        rw [taken]
        simp
    · rw [if_neg (not_ended bare)] at mem
      by_cases full : (chunk nl k stream).length = k
      · rw [if_pos full] at mem
        have both : nl ∉ before ++ chunk nl k stream :=
          fun mem => (List.mem_append.mp mem).elim clean bare
        have next : done ++ before ++ stream =
            done ++ (before ++ chunk nl k stream) ++ stream.drop (chunk nl k stream).length := by
          rw [← List.append_assoc, List.append_assoc _ (chunk nl k stream), whole]
        rw [next]
        rcases List.mem_cons.mp mem with rfl | mem
        · refine ⟨isLine_upTo both start _, Nat.le_of_eq full, fun mem => ?_, .inl full⟩
          exact bare ((List.dropLast_sublist _).subset mem)
        · exact ih both start p mem
      · rw [if_neg full] at mem
        exact absurd mem List.not_mem_nil

theorem reads_spec {p : Piece α} (mem : p ∈ reads nl k stream) :
    IsLine nl stream p.line ∧ Fits nl k p.text := by
  have start : ([] : List α) = [] ∨ ([] : List α).getLast? = some nl := .inl rfl
  have spec := pieces_spec List.not_mem_nil start p mem
  exact spec

theorem pieces_flatten (before : List α) (some' : 0 < k) (long : stream.length ≤ n) : ∃ rest,
    ((pieces nl k n before stream).map Piece.text).flatten ++ rest = stream ∧ nl ∉ rest ∧
      rest.length < k := by
  induction n generalizing before stream with
  | zero =>
    have empty : stream = [] := List.length_eq_zero_iff.mp (Nat.le_zero.mp long)
    exact ⟨[], by rw [empty]; rfl, List.not_mem_nil, some'⟩
  | succ n ih =>
    have whole := chunk_append nl k stream
    have shorter : chunk nl k stream ≠ [] →
        (stream.drop (chunk nl k stream).length).length ≤ n := by
      intro full
      have positive := List.length_pos_iff.mpr full
      rw [List.length_drop]
      omega
    rw [pieces]
    split
    · rename_i last
      have full : chunk nl k stream ≠ [] := fun empty => by rw [empty] at last; cases last
      obtain ⟨rest, flat, clean, short⟩ := ih [] (shorter full)
      exact ⟨rest, by rw [List.map_cons, List.flatten_cons, List.append_assoc, flat, whole],
        clean, short⟩
    · rename_i open'
      split
      · rename_i length
        have full : chunk nl k stream ≠ [] := fun empty => by
          rw [empty, List.length_nil] at length
          omega
        obtain ⟨rest, flat, clean, short⟩ := ih (before ++ chunk nl k stream) (shorter full)
        exact ⟨rest, by rw [List.map_cons, List.flatten_cons, List.append_assoc, flat, whole],
          clean, short⟩
      · rename_i length
        rcases chunk_cases nl k stream with ⟨body, rest, -, -, -, taken⟩ | ⟨bare, taken⟩
        · exact absurd (by rw [taken]; simp) open'
        · have short : stream.length < k := by
            by_contra long
            exact length (by rw [taken, List.length_take, Nat.min_eq_left (by omega)])
          rw [List.take_of_length_le (Nat.le_of_lt short)] at taken
          exact ⟨stream, rfl, taken ▸ bare, short⟩

/-- Nothing is lost or read twice: what is not read yet is the beginning of a line. -/
theorem reads_flatten (some' : 0 < k) (stream : List α) : ∃ rest,
    ((reads nl k stream).map Piece.text).flatten ++ rest = stream ∧ nl ∉ rest ∧ rest.length < k :=
  pieces_flatten [] some' (Nat.le_refl _)

theorem chunk_bounds (nl : α) (k : Nat) (stream : List α) :
    (chunk nl k stream).length ≤ k ∧ nl ∉ (chunk nl k stream).dropLast := by
  rcases chunk_cases nl k stream with ⟨body, rest, clean, short, -, taken⟩ | ⟨clean, taken⟩
  · rw [taken, List.dropLast_concat, List.length_append]
    exact ⟨short, clean⟩
  · refine ⟨?_, fun mem => clean ((List.dropLast_sublist _).subset mem)⟩
    rw [taken]
    exact List.length_take_le _ _

end Lines
