import Bayonne.Control

/-! What `receive` makes of a line, in terms of the line's text alone. -/
namespace Bayonne

/-- What `receive` sees of a line: its text up to a zero, without the padding. -/
def ControlLine.line (c : ControlLine) : List Char :=
  CString.trimmed Control.padding (c.text.takeWhile (· ≠ Control.nul))

def ControlLine.first (c : ControlLine) : List Char := c.line.takeWhile (!Sip.isspace ·)

def ControlLine.command (c : ControlLine) : List Char :=
  ((c.line.dropWhile (!Sip.isspace ·)).drop 1).dropWhile Sip.isspace

def ControlLine.HasPid (c : ControlLine) : Prop := c.line.head?.any Control.isdigit = true

namespace Control
open CString

theorem strip_fgets (buf : List Char) (c : ControlLine) : ∃ lead rest,
    strip nul padding (fgets buf c.text) =
      some (lead.length, lead ++ c.line ++ nul :: rest) := by
  obtain ⟨post, whole⟩ := takeWhile_append nul c.text (buf.drop (c.text.length + 1))
  rw [fgets, whole]
  exact strip_append padding (not_mem_takeWhile nul c.text) post

theorem nul_not_mem_line (c : ControlLine) : nul ∉ c.line := fun mem =>
  not_mem_takeWhile nul c.text ((trimmed_sublist _ _).subset mem)

theorem receive_refused (buf : List Char) (old : Option Nat) {c : ControlLine} (h : refused c.line = true) :
    ∃ b, receive buf old c.text = some (.retry b) := by
  obtain ⟨lead, rest, stripped⟩ := strip_fgets buf c
  refine ⟨lead ++ c.line ++ nul :: rest, ?_⟩
  rw [receive, stripped, Option.bind_some]
  simp only [text_append lead rest (nul_not_mem_line c), h, if_true]

theorem receive_bare {buf : List Char} (old : Option Nat) {c : ControlLine} {lead rest : List Char}
    (stripped : strip nul padding (fgets buf c.text) =
      some (lead.length, lead ++ c.line ++ nul :: rest))
    (h : refused c.line = false) (plain : prefixed c.line = false) :
    receive buf old c.text = some (.line (lead ++ c.line ++ nul :: rest) old lead.length) := by
  rw [receive, stripped, Option.bind_some]
  simp only [text_append lead rest (nul_not_mem_line c), h, plain]
  rfl

theorem receive_plain (buf : List Char) (old : Option Nat) {c : ControlLine} (h : refused c.line = false)
    (plain : prefixed c.line = false) :
    ∃ b cp, receive buf old c.text = some (.line b old cp) ∧ text nul b cp = c.line := by
  obtain ⟨lead, rest, stripped⟩ := strip_fgets buf c
  exact ⟨_, _, receive_bare old stripped h plain, text_append lead rest (nul_not_mem_line c)⟩

theorem first_append (c : ControlLine) :
    c.first ++ c.line.dropWhile (!Sip.isspace ·) = c.line :=
  List.takeWhile_append_dropWhile

theorem first_clean (c : ControlLine) : ∀ x ∈ c.first, (x = nul || Sip.isspace x) = false := by
  intro x hx
  have kept := List.mem_takeWhile_imp hx
  have clean : x ≠ nul := fun same =>
    nul_not_mem_line c ((List.takeWhile_sublist _).subset (same ▸ hx))
  simpa [clean] using kept

theorem scan_first (c : ControlLine) (lead rest : List Char) {x : Char} {more : List Char}
    (split : c.line.dropWhile (!Sip.isspace ·) ++ nul :: rest = x :: more) :
    scan (fun c => c = nul || Sip.isspace c) (lead ++ c.line ++ nul :: rest) lead.length =
        some (lead.length + c.first.length) ∧
      store (lead ++ c.line ++ nul :: rest) (lead.length + c.first.length) nul =
        some (lead ++ c.first ++ nul :: more) := by
  have whole : lead ++ c.line ++ nul :: rest = lead ++ c.first ++ x :: more := by
    rw [← first_append c, List.append_assoc, List.append_assoc, split, List.append_assoc]
  have stop : (decide (x = nul) || Sip.isspace x) = true := by
    cases after : c.line.dropWhile (!Sip.isspace ·) with
    | nil =>
      rw [after] at split
      cases split
      rfl
    | cons y ys =>
      rw [after] at split
      cases split
      have space := List.head_dropWhile_not (!Sip.isspace ·)
        (by rw [after]; simp : c.line.dropWhile (!Sip.isspace ·) ≠ [])
      simp only [after, List.head_cons] at space
      simpa using Or.inr space
  rw [whole]
  refine ⟨scan_append lead more (first_clean c) stop, ?_⟩
  rw [← List.length_append]
  exact store_append (lead ++ c.first) more x nul

theorem nul_not_mem_first (c : ControlLine) : nul ∉ c.first := fun mem =>
  nul_not_mem_line c ((List.takeWhile_sublist _).subset mem)

theorem receive_cut {buf : List Char} (old : Option Nat) {c : ControlLine} {lead rest : List Char}
    (stripped : strip nul padding (fgets buf c.text) =
      some (lead.length, lead ++ c.line ++ nul :: rest))
    (h : refused c.line = false) (named : prefixed c.line = true) {x : Char} {more : List Char}
    (split : c.line.dropWhile (!Sip.isspace ·) ++ nul :: rest = x :: more) :
    receive buf old c.text =
      (scan (fun c => !Sip.isspace c) (lead ++ c.first ++ nul :: more)
        (lead.length + c.first.length + 1)).map
          (.line (lead ++ c.first ++ nul :: more) (some lead.length)) := by
  obtain ⟨found, stored⟩ := scan_first c lead rest split
  rw [receive, stripped, Option.bind_some]
  simp only [text_append lead rest (nul_not_mem_line c), h, named, if_true, found, stored,
    Option.bind_some]
  rfl

theorem receive_spaced {buf : List Char} (old : Option Nat) {c : ControlLine}
    {lead rest : List Char} (stripped : strip nul padding (fgets buf c.text) =
      some (lead.length, lead ++ c.line ++ nul :: rest))
    (h : refused c.line = false) (named : prefixed c.line = true) {x : Char} {more : List Char}
    (split : c.line.dropWhile (!Sip.isspace ·) = x :: more) :
    receive buf old c.text = some (.line (lead ++ c.first ++ nul :: (more ++ nul :: rest))
      (some lead.length) (lead ++ c.first ++ nul :: more.takeWhile Sip.isspace).length) := by
  set gap := more.takeWhile Sip.isspace with hgap
  set body := more.dropWhile Sip.isspace with hbody
  have parts : gap ++ body = more := List.takeWhile_append_dropWhile
  have skip : ∀ y ∈ gap, (!Sip.isspace y) = false := fun y hy => by
    simp [List.mem_takeWhile_imp hy]
  have next : scan (fun c => !Sip.isspace c) (lead ++ c.first ++ nul :: (more ++ nul :: rest))
      (lead.length + c.first.length + 1) =
        some ((lead ++ c.first ++ nul :: gap).length) := by
    have place : lead.length + c.first.length + 1 = (lead ++ c.first ++ [nul]).length := by
      simp [Nat.add_assoc]
    have shape : lead ++ c.first ++ nul :: (more ++ nul :: rest) =
        lead ++ c.first ++ [nul] ++ gap ++ (body ++ nul :: rest) := by
      rw [← parts]
      simp
    have length : (lead ++ c.first ++ nul :: gap).length =
        (lead ++ c.first ++ [nul]).length + gap.length := by
      simp only [List.length_append, List.length_cons, List.length_nil]
      omega
    rw [place, shape, length]
    cases first : body with
    | nil => exact scan_append _ _ skip (by decide)
    | cons y ys =>
      have some : body ≠ [] := by
        rw [first]
        nofun
      have stop := List.head_dropWhile_not Sip.isspace some
      simp only [← hbody, first, List.head_cons] at stop
      exact scan_append _ _ skip (by simpa using stop)
  have tail : c.line.dropWhile (!Sip.isspace ·) ++ nul :: rest = x :: (more ++ nul :: rest) := by
    rw [split]
    rfl
  have cut := receive_cut old stripped h named tail
  rw [next] at cut
  exact cut

theorem spaced_eq (lead first more rest : List Char) :
    lead ++ first ++ nul :: (more ++ nul :: rest) = lead ++ first ++ nul ::
      more.takeWhile Sip.isspace ++ more.dropWhile Sip.isspace ++ nul :: rest := by
  conv_lhs => rw [← List.takeWhile_append_dropWhile (p := Sip.isspace) (l := more)]
  simp

theorem text_spaced {c : ControlLine} {x : Char} {more : List Char}
    (split : c.line.dropWhile (!Sip.isspace ·) = x :: more) (lead rest : List Char) :
    text nul (lead ++ c.first ++ nul :: (more ++ nul :: rest))
      (lead ++ c.first ++ nul :: more.takeWhile Sip.isspace).length =
        more.dropWhile Sip.isspace := by
  have inLine : ∀ y ∈ more, y ∈ c.line := fun y hy =>
    (List.dropWhile_sublist _).subset (split ▸ List.mem_cons_of_mem x hy)
  have clean : nul ∉ more.dropWhile Sip.isspace := fun mem =>
    nul_not_mem_line c (inLine _ ((List.dropWhile_sublist _).subset mem))
  rw [spaced_eq]
  exact text_append _ _ clean

theorem receive_target (buf : List Char) (old : Option Nat) {c : ControlLine} (h : refused c.line = false)
    (named : prefixed c.line = true) {x : Char} {more : List Char}
    (split : c.line.dropWhile (!Sip.isspace ·) = x :: more) :
    ∃ b i cp, receive buf old c.text = some (.line b (some i) cp) ∧ text nul b i = c.first ∧
      text nul b cp = more.dropWhile Sip.isspace := by
  obtain ⟨lead, rest, stripped⟩ := strip_fgets buf c
  exact ⟨_, _, _, receive_spaced old stripped h named split,
    text_append _ _ (nul_not_mem_first c), text_spaced split lead rest⟩

theorem receive_prefixed (buf : List Char) (old : Option Nat) {c : ControlLine} (h : refused c.line = false)
    (named : prefixed c.line = true) :
    receive buf old c.text = none ∨
      ∃ b i cp, receive buf old c.text = some (.line b (some i) cp) ∧ text nul b i = c.first := by
  obtain ⟨lead, rest, stripped⟩ := strip_fgets buf c
  obtain ⟨x, more, split⟩ : ∃ x more,
      c.line.dropWhile (!Sip.isspace ·) ++ nul :: rest = x :: more := by
    cases c.line.dropWhile (!Sip.isspace ·) with
    | nil => exact ⟨nul, rest, rfl⟩
    | cons y ys => exact ⟨y, ys ++ nul :: rest, rfl⟩
  rw [receive_cut old stripped h named split]
  cases scan (fun c => !Sip.isspace c) (lead ++ c.first ++ nul :: more)
      (lead.length + c.first.length + 1) with
  | none => exact .inl rfl
  | some cp => exact .inr ⟨_, _, cp, rfl, text_append _ _ (nul_not_mem_first c)⟩

theorem isspace_of_isdigit {c : Char} (h : isdigit c = true) : Sip.isspace c = false := by
  rw [Bool.eq_false_iff]
  intro space
  simp only [Sip.isspace, decide_eq_true_eq, List.mem_cons, List.not_mem_nil, or_false] at space
  rcases space with rfl | rfl | rfl | rfl | rfl | rfl <;> cases h

theorem not_padding {c : Char} (h : Sip.isspace c = false) : padding c = false := by
  simp only [Sip.isspace, padding, decide_eq_false_iff_not, List.mem_cons, not_or,
    List.not_mem_nil, or_false] at h ⊢
  tauto

theorem unbounded_digits {ds : List Char} (all : ∀ d ∈ ds, isdigit d = true) :
    Sip.numeral (String.ofList ds) = Sip.digits ds 0 := by
  have whole : ds.dropWhile Sip.isspace = ds := by
    cases ds with
    | nil => rfl
    | cons d ds => rw [List.dropWhile_cons, isspace_of_isdigit (all d List.mem_cons_self)]; rfl
  unfold Sip.numeral
  rw [String.toList_ofList, whole]
  split
  · exact absurd (all '-' List.mem_cons_self) (by decide)
  · exact absurd (all '+' List.mem_cons_self) (by decide)
  · rfl

theorem atoi_digits {ds : List Char} (all : ∀ d ∈ ds, isdigit d = true)
    (fits : Sip.digits ds 0 < 2147483648) : atoi (String.ofList ds) = Sip.digits ds 0 := by
  rw [atoi, atol, unbounded_digits all]
  rw [Int.min_eq_right (by omega), Int.max_eq_right (by omega)]
  exact Int.bmod_eq_of_le (by omega) (by omega)

theorem prefixed_of_hasPid {c : ControlLine} (h : c.HasPid) :
    refused c.line = false ∧ prefixed c.line = true := by
  unfold ControlLine.HasPid at h
  cases first : c.line.head? with
  | none => rw [first] at h; cases h
  | some x =>
    rw [first] at h
    have digit : isdigit x = true := h
    have slash : x ≠ '/' := by
      rintro rfl
      cases digit
    refine ⟨?_, ?_⟩
    · simp [refused, first, slash]
    · simp [prefixed, first, digit]

end Control

end Bayonne
