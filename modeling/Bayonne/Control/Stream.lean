import Bayonne.Base.Lines
import Bayonne.Control.Receive

/-! The control FIFO as a stream of bytes. `fgets` cuts it into reads, and `receive` makes a
command of each: what it returns should be what one whole line of the stream holds. -/
namespace Bayonne

namespace Control
open CString

/-- A read of the FIFO, which is open for writing too, so that no read ends before its line. -/
abbrev Piece := Lines.Piece Char

def reads (stream : List Char) : List Piece := Lines.reads '\n' 511 stream

def lineText (text : List Char) : List Char := trimmed padding (text.takeWhile (· ≠ nul))

/-- The reply target and the command of a line. -/
structure Said where
  target : Option (List Char)
  command : List Char

def said (text : List Char) : Said :=
  let line := lineText text
  if prefixed line then
    ⟨some (line.takeWhile (!Sip.isspace ·)),
      ((line.dropWhile (!Sip.isspace ·)).drop 1).dropWhile Sip.isspace⟩
  else ⟨none, line⟩

def Terminated (b : List Char) (i : Nat) : Prop := b.length = 512 ∧ nul ∈ b.drop i

def Alone (p : Piece) : Prop :=
  (∀ x ∈ p.before, padding x = true) ∧ ∀ x ∈ p.after, padding x = true

/-- `receive` stays in its buffer for a read, and what it returns is nothing, or the target and
command of the whole line and not of a part of it. -/
def Right (buf : Buffer 512) (p : Piece) : Prop :=
  ∃ r, receive buf.1 none p.text = some r ∧ ∀ b target cp, r = .line b target cp →
    Terminated b cp ∧ (∀ i, target = some i → Terminated b i) ∧
    (target = none ∧ text nul b cp = [] ∨
      Alone p ∧ said p.line = ⟨target.map (text nul b), text nul b cp⟩)

/-- A reply target that the terminator follows at once, where the buffer goes on behind it. -/
structure Dangling (text : List Char) : Prop where
  named : prefixed (lineText text) = true
  bare : ∀ x ∈ lineText text, Sip.isspace x = false
  last : ∀ x ∈ (text.takeWhile (· ≠ nul)).getLast?, padding x = false
  behind : nul ∉ text ∨ ∃ x ∈ (((text.dropWhile (· ≠ nul)).drop 1).dropWhile Sip.isspace).head?,
    x ≠ nul

/-- What `receive` handles: a read that it refuses, one without a text, and one that has all of
its line, unless its reply target dangles. -/
def Clean (p : Piece) : Prop :=
  refused (lineText p.text) = true ∨ lineText p.text = [] ∨ Alone p ∧ ¬ Dangling p.text

def lineOf (p : Piece) (fits : Lines.Fits '\n' 511 p.text) : ControlLine :=
  .said p.text fits.short fits.one (.inr fits.ended)

theorem lineText_alone {p : Piece} (alone : Alone p) : lineText p.line = lineText p.text := by
  have before : ∀ x ∈ p.before, decide (x ≠ nul) = true := by
    intro x hx
    have pad := alone.1 x hx
    refine decide_eq_true ?_
    rintro rfl
    cases pad
  have after : ∀ x ∈ p.after, decide (x ≠ nul) = true := by
    intro x hx
    have pad := alone.2 x hx
    refine decide_eq_true ?_
    rintro rfl
    cases pad
  rw [lineText, lineText, Lines.Piece.line, List.append_assoc, List.takeWhile_append_of_pos before]
  by_cases mem : nul ∈ p.text
  · have stops : (p.text ++ p.after).takeWhile (· ≠ nul) = p.text.takeWhile (· ≠ nul) := by
      rw [List.takeWhile_append, if_neg]
      intro whole
      have all := List.takeWhile_eq_self_iff.mp (List.IsPrefix.eq_of_length
        (List.takeWhile_prefix (fun x => decide (x ≠ nul))) whole) nul mem
      simp at all
    have none : ∀ x ∈ ([] : List Char), padding x = true := fun x hx => absurd hx List.not_mem_nil
    have around := trimmed_around alone.1 (p.text.takeWhile (· ≠ nul)) none
    rw [stops, ← around, List.append_nil]
  · have all : ∀ x ∈ p.text, decide (x ≠ nul) = true := fun x hx =>
      decide_eq_true fun same => mem (same ▸ hx)
    have keep : (p.text ++ p.after).takeWhile (· ≠ nul) = p.text ++ p.after := by
      rw [List.takeWhile_append_of_pos all, List.takeWhile_eq_self_iff.mpr after]
    rw [keep, List.takeWhile_eq_self_iff.mpr all, ← List.append_assoc]
    exact trimmed_around alone.1 p.text alone.2

def beyond (buf text : List Char) : List Char :=
  if nul ∈ text then (text.dropWhile (· ≠ nul)).drop 1 ++ nul :: buf.drop (text.length + 1)
  else buf.drop (text.length + 1)

def leading (text : List Char) : List Char := (text.takeWhile (· ≠ nul)).takeWhile padding

def trailing (text : List Char) : List Char :=
  ((text.takeWhile (· ≠ nul)).dropWhile padding).rtakeWhile padding

def behind (buf text : List Char) : List Char :=
  List.replicate (trailing text).length nul ++ beyond buf text

theorem takeWhile_nul {text : List Char} (mem : nul ∈ text) :
    text.takeWhile (· ≠ nul) ++ nul :: (text.dropWhile (· ≠ nul)).drop 1 = text := by
  have some : text.dropWhile (· ≠ nul) ≠ [] := fun none => by
    have all := List.dropWhile_eq_nil_iff.mp none nul mem
    simp at all
  have first := List.head_dropWhile_not (fun x => decide (x ≠ nul)) some
  have same : (text.dropWhile (· ≠ nul)).head some = nul := by simpa using first
  calc text.takeWhile (· ≠ nul) ++ nul :: (text.dropWhile (· ≠ nul)).drop 1
      = text.takeWhile (· ≠ nul) ++ text.dropWhile (· ≠ nul) := by
        rw [List.drop_one]
        conv_rhs => rw [← List.cons_head_tail some, same]
    _ = text := List.takeWhile_append_dropWhile

theorem fgets_eq (buf text : List Char) :
    fgets buf text = text.takeWhile (· ≠ nul) ++ nul :: beyond buf text := by
  rw [fgets, beyond]
  by_cases mem : nul ∈ text
  · rw [if_pos mem]
    generalize buf.drop (text.length + 1) = stale
    calc text ++ nul :: stale
        = text.takeWhile (· ≠ nul) ++ nul :: (text.dropWhile (· ≠ nul)).drop 1 ++ nul :: stale := by
          rw [takeWhile_nul mem]
      _ = _ := by simp
  · have all : ∀ x ∈ text, decide (x ≠ nul) = true := fun x hx =>
      decide_eq_true fun same => mem (same ▸ hx)
    rw [if_neg mem, List.takeWhile_eq_self_iff.mpr all]

theorem strip_read (buf text : List Char) : strip nul padding (fgets buf text) =
    some ((leading text).length, leading text ++ lineText text ++ nul :: behind buf text) := by
  rw [fgets_eq, strip_eq padding (not_mem_takeWhile nul text)]
  rfl

theorem parts_read (text : List Char) :
    leading text ++ (lineText text ++ trailing text) = text.takeWhile (· ≠ nul) := by
  rw [leading, lineText, trailing, trimmed, List.rdropWhile_append_rtakeWhile,
    List.takeWhile_append_dropWhile]

theorem length_read {buf : Buffer 512} {text : List Char} (short : text.length ≤ 511) :
    (leading text ++ lineText text ++ nul :: behind buf.1 text).length = 512 := by
  have parts := parts_read text
  have total : (fgets buf.1 text).length = 512 := by
    have size := buf.2
    rw [fgets, List.length_append, List.length_cons, List.length_drop]
    omega
  rw [fgets_eq, ← parts] at total
  simp only [List.length_append, List.length_cons, behind, List.length_replicate] at total ⊢
  omega

theorem terminated (pre s post : List Char) (whole : (pre ++ s ++ nul :: post).length = 512) :
    Terminated (pre ++ s ++ nul :: post) pre.length := by
  refine ⟨whole, ?_⟩
  rw [List.append_assoc, List.drop_left]
  simp

variable {buf : Buffer 512} {p : Piece}

theorem right_refused (fits : Lines.Fits '\n' 511 p.text) (h : refused (lineText p.text) = true) :
    Right buf p := by
  obtain ⟨b, received⟩ := receive_refused buf.1 none (c := lineOf p fits) h
  exact ⟨_, received, fun b target cp same => by cases same⟩

theorem right_bare (fits : Lines.Fits '\n' 511 p.text) (h : refused (lineText p.text) = false)
    (plain : prefixed (lineText p.text) = false) :
    Right buf p ↔ lineText p.text = [] ∨ Alone p := by
  have received := receive_bare none (c := lineOf p fits) (strip_read buf.1 p.text) h plain
  have returned : text nul (leading p.text ++ lineText p.text ++ nul :: behind buf.1 p.text)
      (leading p.text).length = lineText p.text :=
    text_append _ _ (nul_not_mem_line (lineOf p fits))
  constructor
  · rintro ⟨r, same, each⟩
    cases same.symm.trans received
    obtain ⟨-, -, ⟨-, none⟩ | ⟨alone, -⟩⟩ := each _ _ _ rfl
    · exact .inl (returned.symm.trans none)
    · exact .inr alone
  · intro whole
    refine ⟨_, received, fun b target cp same => ?_⟩
    cases same
    refine ⟨terminated _ _ _ (length_read fits.short), nofun, ?_⟩
    rcases whole with none | alone
    · exact .inl ⟨rfl, returned.trans none⟩
    · refine .inr ⟨alone, ?_⟩
      rw [said, lineText_alone alone]
      simp only [plain]
      exact congrArg (Said.mk none) returned.symm

theorem right_spaced (fits : Lines.Fits '\n' 511 p.text) (h : refused (lineText p.text) = false)
    (named : prefixed (lineText p.text) = true) {x : Char} {more : List Char}
    (split : (lineText p.text).dropWhile (!Sip.isspace ·) = x :: more) :
    Right buf p ↔ Alone p := by
  have received := receive_spaced none (c := lineOf p fits) (strip_read buf.1 p.text) h named split
  constructor
  · rintro ⟨r, same, each⟩
    cases same.symm.trans received
    obtain ⟨-, -, ⟨none, -⟩ | ⟨alone, -⟩⟩ := each _ _ _ rfl
    · cases none
    · exact alone
  · intro alone
    refine ⟨_, received, fun b target cp same => ?_⟩
    cases same
    have said' : said p.line = ⟨some (lineOf p fits).first, more.dropWhile Sip.isspace⟩ := by
      rw [said, lineText_alone alone]
      simp only [named, split]
      rfl
    have length : (leading p.text ++ (lineOf p fits).first ++
        nul :: (more ++ nul :: behind buf.1 p.text)).length = 512 := by
      have line : (lineOf p fits).first ++ x :: more = lineText p.text := by
        rw [← split]
        exact first_append (lineOf p fits)
      have whole := @length_read buf _ fits.short
      rw [← line] at whole
      simp only [List.length_append, List.length_cons] at whole ⊢
      omega
    refine ⟨?_, ?_, .inr ⟨alone, ?_⟩⟩
    · rw [spaced_eq] at length ⊢
      exact terminated _ _ _ length
    · intro i target
      cases target
      exact terminated _ _ _ length
    · rw [said', text_spaced (c := lineOf p fits) split]
      exact congrArg (Said.mk · _)
        (congrArg some (text_append _ _ (nul_not_mem_first (lineOf p fits))).symm)

/-- Behind a reply target alone, the scan for the command goes on in what is behind it. -/
theorem receive_alone (fits : Lines.Fits '\n' 511 p.text) (h : refused (lineText p.text) = false)
    (named : prefixed (lineText p.text) = true)
    (bare : ∀ x ∈ lineText p.text, Sip.isspace x = false) :
    receive buf.1 none p.text =
      (scan (fun c => !Sip.isspace c)
        (leading p.text ++ lineText p.text ++ [nul] ++ behind buf.1 p.text)
        (leading p.text ++ lineText p.text ++ [nul]).length).map
          (.line (leading p.text ++ lineText p.text ++ nul :: behind buf.1 p.text)
            (some (leading p.text).length)) := by
  have all : ∀ x ∈ lineText p.text, (!Sip.isspace x) = true := fun x hx => by rw [bare x hx]; rfl
  have first : (lineOf p fits).first = lineText p.text := List.takeWhile_eq_self_iff.mpr all
  have split : (lineOf p fits).line.dropWhile (!Sip.isspace ·) ++ nul :: behind buf.1 p.text =
      nul :: behind buf.1 p.text := by
    have none : (lineOf p fits).line.dropWhile (!Sip.isspace ·) = [] :=
      List.dropWhile_eq_nil_iff.mpr all
    rw [none]
    rfl
  have cut := receive_cut none (c := lineOf p fits) (strip_read buf.1 p.text) h named split
  have place : (leading p.text).length + (lineText p.text).length + 1 =
      (leading p.text ++ lineText p.text ++ [nul]).length := by
    simp [Nat.add_assoc]
  have shape : leading p.text ++ lineText p.text ++ [nul] ++ behind buf.1 p.text =
      leading p.text ++ lineText p.text ++ nul :: behind buf.1 p.text := by simp
  rw [first, place] at cut
  rw [shape]
  exact cut

theorem said_bare (alone : Alone p) (named : prefixed (lineText p.text) = true)
    (bare : ∀ x ∈ lineText p.text, Sip.isspace x = false) :
    said p.line = ⟨some (lineText p.text), []⟩ := by
  have all : ∀ x ∈ lineText p.text, (!Sip.isspace x) = true := fun x hx => by rw [bare x hx]; rfl
  rw [said, lineText_alone alone]
  simp only [named, if_true, List.takeWhile_eq_self_iff.mpr all, List.dropWhile_eq_nil_iff.mpr all]
  rfl

theorem receive_behind (fits : Lines.Fits '\n' 511 p.text) (h : refused (lineText p.text) = false)
    (named : prefixed (lineText p.text) = true)
    (bare : ∀ x ∈ lineText p.text, Sip.isspace x = false)
    {y : Char} {post : List Char} (next : (behind buf.1 p.text).dropWhile Sip.isspace = y :: post) :
    ∃ cp, receive buf.1 none p.text =
        some (.line (leading p.text ++ lineText p.text ++ nul :: behind buf.1 p.text)
          (some (leading p.text).length) cp) ∧
      (leading p.text ++ lineText p.text ++ nul :: behind buf.1 p.text).drop cp = y :: post := by
  have split : (behind buf.1 p.text).takeWhile Sip.isspace ++ y :: post = behind buf.1 p.text := by
    rw [← next]
    exact List.takeWhile_append_dropWhile
  have stop : Sip.isspace y = false := by
    have some : (behind buf.1 p.text).dropWhile Sip.isspace ≠ [] := by
      rw [next]
      exact List.cons_ne_nil y post
    simpa [next] using List.head_dropWhile_not Sip.isspace some
  have skip : ∀ x ∈ (behind buf.1 p.text).takeWhile Sip.isspace, (!Sip.isspace x) = false := by
    intro x hx
    rw [List.mem_takeWhile_imp hx]
    rfl
  have found := scan_append (p := fun x => !Sip.isspace x) (y := y)
    (leading p.text ++ lineText p.text ++ [nul]) post skip (by rw [stop]; rfl)
  rw [List.append_assoc _ (List.takeWhile _ _), split] at found
  refine ⟨_, by rw [receive_alone fits h named bare, found, Option.map_some], ?_⟩
  have shape : leading p.text ++ lineText p.text ++ nul :: behind buf.1 p.text =
      leading p.text ++ lineText p.text ++ [nul] ++
        (behind buf.1 p.text).takeWhile Sip.isspace ++ y :: post := by
    rw [List.append_assoc _ (List.takeWhile _ _), split]
    simp
  rw [shape, ← List.length_append, List.drop_left]

theorem right_target (fits : Lines.Fits '\n' 511 p.text) (h : refused (lineText p.text) = false)
    (named : prefixed (lineText p.text) = true)
    (bare : ∀ x ∈ lineText p.text, Sip.isspace x = false) :
    Right buf p ↔ Alone p ∧ ∃ post, (behind buf.1 p.text).dropWhile Sip.isspace = nul :: post := by
  cases next : (behind buf.1 p.text).dropWhile Sip.isspace with
  | nil =>
    have spaces := List.dropWhile_eq_nil_iff.mp next
    have received := @receive_alone buf p fits h named bare
    rw [scan_none _ fun x hx => by rw [spaces x hx]; rfl] at received
    refine iff_of_false ?_ ?_
    · rintro ⟨r, same, -⟩
      cases same.symm.trans received
    · rintro ⟨-, post, none⟩
      cases none
  | cons y post =>
    obtain ⟨cp, received, rest⟩ := receive_behind fits h named bare next
    constructor
    · rintro ⟨r, same, each⟩
      cases same.symm.trans received
      obtain ⟨-, -, ⟨none, -⟩ | ⟨alone, whole⟩⟩ := each _ _ _ rfl
      · cases none
      · rw [said_bare alone named bare, text, rest] at whole
        have empty : [] = (y :: post).takeWhile (· ≠ nul) := congrArg Said.command whole
        refine ⟨alone, post, ?_⟩
        by_contra other
        have differs : y ≠ nul := fun same => other (by rw [same])
        simp [differs] at empty
    · rintro ⟨alone, post', same⟩
      cases same
      refine ⟨_, received, fun b target cp same => ?_⟩
      cases same
      refine ⟨⟨length_read fits.short, ?_⟩, ?_, .inr ⟨alone, ?_⟩⟩
      · rw [rest]
        exact List.mem_cons_self
      · intro i target
        cases target
        exact terminated _ _ _ (length_read fits.short)
      · have target := text_append (leading p.text) (behind buf.1 p.text)
          (nul_not_mem_line (lineOf p fits))
        have command : text nul (leading p.text ++ lineText p.text ++ nul :: behind buf.1 p.text)
            cp = [] := by
          rw [text, rest]
          rfl
        rw [said_bare alone named bare, Option.map_some, command]
        exact congrArg (Said.mk · []) (congrArg some target.symm)

theorem not_dangling_uncut (fits : Lines.Fits '\n' 511 p.text)
    (named : prefixed (lineText p.text) = true)
    (bare : ∀ x ∈ lineText p.text, Sip.isspace x = false)
    (last : ∀ x ∈ (p.text.takeWhile (· ≠ nul)).getLast?, padding x = false) :
    ¬ Dangling p.text ↔ ∃ post, (beyond buf.1 p.text).dropWhile Sip.isspace = nul :: post := by
  rw [beyond]
  by_cases mem : nul ∈ p.text
  · rw [if_pos mem, List.dropWhile_append]
    cases next : ((p.text.dropWhile (· ≠ nul)).drop 1).dropWhile Sip.isspace with
    | nil =>
      refine iff_of_true ?_ ⟨buf.1.drop (p.text.length + 1), rfl⟩
      rintro ⟨-, -, -, clean | ⟨x, hx, -⟩⟩
      · exact clean mem
      · rw [next] at hx
        cases hx
    | cons y ys =>
      by_cases ended : y = nul
      · refine iff_of_true ?_ ⟨ys ++ nul :: buf.1.drop (p.text.length + 1), by rw [ended]; rfl⟩
        rintro ⟨-, -, -, clean | ⟨x, hx, other⟩⟩
        · exact clean mem
        · rw [next] at hx
          cases hx
          exact other ended
      · refine iff_of_false (fun safe => safe ⟨named, bare, last, .inr ⟨y, ?_, ended⟩⟩) ?_
        · rw [next]
          rfl
        · rintro ⟨post, same⟩
          exact ended (List.cons.inj same).1
  · have clean : ∀ x ∈ p.text, decide (x ≠ nul) = true := fun x hx =>
      decide_eq_true fun same => mem (same ▸ hx)
    have length : p.text.length = 511 := by
      rcases fits.ended with length | newline
      · exact length
      · rw [List.takeWhile_eq_self_iff.mpr clean, newline] at last
        cases last '\n' rfl
    have none : buf.1.drop (p.text.length + 1) = [] := by
      rw [List.drop_eq_nil_iff, buf.2, length]
    rw [if_neg mem, none]
    refine iff_of_false (fun safe => safe ⟨named, bare, last, .inl mem⟩) ?_
    rintro ⟨post, same⟩
    cases same

theorem not_dangling_iff (fits : Lines.Fits '\n' 511 p.text)
    (named : prefixed (lineText p.text) = true)
    (bare : ∀ x ∈ lineText p.text, Sip.isspace x = false) :
    ¬ Dangling p.text ↔ ∃ post, (behind buf.1 p.text).dropWhile Sip.isspace = nul :: post := by
  have parts := parts_read p.text
  have full : lineText p.text ≠ [] := fun none => by rw [none] at named; cases named
  by_cases cut : trailing p.text = []
  · have rest : behind buf.1 p.text = beyond buf.1 p.text := by rw [behind, cut]; rfl
    rw [rest]
    refine not_dangling_uncut fits named bare fun x hx => ?_
    rw [← parts, cut, List.append_nil, List.getLast?_append_of_ne_nil _ full] at hx
    exact trimmed_last padding _ x hx
  · obtain ⟨x, hx⟩ : ∃ x, x ∈ (trailing p.text).getLast? :=
      ⟨_, List.getLast?_eq_getLast_of_ne_nil cut⟩
    refine iff_of_true (fun dangling => ?_) ?_
    · have ends : x ∈ (p.text.takeWhile (· ≠ nul)).getLast? := by
        rw [← parts, ← List.append_assoc, List.getLast?_append_of_ne_nil _ cut]
        exact hx
      have pad : padding x = true := List.mem_rtakeWhile_imp (List.mem_of_mem_getLast? hx)
      rw [dangling.last x ends] at pad
      cases pad
    · obtain ⟨k, more⟩ := Nat.exists_eq_succ_of_ne_zero
        fun zero => cut (List.length_eq_zero_iff.mp zero)
      rw [behind, more]
      exact ⟨_, rfl⟩

/-- A read is right in every buffer just when it is clean. -/
theorem right_iff (fits : Lines.Fits '\n' 511 p.text) : Right buf p ↔ Clean p := by
  cases h : refused (lineText p.text) with
  | true => exact iff_of_true (right_refused fits h) (.inl h)
  | false =>
    have other : ¬ refused (lineText p.text) = true := by rw [h]; exact Bool.false_ne_true
    rw [Clean, or_iff_right other]
    cases named : prefixed (lineText p.text) with
    | false =>
      rw [right_bare fits h named]
      refine or_congr_right (iff_self_and.mpr fun _ dangling => ?_)
      rw [dangling.named] at named
      cases named
    | true =>
      have full : lineText p.text ≠ [] := fun none => by rw [none] at named; cases named
      rw [or_iff_right full]
      cases split : (lineText p.text).dropWhile (!Sip.isspace ·) with
      | nil =>
        have bare : ∀ x ∈ lineText p.text, Sip.isspace x = false := fun x hx => by
          simpa using List.dropWhile_eq_nil_iff.mp split x hx
        rw [right_target fits h named bare, not_dangling_iff fits named bare]
      | cons x more =>
        rw [right_spaced fits h named split]
        refine iff_self_and.mpr fun _ dangling => ?_
        have none := List.dropWhile_eq_nil_iff.mpr fun x hx => by
          show (!Sip.isspace x) = true
          rw [dangling.bare x hx]
          rfl
        rw [none] at split
        cases split

theorem tail_read {w t : List Char} (full : w.length = 511) (clean : '\n' ∉ w) (bare : '\n' ∉ t)
    (short : t.length < 511) : ⟨w, t ++ ['\n'], []⟩ ∈ reads (w ++ (t ++ ['\n'])) := by
  have first : Lines.chunk '\n' 511 (w ++ (t ++ ['\n'])) = w := full ▸ Lines.chunk_full clean _
  have second : Lines.chunk '\n' 511 (t ++ ['\n']) = t ++ ['\n'] := Lines.chunk_line bare short []
  have length : (w ++ (t ++ ['\n'])).length = t.length + 510 + 1 + 1 := by
    simp only [List.length_append, List.length_cons, List.length_nil, full]
    omega
  rw [reads, Lines.reads, length, Lines.pieces]
  simp only [first]
  rw [if_neg (Lines.not_ended clean), if_pos full, List.drop_left]
  refine List.mem_cons_of_mem _ ?_
  rw [Lines.pieces]
  simp only [second]
  rw [if_pos (by simp)]
  exact List.mem_cons_self

/-- The reads are the stream up to a line that is not complete yet, and each is of one line of it.
Whatever is in the buffer before each of them, `receive` stays in the buffer and returns nothing
but whole lines just when each read is clean. -/
theorem stream_iff (stream : List Char) (bufs : Nat → Buffer 512) :
    (∃ rest, ((reads stream).map Lines.Piece.text).flatten ++ rest = stream ∧ '\n' ∉ rest ∧
      rest.length < 511) ∧
    (∀ p ∈ reads stream, Lines.IsLine '\n' stream p.line) ∧
    ((∀ i p, (reads stream)[i]? = some p → Right (bufs i) p) ↔ ∀ p ∈ reads stream, Clean p) := by
  refine ⟨Lines.reads_flatten (by decide) stream, fun p mem => (Lines.reads_spec mem).1, ?_⟩
  constructor
  · intro right p mem
    obtain ⟨i, here⟩ := List.mem_iff_getElem?.mp mem
    exact (right_iff (Lines.reads_spec mem).2).mp (right i p here)
  · intro clean i p here
    have mem : p ∈ reads stream := List.mem_of_getElem? here
    exact (right_iff (Lines.reads_spec mem).2).mpr (clean p mem)

/-- The end of a line of 515 bytes is carried out as a command. -/
theorem not_right : ¬ ∀ (stream : List Char) (bufs : Nat → Buffer 512) (i : Nat) (p : Piece),
    (reads stream)[i]? = some p → Right (bufs i) p := by
  intro all
  have mem := tail_read (w := .replicate 511 'a') (t := "stop".toList) List.length_replicate
    (fun mem => by cases List.eq_of_mem_replicate mem) (by decide) (by decide)
  obtain ⟨i, here⟩ := List.mem_iff_getElem?.mp mem
  have right := all _ (fun _ => ⟨.replicate 512 nul, List.length_replicate⟩) i _ here
  rcases (right_iff (Lines.reads_spec mem).2).mp right with refusal | none | ⟨alone, -⟩
  · revert refusal
    decide
  · revert none
    decide
  · cases alone.1 'a' (List.mem_replicate.mpr ⟨by decide, rfl⟩)

end Control

end Bayonne
