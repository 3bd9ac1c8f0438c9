import Bayonne.Control.Receive

/-! The line that `baycontrol` writes to the control FIFO, and what the server reads from
it. -/
namespace Bayonne

abbrev Pid := { p : Nat // 0 < p ∧ p < 2147483648 }

namespace Wire
open Control (nul isdigit)
open CString

def decimal (p : Pid) : List Char := Nat.toDigits 10 p.val

def shown (w : String) : List Char := w.toList.takeWhile (· ≠ nul)

def start (buffer : List Char) : Option Pid → Option (List Char)
  | some p => print nul buffer 0 512 (decimal p)
  | none => store buffer 0 nul

def addWord (buffer : List Char) (w : String) : Option (List Char) :=
  (scan (· = nul) buffer 0).bind fun len =>
    print nul buffer len (512 - len - 1) (' ' :: shown w)

def finish (buffer : List Char) : Option (List Char) :=
  (scan (· = nul) buffer 0).bind fun len =>
  (store buffer len '\n').bind fun buffer =>
  (store buffer (len + 1) nul).map fun buffer => buffer.take (len + 1)

/-- `command` of `baycontrol`, in its buffer: the process id if it waits for an answer,
the arguments and a newline. -/
def command (buffer : List Char) (pid : Option Pid) (argv : List String) :
    Option (List Char) :=
  (start buffer pid).bind fun buffer =>
  (argv.foldlM addWord buffer).bind finish

def sender (pid : Option Pid) : List Char := (pid.map decimal).getD []

def whole (pid : Option Pid) (argv : List String) : List Char :=
  sender pid ++ argv.flatMap fun w => ' ' :: shown w

structure Filled (buffer s : List Char) : Prop where
  size : buffer.length = 512
  ended : ∃ post, buffer = s ++ nul :: post
  clean : nul ∉ s
  short : s.length ≤ 510

theorem nul_not_mem_shown (w : String) : nul ∉ shown w := not_mem_takeWhile nul _

theorem length_decimal (p : Pid) : (decimal p).length ≤ 10 := by
  rw [decimal, Nat.length_toDigits_le_iff (by decide) (by decide)]
  have fits := p.property.2
  omega

theorem isdigit_decimal {p : Pid} : ∀ c ∈ decimal p, isdigit c = true := fun _ hc =>
  Nat.isDigit_of_mem_toDigits (by decide) (by decide) hc

theorem strlen_filled {buffer s : List Char} (h : Filled buffer s) :
    scan (· = nul) buffer 0 = some s.length := by
  obtain ⟨post, rfl⟩ := h.ended
  have others : ∀ x ∈ s, decide (x = nul) = false := by
    intro x hx
    simpa using fun same : x = nul => h.clean (same ▸ hx)
  simpa using scan_append [] post others (decide_eq_true rfl)

theorem addWord_filled {buffer s : List Char} (h : Filled buffer s) (w : String) :
    ∃ next, addWord buffer w = some next ∧
      Filled next ((s ++ ' ' :: shown w).take 510) := by
  have len := strlen_filled h
  obtain ⟨post, rfl⟩ := h.ended
  have size : 512 - s.length - 1 = 510 + 1 - s.length := by omega
  obtain ⟨rest, printed, same⟩ :=
    print_append (z := nul) post (' ' :: shown w) h.short (by rw [h.size]; decide)
  refine ⟨_, ?_, ⟨same.trans h.size, ⟨rest, rfl⟩, ?_, List.length_take_le _ _⟩⟩
  · rw [addWord, len, Option.bind_some, size, printed]
  · intro mem
    have whole := List.mem_of_mem_take mem
    simp only [List.mem_append, List.mem_cons] at whole
    rcases whole with old | space | new
    · exact h.clean old
    · exact absurd space (by decide)
    · exact nul_not_mem_shown w new

theorem addWords_filled {buffer s : List Char} (h : Filled buffer s) (argv : List String) :
    ∃ next, argv.foldlM addWord buffer = some next ∧
      Filled next ((s ++ argv.flatMap fun w => ' ' :: shown w).take 510) := by
  induction argv generalizing buffer s with
  | nil =>
    refine ⟨buffer, rfl, ?_⟩
    rw [List.flatMap_nil, List.append_nil, List.take_of_length_le h.short]
    exact h
  | cons w argv ih =>
    obtain ⟨mid, added, filled⟩ := addWord_filled h w
    obtain ⟨next, rest, full⟩ := ih filled
    refine ⟨next, ?_, ?_⟩
    · rw [List.foldlM_cons, added]
      exact rest
    · have cut : ∀ a b : List Char, (a.take 510 ++ b).take 510 = (a ++ b).take 510 := by
        intro a b
        have room : 510 - min 510 a.length = 510 - a.length := by omega
        simp only [List.take_append, List.take_take, List.length_take, room]
        rfl
      rw [cut, List.append_assoc] at full
      exact full

theorem finish_filled {buffer s : List Char} (h : Filled buffer s) :
    finish buffer = some (s ++ ['\n']) := by
  have len := strlen_filled h
  have size := h.size
  have short := h.short
  obtain ⟨post, rfl⟩ := h.ended
  cases post with
  | nil =>
    simp only [List.length_append, List.length_cons, List.length_nil] at size
    omega
  | cons x post =>
    have second : store (s ++ '\n' :: x :: post) (s.length + 1) nul =
        some (s ++ '\n' :: nul :: post) := by
      simpa using store_append (s ++ ['\n']) post x nul
    rw [finish, len, Option.bind_some, store_append, Option.bind_some, second, Option.map_some]
    simp [List.take_append]

theorem start_filled {buffer : List Char} (size : buffer.length = 512) (pid : Option Pid) :
    ∃ next, start buffer pid = some next ∧ Filled next (sender pid) := by
  cases pid with
  | none =>
    cases buffer with
    | nil => cases size
    | cons x buffer => exact ⟨nul :: buffer, rfl, size, ⟨buffer, rfl⟩, nofun, Nat.zero_le _⟩
  | some p =>
    have short := length_decimal p
    have whole : (decimal p).take 511 = decimal p := List.take_of_length_le (by omega)
    have fits : (decimal p).length < buffer.length := by omega
    refine ⟨decimal p ++ nul :: buffer.drop ((decimal p).length + 1), ?_, ?_, ⟨_, rfl⟩, ?_, ?_⟩
    · simp [start, print, whole, fits]
    · simp only [List.length_append, List.length_cons, List.length_drop]
      omega
    · exact fun mem => absurd (isdigit_decimal nul mem) (by decide)
    · exact Nat.le_trans short (by decide)

/-- For any arguments, the text is cut to the room for it and ended by a newline. -/
theorem command_some {buffer : List Char} (size : buffer.length = 512) (pid : Option Pid)
    (argv : List String) :
    command buffer pid argv = some ((whole pid argv).take 510 ++ ['\n']) := by
  obtain ⟨mid, started, filled⟩ := start_filled size pid
  obtain ⟨next, added, full⟩ := addWords_filled filled argv
  rw [command, started, Option.bind_some, added, Option.bind_some]
  exact finish_filled full

structure Solid (c : Char) : Prop where
  space : Sip.isspace c = false
  opening : c ≠ '\x7b'
  closing : c ≠ '\x7d'
  printable : 32 ≤ c.toNat ∧ c.toNat ≠ 127

instance (c : Char) : Decidable (Solid c) :=
  decidable_of_iff
    (Sip.isspace c = false ∧ c ≠ '\x7b' ∧ c ≠ '\x7d' ∧ 32 ≤ c.toNat ∧ c.toNat ≠ 127)
    ⟨fun ⟨space, opening, closing, printable⟩ => ⟨space, opening, closing, printable⟩,
      fun ⟨space, opening, closing, printable⟩ => ⟨space, opening, closing, printable⟩⟩

/-- Arguments that the tokens of a line can be. -/
structure Sendable (argv : List String) : Prop where
  some : argv ≠ []
  few : argv.length ≤ 64
  words : ∀ w ∈ argv, w ≠ "" ∧ ∀ c ∈ w.toList, Solid c
  first : ∀ w ∈ argv.head?, ∀ c ∈ w.toList.head?, isdigit c = false ∧ c ≠ '/'

def Targets (buf : List Char) (target : Option Nat) : Option Pid → Prop
  | none => target = none
  | some p => ∃ i, target = some i ∧ (buf[i]?).any isdigit = true ∧
      atoi (String.ofList (text nul buf i)) = p.val

theorem Solid.unpadded {c : Char} (h : Solid c) : Control.padding c = false :=
  Control.not_padding h.space

theorem Solid.unblank {c : Char} (h : Solid c) : Control.blank c = false := by
  have space := h.space
  simp only [Sip.isspace, Control.blank, decide_eq_false_iff_not, List.mem_cons, not_or,
    List.not_mem_nil, or_false] at space ⊢
  tauto

theorem Solid.ne_nul {c : Char} (h : Solid c) : c ≠ nul := by
  rintro rfl
  exact absurd h.printable.1 (by decide)

def joined (w : List Char) (ws : List String) : List Char :=
  w ++ ws.flatMap fun v => ' ' :: v.toList

theorem joined_cons (w : List Char) (v : String) (ws : List String) :
    joined w (v :: ws) = w ++ ' ' :: joined v.toList ws := by
  simp [joined]

theorem token_joined {w : List Char} (some : w ≠ []) (solid : ∀ c ∈ w, Solid c)
    (ws : List String) : Control.token (joined w ws) =
      Option.some (String.ofList w, (ws.flatMap fun v => ' ' :: v.toList).drop 1) := by
  cases w with
  | nil => exact absurd rfl some
  | cons c w =>
    have skip : (joined (c :: w) ws).dropWhile Control.blank = joined (c :: w) ws := by
      rw [joined, List.cons_append, List.dropWhile_cons, (solid c List.mem_cons_self).unblank]
      rfl
    have keep : ∀ x ∈ c :: w, (!Control.blank x) = true := fun x hx => by
      rw [(solid x hx).unblank]
      rfl
    have stop : (ws.flatMap fun v => ' ' :: v.toList).takeWhile (!Control.blank ·) = [] ∧
        (ws.flatMap fun v => ' ' :: v.toList).dropWhile (!Control.blank ·) =
          ws.flatMap fun v => ' ' :: v.toList := by
      cases ws with
      | nil => exact ⟨rfl, rfl⟩
      | cons v ws => exact ⟨rfl, rfl⟩
    unfold Control.token
    rw [skip]
    split
    · rename_i empty
      cases empty
    · rename_i brace
      cases brace
      exact absurd rfl (solid _ List.mem_cons_self).opening
    · rename_i whole
      rw [← whole, joined, List.takeWhile_append_of_pos keep, List.dropWhile_append_of_pos keep,
        stop.1, stop.2, List.append_nil]

theorem words_joined {w : String} {ws : List String} {n : Nat} (few : ws.length < n)
    (good : ∀ v ∈ w :: ws, v ≠ "" ∧ ∀ c ∈ v.toList, Solid c) :
    Control.words n (joined w.toList ws) = w :: ws := by
  induction n generalizing w ws with
  | zero => cases few
  | succ n ih =>
    obtain ⟨some, solid⟩ := good w List.mem_cons_self
    have chars : w.toList ≠ [] := fun empty => some (String.toList_eq_nil_iff.mp empty)
    rw [Control.words, token_joined chars solid ws]
    simp only [String.ofList_toList]
    cases ws with
    | nil =>
      cases n <;> rfl
    | cons v ws =>
      have rest : ((v :: ws).flatMap fun v => ' ' :: v.toList).drop 1 = joined v.toList ws := by
        simp [joined]
      rw [rest, ih (Nat.lt_of_succ_lt_succ few) fun u hu => good u (List.mem_cons_of_mem w hu)]

theorem joined_last {w : String} {ws : List String}
    (good : ∀ v ∈ w :: ws, v ≠ "" ∧ ∀ c ∈ v.toList, Solid c) :
    ∀ c ∈ (joined w.toList ws).getLast?, Solid c := by
  induction ws generalizing w with
  | nil =>
    intro c hc
    rw [joined, List.flatMap_nil, List.append_nil] at hc
    exact (good w List.mem_cons_self).2 c (List.mem_of_getLast? hc)
  | cons v ws ih =>
    have some : joined v.toList ws ≠ [] := by
      have chars := (good v (by simp)).1
      simp [joined, String.toList_eq_nil_iff, chars]
    intro c hc
    rw [joined_cons, List.getLast?_append_of_ne_nil _ (List.cons_ne_nil _ _),
      List.getLast?_cons_of_ne_nil some] at hc
    exact ih (fun u hu => good u (List.mem_cons_of_mem w hu)) c hc

theorem joined_mem {w : String} {ws : List String}
    (good : ∀ v ∈ w :: ws, v ≠ "" ∧ ∀ c ∈ v.toList, Solid c) :
    ∀ c ∈ joined w.toList ws, c = ' ' ∨ Solid c := by
  intro c hc
  rcases List.mem_append.mp hc with first | later
  · exact .inr ((good w List.mem_cons_self).2 c first)
  · obtain ⟨v, hv, hc⟩ := List.mem_flatMap.mp later
    rcases List.mem_cons.mp hc with rfl | hc
    · exact .inl rfl
    · exact .inr ((good v (List.mem_cons_of_mem w hv)).2 c hc)

theorem shown_solid {w : String} (solid : ∀ c ∈ w.toList, Solid c) : shown w = w.toList := by
  have keep : ∀ c ∈ w.toList, decide (c ≠ nul) = true := fun c hc =>
    decide_eq_true (solid c hc).ne_nul
  exact List.takeWhile_eq_self_iff.mpr keep

theorem whole_joined (pid : Option Pid) {w : String} {ws : List String}
    (good : ∀ v ∈ w :: ws, v ≠ "" ∧ ∀ c ∈ v.toList, Solid c) :
    whole pid (w :: ws) = sender pid ++ ' ' :: joined w.toList ws := by
  have each : ∀ vs : List String, (∀ v ∈ vs, v ≠ "" ∧ ∀ c ∈ v.toList, Solid c) →
      (vs.flatMap fun v => ' ' :: shown v) = vs.flatMap fun v => ' ' :: v.toList := by
    intro vs all
    induction vs with
    | nil => rfl
    | cons v vs ih =>
      rw [List.flatMap_cons, List.flatMap_cons, shown_solid (all v List.mem_cons_self).2,
        ih fun u hu => all u (List.mem_cons_of_mem v hu)]
  rw [whole, each _ good]
  rfl

theorem line_eq {c : ControlLine} (lead : List Char) {s : List Char} (text : c.text = lead ++ s ++ ['\n'])
    (leads : ∀ x ∈ lead, x = ' ') (clean : nul ∉ s) (some : s ≠ [])
    (first : ∀ x ∈ s.head?, Control.padding x = false)
    (last : ∀ x ∈ s.getLast?, Control.padding x = false) : c.line = s := by
  have keep : ∀ x ∈ c.text, decide (x ≠ nul) = true := by
    intro x hx
    rw [decide_eq_true_eq]
    rintro rfl
    simp only [text, List.mem_append, List.mem_singleton] at hx
    rcases hx with (blank | mid) | newline
    · exact absurd (leads _ blank) (by decide)
    · exact clean mid
    · exact absurd newline (by decide)
  have whole : c.text.takeWhile (· ≠ nul) = c.text := List.takeWhile_eq_self_iff.mpr keep
  rw [ControlLine.line, whole, text]
  refine trimmed_append ?_ first last ?_ some
  · intro x hx
    rw [leads x hx]
    rfl
  · intro x hx
    rw [List.mem_singleton.mp hx]
    rfl

theorem atoi_decimal (p : Pid) : atoi (String.ofList (decimal p)) = p.val := by
  have value : Sip.digits (decimal p) 0 = p.val := by
    have read : ∀ (ds : List Char) (n : Nat), (∀ d ∈ ds, d.isDigit = true) →
        Sip.digits ds n = Nat.ofDigitChars 10 ds n := by
      intro ds n all
      induction ds generalizing n with
      | nil => rfl
      | cons d ds ih =>
        rw [Sip.digits, if_pos (all d List.mem_cons_self), Nat.ofDigitChars_cons,
          ih _ fun x hx => all x (List.mem_cons_of_mem d hx)]
    rw [read _ _ fun d hd => isdigit_decimal d hd, decimal, Nat.ofDigitChars_ten_toDigits]
  have fits := p.property.2
  rw [Control.atoi_digits isdigit_decimal (by omega), value]

section RoundTrip
variable {pid : Option Pid} {w : String} {ws : List String} {c : ControlLine}

theorem head_solid (good : ∀ v ∈ w :: ws, v ≠ "" ∧ ∀ c ∈ v.toList, Solid c) :
    ∃ x xs, w.toList = x :: xs ∧ Solid x := by
  obtain ⟨named, solid⟩ := good w List.mem_cons_self
  obtain ⟨x, xs, chars⟩ : ∃ x xs, w.toList = x :: xs :=
    List.exists_cons_of_ne_nil fun empty => named (String.toList_eq_nil_iff.mp empty)
  exact ⟨x, xs, chars, solid x (by rw [chars]; exact List.mem_cons_self)⟩

theorem receive_unsent (good : ∀ v ∈ w :: ws, v ≠ "" ∧ ∀ c ∈ v.toList, Solid c)
    (first : ∀ c ∈ w.toList.head?, isdigit c = false ∧ c ≠ '/')
    (text : c.text = ' ' :: joined w.toList ws ++ ['\n']) (buf : List Char) :
    ∃ b cp, Control.receive buf none c.text = some (.line b none cp) ∧
      CString.text nul b cp = joined w.toList ws := by
  obtain ⟨x, xs, chars, hx⟩ := head_solid good
  have head : (joined w.toList ws).head? = some x := by rw [joined, chars]; rfl
  have line : c.line = joined w.toList ws := by
    refine line_eq [' '] text ?_ ?_ ?_ ?_ ?_
    · exact fun y hy => List.mem_singleton.mp hy
    · exact fun mem => (joined_mem good nul mem).elim (fun h => absurd h (by decide))
        fun h => h.ne_nul rfl
    · rw [joined, chars]
      nofun
    · rw [head]
      rintro y ⟨⟩
      exact hx.unpadded
    · exact fun y hy => (joined_last good y hy).unpadded
  obtain ⟨plain, slash⟩ := first x (by rw [chars]; rfl)
  have refusal : Control.refused c.line = false := by simp [Control.refused, line, head, slash]
  have bare : Control.prefixed c.line = false := by
    simp [Control.prefixed, line, head, slash, plain]
  rw [← line]
  exact Control.receive_plain buf none refusal bare

theorem receive_sent (p : Pid) (good : ∀ v ∈ w :: ws, v ≠ "" ∧ ∀ c ∈ v.toList, Solid c)
    (text : c.text = decimal p ++ ' ' :: joined w.toList ws ++ ['\n']) (buf : List Char) :
    ∃ b i cp, Control.receive buf none c.text = some (.line b (some i) cp) ∧
      CString.text nul b i = decimal p ∧ CString.text nul b cp = joined w.toList ws := by
  obtain ⟨x, xs, chars, hx⟩ := head_solid good
  obtain ⟨d, ds, digits⟩ : ∃ d ds, decimal p = d :: ds :=
    List.exists_cons_of_ne_nil Nat.toDigits_ne_nil
  have hd : isdigit d = true := isdigit_decimal d (by rw [digits]; exact List.mem_cons_self)
  have nonempty : joined w.toList ws ≠ [] := by
    rw [joined, chars]
    nofun
  have line : c.line = decimal p ++ ' ' :: joined w.toList ws := by
    refine line_eq [] text nofun ?_ ?_ ?_ ?_
    · intro mem
      rcases List.mem_append.mp mem with digit | later
      · exact absurd (isdigit_decimal nul digit) (by decide)
      rcases List.mem_cons.mp later with blank | later
      · exact absurd blank (by decide)
      · exact (joined_mem good nul later).elim (fun h => absurd h (by decide))
          fun h => h.ne_nul rfl
    · rw [digits]
      nofun
    · rw [digits]
      rintro y ⟨⟩
      exact Control.not_padding (Control.isspace_of_isdigit hd)
    · intro y hy
      rw [List.getLast?_append_of_ne_nil _ (List.cons_ne_nil _ _),
        List.getLast?_cons_of_ne_nil nonempty] at hy
      exact (joined_last good y hy).unpadded
  have hasPid : c.HasPid := by
    rw [ControlLine.HasPid, line, digits]
    exact hd
  obtain ⟨refusal, prefixes⟩ := Control.prefixed_of_hasPid hasPid
  have keep : ∀ y ∈ decimal p, (!Sip.isspace y) = true := fun y hy => by
    rw [Control.isspace_of_isdigit (isdigit_decimal y hy)]
    rfl
  have first : c.first = decimal p := by
    rw [ControlLine.first, line, List.takeWhile_append_of_pos keep]
    simp [Sip.isspace]
  have split : c.line.dropWhile (!Sip.isspace ·) = ' ' :: joined w.toList ws := by
    rw [line, List.dropWhile_append_of_pos keep]
    rfl
  obtain ⟨b, i, cp, received, target, said⟩ :=
    Control.receive_target buf none refusal prefixes split
  refine ⟨b, i, cp, received, target.trans first, said.trans ?_⟩
  rw [joined, chars, List.cons_append, List.dropWhile_cons, hx.space]
  rfl

theorem newline_not_mem (pid : Option Pid)
    (good : ∀ v ∈ w :: ws, v ≠ "" ∧ ∀ c ∈ v.toList, Solid c) :
    '\n' ∉ sender pid ++ ' ' :: joined w.toList ws := by
  intro mem
  rcases List.mem_append.mp mem with digit | later
  · cases pid with
    | none => cases digit
    | some p => exact absurd (isdigit_decimal _ digit) (by decide)
  rcases List.mem_cons.mp later with blank | later
  · exact absurd blank (by decide)
  rcases joined_mem good _ later with blank | solid
  · exact absurd blank (by decide)
  · exact absurd solid.space (by decide)

theorem exists_line (pid : Option Pid)
    (good : ∀ v ∈ w :: ws, v ≠ "" ∧ ∀ c ∈ v.toList, Solid c)
    (short : (sender pid ++ ' ' :: joined w.toList ws).length ≤ 510) :
    ∃ c : ControlLine, c.text = sender pid ++ ' ' :: joined w.toList ws ++ ['\n'] := by
  have fits : (sender pid ++ ' ' :: joined w.toList ws ++ ['\n']).length ≤ 511 := by
    rw [List.length_append]
    exact Nat.succ_le_succ short
  have one : '\n' ∉ (sender pid ++ ' ' :: joined w.toList ws ++ ['\n']).dropLast := by
    rw [List.dropLast_concat]
    exact newline_not_mem pid good
  exact ⟨.said _ fits one (.inr (.inr List.getLast?_concat)), rfl⟩

end RoundTrip

/-- For any arguments `command` stays in its buffer and writes one line, of the text cut
to 510 bytes; and of words that fit the server gets exactly these words, with the sender
as reply target if it waits for an answer. -/
theorem command_received {buffer : List Char} (size : buffer.length = 512) (pid : Option Pid)
    (argv : List String) : ∃ sent, command buffer pid argv = some sent ∧
      sent = (whole pid argv).take 510 ++ ['\n'] ∧
      (Sendable argv → (whole pid argv).length ≤ 510 →
        (∃ c : ControlLine, c.text = sent) ∧
        ∀ c : ControlLine, c.text = sent → ∀ buf, ∃ b target cp,
          Control.receive buf none c.text = some (.line b target cp) ∧
          Control.words 64 (text nul b cp) = argv ∧ Targets b target pid) := by
  refine ⟨_, command_some size pid argv, rfl, ?_⟩
  rintro ⟨nonempty, few, good, first⟩ short
  cases argv with
  | nil => exact absurd rfl nonempty
  | cons w ws =>
    rw [List.take_of_length_le short, whole_joined pid good]
    rw [whole_joined pid good] at short
    refine ⟨exists_line pid good short, ?_⟩
    · intro c text buf
      cases pid with
      | none =>
        obtain ⟨b, cp, received, said⟩ := receive_unsent good (first w rfl) text buf
        refine ⟨b, none, cp, received, ?_, rfl⟩
        rw [said, words_joined few good]
      | some p =>
        obtain ⟨b, i, cp, received, target, said⟩ := receive_sent p good text buf
        refine ⟨b, some i, cp, received, ?_, i, rfl, ?_, ?_⟩
        · rw [said, words_joined few good]
        · obtain ⟨d, ds, digits⟩ : ∃ d ds, decimal p = d :: ds :=
            List.exists_cons_of_ne_nil Nat.toDigits_ne_nil
          have head := head_text (z := nul) (p := isdigit) (by decide) b i
          rw [← head, target, digits]
          exact isdigit_decimal d (by rw [digits]; exact List.mem_cons_self)
        · rw [target, atoi_decimal]

theorem solid_word {w : String} (named : w ≠ "")
    (solid : w.toList.all (fun c => decide (Solid c)) = true) :
    w ≠ "" ∧ ∀ c ∈ w.toList, Solid c :=
  ⟨named, fun c hc => of_decide_eq_true (List.all_eq_true.mp solid c hc)⟩

theorem command_received_hangup :
    ∃ sent, command (List.replicate 512 'x') (some ⟨123, by decide⟩) ["hangup", "5"] = some sent ∧
      sent = "123 hangup 5\n".toList ∧
      ∀ c : ControlLine, c.text = sent → ∀ buf, ∃ b target cp,
        Control.receive buf none c.text = some (.line b target cp) ∧
        Control.words 64 (text nul b cp) = ["hangup", "5"] ∧
        Targets b target (some ⟨123, by decide⟩) := by
  have sendable : Sendable ["hangup", "5"] := by
    refine ⟨by decide, by decide, ?_, ?_⟩
    · rintro w (_ | ⟨_, _ | ⟨_, ⟨⟩⟩⟩)
      · exact solid_word (by decide) (by decide)
      · exact solid_word (by decide) (by decide)
    · rintro w ⟨⟩ c ⟨⟩
      decide
  obtain ⟨sent, written, shape, back⟩ :=
    command_received (List.length_replicate (a := 'x')) (some ⟨123, by decide⟩) ["hangup", "5"]
  have literal : sent = "123 hangup 5\n".toList := by
    rw [shape]
    decide
  exact ⟨sent, written, literal, (back sendable (by decide)).2⟩

end Wire

end Bayonne
