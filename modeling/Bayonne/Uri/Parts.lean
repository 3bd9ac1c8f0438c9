import Bayonne.Uri

/-! The grammar of a URI, and what `userid`, `hostid` and `portid` find of its parts. -/
namespace Bayonne
namespace Uri

inductive Scheme where
  | sip | sips | tcp | udp | iax | h323
  deriving DecidableEq, Repr

def Scheme.text : Scheme → List Char
  | .sip => "sip".toList
  | .sips => "sips".toList
  | .tcp => "tcp".toList
  | .udp => "udp".toList
  | .iax => "iax".toList
  | .h323 => "h323".toList

/-- A user, or a host that is a name or a dotted address. -/
abbrev Name := { s : List Char // s ≠ [] ∧ ':' ∉ s ∧ '@' ∉ s ∧ '[' ∉ s }

abbrev Literal := { s : List Char // 2 ≤ s.count ':' ∧ '@' ∉ s ∧ '[' ∉ s ∧ ']' ∉ s }

abbrev Port := { s : List Char // (∀ c ∈ s, Control.isdigit c = true) ∧
  1 ≤ Sip.digits s 0 ∧ Sip.digits s 0 ≤ 65535 }

inductive Host where
  | name (n : Name)
  | literal (a : Literal)

def Host.text : Host → List Char
  | .name n => n.1
  | .literal a => a.1

def Host.print : Host → List Char
  | .name n => n.1
  | .literal a => '[' :: a.1 ++ [']']

def Host.isLiteral : Host → Bool
  | .name _ => false
  | .literal _ => true

structure Parts where
  scheme : Option Scheme
  user : Option Name
  host : Host
  port : Option Port

namespace Parts

def portText (u : Parts) : List Char := u.port.elim [] fun p => ':' :: p.1

def tail (u : Parts) : List Char := u.host.print ++ u.portText

def rest (u : Parts) : List Char := u.user.elim [] (fun w => w.1 ++ ['@']) ++ u.tail

def print (u : Parts) : List Char := u.scheme.elim [] (fun s => s.text ++ [':']) ++ u.rest

def number (u : Parts) : Nat := u.port.elim 0 fun p => Sip.digits p.1 0

end Parts

section Scan
variable {s r t uri : List Char} {size : Nat}

theorem pastLetters_letters (small : ∀ c ∈ s, islower c = true) (r : List Char) :
    pastLetters (s ++ ':' :: r) = r := by
  have stop : (s ++ ':' :: r).dropWhile islower = ':' :: r := by
    rw [List.dropWhile_append_of_pos small]
    rfl
  rw [pastLetters, stop]
  rfl

theorem pastLetters_other (h : (uri.dropWhile islower).head? ≠ some ':') :
    pastLetters uri = uri := by
  unfold pastLetters
  split
  · rename_i stop
    rw [stop] at h
    exact absurd rfl h
  · rfl

theorem pastLetters_blocked (clean : ':' ∉ s) {x : Char} (mem : x ∈ s)
    (large : islower x = false) (r : List Char) : pastLetters (s ++ r) = s ++ r := by
  refine pastLetters_other ?_
  induction s with
  | nil => cases mem
  | cons y s ih =>
    rw [List.cons_append, List.dropWhile_cons]
    split
    · rename_i small
      have other : x ≠ y := by
        rintro rfl
        rw [large] at small
        cases small
      exact ih (fun h => clean (List.mem_cons_of_mem y h)) (List.mem_of_ne_of_mem other mem)
    · rw [List.head?_cons]
      intro colon
      exact clean (Option.some.inj colon ▸ List.mem_cons_self)

theorem pastLetters_colonless (clean : ':' ∉ s) : pastLetters s = s := by
  refine pastLetters_other fun colon => clean ?_
  exact (List.dropWhile_sublist _).mem (List.mem_of_head? colon)

theorem hostid_bracket {a : List Char} (after : afterAt (pastLetters uri) = '[' :: a ++ ']' :: r)
    (clean : ']' ∉ a) (room : (a ++ ']' :: r).length < size) : hostid size uri = (true, a) := by
  have here : ('[' :: a ++ ']' :: r).head? = some '[' := rfl
  have buf : snprintf size (('[' :: a ++ ']' :: r).drop 1) = a ++ ']' :: r := snprintf_eq room
  rw [hostid, after]
  simp only [here, buf, strchr_append clean, cut_append]
  rfl

theorem hostid_plain (after : afterAt (pastLetters uri) = t) (unbracketed : t.head? ≠ some '[')
    (room : t.length < size) :
    hostid size uri = (true, if t.count ':' ≤ 1 then t.takeWhile (· ≠ ':') else t) := by
  rw [hostid, after]
  simp only [unbracketed, if_false, snprintf_eq room]
  by_cases mem : ':' ∈ t
  · have first := strchr_mem mem
    cases last : strrchr ':' t with
    | none => exact absurd mem (strrchr_none.mp last)
    | some sp =>
      have same : some sp = strchr ':' t ↔ t.count ':' ≤ 1 := by
        rw [← strchr_eq_strrchr, last]
        exact eq_comm
      simp only [same]
      by_cases one : t.count ':' ≤ 1
      · have here : sp = t.dropWhile (· ≠ ':') := Option.some.inj ((same.mpr one).trans first)
        rw [if_pos one, if_pos one, here, cut_first]
      · rw [if_neg one, if_neg one]
  · have clear : t.takeWhile (· ≠ ':') = t := by
      refine List.takeWhile_eq_self_iff.mpr fun c hc => decide_eq_true ?_
      rintro rfl
      exact mem hc
    rw [strrchr_none.mpr mem, clear, ite_self]

theorem portid_bracket {a : List Char} (past : pastLetters uri = '[' :: a ++ ']' :: r)
    (clean : ']' ∉ a) : portid uri =
      (strchr ':' r).elim 0 fun pp => UInt16.ofInt (atoi (String.ofList (pp.drop 1))) := by
  have here : ('[' :: a ++ ']' :: r).head? = some '[' := rfl
  have close : strchr ']' ('[' :: a ++ ']' :: r) = some (']' :: r) := by
    refine strchr_append (fun h => ?_) r
    rcases List.mem_cons.mp h with bracket | mem
    · cases bracket
    · exact clean mem
  have colon : strchr ':' (']' :: r) = strchr ':' r := rfl
  rw [portid, past]
  simp only [here, close, if_true, Option.bind_some, colon]
  cases strchr ':' r <;> rfl

theorem portid_plain (past : pastLetters uri = t) (unbracketed : t.head? ≠ some '[') :
    portid uri = if t.count ':' = 1 then
      UInt16.ofInt (atoi (String.ofList ((t.dropWhile (· ≠ ':')).drop 1))) else 0 := by
  rw [portid, past]
  simp only [unbracketed, if_false, ne_eq, ite_not, strchr_eq_strrchr]
  by_cases one : t.count ':' = 1
  · have mem : ':' ∈ t := List.count_pos_iff.mp (by omega)
    have last : strrchr ':' t = some (t.dropWhile (· ≠ ':')) :=
      (strchr_eq_strrchr.mpr (Nat.le_of_eq one)).symm.trans (strchr_mem mem)
    rw [if_pos one, if_pos (Nat.le_of_eq one), last]
  · rw [if_neg one]
    by_cases none : t.count ':' = 0
    · have last : strrchr ':' t = .none := strrchr_none.mpr (List.count_eq_zero.mp none)
      rw [if_pos (by omega), last]
    · rw [if_neg (by omega)]

end Scan

section Digits

/-- `atoi` sees nothing of what follows a character that is no digit. -/
theorem digits_append (w : List Char) {x : Char} (other : x.isDigit = false) (t : List Char)
    (n : Nat) : Sip.digits (w ++ x :: t) n = Sip.digits w n := by
  induction w generalizing n with
  | nil => simp [Sip.digits, other]
  | cons c w ih =>
    rw [List.cons_append, Sip.digits, Sip.digits]
    split
    · exact ih _
    · rfl

theorem atoi_append (w t : List Char) :
    atoi (String.ofList (w ++ '@' :: t)) = atoi (String.ofList w) := by
  have value : Sip.numeral (String.ofList (w ++ '@' :: t)) = Sip.numeral (String.ofList w) := by
    have skip : (w ++ '@' :: t).dropWhile Sip.isspace = w.dropWhile Sip.isspace ++ '@' :: t := by
      rw [List.dropWhile_append]
      split
      · rename_i empty
        rw [List.isEmpty_iff.mp empty]
        rfl
      · rfl
    unfold Sip.numeral
    rw [String.toList_ofList, String.toList_ofList, skip]
    have same : ∀ w, Sip.digits (w ++ '@' :: t) 0 = Sip.digits w 0 := fun w =>
      digits_append w rfl t 0
    cases w.dropWhile Sip.isspace with
    | nil => rfl
    | cons c w =>
      by_cases minus : c = '-'
      · subst minus
        exact congrArg (fun n : Nat => -(n : Int)) (same w)
      by_cases plus : c = '+'
      · subst plus
        exact congrArg Nat.cast (same w)
      · have whole := same (c :: w)
        rw [List.cons_append] at whole ⊢
        split
        · rename_i first
          exact absurd (List.cons.inj first).1 minus
        · rename_i first
          exact absurd (List.cons.inj first).1 plus
        · rw [whole]
          split
          · rename_i first
            exact absurd (List.cons.inj first).1 minus
          · rename_i first
            exact absurd (List.cons.inj first).1 plus
          · rfl
  rw [atoi, atol, value]
  rfl

end Digits

namespace Parts
variable (u : Parts)

theorem head_name (n : Name) (t : List Char) : (n.1 ++ t).head? ≠ some '[' := by
  rw [List.head?_append_of_ne_nil _ n.2.1]
  exact fun h => n.2.2.2.2 (List.mem_of_head? h)

theorem port_clean (p : Port) {c : Char} (other : Control.isdigit c = false) : c ∉ p.1 := by
  intro mem
  rw [p.2.1 c mem] at other
  cases other

theorem port_value (p : Port) :
    (UInt16.ofInt (atoi (String.ofList p.1))).toNat = Sip.digits p.1 0 := by
  have high := p.2.2.2
  rw [Control.atoi_digits p.2.1 (by omega)]
  simp only [UInt16.ofInt, UInt16.toNat_ofNat']
  omega

theorem portText_cases : u.port = none ∧ u.portText = [] ∨
    ∃ p, u.port = some p ∧ u.portText = ':' :: p.1 := by
  unfold portText
  cases u.port with
  | none => exact .inl ⟨rfl, rfl⟩
  | some p => exact .inr ⟨p, rfl, rfl⟩

theorem at_tail : '@' ∉ u.tail := by
  intro mem
  rcases List.mem_append.mp mem with host | port
  · cases h : u.host with
    | name n =>
      rw [h] at host
      exact n.2.2.2.1 host
    | literal a =>
      rw [h] at host
      have inside : '@' ∈ a.1 := by simpa [Host.print] using host
      exact a.2.2.1 inside
  · rcases portText_cases u with ⟨-, text⟩ | ⟨p, -, text⟩ <;> rw [text] at port
    · cases port
    · rcases List.mem_cons.mp port with colon | digit
      · cases colon
      · exact port_clean p rfl digit

theorem count_portText : u.portText.count ':' = if u.port.isSome then 1 else 0 := by
  rcases portText_cases u with ⟨h, text⟩ | ⟨p, h, text⟩ <;> rw [text, h]
  · rfl
  · simp [List.count_eq_zero.mpr (port_clean (c := ':') p rfl)]

theorem count_tail : u.tail.count ':' =
    u.host.print.count ':' + if u.port.isSome then 1 else 0 := by
  rw [tail, List.count_append, count_portText]

theorem count_name (n : Name) : (Host.name n).print.count ':' = 0 :=
  List.count_eq_zero.mpr n.2.2.1

theorem count_literal (a : Literal) : 2 ≤ (Host.literal a).print.count ':' := by
  have two := a.2.1
  simpa [Host.print, List.count_append] using two

theorem count_rest : u.rest.count ':' = u.tail.count ':' := by
  unfold rest
  rw [List.count_append]
  cases h : u.user with
  | none => simp
  | some w => simp [List.count_eq_zero.mpr w.2.2.1]

theorem user_rest {w : Name} (user : u.user = some w) : u.rest = w.1 ++ '@' :: u.tail := by
  rw [rest, user]
  simp

theorem rest_alone (user : u.user = none) : u.rest = u.tail := by
  rw [rest, user]
  rfl

theorem afterAt_rest {pre : List Char} (clean : '@' ∉ pre) (skipped : u.user.isSome ∨ pre = []) :
    afterAt (pre ++ u.rest) = u.tail := by
  unfold rest
  cases h : u.user with
  | none =>
    rw [h] at skipped
    rw [skipped.resolve_left nofun]
    exact afterAt_none (at_tail u)
  | some w =>
    have user : '@' ∉ pre ++ w.1 := by
      simpa using ⟨clean, w.2.2.2.1⟩
    have shape : pre ++ (w.1 ++ ['@'] ++ u.tail) = (pre ++ w.1) ++ '@' :: u.tail := by
      simp
    exact (congrArg afterAt shape).trans (afterAt_append user u.tail)

theorem colonless {s : List Char} (clean : ':' ∉ s) : ∀ c ∈ s, decide (c ≠ ':') = true := by
  intro c hc
  refine decide_eq_true ?_
  rintro rfl
  exact clean hc

theorem hostid_tail {uri : List Char} {size : Nat} (after : afterAt (pastLetters uri) = u.tail)
    (room : u.tail.length < size) : hostid size uri = (true, u.host.text) := by
  have count := count_tail u
  have stop : u.portText.takeWhile (· ≠ ':') = [] := by
    rcases portText_cases u with ⟨-, text⟩ | ⟨p, -, text⟩ <;> rw [text] <;> rfl
  cases h : u.host with
  | name n =>
    have shape : u.tail = n.1 ++ u.portText := by
      rw [tail, h]
      rfl
    have single : u.tail.count ':' ≤ 1 := by
      rw [count, h, count_name]
      split <;> omega
    have bare : u.tail.head? ≠ some '[' := by
      rw [shape]
      exact head_name n u.portText
    rw [hostid_plain after bare room, if_pos single, shape, 
      List.takeWhile_append_of_pos (colonless n.2.2.1), stop, List.append_nil]
    rfl
  | literal a =>
    have shape : u.tail = '[' :: a.1 ++ ']' :: u.portText := by
      rw [tail, h]
      simp [Host.print]
    rw [shape] at after room
    refine hostid_bracket after a.2.2.2.2 ?_
    exact Nat.lt_of_succ_lt room

theorem shown_number : ((strchr ':' u.portText).elim 0 fun pp =>
    UInt16.ofInt (atoi (String.ofList (pp.drop 1)))).toNat = u.number := by
  unfold number
  rcases portText_cases u with ⟨h, text⟩ | ⟨p, h, text⟩ <;> rw [text, h]
  · rfl
  · exact port_value p

theorem portid_colonless {uri s : List Char} (past : pastLetters uri = s ++ u.portText)
    (clean : ':' ∉ s) (unbracketed : s.head? ≠ some '[') :
    (portid uri).toNat = u.number := by
  have none : s.count ':' = 0 := List.count_eq_zero.mpr clean
  have bare : (s ++ u.portText).head? ≠ some '[' := by
    rcases portText_cases u with ⟨-, text⟩ | ⟨p, -, text⟩ <;> rw [text]
    · rwa [List.append_nil]
    · cases s with
      | nil => simp
      | cons x s => exact unbracketed
  have count : (s ++ u.portText).count ':' = if u.port.isSome then 1 else 0 := by
    rw [List.count_append, none, Nat.zero_add, count_portText]
  rw [portid_plain past bare, count, List.dropWhile_append_of_pos (colonless clean)]
  unfold number
  rcases portText_cases u with ⟨h, text⟩ | ⟨p, h, text⟩ <;> rw [text, h]
  · rfl
  · exact port_value p

/-- `portid` is right once the scheme is gone, unless it sees the colons of an address
behind a user. -/
theorem portid_rest {uri : List Char} (past : pastLetters uri = u.rest) :
    (portid uri).toNat =
      if u.user.isSome ∧ u.host.isLiteral = true then 0 else u.number := by
  cases host : u.host with
  | name n =>
    have shape : u.rest = u.user.elim [] (fun w => w.1 ++ ['@']) ++ n.1 ++ u.portText := by
      rw [rest, tail, host]
      exact (List.append_assoc _ _ _).symm
    rw [if_neg (by simp [Host.isLiteral])]
    refine portid_colonless u (past.trans shape) ?_ ?_
    · cases u.user with
      | none => exact n.2.2.1
      | some w =>
        have both := And.intro w.2.2.1 n.2.2.1
        simpa using both
    · cases u.user with
      | none => simpa using head_name n []
      | some w => simpa using head_name w (['@'] ++ n.1)
  | literal a =>
    cases user : u.user with
    | none =>
      have shape : u.rest = '[' :: a.1 ++ ']' :: u.portText := by
        rw [rest, tail, host, user]
        simp [Host.print]
      rw [portid_bracket (past.trans shape) a.2.2.2.2]
      exact shown_number u
    | some w =>
      have bare : u.rest.head? ≠ some '[' := by
        rw [rest, user]
        simpa using head_name w (['@'] ++ u.tail)
      have two := count_literal a
      have many : u.rest.count ':' ≠ 1 := by
        rw [count_rest, count_tail, host]
        omega
      rw [portid_plain past bare, if_neg many, if_pos ⟨rfl, rfl⟩]
      rfl

theorem past_scheme {s : Scheme} (h : u.scheme = some s) (other : s ≠ .h323) :
    pastLetters u.print = u.rest := by
  have small : ∀ c ∈ s.text, islower c = true := by
    cases s with
    | h323 => exact absurd rfl other
    | _ => exact List.all_eq_true.mp rfl
  have shape : u.print = s.text ++ ':' :: u.rest := by
    rw [print, h]
    simp
  rw [shape]
  exact pastLetters_letters small u.rest

theorem past_h323 (h : u.scheme = some .h323) : pastLetters u.print = "h323:".toList ++ u.rest := by
  have shape : u.print = "h323".toList ++ (':' :: u.rest) := by
    rw [print, h]
    simp [Scheme.text]
  rw [shape]
  exact pastLetters_blocked (by decide) (x := '3') (by decide) rfl (':' :: u.rest)

/-- A host of small letters with a port is taken for a scheme. -/
def Scheming : Prop :=
  u.user = none ∧ u.port.isSome ∧ u.host.isLiteral = false ∧
    ∀ c ∈ u.host.text, islower c = true

theorem past_none (h : u.scheme = none) (plain : ¬ u.Scheming) : pastLetters u.print = u.rest := by
  have shape : u.print = u.rest := by
    rw [print, h]
    rfl
  rw [shape, rest]
  cases user : u.user with
  | some w =>
    refine pastLetters_blocked ?_ (x := '@') (by simp) rfl u.tail
    simpa using w.2.2.1
  | none =>
    rw [tail]
    cases host : u.host with
    | literal a =>
      exact @pastLetters_blocked ['['] (by decide) '[' (by decide) rfl (a.1 ++ [']'] ++ u.portText)
    | name n =>
      by_cases small : ∀ c ∈ n.1, islower c = true
      · have bare : u.port = .none := by
          by_contra some
          exact plain ⟨user, Option.ne_none_iff_isSome.mp some, by rw [host]; rfl,
            by rw [host]; exact small⟩
        rcases portText_cases u with ⟨-, text⟩ | ⟨p, port, -⟩
        · rw [text]
          exact pastLetters_colonless (by simpa [Host.print] using n.2.2.1)
        · rw [port] at bare
          cases bare
      · obtain ⟨x, mem, large⟩ : ∃ x ∈ n.1, islower x = false := by
          simpa using small
        exact pastLetters_blocked n.2.2.1 mem large u.portText

theorem past_scheming (h : u.scheme = none) (scheming : u.Scheming) :
    ∃ p, u.port = some p ∧ pastLetters u.print = p.1 := by
  obtain ⟨user, some, name, small⟩ := scheming
  rcases portText_cases u with ⟨port, -⟩ | ⟨p, port, text⟩
  · rw [port] at some
    cases some
  · refine ⟨p, port, ?_⟩
    cases host : u.host with
    | literal a =>
      rw [host] at name
      cases name
    | name n =>
      rw [host] at small
      have shape : u.print = n.1 ++ ':' :: p.1 := by
        rw [print, h, rest, user, tail, host, text]
        rfl
      rw [shape]
      exact pastLetters_letters small p.1

theorem eq_false {literal : String} {w t : List Char} (colon : ':' ∈ literal.toList)
    (whole : '@' ∉ literal.toList) (clean : ':' ∉ w) : eq literal (w ++ '@' :: t) = false := by
  rw [Bool.eq_false_iff]
  intro found
  obtain ⟨r, split⟩ := List.isPrefixOf_iff_prefix.mp found
  rcases List.append_eq_append_iff.mp split with ⟨a, rfl, -⟩ | ⟨c, same, after⟩
  · exact clean (List.mem_append_left _ colon)
  · rw [same] at colon whole
    cases c with
    | nil => exact clean (by simpa using colon)
    | cons x c =>
      cases after
      exact whole (by simp)

theorem pastScheme_text (s : Scheme) (r : List Char) : pastScheme (s.text ++ ':' :: r) = r := by
  cases s <;> rfl

theorem pastScheme_user {w : List Char} (clean : ':' ∉ w) (t : List Char) :
    pastScheme (w ++ '@' :: t) = w ++ '@' :: t := by
  unfold pastScheme
  rw [eq_false (by decide) (by decide) clean, eq_false (by decide) (by decide) clean,
    eq_false (by decide) (by decide) clean, eq_false (by decide) (by decide) clean,
    eq_false (by decide) (by decide) clean, eq_false (by decide) (by decide) clean]
  rfl

theorem mem_pastScheme {c : Char} {uri : List Char} (mem : c ∈ pastScheme uri) : c ∈ uri := by
  unfold pastScheme at mem
  split_ifs at mem
  all_goals first | exact List.mem_of_mem_drop mem | exact mem

theorem at_scheme : '@' ∉ u.scheme.elim [] (fun s => s.text ++ [':']) := by
  cases u.scheme with
  | none => nofun
  | some s => cases s <;> decide

theorem userid_print {size : Nat} (room : u.print.length < size) :
    (userid size (some u.print)).1 = u.user.isSome ∧
      ∀ w ∈ u.user, (userid size (some u.print)).2 = w.1 := by
  cases user : u.user with
  | none =>
    have absent : '@' ∉ pastScheme u.print := by
      intro mem
      rcases List.mem_append.mp (mem_pastScheme mem) with scheme | rest
      · exact at_scheme u scheme
      · rw [Parts.rest, user] at rest
        exact at_tail u rest
    have missed : userid size (some u.print) = (false, []) := by
      rw [userid, strchr_none absent]
      rfl
    rw [missed]
    exact ⟨rfl, nofun⟩
  | some w =>
    have shape := user_rest u user
    have past : pastScheme u.print = w.1 ++ '@' :: u.tail := by
      rw [← shape, print]
      cases scheme : u.scheme with
      | none =>
        rw [shape]
        exact pastScheme_user w.2.2.1 u.tail
      | some s => simpa using pastScheme_text s u.rest
    have fits : (w.1 ++ '@' :: u.tail).length < size := by
      rw [← shape]
      refine Nat.lt_of_le_of_lt ?_ room
      rw [print, List.length_append]
      exact Nat.le_add_left _ _
    have found : userid size (some u.print) = (true, w.1) := by
      rw [userid, past]
      simp only [strchr_append w.2.2.2.1, snprintf_eq fits, cut_append]
      rfl
    rw [found]
    refine ⟨rfl, fun w' hw' => ?_⟩
    cases hw'
    rfl

/-- The three functions find the parts the URI is made of. -/
structure Parsed (size : Nat) : Prop where
  host : hostid size u.print = (true, u.host.text)
  port : (portid u.print).toNat = u.number
  user : (userid size (some u.print)).1 = u.user.isSome ∧
    ∀ w ∈ u.user, (userid size (some u.print)).2 = w.1

/-- No function trips over this URI: with `h323` there is no port, and the user, if there
is one in front of a name, starts with no number (without a user only the host `h323`
itself is found); otherwise a port comes neither after a user with an IPv6 address nor,
without a scheme, after a mere host of small letters. -/
def Legible : Prop :=
  if u.scheme = some .h323 then
    u.port = none ∧ (u.user = none ∧ u.host.text = "h323".toList ∨ ∃ w ∈ u.user,
      u.host.isLiteral = true ∨ (UInt16.ofInt (atoi (String.ofList w.1))).toNat = 0)
  else ¬ (u.port.isSome ∧
    (u.user.isSome ∧ u.host.isLiteral = true ∨ u.scheme = none ∧ u.Scheming))

theorem tail_room {size : Nat} (room : u.print.length < size) : u.tail.length < size := by
  refine Nat.lt_of_le_of_lt ?_ room
  rw [print, rest, List.length_append, List.length_append]
  omega

theorem number_pos {p : Port} (h : u.port = some p) : 0 < u.number := by
  rw [number, h]
  exact p.2.2.1

theorem number_none (h : u.port = none) : u.number = 0 := by
  rw [number, h]
  rfl

/-- Where the scheme is taken off, `portid` alone can go wrong. -/
theorem parsed_past {size : Nat} (room : u.print.length < size)
    (past : pastLetters u.print = u.rest) :
    u.Parsed size ↔ ¬ (u.port.isSome ∧ u.user.isSome ∧ u.host.isLiteral = true) := by
  have after : afterAt (pastLetters u.print) = u.tail := by
    rw [past]
    exact @afterAt_rest u [] nofun (.inr rfl)
  have port := portid_rest u past
  constructor
  · rintro parsed ⟨some, both⟩
    obtain ⟨p, hp⟩ := Option.isSome_iff_exists.mp some
    rw [parsed.port, if_pos both] at port
    exact absurd port (Nat.ne_of_gt (number_pos u hp))
  · intro clear
    refine ⟨hostid_tail u after (tail_room u room), ?_, userid_print u room⟩
    rw [port]
    split
    · rename_i both
      have none : u.port = none := by
        by_contra some
        exact clear ⟨Option.ne_none_iff_isSome.mp some, both⟩
      exact (number_none u none).symm
    · rfl

section H323
variable {u}

theorem count_h323 : ("h323:".toList ++ u.rest).count ':' =
    u.host.print.count ':' + (if u.port.isSome then 1 else 0) + 1 := by
  rw [List.count_append, count_rest, count_tail, Nat.add_comm]
  rfl

theorem alone_h323 : ("h323:".toList ++ u.rest).count ':' = 1 ↔
    u.port = none ∧ u.host.isLiteral = false := by
  rw [count_h323]
  cases host : u.host with
  | name n =>
    rw [count_name]
    cases u.port <;> simp [Host.isLiteral]
  | literal a =>
    have two := count_literal a
    simp only [Host.isLiteral]
    constructor
    · intro one
      omega
    · nofun

theorem bare_h323 : ("h323:".toList ++ u.rest).head? ≠ some '[' := by
  have first : ("h323:".toList ++ u.rest).head? = some 'h' := rfl
  rw [first]
  decide

/-- The colon of the scheme is taken for that of a port, if it is the only one. -/
theorem portid_h323 (h : u.scheme = some .h323) : (portid u.print).toNat =
    if u.port = none ∧ u.host.isLiteral = false then
      (UInt16.ofInt (atoi (String.ofList u.rest))).toNat else 0 := by
  have past : ("h323:".toList ++ u.rest).dropWhile (· ≠ ':') = ':' :: u.rest := rfl
  rw [portid_plain (past_h323 u h) bare_h323, past]
  simp only [alone_h323]
  split <;> rfl

theorem hostid_h323 {size : Nat} (h : u.scheme = some .h323) (room : u.print.length < size)
    (user : u.user = none) : hostid size u.print =
      (true, if u.port = none ∧ u.host.isLiteral = false then "h323".toList
        else "h323:".toList ++ u.rest) := by
  have rest := rest_alone u user
  have absent : '@' ∉ "h323:".toList ++ u.rest := by
    rw [rest]
    intro mem
    rcases List.mem_append.mp mem with scheme | tail
    · revert scheme
      decide
    · exact at_tail u tail
  have after : afterAt (pastLetters u.print) = "h323:".toList ++ u.rest := by
    rw [past_h323 u h]
    exact afterAt_none absent
  have fits : ("h323:".toList ++ u.rest).length < size := by
    have shape : u.print = "h323:".toList ++ u.rest := by
      rw [print, h]
      rfl
    rwa [← shape]
  have single : ("h323:".toList ++ u.rest).count ':' ≤ 1 ↔
      u.port = none ∧ u.host.isLiteral = false := by
    rw [← alone_h323, count_h323]
    omega
  have name : ("h323:".toList ++ u.rest).takeWhile (· ≠ ':') = "h323".toList := rfl
  rw [hostid_plain after bare_h323 fits, name]
  simp only [single]

end H323

theorem text_length : u.host.text.length ≤ u.tail.length := by
  rw [tail, List.length_append]
  cases u.host with
  | name n => exact Nat.le_add_right _ _
  | literal a => simp [Host.text, Host.print]; omega

theorem h323_of_parsed {size : Nat} (room : u.print.length < size) (h : u.scheme = some .h323)
    (parsed : u.Parsed size) : u.port = none ∧
      (u.user = none ∧ u.host.text = "h323".toList ∨ ∃ w ∈ u.user,
        u.host.isLiteral = true ∨ (UInt16.ofInt (atoi (String.ofList w.1))).toNat = 0) := by
  have number := portid_h323 h
  have port : u.port = none := by
    by_contra some
    obtain ⟨p, hp⟩ := Option.ne_none_iff_exists'.mp some
    rw [parsed.port, if_neg (by simp [hp])] at number
    exact absurd number (Nat.ne_of_gt (number_pos u hp))
  refine ⟨port, ?_⟩
  cases user : u.user with
  | none =>
    have found := (hostid_h323 h room user).symm.trans parsed.host
    by_cases literal : u.host.isLiteral = false
    · rw [if_pos ⟨port, literal⟩] at found
      exact .inl ⟨rfl, (congrArg Prod.snd found).symm⟩
    · rw [if_neg fun both => literal both.2] at found
      have lengths := congrArg (fun r => r.2.length) found
      have rest := rest_alone u user
      have short := text_length u
      simp [rest] at lengths
      omega
  | some w =>
    refine .inr ⟨w, rfl, ?_⟩
    by_cases literal : u.host.isLiteral = false
    · rw [parsed.port, number_none u port, if_pos ⟨port, literal⟩, user_rest u user,
        atoi_append] at number
      exact .inr number.symm
    · exact .inl (by simpa using literal)

theorem parsed_h323_alone {size : Nat} (room : u.print.length < size)
    (h : u.scheme = some .h323) (port : u.port = none) (user : u.user = none)
    (host : u.host.text = "h323".toList) : u.Parsed size := by
  have name : u.host.isLiteral = false := by
    cases shape : u.host with
    | name n => rfl
    | literal a =>
      have two := a.2.1
      rw [shape] at host
      rw [show a.1 = "h323".toList from host] at two
      exact absurd two (by decide)
  have rest : u.rest = "h323".toList := by
    rw [← host, rest_alone u user, tail, portText, port]
    cases shape : u.host with
    | name n => simp [Host.print, Host.text]
    | literal a =>
      rw [shape] at name
      cases name
  refine ⟨?_, ?_, userid_print u room⟩
  · rw [hostid_h323 h room user, if_pos ⟨port, name⟩, host]
  · rw [portid_h323 h, if_pos ⟨port, name⟩, rest, number_none u port]
    rfl

theorem parsed_h323_user {size : Nat} (room : u.print.length < size) (h : u.scheme = some .h323)
    (port : u.port = none) {w : Name} (user : u.user = some w)
    (free : u.host.isLiteral = true ∨ (UInt16.ofInt (atoi (String.ofList w.1))).toNat = 0) :
    u.Parsed size := by
  have after : afterAt (pastLetters u.print) = u.tail := by
    rw [past_h323 u h]
    refine afterAt_rest u (by decide) (.inl ?_)
    rw [user]
    rfl
  refine ⟨hostid_tail u after (tail_room u room), ?_, userid_print u room⟩
  rw [portid_h323 h, number_none u port]
  split
  · rename_i alone
    have zero := free.resolve_left (by simp [alone.2])
    rw [user_rest u user, atoi_append]
    exact zero
  · rfl

theorem parsed_h323 {size : Nat} (room : u.print.length < size) (h : u.scheme = some .h323) :
    u.Parsed size ↔ u.port = none ∧
      (u.user = none ∧ u.host.text = "h323".toList ∨ ∃ w ∈ u.user,
        u.host.isLiteral = true ∨ (UInt16.ofInt (atoi (String.ofList w.1))).toNat = 0) := by
  refine ⟨h323_of_parsed u room h, ?_⟩
  rintro ⟨port, ⟨user, host⟩ | ⟨w, user, free⟩⟩
  · exact parsed_h323_alone u room h port user host
  · exact parsed_h323_user u room h port user free

theorem parsed_scheming {size : Nat} (h : u.scheme = none) (scheming : u.Scheming) :
    ¬ u.Parsed size := by
  intro parsed
  obtain ⟨p, port, past⟩ := past_scheming u h scheming
  have none : p.1.count ':' = 0 := List.count_eq_zero.mpr (port_clean p rfl)
  have bare : p.1.head? ≠ some '[' := fun first =>
    port_clean (c := '[') p rfl (List.mem_of_head? first)
  have zero := portid_plain past bare
  rw [if_neg (by omega)] at zero
  have wrong := parsed.port
  rw [zero] at wrong
  exact absurd wrong (Nat.ne_of_lt (number_pos u port))

/-- The three functions parse the URI of the grammar exactly if none of them trips over
it. -/
theorem parsed_iff {size : Nat} (room : u.print.length < size) :
    u.Parsed size ↔ u.Legible := by
  unfold Legible
  split
  · rename_i h
    exact parsed_h323 u room h
  rename_i other
  by_cases scheming : u.scheme = none ∧ u.Scheming
  · refine ⟨fun parsed => absurd parsed (parsed_scheming u scheming.1 scheming.2), fun clear => ?_⟩
    exact absurd ⟨scheming.2.2.1, .inr scheming⟩ clear
  · have past : pastLetters u.print = u.rest := by
      cases scheme : u.scheme with
      | none => exact past_none u scheme fun s => scheming ⟨scheme, s⟩
      | some s =>
        refine past_scheme u scheme ?_
        rintro rfl
        exact other scheme
    rw [parsed_past u room past]
    refine not_congr (and_congr_right fun _ => ?_)
    simp [scheming]

def alice : Parts where
  scheme := some .sip
  user := some ⟨"alice".toList, by decide⟩
  host := .name ⟨"10.0.0.1".toList, by decide⟩
  port := some ⟨"5060".toList, List.all_eq_true.mp rfl, by decide, by decide⟩

theorem parsed_iff_alice : alice.Parsed 256 := by
  refine (parsed_iff alice (by decide)).mpr ?_
  unfold Legible
  rw [if_neg (by decide)]
  rintro ⟨-, ⟨-, literal⟩ | ⟨scheme, -⟩⟩
  · cases literal
  · cases scheme

/-- In `localhost:5060` the host is taken for a scheme. -/
theorem not_parsed : ¬ ∀ (u : Parts) (size : Nat), u.print.length < size → u.Parsed size := by
  intro whole
  have parsed := whole
    ⟨none, none, .name ⟨"localhost".toList, by decide⟩,
      some ⟨"5060".toList, List.all_eq_true.mp rfl, by decide, by decide⟩⟩ 256 (by decide)
  exact absurd parsed.host (by decide)

end Parts

end Uri
end Bayonne
