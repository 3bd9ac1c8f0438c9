import Bayonne.Control

/-! The credentials of an INVITE. `thread::invite` takes the quotes off the fields of the
Authorization header where they stand, with two positions that go through a field. -/
namespace Bayonne

namespace Sip
open CString Control

/-- What a field can end the program with: a null pointer, or an access outside of it. -/
inductive Fault where
  | null | outside
  deriving DecidableEq, Repr

abbrev Field := Text nul

def quoteMark : Char := '\x22'

/-- The loop of `remove_quotes`, from the positions `d` and `c` on. -/
def shift (b : List Char) (d c : Nat) : Except Fault (List Char × Nat) :=
  if inside : c < b.length then
    if b[c] = nul then .ok (b, d)
    else if d < b.length then shift (b.set d b[c]) (d + 1) (c + 1)
    else .error .outside
  else .error .outside
termination_by b.length - c
decreasing_by
  rw [List.length_set]
  omega

def unquote (b : List Char) : Except Fault (List Char) :=
  match b with
  | [] => .error .outside
  | first :: _ =>
    if first ≠ quoteMark then .ok b
    else
      (shift b 0 1).bind fun (b, d) =>
        if d = 0 then .error .outside
        else ((store b (d - 1) nul).map .ok).getD (.error .outside)

def unquoteField : Option Field → Except Fault (List Char)
  | none => .error .null
  | some s => unquote s.stored

structure Credentials where
  username : Option Field
  uri : Option Field
  nonce : Option Field
  response : Option Field

/-- What the check reads of a header: nothing, and the request is challenged, or the fields
without their quotes. -/
inductive Reading where
  | challenge
  | fields (username uri nonce response : List Char)

/-- The check of `invite` under a realm, up to the comparison. -/
def credentials : Option Credentials → Except Fault Reading
  | none => .ok .challenge
  | some auth =>
    if auth.username.isNone || auth.response.isNone then .ok .challenge
    else do
      let username ← unquoteField auth.username
      let uri ← unquoteField auth.uri
      let nonce ← unquoteField auth.nonce
      let response ← unquoteField auth.response
      .ok (.fields username uri nonce response)

structure Unquoted (field : Option Field) (b : List Char) : Prop where
  bare : ∀ s, field = some s → s.1.head? ≠ some quoteMark → text nul b 0 = s.1
  quoted : ∀ s t, field = some s → s.1 = quoteMark :: t ++ [quoteMark] → text nul b 0 = t

/-- The check ends neither by a null pointer nor by an access outside of a field, and each
field that it reads is without its quotes. -/
def Sound (auth : Option Credentials) : Prop :=
  credentials auth = .ok .challenge ∨
    ∃ a username uri nonce response, auth = some a ∧
      credentials auth = .ok (.fields username uri nonce response) ∧
        Unquoted a.username username ∧ Unquoted a.uri uri ∧
        Unquoted a.nonce nonce ∧ Unquoted a.response response

/-- A field that `remove_quotes` can take: it is there, and no quote alone. -/
def Readable (field : Option Field) : Prop := ∃ s, field = some s ∧ s.1 ≠ [quoteMark]

theorem shift_append (done : List Char) (x : Char) {todo : List Char} (clean : nul ∉ todo) :
    ∃ y, shift (done ++ x :: todo ++ [nul]) done.length (done.length + 1) =
      .ok (done ++ todo ++ [y, nul], (done ++ todo).length) := by
  induction todo generalizing done x with
  | nil =>
    refine ⟨x, ?_⟩
    unfold shift
    simp
  | cons y ys ih =>
    obtain ⟨last, moved⟩ := ih (done ++ [y]) y fun mem => clean (List.mem_cons_of_mem y mem)
    refine ⟨last, ?_⟩
    have other : y ≠ nul := fun same => clean (same ▸ List.mem_cons_self)
    unfold shift
    simpa [other] using moved

theorem unquote_bare (s : Field) (bare : s.1.head? ≠ some quoteMark) :
    unquote s.stored = .ok s.stored := by
  cases split : s.1 with
  | nil =>
    have stored : s.stored = [nul] := by rw [Text.stored, split]; rfl
    rw [stored]
    rfl
  | cons c cs =>
    have stored : s.stored = c :: (cs ++ [nul]) := by rw [Text.stored, split]; rfl
    have other : c ≠ quoteMark := fun same => bare (by rw [split, same]; rfl)
    rw [stored, unquote, if_pos other]

theorem unquote_quote {s : List Char} (clean : nul ∉ s) (more : s ≠ []) :
    ∃ b, unquote (quoteMark :: s ++ [nul]) = .ok b ∧ text nul b 0 = s.dropLast := by
  obtain ⟨y, moved⟩ := shift_append [] quoteMark clean
  simp only [List.nil_append, List.length_nil, Nat.zero_add] at moved
  have some : s.length ≠ 0 := fun zero => more (List.length_eq_zero_iff.mp zero)
  have split : s ++ [y, nul] = s.dropLast ++ s.getLast more :: [y, nul] := calc
    s ++ [y, nul] = s.dropLast ++ [s.getLast more] ++ [y, nul] := by
      rw [List.dropLast_append_getLast more]
    _ = s.dropLast ++ s.getLast more :: [y, nul] := by simp
  have last : store (s ++ [y, nul]) (s.length - 1) nul = .some (s.dropLast ++ nul :: [y, nul]) := by
    rw [split, ← List.length_dropLast]
    exact store_append s.dropLast _ _ _
  refine ⟨s.dropLast ++ nul :: [y, nul], ?_, ?_⟩
  · rw [List.cons_append, unquote, if_neg fun other => other rfl, ← List.cons_append, moved]
    show (if s.length = 0 then _ else _) = _
    rw [if_neg some, last]
    rfl
  · exact text_append [] _ fun mem => clean (List.mem_of_mem_dropLast mem)

theorem unquote_alone : unquote [quoteMark, nul] = .error .outside := by
  have moved : shift [quoteMark, nul] 0 1 = .ok ([quoteMark, nul], 0) := by
    unfold shift
    simp
  rw [unquote, if_neg fun other => other rfl, moved]
  rfl

theorem unquoteField_cases (field : Option Field) :
    Readable field ∧ (∃ b, unquoteField field = .ok b ∧ Unquoted field b) ∨
      ¬ Readable field ∧ ∃ fault, unquoteField field = .error fault := by
  cases field with
  | none =>
    refine .inr ⟨?_, .null, rfl⟩
    rintro ⟨s, missing, -⟩
    cases missing
  | some s =>
    by_cases bare : s.1.head? ≠ some quoteMark
    · have other : s.1 ≠ [quoteMark] := fun alone => bare (by rw [alone]; rfl)
      refine .inl ⟨⟨s, rfl, other⟩, s.stored, unquote_bare s bare, ?_, ?_⟩
      · rintro s' same -
        cases same
        exact text_stored s
      · rintro s' t same split
        cases same
        exact absurd (by rw [split]; rfl) bare
    obtain ⟨cs, split⟩ := List.head?_eq_some_iff.mp (not_not.mp bare)
    have clean : nul ∉ cs := fun mem => s.2 (split ▸ List.mem_cons_of_mem quoteMark mem)
    have stored : s.stored = quoteMark :: cs ++ [nul] := by rw [Text.stored, split]
    by_cases alone : cs = []
    · refine .inr ⟨?_, .outside, ?_⟩
      · rintro ⟨s', same, more⟩
        cases same
        exact more (by rw [split, alone])
      · rw [unquoteField, stored, alone]
        exact unquote_alone
    · obtain ⟨b, done, left⟩ := unquote_quote clean alone
      refine .inl ⟨⟨s, rfl, ?_⟩, b, by rw [unquoteField, stored, done], ?_, ?_⟩
      · intro single
        exact alone (List.cons.inj (split.symm.trans single)).2
      · rintro s' same other
        cases same
        exact absurd (not_not.mp bare) other
      · rintro s' t same quotes
        cases same
        have rest : cs = t ++ [quoteMark] := (List.cons.inj (split.symm.trans quotes)).2
        rw [left, rest, List.dropLast_concat]

theorem credentials_read {a : Credentials} (username : a.username ≠ none)
    (response : a.response ≠ none) :
    credentials (some a) = (do
      let username ← unquoteField a.username
      let uri ← unquoteField a.uri
      let nonce ← unquoteField a.nonce
      let response ← unquoteField a.response
      .ok (.fields username uri nonce response)) := by
  obtain ⟨u, hu⟩ := Option.ne_none_iff_exists'.mp username
  obtain ⟨r, hr⟩ := Option.ne_none_iff_exists'.mp response
  rw [credentials, hu, hr]
  rfl

theorem not_sound_of_error {auth : Option Credentials} {fault : Fault}
    (faulted : credentials auth = .error fault) : ¬ Sound auth := by
  rintro (challenged | ⟨a, u, i, n, r, -, read, -⟩)
  · rw [faulted] at challenged
    cases challenged
  · rw [faulted] at read
    cases read

theorem sound_of_unread {a : Credentials} (unread : a.username = none ∨ a.response = none) :
    Sound (some a) := by
  have challenged : credentials (some a) = .ok .challenge := by
    rw [credentials, if_pos (by simpa using unread)]
  exact .inl challenged

theorem sound_read_iff {a : Credentials} (username : a.username ≠ none)
    (response : a.response ≠ none) : Sound (some a) ↔
      Readable a.username ∧ Readable a.uri ∧ Readable a.nonce ∧ Readable a.response := by
  have read := credentials_read username response
  rcases unquoteField_cases a.username with ⟨hu, u, du, qu⟩ | ⟨hu, fault, du⟩
  · rcases unquoteField_cases a.uri with ⟨hi, i, di, qi⟩ | ⟨hi, fault, di⟩
    · rcases unquoteField_cases a.nonce with ⟨hn, n, dn, qn⟩ | ⟨hn, fault, dn⟩
      · rcases unquoteField_cases a.response with ⟨hr, r, dr, qr⟩ | ⟨hr, fault, dr⟩
        · refine iff_of_true (.inr ⟨a, u, i, n, r, rfl, ?_, qu, qi, qn, qr⟩) ⟨hu, hi, hn, hr⟩
          rw [read, du, di, dn, dr]
          rfl
        · exact iff_of_false (not_sound_of_error (by rw [read, du, di, dn, dr]; rfl))
            fun h => hr h.2.2.2
      · exact iff_of_false (not_sound_of_error (by rw [read, du, di, dn]; rfl)) fun h => hn h.2.2.1
    · exact iff_of_false (not_sound_of_error (by rw [read, du, di]; rfl)) fun h => hi h.2.1
  · exact iff_of_false (not_sound_of_error (by rw [read, du]; rfl)) fun h => hu h.1

/-- The check is safe just for the headers without a user name or response, which it does not
read, and for those with four readable fields. -/
theorem credentials_sound_iff (auth : Option Credentials) : Sound auth ↔
    ∀ a, auth = some a → a.username ≠ none → a.response ≠ none →
      Readable a.username ∧ Readable a.uri ∧ Readable a.nonce ∧ Readable a.response := by
  cases auth with
  | none => exact iff_of_true (.inl rfl) fun a missing => by cases missing
  | some a =>
    constructor
    · rintro sound a' same username response
      cases same
      exact (sound_read_iff username response).mp sound
    · intro each
      by_cases unread : a.username = none ∨ a.response = none
      · exact sound_of_unread unread
      · obtain ⟨username, response⟩ := not_or.mp unread
        exact (sound_read_iff username response).mpr (each a rfl username response)

def Credentials.strings (a : Credentials) : Authorization where
  username := a.username.map fun s => String.ofList s.1
  uri := a.uri.map fun s => String.ofList s.1
  nonce := a.nonce.map fun s => String.ofList s.1
  response := a.response.map fun s => String.ofList s.1

theorem removeQuotes_unquote {s : Field} {b : List Char} (done : unquote s.stored = .ok b) :
    removeQuotes (String.ofList s.1) = String.ofList (text nul b 0) := by
  by_cases bare : s.1.head? ≠ some quoteMark
  · rw [unquote_bare s bare] at done
    cases done
    rw [text_stored, removeQuotes, String.toList_ofList]
    split
    · rename_i c cs split
      exact absurd (by rw [split]; rfl) bare
    · rfl
  obtain ⟨cs, split⟩ := List.head?_eq_some_iff.mp (not_not.mp bare)
  have clean : nul ∉ cs := fun mem => s.2 (split ▸ List.mem_cons_of_mem quoteMark mem)
  have stored : s.stored = quoteMark :: cs ++ [nul] := by rw [Text.stored, split]
  cases cs with
  | nil =>
    rw [stored] at done
    rw [List.cons_append, List.nil_append, unquote_alone] at done
    cases done
  | cons c cs =>
    obtain ⟨b', done', left⟩ := unquote_quote clean (List.cons_ne_nil c cs)
    rw [stored, done'] at done
    cases done
    rw [left, removeQuotes, String.toList_ofList, split]
    rfl

/-- A reading of the fields decides the check of the driver. -/
theorem check_credentials {m : Message} {a : Credentials} {username uri nonce response : List Char}
    (same : m.authorization = some a.strings)
    (read : credentials (some a) = .ok (.fields username uri nonce response))
    (reg : SipRegistration) (realm : String) :
    check m reg (some realm) =
      some (if eq (some (String.ofList (text nul username 0))) (some reg.uuid) then .passed
        else .forbidden) := by
  have asked : a.username ≠ none ∧ a.response ≠ none := by
    by_contra unread
    have challenged : credentials (some a) = .ok .challenge := by
      rw [credentials, if_pos (by simpa [imp_iff_not_or] using unread)]
    rw [challenged] at read
    cases read
  rw [credentials_read asked.1 asked.2] at read
  rcases unquoteField_cases a.username with ⟨⟨u, hu, -⟩, b, du, -⟩ | ⟨-, fault, du⟩
  · rcases unquoteField_cases a.uri with ⟨⟨i, hi, -⟩, c, di, -⟩ | ⟨-, fault, di⟩
    · rcases unquoteField_cases a.nonce with ⟨⟨n, hn, -⟩, d, dn, -⟩ | ⟨-, fault, dn⟩
      · rcases unquoteField_cases a.response with ⟨⟨r, hr, -⟩, e, dr, -⟩ | ⟨-, fault, dr⟩
        · rw [du, di, dn, dr] at read
          cases read
          rw [hu] at du
          rw [check, same, Credentials.strings, hu, hi, hn, hr]
          simp only [Option.map_some, removeQuotes_unquote du]
        · rw [du, di, dn, dr] at read
          cases read
      · rw [du, di, dn] at read
        cases read
    · rw [du, di] at read
      cases read
  · rw [du] at read
    cases read

def field (s : List Char) (clean : nul ∉ s := by decide) : Option Field := some ⟨s, clean⟩

/-- A user name that is a quote alone, and a header that comes without a nonce. -/
theorem credentials_not_sound : ¬ (∀ auth, Sound auth) ∧
    ¬ Sound (some ⟨field [quoteMark], field ['u'], field ['n'], field ['r']⟩) ∧
    ¬ Sound (some ⟨field ['a'], field ['u'], none, field ['r']⟩) := by
  have alone : ¬ Sound (some ⟨field [quoteMark], field ['u'], field ['n'], field ['r']⟩) := by
    intro sound
    obtain ⟨⟨s, same, more⟩, -⟩ :=
      (sound_read_iff (Option.some_ne_none _) (Option.some_ne_none _)).mp sound
    cases same
    exact more rfl
  refine ⟨fun all => alone (all _), alone, fun sound => ?_⟩
  obtain ⟨-, -, ⟨s, missing, -⟩, -⟩ :=
    (sound_read_iff (Option.some_ne_none _) (Option.some_ne_none _)).mp sound
  cases missing

end Sip

end Bayonne
