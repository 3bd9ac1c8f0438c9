import Bayonne.Control.Receive

/-! The functions that build a URI and take one apart. A string is its characters, a
pointer into a string what is left of it from there. -/
namespace Bayonne
namespace Uri

/-- `eq` of a literal and as many characters of the string. -/
def eq (literal : String) (uri : List Char) : Bool := literal.toList.isPrefixOf uri

def islower (c : Char) : Bool := decide ('a' ≤ c ∧ c ≤ 'z')

def strchr (c : Char) : List Char → Option (List Char)
  | [] => none
  | x :: s => if x = c then some (x :: s) else strchr c s

def strrchr (c : Char) : List Char → Option (List Char)
  | [] => none
  | x :: s =>
    match strrchr c s with
    | some p => some p
    | none => if x = c then some (x :: s) else none

/-- A string printed into a buffer of `size` characters. -/
def snprintf (size : Nat) (out : List Char) : List Char := out.take (size - 1)

def cut (buf p : List Char) : List Char := buf.take (buf.length - p.length)

def afterAt (uri : List Char) : List Char :=
  match strchr '@' uri with
  | some sp => sp.drop 1
  | none => uri

/-- The scheme tests of `create`, which take a `tcp` twice and a `udp` never. -/
def createSchema (server : List Char) : String × List Char :=
  if eq "sips:" server then ("sips:", server.drop 5)
  else if eq "iax:" server then ("iax:", server.drop 4)
  else if eq "h323:" server then ("h323:", server.drop 5)
  else if eq "tcp:" server then ("sip:", server.drop 4)
  else if eq "tcp:" server then ("sip:", server.drop 4)
  else if eq "sip:" server then ("sip:", server.drop 4)
  else ("sip:", server)

def create (size : Nat) (server : List Char) (userid : Option (List Char)) :
    Bool × List Char :=
  let (schema, server) := createSchema server
  match strchr '@' server, userid with
  | none, some userid => (true, snprintf size (schema.toList ++ userid ++ '@' :: server))
  | _, _ => (true, snprintf size (schema.toList ++ server))

def serverSchema (uri : List Char) : String × List Char :=
  if eq "sips:" uri then ("sips:", uri.drop 5)
  else if eq "iax:" uri then ("iax:", uri.drop 4)
  else if eq "h323:" uri then ("h323:", uri.drop 5)
  else if eq "sip:" uri then ("sip:", uri.drop 4)
  else if eq "tcp:" uri then ("sip:", uri.drop 4)
  else if eq "udp:" uri then ("sip:", uri.drop 4)
  else ("sip:", uri)

def server (size : Nat) (uri : List Char) : Bool × List Char :=
  let (schema, uri) := serverSchema uri
  (true, snprintf size (schema.toList ++ afterAt uri))

/-- The chain of `userid`, which knows all schemes. -/
def pastScheme (uri : List Char) : List Char :=
  if eq "sip:" uri then uri.drop 4
  else if eq "sips:" uri then uri.drop 5
  else if eq "tcp:" uri then uri.drop 4
  else if eq "udp:" uri then uri.drop 4
  else if eq "iax:" uri then uri.drop 4
  else if eq "h323:" uri then uri.drop 5
  else uri

def userid (size : Nat) (uri : Option (List Char)) : Bool × List Char :=
  match uri with
  | none => (false, [])
  | some uri =>
    let uri := pastScheme uri
    if (strchr '@' uri).isNone then (false, [])
    else
      let buf := snprintf size uri
      match strchr '@' buf with
      | some ep => (true, cut buf ep)
      | none => (true, buf)

/-- The start of `portid` and `hostid`: what comes after a run of small letters and a
colon. -/
def pastLetters (uri : List Char) : List Char :=
  match uri.dropWhile islower with
  | ':' :: cp => cp
  | _ => uri

def portid (uri : List Char) : UInt16 :=
  let uri := pastLetters uri
  let pp :=
    if uri.head? = some '[' then (strchr ']' uri).bind (strchr ':')
    else if strchr ':' uri ≠ strrchr ':' uri then none
    else strrchr ':' uri
  match pp with
  | some pp => UInt16.ofInt (atoi (String.ofList (pp.drop 1)))
  | none => 0

def hostid (size : Nat) (uri : List Char) : Bool × List Char :=
  let uri := afterAt (pastLetters uri)
  if uri.head? = some '[' then
    let buf := snprintf size (uri.drop 1)
    match strchr ']' buf with
    | some sp => (true, cut buf sp)
    | none => (true, buf)
  else
    let buf := snprintf size uri
    match strrchr ':' buf with
    | some sp => (true, if some sp = strchr ':' buf then cut buf sp else buf)
    | none => (true, buf)

section Strings
variable {c : Char} {s p : List Char} {size : Nat}

theorem strchr_past (clean : c ∉ s) (p : List Char) : strchr c (s ++ p) = strchr c p := by
  induction s with
  | nil => rfl
  | cons x s ih =>
    have other : x ≠ c := fun same => clean (same ▸ List.mem_cons_self)
    rw [List.cons_append, strchr, if_neg other]
    exact ih fun h => clean (List.mem_cons_of_mem x h)

theorem strchr_append (clean : c ∉ s) (p : List Char) :
    strchr c (s ++ c :: p) = some (c :: p) := by
  rw [strchr_past clean, strchr, if_pos rfl]

theorem strchr_none (clean : c ∉ s) : strchr c s = none := by
  have past := strchr_past clean []
  rwa [List.append_nil] at past

theorem afterAt_append (clean : '@' ∉ s) (p : List Char) : afterAt (s ++ '@' :: p) = p := by
  rw [afterAt, strchr_append clean]
  rfl

theorem afterAt_none (clean : '@' ∉ s) : afterAt s = s := by
  rw [afterAt, strchr_none clean]

theorem strchr_mem (mem : c ∈ s) : strchr c s = some (s.dropWhile (· ≠ c)) := by
  induction s with
  | nil => cases mem
  | cons x s ih =>
    by_cases same : x = c
    · simp [strchr, same]
    · have later := ih ((List.mem_cons.mp mem).resolve_left (Ne.symm same))
      simpa [strchr, same] using later

theorem strrchr_none : strrchr c s = none ↔ c ∉ s := by
  induction s with
  | nil => simp [strrchr]
  | cons x s ih =>
    rw [strrchr, List.mem_cons, not_or, ← ih]
    cases h : strrchr c s with
    | none => simp [eq_comm]
    | some p => simp

theorem strrchr_length {p : List Char} (h : strrchr c s = some p) : p.length ≤ s.length := by
  induction s with
  | nil => cases h
  | cons x s ih =>
    rw [strrchr] at h
    cases hs : strrchr c s with
    | none =>
      rw [hs] at h
      simp only at h
      split at h
      · cases h; exact Nat.le_refl _
      · cases h
    | some q =>
      rw [hs] at h
      cases h
      exact Nat.le_succ_of_le (ih hs)

theorem strchr_eq_strrchr : strchr c s = strrchr c s ↔ s.count c ≤ 1 := by
  induction s with
  | nil => simp [strchr, strrchr]
  | cons x s ih =>
    by_cases same : x = c
    · subst same
      rw [strchr, if_pos rfl, strrchr, List.count_cons_self]
      cases h : strrchr x s with
      | none =>
        have none : s.count x = 0 := List.count_eq_zero.mpr (strrchr_none.mp h)
        simp [none]
      | some p =>
        have some : s.count x ≠ 0 := by
          rw [Ne, List.count_eq_zero, ← strrchr_none, h]
          simp
        have shorter := strrchr_length h
        constructor
        · intro equal
          cases equal
          exact absurd shorter (Nat.not_succ_le_self _)
        · intro one
          omega
    · rw [strchr, if_neg same, strrchr, List.count_cons_of_ne same, ← ih]
      cases h : strrchr c s with
      | none => simp [same]
      | some p => simp

theorem cut_append (s p : List Char) : cut (s ++ p) p = s := by
  simp [cut]

theorem cut_first (s : List Char) (c : Char) :
    cut s (s.dropWhile (· ≠ c)) = s.takeWhile (· ≠ c) := by
  have split := List.takeWhile_append_dropWhile (p := fun x => decide (x ≠ c)) (l := s)
  have whole := cut_append (s.takeWhile (· ≠ c)) (s.dropWhile (· ≠ c))
  rwa [split] at whole

theorem snprintf_eq (room : s.length < size) : snprintf size s = s :=
  List.take_of_length_le (by omega)

end Strings

end Uri
end Bayonne
