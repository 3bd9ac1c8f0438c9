import Bayonne.Uri.Server

/-! The URI that `dialed` makes of a dialed string and the identity of a registration. -/
namespace Bayonne
namespace Uri

/-- The two chains of `dialed` that fix the scheme. Only the first takes it off. -/
def dialedSchema (callee identity : List Char) : String × List Char :=
  if eq "sips:" callee then ("sips:", callee.drop 5)
  else if eq "iax:" callee then ("iax:", callee.drop 4)
  else if eq "h323:" callee then ("h323:", callee.drop 5)
  else if eq "tcp:" callee then ("sip:", callee.drop 4)
  else if eq "udp:" callee then ("sip:", callee.drop 4)
  else if eq "sip:" callee then ("sip:", callee.drop 4)
  else if eq "sips:" identity then ("sips:", callee)
  else if eq "iax:" identity then ("iax:", callee)
  else if eq "h323:" identity then ("h323", callee)
  else if eq "tcp:" identity then ("sip", callee)
  else if eq "udp:" identity then ("sip", callee)
  else ("sip:", callee)

def dialedHost (identity : List Char) : List Char :=
  match strchr '@' identity with
  | some host => host.drop 1
  | none =>
    if eq "sips:" identity then identity.drop 5
    else if eq "sip:" identity then identity.drop 4
    else if eq "iax:" identity then identity.drop 4
    else if eq "h323:" identity then identity.drop 5
    else if eq "tcp:" identity then identity.drop 4
    else if eq "udp:" identity then identity.drop 4
    else identity

def dialed (size : Nat) (callee identity : List Char) : Bool × List Char :=
  let (schema, callee) := dialedSchema callee identity
  match strchr '@' callee with
  | some _ => (true, snprintf size (schema.toList ++ callee))
  | none => (true, snprintf size (schema.toList ++ callee ++ '@' :: dialedHost identity))

/-- A string with the scheme it starts with, if it starts with one. -/
structure Reading where
  scheme : Option Scheme
  rest : List Char
  bare : scheme = none → ∀ s : Scheme, ¬ (s.text ++ [':']) <+: rest

namespace Reading

def print (r : Reading) : List Char := r.scheme.elim [] (fun s => s.text ++ [':']) ++ r.rest

theorem exists_print (x : List Char) : ∃ r : Reading, r.print = x := by
  by_cases starts : ∃ s : Scheme, (s.text ++ [':']) <+: x
  · obtain ⟨s, rest, rfl⟩ := starts
    exact ⟨⟨some s, rest, by simp⟩, rfl⟩
  · exact ⟨⟨none, x, fun _ s found => starts ⟨s, found⟩⟩, rfl⟩

def server (r : Reading) : List Char := afterAt r.rest

/-- The scheme of a dialed URI: its own, that of the identity, or `sip`. -/
def schema (callee identity : Reading) : String :=
  ((callee.scheme.or identity.scheme).getD .sip).schema

def target (callee identity : Reading) : List Char :=
  if '@' ∈ callee.rest then callee.rest else callee.rest ++ '@' :: identity.server

/-- The URI of a dialed string: a scheme with its colon, and a user at a server. -/
def uri (callee identity : Reading) : List Char :=
  (schema callee identity).toList ++ target callee identity

variable {r callee identity : Reading} {size : Nat}

theorem print_some {s : Scheme} (h : r.scheme = some s) : r.print = s.text ++ ':' :: r.rest := by
  simp [print, h]

theorem print_bare (h : r.scheme = none) : r.print = r.rest := by
  simp [print, h]

theorem eq_bare (h : r.scheme = none) (literal : String) (s : Scheme)
    (shape : literal.toList = s.text ++ [':']) : eq literal r.print = false := by
  rw [print_bare h, Bool.eq_false_iff]
  intro found
  refine r.bare h s ?_
  rw [← shape]
  exact List.isPrefixOf_iff_prefix.mp found

theorem eq_none (h : r.scheme = none) : eq "sips:" r.print = false ∧ eq "iax:" r.print = false ∧
    eq "h323:" r.print = false ∧ eq "tcp:" r.print = false ∧ eq "udp:" r.print = false ∧
      eq "sip:" r.print = false :=
  ⟨eq_bare h _ .sips rfl, eq_bare h _ .iax rfl, eq_bare h _ .h323 rfl, eq_bare h _ .tcp rfl,
    eq_bare h _ .udp rfl, eq_bare h _ .sip rfl⟩

def given : Option Scheme → String
  | none | some .sip => "sip:"
  | some .sips => "sips:"
  | some .iax => "iax:"
  | some .h323 => "h323"
  | some .tcp | some .udp => "sip"

theorem dialedSchema_some {s : Scheme} (h : callee.scheme = some s) (x : List Char) :
    dialedSchema callee.print x = (s.schema, callee.rest) := by
  rw [print_some h]
  cases s <;> rfl

theorem dialedSchema_bare (h : callee.scheme = none) (identity : Reading) :
    dialedSchema callee.print identity.print = (given identity.scheme, callee.rest) := by
  simp only [dialedSchema, eq_none h, Bool.false_eq_true, if_false]
  rw [print_bare h]
  cases scheme : identity.scheme with
  | none =>
    simp only [eq_none scheme, Bool.false_eq_true, if_false]
    rfl
  | some s =>
    rw [print_some scheme]
    cases s <;> rfl

theorem strchr_print (r : Reading) : strchr '@' r.print = strchr '@' r.rest := by
  refine strchr_past ?_ r.rest
  cases r.scheme with
  | none => simp
  | some s => cases s <;> decide

theorem dialedHost_print (r : Reading) : dialedHost r.print = r.server := by
  rw [dialedHost, strchr_print, server, afterAt]
  cases found : strchr '@' r.rest with
  | some host => rfl
  | none =>
    cases scheme : r.scheme with
    | none =>
      simp only [eq_none scheme, Bool.false_eq_true, if_false]
      exact print_bare scheme
    | some s =>
      rw [print_some scheme]
      cases s <;> rfl

theorem dialed_chain {schema : String}
    (chain : dialedSchema callee.print identity.print = (schema, callee.rest)) :
    dialed size callee.print identity.print =
      (true, snprintf size (schema.toList ++ target callee identity)) := by
  rw [dialed, chain, target]
  by_cases mem : '@' ∈ callee.rest
  · simp only [strchr_mem mem, if_pos mem]
  · simp only [strchr_none mem, if_neg mem, dialedHost_print, List.append_assoc]

/-- `dialed` makes the URI exactly where the dialed string has a scheme, or the identity has
none of those whose colon the second chain leaves out. -/
theorem dialed_iff (callee identity : Reading) (room : (uri callee identity).length < size) :
    dialed size callee.print identity.print = (true, uri callee identity) ↔
      callee.scheme.isSome ∨ identity.scheme ∉ [some .h323, some .tcp, some .udp] := by
  cases scheme : callee.scheme with
  | some s =>
    have made := @dialed_chain callee identity size _ (dialedSchema_some scheme identity.print)
    have same : schema callee identity = s.schema := by simp [schema, scheme]
    have fits : snprintf size (s.schema.toList ++ target callee identity) = uri callee identity := by
      rw [← same]
      exact snprintf_eq room
    rw [made, fits]
    simp
  | none =>
    have made := @dialed_chain callee identity size _ (dialedSchema_bare scheme identity)
    have same : schema callee identity = (identity.scheme.getD .sip).schema := by
      simp [schema, scheme]
    have short : (given identity.scheme).toList.length ≤ (schema callee identity).toList.length := by
      rw [same]
      cases identity.scheme with
      | none => decide
      | some s => cases s <;> decide
    have fits : snprintf size ((given identity.scheme).toList ++ target callee identity) =
        (given identity.scheme).toList ++ target callee identity := by
      refine snprintf_eq ?_
      rw [uri] at room
      simp only [List.length_append] at room ⊢
      omega
    rw [made, fits, uri, same, Prod.mk.injEq, List.append_left_inj]
    cases identity.scheme with
    | none => decide
    | some s => cases s <;> decide

def extension : Reading := ⟨none, "100".toList, fun _ s => by cases s <;> decide⟩

def alice : Reading := ⟨some .sip, "alice@example.com".toList, by simp⟩

theorem dialed_iff_alice : dialed 256 extension.print alice.print =
    (true, "sip:100@example.com".toList) :=
  (dialed_iff extension alice (by decide)).mpr (by decide)

/-- With the identity `h323:alice@example.com` the scheme runs into the user. -/
theorem not_dialed : ¬ ∀ (callee identity : Reading) (size : Nat),
    (uri callee identity).length < size →
      dialed size callee.print identity.print = (true, uri callee identity) := by
  intro whole
  have made := whole extension ⟨some .h323, "alice@example.com".toList, by simp⟩ 256 (by decide)
  exact absurd made (by decide)

end Reading

end Uri
end Bayonne
