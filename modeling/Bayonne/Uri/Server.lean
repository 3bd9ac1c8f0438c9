import Bayonne.Uri.Parts

/-! The laws of `create` and `server`, which each have scheme tests of their own. -/
namespace Bayonne
namespace Uri

def Scheme.schema : Scheme → String
  | .sips => "sips:"
  | .iax => "iax:"
  | .h323 => "h323:"
  | .sip | .tcp | .udp => "sip:"

def Parts.schema (u : Parts) : String := (u.scheme.getD .sip).schema

section Schema
variable {size : Nat} {s w r q : List Char} {schema : String}

theorem createSchema_text {s : Scheme} (other : s ≠ .udp) (r : List Char) :
    createSchema (s.text ++ ':' :: r) = (s.schema, r) := by
  cases s with
  | udp => exact absurd rfl other
  | _ => rfl

theorem createSchema_udp (r : List Char) :
    createSchema (Scheme.udp.text ++ ':' :: r) = ("sip:", Scheme.udp.text ++ ':' :: r) := rfl

theorem serverSchema_text (s : Scheme) (r : List Char) :
    serverSchema (s.text ++ ':' :: r) = (s.schema, r) := by
  cases s <;> rfl

theorem schema_again (s : Scheme) (r : List Char) :
    createSchema (s.schema.toList ++ r) = (s.schema, r) ∧
      serverSchema (s.schema.toList ++ r) = (s.schema, r) := by
  cases s <;> exact ⟨rfl, rfl⟩

theorem serverSchema_cases (x : List Char) :
    ∃ s : Scheme, ∃ n, serverSchema x = (s.schema, x.drop n) := by
  unfold serverSchema
  split_ifs
  · exact ⟨.sips, 5, rfl⟩
  · exact ⟨.iax, 4, rfl⟩
  · exact ⟨.h323, 5, rfl⟩
  · exact ⟨.sip, 4, rfl⟩
  · exact ⟨.tcp, 4, rfl⟩
  · exact ⟨.udp, 4, rfl⟩
  · exact ⟨.sip, 0, rfl⟩

theorem create_eq (chain : createSchema s = (schema, r)) (clean : '@' ∉ r)
    (room : (schema.toList ++ w ++ '@' :: r).length < size) :
    create size s (some w) = (true, schema.toList ++ w ++ '@' :: r) := by
  rw [create, chain]
  simp only [strchr_none clean, snprintf_eq room]

theorem create_kept (chain : createSchema s = (schema, r)) (user : strchr '@' r ≠ none)
    (room : (schema.toList ++ r).length < size) (userid : Option (List Char)) :
    create size s userid = (true, schema.toList ++ r) := by
  obtain ⟨sp, found⟩ := Option.ne_none_iff_exists'.mp user
  rw [create, chain]
  simp only [found, snprintf_eq room]

theorem server_eq (chain : serverSchema s = (schema, r))
    (room : (schema.toList ++ afterAt r).length < size) :
    server size s = (true, schema.toList ++ afterAt r) := by
  rw [server, chain]
  simp only [snprintf_eq room]

theorem not_mem_afterAt (one : q.count '@' ≤ 1) : '@' ∉ afterAt q := by
  by_cases mem : '@' ∈ q
  · obtain ⟨a, p, rfl, clean⟩ := List.eq_append_cons_of_mem mem
    rw [afterAt_append clean]
    intro second
    have more := List.count_pos_iff.mpr second
    rw [List.count_append, List.count_cons_self] at one
    omega
  · rw [afterAt_none mem]
    exact mem

theorem afterAt_length (q : List Char) : (afterAt q).length ≤ q.length := by
  by_cases mem : '@' ∈ q
  · obtain ⟨a, p, rfl, clean⟩ := List.eq_append_cons_of_mem mem
    rw [afterAt_append clean]
    simp
    omega
  · rw [afterAt_none mem]

theorem schema_length (s : Scheme) : s.schema.toList.length ≤ 5 := by
  cases s <;> decide

theorem server_twice {x : List Char} (one : x.count '@' ≤ 1) (room : x.length + 5 < size) :
    server size (server size x).2 = server size x := by
  obtain ⟨s, n, chain⟩ := serverSchema_cases x
  have rest : (x.drop n).count '@' ≤ 1 :=
    Nat.le_trans ((List.drop_sublist n x).count_le '@') one
  have clean := not_mem_afterAt rest
  have short := afterAt_length (x.drop n)
  have fits : (s.schema.toList ++ afterAt (x.drop n)).length < size := by
    have schema := schema_length s
    rw [List.length_append]
    rw [List.length_drop] at short
    omega
  have first := server_eq chain fits
  have second : server size (s.schema.toList ++ afterAt (x.drop n)) =
      (true, s.schema.toList ++ afterAt (afterAt (x.drop n))) := by
    refine server_eq (schema_again s _).2 ?_
    rwa [afterAt_none clean]
  rw [first, second, afterAt_none clean]

end Schema

namespace Parts
variable (u : Parts)

theorem eq_tail {literal : String} {s : Scheme} (shape : literal.toList = s.text ++ [':'])
    (found : eq literal u.tail = true) : u.port.isSome ∧ u.host.text = s.text := by
  obtain ⟨r, split⟩ := List.isPrefixOf_iff_prefix.mp found
  rw [shape, List.append_assoc, List.singleton_append] at split
  have clean : ':' ∉ s.text := by cases s <;> decide
  cases host : u.host with
  | literal a =>
    rw [tail, host] at split
    cases s <;> cases split
  | name n =>
    have tail : u.tail = n.1 ++ u.portText := by
      rw [Parts.tail, host]
      rfl
    rw [tail] at split
    rcases portText_cases u with ⟨-, text⟩ | ⟨p, port, text⟩ <;> rw [text] at split
    · rw [List.append_nil] at split
      exact absurd (split ▸ List.mem_append_right _ List.mem_cons_self) n.2.2.1
    · have names := congrArg (List.takeWhile (· ≠ ':')) split
      rw [List.takeWhile_append_of_pos (colonless clean),
        List.takeWhile_append_of_pos (colonless n.2.2.1)] at names
      refine ⟨port ▸ rfl, ?_⟩
      simpa [Host.text] using names.symm

/-- A host with the name of a scheme, and a port. -/
def Clash : Prop := u.scheme = none ∧ u.port.isSome ∧ ∃ s : Scheme, u.host.text = s.text

variable {u}

theorem schema_tail (clear : ¬ ∃ s : Scheme, u.port.isSome ∧ u.host.text = s.text) :
    createSchema u.tail = ("sip:", u.tail) ∧ serverSchema u.tail = ("sip:", u.tail) := by
  have other : ∀ (literal : String) (s : Scheme), literal.toList = s.text ++ [':'] →
      eq literal u.tail = false := by
    intro literal s shape
    rw [Bool.eq_false_iff]
    exact fun found => clear ⟨s, eq_tail u shape found⟩
  have sip := other "sip:" .sip rfl
  have sips := other "sips:" .sips rfl
  have tcp := other "tcp:" .tcp rfl
  have udp := other "udp:" .udp rfl
  have iax := other "iax:" .iax rfl
  have h323 := other "h323:" .h323 rfl
  simp [createSchema, serverSchema, sip, sips, tcp, udp, iax, h323]

theorem print_scheme {s : Scheme} (bare : u.user = none) (h : u.scheme = some s) :
    u.print = s.text ++ ':' :: u.tail := by
  rw [print, h, rest, bare]
  simp

theorem print_none (bare : u.user = none) (h : u.scheme = none) : u.print = u.tail := by
  rw [print, h, rest, bare]
  rfl

theorem schema_print (bare : u.user = none) (other : u.scheme ≠ some .udp) (clear : ¬ u.Clash) :
    createSchema u.print = (u.schema, u.tail) ∧ serverSchema u.print = (u.schema, u.tail) := by
  cases scheme : u.scheme with
  | none =>
    have named : ¬ ∃ s : Scheme, u.port.isSome ∧ u.host.text = s.text := by
      rintro ⟨s, port, text⟩
      exact clear ⟨scheme, port, s, text⟩
    rw [print_none bare scheme, schema, scheme]
    exact schema_tail named
  | some s =>
    rw [print_scheme bare scheme, schema, scheme]
    have known : s ≠ .udp := by
      rintro rfl
      exact other scheme
    exact ⟨createSchema_text known u.tail, serverSchema_text s u.tail⟩

variable (u)

/-- What `create` makes of a server without a user, what `server` makes of that, and that
both leave their own results alone. -/
structure Laws (size : Nat) (w x : List Char) : Prop where
  created : create size u.print (some w) = (true, u.schema.toList ++ w ++ '@' :: u.tail)
  served : server size (create size u.print (some w)).2 = server size u.print
  again : create size (create size u.print (some w)).2 (some w) = create size u.print (some w)
  twice : server size (server size x).2 = server size x

variable {size : Nat} {w x : List Char}

theorem tail_length : u.tail.length ≤ u.print.length := by
  rw [print, rest, List.length_append, List.length_append]
  omega

theorem laws_of_clear (bare : u.user = none) (clean : '@' ∉ w) (one : x.count '@' ≤ 1)
    (room : u.print.length + w.length + 6 < size) (roomX : x.length + 5 < size)
    (other : u.scheme ≠ some .udp) (clear : ¬ u.Clash) : u.Laws size w x := by
  obtain ⟨chain, chain'⟩ := schema_print bare other clear
  have short := tail_length u
  have schema : u.schema.toList.length ≤ 5 := schema_length _
  have fits : (u.schema.toList ++ w ++ '@' :: u.tail).length < size := by
    simp only [List.length_append, List.length_cons]
    omega
  have shape : u.schema.toList ++ w ++ '@' :: u.tail =
      u.schema.toList ++ (w ++ '@' :: u.tail) := List.append_assoc _ _ _
  have fits' : (u.schema.toList ++ u.tail).length < size := by
    rw [List.length_append]
    omega
  have made : create size u.print (some w) = (true, u.schema.toList ++ w ++ '@' :: u.tail) :=
    create_eq chain (at_tail u) fits
  have again := schema_again (u.scheme.getD .sip) (w ++ '@' :: u.tail)
  refine ⟨made, ?_, ?_, server_twice one roomX⟩
  · have first : server size u.print = (true, u.schema.toList ++ afterAt u.tail) := by
      refine server_eq chain' ?_
      rwa [afterAt_none (at_tail u)]
    have second : server size (u.schema.toList ++ (w ++ '@' :: u.tail)) =
        (true, u.schema.toList ++ afterAt (w ++ '@' :: u.tail)) := by
      refine server_eq again.2 ?_
      rwa [afterAt_append clean]
    rw [made, shape, second, first, afterAt_append clean, afterAt_none (at_tail u)]
  · have found : strchr '@' (w ++ '@' :: u.tail) ≠ none := by
      rw [strchr_append clean]
      nofun
    rw [made, shape]
    exact create_kept again.1 found (shape ▸ fits) (some w)

theorem not_laws_udp (bare : u.user = none) (room : u.print.length + w.length + 6 < size)
    (h : u.scheme = some .udp) : ¬ u.Laws size w x := by
  intro laws
  have print := print_scheme bare h
  have absent : '@' ∉ Scheme.udp.text ++ ':' :: u.tail := by
    have tail := at_tail u
    simpa [Scheme.text] using tail
  have made : create size u.print (some w) =
      (true, "sip:".toList ++ w ++ '@' :: (Scheme.udp.text ++ ':' :: u.tail)) := by
    refine create_eq (print ▸ createSchema_udp u.tail) absent ?_
    rw [← print]
    simp
    omega
  have lengths := congrArg (fun r => r.2.length) (made.symm.trans laws.created)
  simp [schema, h, Scheme.schema, Scheme.text] at lengths
  omega

theorem print_clash (bare : u.user = none) (none : u.scheme = none) (port : u.port.isSome)
    {s : Scheme} (host : u.host.text = s.text) : ∃ p : Port, u.print = s.text ++ ':' :: p.1 := by
  rcases portText_cases u with ⟨absent, -⟩ | ⟨p, -, text⟩
  · rw [absent] at port
    cases port
  refine ⟨p, ?_⟩
  cases shape : u.host with
  | literal a =>
    have two := a.2.1
    rw [shape] at host
    rw [show a.1 = s.text from host] at two
    cases s <;> exact absurd two (by decide)
  | name n =>
    rw [print_none bare none, tail, shape, text, ← host, shape]
    rfl

theorem not_laws_clash (bare : u.user = none) (room : u.print.length + w.length + 6 < size)
    (clean : '@' ∉ w) (clash : u.Clash) : ¬ u.Laws size w x := by
  obtain ⟨scheme, port, s, host⟩ := clash
  obtain ⟨p, print⟩ := print_clash u bare scheme port host
  have here : u.tail = s.text ++ ':' :: p.1 := (print_none bare scheme).symm.trans print
  have schema : u.schema = "sip:" := by
    rw [Parts.schema, scheme]
    rfl
  have absent : '@' ∉ p.1 := port_clean p rfl
  have size_p : p.1.length < u.print.length := by
    rw [print]
    simp
    omega
  intro laws
  by_cases udp : s = .udp
  · subst udp
    have first : server size u.print = (true, "sip:".toList ++ afterAt p.1) := by
      refine server_eq (print ▸ serverSchema_text .udp p.1) ?_
      rw [afterAt_none absent]
      simp
      omega
    have second : server size ("sip:".toList ++ (w ++ '@' :: u.tail)) =
        (true, "sip:".toList ++ afterAt (w ++ '@' :: u.tail)) := by
      refine server_eq (schema_again .sip _).2 ?_
      have short := tail_length u
      rw [afterAt_append clean]
      simp
      omega
    have served := laws.served
    rw [laws.created, schema, List.append_assoc, second, first, afterAt_append clean,
      afterAt_none absent, here] at served
    have lengths := congrArg (fun r => r.2.length) served
    simp [Scheme.text] at lengths
    omega
  · have made : create size u.print (some w) =
        (true, s.schema.toList ++ w ++ '@' :: p.1) := by
      refine create_eq (print ▸ createSchema_text udp p.1) absent ?_
      have short := schema_length s
      simp
      omega
    have created := made.symm.trans laws.created
    rw [schema, here] at created
    have lengths := congrArg (fun r => r.2.length) created
    cases s <;> simp [Scheme.schema, Scheme.text] at lengths <;> omega

/-- The laws hold exactly for a server whose scheme is not `udp`, the test that `create`
misses, and whose host is not taken for a scheme. -/
theorem laws_iff (bare : u.user = none) (clean : '@' ∉ w) (one : x.count '@' ≤ 1)
    (room : u.print.length + w.length + 6 < size) (roomX : x.length + 5 < size) :
    u.Laws size w x ↔ u.scheme ≠ some .udp ∧ ¬ u.Clash := by
  constructor
  · intro laws
    exact ⟨fun udp => not_laws_udp u bare room udp laws,
      fun clash => not_laws_clash u bare room clean clash laws⟩
  · rintro ⟨other, clear⟩
    exact laws_of_clear u bare clean one room roomX other clear

def proxy : Parts := { alice with scheme := some .tcp, user := none }

theorem laws_iff_proxy : proxy.Laws 256 "alice".toList "sip:alice@10.0.0.1".toList := by
  refine (laws_iff proxy rfl (by decide) (by decide) (by decide) (by decide)).mpr ⟨by decide, ?_⟩
  rintro ⟨scheme, -⟩
  cases scheme

/-- `udp:10.0.0.1` keeps its scheme behind the user. -/
theorem not_laws : ¬ ∀ (u : Parts) (size : Nat) (w x : List Char), u.user = none → '@' ∉ w →
    x.count '@' ≤ 1 → u.print.length + w.length + 6 < size → x.length + 5 < size →
    u.Laws size w x := by
  intro whole
  have laws := whole ⟨some .udp, none, .name ⟨"10.0.0.1".toList, by decide⟩, none⟩ 256
    "alice".toList [] rfl (by decide) (by decide) (by decide) (by decide)
  exact absurd laws.created (by decide)

end Parts

end Uri
end Bayonne
