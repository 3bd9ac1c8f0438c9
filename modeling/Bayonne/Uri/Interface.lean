import Bayonne.Driver
import Bayonne.Uri.Parts

/-! The server string that `route` prints for a registration, and the host that
`Registration::getInterface` reads from it. -/
namespace Bayonne
open Uri

/-- What `srv::route` asks the network: whether a host is a numeric address, the entry that
`set` finds, whether an entry is `AF_INET6`, its address as text and its port. -/
structure Router (α : Type) where
  isNumeric : List Char → Bool
  set : List Char → Option α
  inet6 : α → Bool
  query : α → Option (List Char)
  port : α → UInt16

def addressText (schema : String) (bracketed : Bool) (host : List Char) (port : UInt16) :
    List Char :=
  let host := if bracketed then '[' :: host ++ [']'] else host
  schema.toList ++ ':' :: (host ++ ':' :: (toString port.toNat).toList)

/-- `srv::route`: the context, null if there is none, and what is in the buffer. -/
def route {α : Type} (driver : Contexts) (net : Router α) (size : Nat) (uri : List Char) :
    Option Nat × List Char :=
  let port := portid uri
  let host := (hostid 256 uri).2
  let (schema, ctx) :=
    if Uri.eq "sips:" uri then ("sips", driver.tls)
    else if Uri.eq "tcp:" uri then ("sip", driver.tcp)
    else if Uri.eq "udp:" uri then ("sip", driver.udp)
    else ("sip", driver.out)
  let cp := strrchr '.' host
  let near := net.isNumeric host || cp.isNone || cp = some ".local".toList ||
    cp = some ".localdomain".toList
  let port := if port = 0 then if schema = "sips" then 5061 else 5060 else port
  let buf := if near then snprintf size (addressText schema (host.contains ':') host port) else []
  match net.set (if near then buf else uri) with
  | none => (none, buf)
  | some entry =>
    match net.query entry with
    | none => (none, buf)
    | some host => (ctx, snprintf size (addressText schema (net.inet6 entry) host (net.port entry)))

def Registration.getHostid (schema : Option String) (id : List Char) : List Char :=
  match strrchr '@' id with
  | some cp => cp.drop 1
  | none =>
    match schema with
    | none => id
    | some schema => if Uri.eq schema id then id.drop schema.length else id

def cutAt (c : Char) (buffer : List Char) : List Char :=
  match strchr c buffer with
  | some cp => cut buffer cp
  | none => buffer

/-- The host that `getInterface` looks up. `String::set` copies what fits. -/
def Registration.interfaceHost (schema : Option String) (size : Nat) (uri : List Char) :
    List Char :=
  let uri := getHostid schema uri
  if uri.head? = some '[' then cutAt ']' (snprintf size (uri.drop 1))
  else cutAt ':' (snprintf size uri)

/-- The address of a host, the interface towards an address, and an address as text. -/
structure Interfaces (α : Type) where
  getAddr : List Char → Option α
  via : α → Option α
  query : α → Nat → List Char

def Interfaces.towards {α : Type} (net : Interfaces α) (host : List Char) : Option α :=
  (net.getAddr host).bind net.via

/-- `Registration::getInterface`. `pointer` is the size of a pointer, which is what
`sizeof(buffer)` is. -/
def Registration.getInterface {α : Type} (schema : Option String) (pointer : Nat)
    (net : Interfaces α) (uri : List Char) (size : Nat) : List Char :=
  match net.towards (interfaceHost schema size uri) with
  | none => snprintf pointer "localhost".toList
  | some iface => net.query iface size

/-- A server string: `sip:` or `sips:`, a host and a port. -/
structure Routed where
  secure : Bool
  host : Host
  port : UInt16

namespace Routed

def schema (u : Routed) : String := if u.secure then "sips" else "sip"

def print (u : Routed) : List Char := addressText u.schema u.host.isLiteral u.host.text u.port

def digits (u : Routed) : List Char := (toString u.port.toNat).toList

def tail (u : Routed) : List Char := u.host.print ++ ':' :: u.digits

variable (u : Routed)

theorem print_tail : u.print = u.schema.toList ++ ':' :: u.tail := by
  rw [print, addressText, tail, digits]
  cases u.host <;> rfl

/-- Whatever `route` prints for a context is a server string. -/
theorem exists_routed {α : Type} {driver : Contexts} {net : Router α} {size : Nat}
    {uri : List Char} {ctx : Context}
    (hosts : ∀ a t, net.query a = some t →
      ∃ h : Host, h.text = t ∧ h.isLiteral = net.inet6 a)
    (made : (route driver net size uri).1 = some ctx) :
    ∃ u : Routed, (route driver net size uri).2 = snprintf size u.print := by
  simp only [route] at made ⊢
  split at made
  · cases made
  · rename_i entry _
    split at made
    · cases made
    · rename_i t found
      obtain ⟨h, rfl, literal⟩ := hosts entry t found
      refine ⟨⟨Uri.eq "sips:" uri, h, net.port entry⟩, ?_⟩
      simp only [print, schema, literal]
      split_ifs <;> rfl

theorem digits_clean {c : Char} (other : c.isDigit = false) : c ∉ u.digits := by
  intro mem
  rw [digits, Nat.toString_eq_repr, Nat.toList_repr] at mem
  rw [Nat.isDigit_of_mem_toDigits (by decide) (by decide) mem] at other
  cases other

theorem at_tail : '@' ∉ u.tail := by
  rw [tail, List.mem_append, List.mem_cons]
  rintro (host | colon | digit)
  · have clean := Parts.at_tail ⟨none, none, u.host, none⟩
    rw [Parts.tail, List.mem_append, not_or] at clean
    exact clean.1 host
  · cases colon
  · exact digits_clean u rfl digit

theorem at_print : '@' ∉ u.print := by
  rw [print_tail, List.mem_append, List.mem_cons]
  rintro (schema | colon | tail)
  · revert schema
    rw [Routed.schema]
    split_ifs <;> decide
  · cases colon
  · exact at_tail u tail

theorem afterAt_print : afterAt (pastLetters u.print) = u.tail := by
  have small : ∀ c ∈ u.schema.toList, islower c = true := by
    rw [schema]
    split_ifs <;> exact List.all_eq_true.mp rfl
  rw [print_tail, pastLetters_letters small, afterAt_none (at_tail u)]

theorem tail_name {n : Name} (h : u.host = .name n) : u.tail = n.1 ++ ':' :: u.digits := by
  rw [tail, h]
  rfl

theorem tail_literal {a : Literal} (h : u.host = .literal a) :
    u.tail = '[' :: a.1 ++ ']' :: ':' :: u.digits := by
  rw [tail, h]
  simp [Host.print]

variable {u} {size : Nat}

theorem tail_room (room : u.print.length < size) : u.tail.length < size := by
  rw [print_tail, List.length_append, List.length_cons] at room
  omega

theorem hostid_print (room : u.print.length < size) : hostid size u.print = (true, u.host.text) := by
  have after := afterAt_print u
  have fits := tail_room room
  cases h : u.host with
  | name n =>
    rw [tail_name u h] at after fits
    have one : (n.1 ++ ':' :: u.digits).count ':' ≤ 1 := by
      simp [List.count_eq_zero.mpr n.2.2.1, List.count_eq_zero.mpr (digits_clean u (c := ':') rfl)]
    rw [hostid_plain after (Parts.head_name n _) fits, if_pos one,
      List.takeWhile_append_of_pos (Parts.colonless n.2.2.1)]
    simp [Host.text]
  | literal a =>
    rw [tail_literal u h] at after fits
    exact hostid_bracket after a.2.2.2.2 (Nat.lt_of_succ_lt fits)

theorem cutAt_append {c : Char} {s : List Char} (clean : c ∉ s) (p : List Char) :
    cutAt c (s ++ c :: p) = s := by
  rw [cutAt, strchr_append clean]
  exact cut_append s (c :: p)

theorem getHostid_sip (plain : u.secure = false) :
    Registration.getHostid (some "sip:") u.print = u.tail := by
  have text : u.print = "sip:".toList ++ u.tail := by
    rw [print_tail, schema, plain]
    rfl
  rw [Registration.getHostid, strrchr_none.mpr (at_print u), text]
  rfl

theorem getHostid_sips (secure : u.secure = true) :
    Registration.getHostid (some "sip:") u.print = "sips".toList ++ ':' :: u.tail := by
  have text : u.print = "sips".toList ++ ':' :: u.tail := by
    rw [print_tail, schema, secure]
    rfl
  rw [Registration.getHostid, strrchr_none.mpr (at_print u), text]
  rfl

/-- The schema of the registration is not that of a `sips:` server, so that the first colon
comes too early. -/
theorem interfaceHost_print (room : u.print.length < size) :
    Registration.interfaceHost (some "sip:") size u.print =
      if u.secure then "sips".toList else u.host.text := by
  cases secure : u.secure with
  | true =>
    have text := getHostid_sips secure
    have fits : ("sips".toList ++ ':' :: u.tail).length < size := by
      rwa [print_tail, schema, secure] at room
    have head : ("sips".toList ++ ':' :: u.tail).head? ≠ some '[' := by
      intro h
      cases h
    rw [Registration.interfaceHost, text, if_neg head, snprintf_eq fits, if_pos rfl]
    exact cutAt_append (by decide) u.tail
  | false =>
    have fits := tail_room room
    rw [Registration.interfaceHost, getHostid_sip secure, if_neg Bool.false_ne_true]
    cases h : u.host with
    | name n =>
      rw [tail_name u h] at fits ⊢
      rw [if_neg (Parts.head_name n _), snprintf_eq fits]
      exact cutAt_append n.2.2.1 u.digits
    | literal a =>
      rw [tail_literal u h] at fits ⊢
      have inside : (a.1 ++ ']' :: ':' :: u.digits).length < size := Nat.lt_of_succ_lt fits
      have head : ('[' :: a.1 ++ ']' :: ':' :: u.digits).head? = some '[' := rfl
      rw [if_pos head]
      exact (congrArg (cutAt ']') (snprintf_eq inside)).trans (cutAt_append a.2.2.2.2 _)

/-- The two parsers find the same host, and a failed lookup leaves `localhost`. -/
structure Agrees {α : Type} (net : Interfaces α) (pointer size : Nat) (u : Routed) : Prop where
  host : Registration.interfaceHost (some "sip:") size u.print = (hostid size u.print).2
  failed : net.towards (Registration.interfaceHost (some "sip:") size u.print) = none →
    Registration.getInterface (some "sip:") pointer net u.print size = "localhost".toList

/-- `getInterface` does its work for a `sip:` server, or a `sips:` server that happens to be
called `sips`, whose interface is found. -/
theorem agrees_iff {α : Type} (net : Interfaces α) {pointer : Nat}
    (word : pointer = 4 ∨ pointer = 8) (room : u.print.length < size) :
    u.Agrees net pointer size ↔
      (u.secure = false ∨ u.host.text = "sips".toList) ∧ (net.towards u.host.text).isSome := by
  have same : Registration.interfaceHost (some "sip:") size u.print = u.host.text ↔
      u.secure = false ∨ u.host.text = "sips".toList := by
    rw [interfaceHost_print room]
    cases u.secure with
    | true => simp [eq_comm]
    | false => simp
  have short : snprintf pointer "localhost".toList ≠ "localhost".toList := by
    rcases word with rfl | rfl <;> decide
  constructor
  · intro agrees
    have host := agrees.host
    rw [hostid_print room] at host
    refine ⟨same.mp host, ?_⟩
    cases found : net.towards u.host.text with
    | some iface => rfl
    | none =>
      have missing : net.towards (Registration.interfaceHost (some "sip:") size u.print) = none := by
        rw [host]
        exact found
      have kept := agrees.failed missing
      rw [Registration.getInterface, missing] at kept
      exact absurd kept short
  · rintro ⟨clear, found⟩
    have host := same.mpr clear
    refine ⟨?_, fun missing => ?_⟩
    · rw [host, hostid_print room]
    · rw [host] at missing
      rw [missing] at found
      cases found

theorem proxy_name : "10.0.0.1".toList ≠ [] ∧ ':' ∉ "10.0.0.1".toList ∧ '@' ∉ "10.0.0.1".toList ∧
    '[' ∉ "10.0.0.1".toList := by
  decide

def proxy : Routed := ⟨false, .name ⟨"10.0.0.1".toList, proxy_name⟩, 5060⟩

def loopback : Interfaces (List Char) := ⟨some, some, fun host size => snprintf size host⟩

theorem agrees_iff_proxy : proxy.Agrees loopback 8 256 :=
  (agrees_iff loopback (.inr rfl) (by decide)).mpr (by decide)

/-- For `sips:10.0.0.1:5061` the host looked up is `sips`. -/
theorem not_agrees : ¬ ∀ (α : Type) (net : Interfaces α) (pointer size : Nat) (u : Routed),
    pointer = 4 ∨ pointer = 8 → u.print.length < size → u.Agrees net pointer size := by
  intro whole
  have agrees := whole (List Char) loopback 8 256 { proxy with secure := true, port := 5061 }
    (.inr rfl) (by decide)
  exact absurd agrees.host (by decide)

end Routed

end Bayonne
