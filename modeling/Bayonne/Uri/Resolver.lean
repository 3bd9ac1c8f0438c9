import Bayonne.Base.Leader
import Bayonne.Uri

/-! The `uri` object. `set` asks the resolver for SRV records and walks through its reply,
or takes a list of addresses; `next` goes on to another record. An offset counts the bytes
from the start of the reply. -/
namespace Bayonne
namespace Uri

structure Address (α : Type) where
  addr : α
  weight : UInt16
  priority : UInt16

/-- An array of records, and what has been stored in it. -/
structure Block (α : Type) where
  serial : Nat
  size : Nat
  cell : Nat → Option (Address α)

/-- Where `entry` points: at an element of an array or at an address of a list. Arrays and
lists are numbered as they are made. -/
inductive Entry where
  | element (serial index : Nat)
  | address (serial index : Nat)
  deriving DecidableEq, Repr

/-- The members of `uri`; `made` arrays and lists have been made. -/
structure Object (α : Type) where
  srvlist : Option (Block α)
  list : Option (Nat × List α)
  entry : Option Entry
  pri : UInt16
  count : Nat
  made : Nat

/-- What the resolver leaves of a reply: the length it reports, the memory from the start
of the buffer on, and what `dn_expand` makes of a name at an offset. -/
structure Reply where
  result : Int
  byte : Nat → UInt8
  expand : Nat → Option (Nat × List Char)

namespace Reply
variable (m : Reply)

def ep : Nat := m.result.toNat

/-- `ntohs(*((uint16_t *)cp))` -/
def word (cp : Nat) : UInt16 := UInt16.ofNat (256 * (m.byte cp).toNat + (m.byte (cp + 1)).toNat)

def qcount : Nat := (m.word 4).toNat

def acount : Nat := (m.word 6).toNat

end Reply

/-- `sizeof(HEADER)`, `sizeof(reply)`, `QFIXEDSZ` and `T_SRV`. -/
def headerSize : Nat := 12

def replySize : Nat := 1024

def fixedSize : Nat := 4

def srvType : UInt16 := 33

structure Hint where
  family : Nat
  stream : Bool
  protocol : Nat
  passive : Bool
  numericHost : Bool
  v4mapped : Bool
  numericServ : Bool

/-- What `set` gets from outside: `Socket::is_numeric`, `res_query`, the address of a host
and a port, the random numbers, one for each record stored, and `getaddrinfo`. -/
structure Net (α : Type) where
  isNumeric : List Char → Bool
  query : List Char → Reply
  resolve : List Char → UInt16 → Option α
  random : Nat → UInt16
  getaddrinfo : List Char → List Char → Hint → List α

namespace Object
variable {α : Type} (o : Object α)

def clear : Object α := { o with srvlist := none, list := none, entry := none, count := 0 }

def cell (index : Nat) : Option (Address α) := o.srvlist.bind fun b => b.cell index

/-- `new uri::address[acount]` -/
def allocate (acount : Nat) : Object α :=
  { o with srvlist := some ⟨o.made, acount, fun _ => none⟩, made := o.made + 1 }

def draw (weight random : UInt16) : UInt16 :=
  if weight = 0 then 0
  else UInt16.ofNat ((1 + random.toNat % 0x8000) % (10000 * weight.toNat))

/-- A record is stored. `current` is declared inside the loop, so that its test always
passes and `entry` is the record just stored. -/
def store (addr : α) (weight priority : UInt16) : Object α :=
  { o with
    srvlist := o.srvlist.map fun b =>
      { b with cell := Function.update b.cell o.count (some ⟨addr, weight, priority⟩) }
    entry := o.srvlist.map fun b => .element b.serial o.count
    pri := priority
    count := o.count + 1 }

/-- The end of `set`, from its label on. -/
def fallback (addrs : List α) : Object α :=
  { o with
    srvlist := none
    list := if addrs = [] then none else some (o.made, addrs)
    entry := if addrs = [] then o.entry else some (.address o.made 0)
    count := addrs.length
    made := o.made + 1 }

end Object

/-- The object and the bytes `set` has read of the reply, the indices it has stored at. -/
structure Walk (α : Type) where
  object : Object α
  reads : List Nat
  writes : List Nat

namespace Walk
variable {α : Type} (w : Walk α)

def read (cps : List Nat) : Walk α := { w with reads := w.reads ++ cps.flatMap fun cp => [cp, cp + 1] }

def lift (f : Object α → Object α) : Walk α := { w with object := f w.object }

def take (net : Net α) (target : List Char) (priority weight port : UInt16) : Walk α :=
  match net.resolve target port with
  | none => w
  | some sp =>
    let weight := Object.draw weight (net.random w.object.count)
    { w.lift (·.store sp weight priority) with writes := w.writes ++ [w.object.count] }

end Walk

section Set
variable {α : Type} (net : Net α) (m : Reply)

/-- The first loop of `set`: where the answers begin, unless a name is broken. -/
def questions : Nat → Nat → Option Nat
  | 0, cp => some cp
  | qcount + 1, cp =>
    if cp < m.ep then
      match m.expand cp with
      | none => none
      | some (n, _) => questions qcount (cp + n + fixedSize)
    else some cp

/-- The second loop: whether it ends in `goto nosrv`, and what it leaves. A target that is
broken ends it too, but not there. -/
def answers : Nat → Nat → Walk α → Bool × Walk α
  | 0, _, w => (false, w)
  | acount + 1, cp, w =>
    if cp < m.ep then
      match m.expand cp with
      | none => (true, w)
      | some (n, _) =>
        let cp := cp + n
        let w := w.read [cp, cp + 8]
        if m.word cp ≠ srvType then answers acount (cp + 10 + (m.word (cp + 8)).toNat) w
        else
          let w := w.read [cp + 10, cp + 12, cp + 14]
          match m.expand (cp + 16) with
          | none => (false, w)
          | some (k, target) =>
            answers acount (cp + 16 + k)
              (w.take net target (m.word (cp + 10)) (m.word (cp + 12)) (m.word (cp + 14)))
    else (false, w)

/-- What `set` does with the reply: whether it goes on to `nosrv`. -/
def search (w : Walk α) : Bool × Walk α :=
  if m.result < headerSize then (true, w)
  else
    let w := w.read [6, 4]
    if m.acount = 0 then (true, w)
    else
      let w := w.lift (·.allocate m.acount)
      match questions m m.qcount headerSize with
      | none => (true, w)
      | some cp => answers net m m.acount cp w

def tcp : Nat := 6

def udp : Nat := 17

def inet6 : Nat := 10

/-- The tests at the start of `set`: whether there is a port, the service, the protocol and
the URI without its scheme where the test takes it off. -/
def service (uri : List Char) (protocol : Nat) : Bool × List Char × Nat × List Char :=
  let port := portid uri
  if port ≠ 0 then (true, (toString port.toNat).toList, protocol, uri)
  else if eq "sips:" uri then (false, "sips".toList, tcp, uri)
  else if eq "tcp:" uri then (false, "sip".toList, tcp, uri.drop 4)
  else if eq "udp:" uri then (false, "sip".toList, udp, uri.drop 4)
  else if eq "h323:" uri then (false, "h323cs".toList, tcp, uri)
  else if eq "iax:" uri then (false, "iax".toList, udp, uri)
  else (false, "sip".toList, protocol, uri)

def servicePort (svc : List Char) : List Char :=
  if svc = "sips".toList then "5061".toList
  else if svc = "sip".toList then "5060".toList
  else if eq "h323" svc then "1720".toList
  else if svc = "iax".toList then "4569".toList
  else svc

def zone (svc : List Char) (protocol : Nat) (host : List Char) : List Char :=
  snprintf 256 ('_' :: svc ++ (if protocol = tcp then "._tcp." else "._udp.").toList ++ host)

def asked (uri : List Char) (protocol : Nat) : Option Reply :=
  let (fixed, svc, protocol, uri) := service uri protocol
  let host := (hostid 256 uri).2
  if fixed || net.isNumeric host then none else some (net.query (zone svc protocol host))

def listed (uri : List Char) (family protocol : Nat) : List α :=
  let (_, svc, protocol, uri) := service uri protocol
  let host := (hostid 256 uri).2
  net.getaddrinfo host (servicePort svc)
    { family := family
      stream := protocol ≠ udp
      protocol := protocol
      passive := true
      numericHost := net.isNumeric host
      v4mapped := family = inet6
      numericServ := 0 < atoi (String.ofList svc) }

def set (uri : List Char) (family protocol : Nat) (o : Object α) : Walk α :=
  let w : Walk α := ⟨o.clear, [], []⟩
  let (nosrv, w) :=
    match asked net uri protocol with
    | none => (true, w)
    | some m => search net m w
  if nosrv then w.lift (·.fallback (listed net uri family protocol)) else w

end Set

section Next
variable {α : Type}

/-- The order `next` compares by: a lower priority wins, and so does a higher weight. -/
def beats (np node : Address α) : Bool :=
  np.priority < node.priority || node.weight < np.weight

/-- The loop of `next`, from an index on. It fails at an element that was not stored. -/
def scan (cell : Nat → Option (Address α)) (pri : UInt16) :
    Nat → Nat → Option (Address α × Nat) → Option (Option (Address α × Nat))
  | 0, _, node => some node
  | count + 1, index, node =>
    match cell index with
    | none => none
    | some np =>
      scan cell pri count (index + 1)
        (if np.priority < pri then node
          else Leader.pick (fun x y => beats x.1 y.1) node (np, index))

def Object.next (o : Object α) : Option (Object α) :=
  let pri := o.pri + 1
  (scan o.cell pri o.count 0 none).map fun
    | none => { o with pri := pri, entry := none }
    | some (node, index) =>
      { o with pri := node.priority, entry := o.srvlist.map fun b => .element b.serial index }

end Next

end Uri
end Bayonne
