import Bayonne.Uri.Failover
import Bayonne.Uri.Records

/-! The grammar of a reply, and what `set` stores of a well-formed one. -/
namespace Bayonne
namespace Uri

def word16 (x : UInt16) : List UInt8 := [UInt8.ofNat (x.toNat / 256), UInt8.ofNat x.toNat]

namespace Dns

/-- What follows the fixed fields of an answer. `host` is the name that the bytes of the
target stand for. -/
inductive Data where
  | srv (priority weight port : UInt16) (target : List UInt8) (host : List Char)
  | other (type : { t : UInt16 // t ≠ srvType }) (data : List UInt8)

def Data.type : Data → UInt16
  | .srv .. => srvType
  | .other type _ => type.1

def Data.bytes : Data → List UInt8
  | .srv priority weight port target _ => word16 priority ++ word16 weight ++ word16 port ++ target
  | .other _ data => data

structure Question where
  name : List UInt8
  type : UInt16
  cls : UInt16
  named : name ≠ []

def Question.bytes (q : Question) : List UInt8 := q.name ++ word16 q.type ++ word16 q.cls

/-- An answer. Its time to live is given as two numbers. -/
structure Record where
  name : List UInt8
  cls : UInt16
  ttl : UInt16 × UInt16
  data : Data
  named : name ≠ []
  short : data.bytes.length < 65536

def Record.bytes (r : Record) : List UInt8 :=
  r.name ++ word16 r.data.type ++ word16 r.cls ++ word16 r.ttl.1 ++ word16 r.ttl.2 ++
    word16 (UInt16.ofNat r.data.bytes.length) ++ r.data.bytes

/-- A reply: the header, the questions, the answers, and the bytes of the other sections. -/
structure Packet where
  id : UInt16
  flags : UInt16
  questions : List Question
  answers : List Record
  authority : UInt16
  additional : UInt16
  rest : List UInt8
  answered : answers ≠ []

def Packet.header (msg : Packet) : List UInt8 :=
  word16 msg.id ++ word16 msg.flags ++ word16 (UInt16.ofNat msg.questions.length) ++
    word16 (UInt16.ofNat msg.answers.length) ++ word16 msg.authority ++ word16 msg.additional

def Packet.bytes (msg : Packet) : List UInt8 :=
  msg.header ++ msg.questions.flatMap Question.bytes ++ msg.answers.flatMap Record.bytes ++ msg.rest

end Dns

namespace Reply
variable (m : Reply)

def Carries (o : Nat) (bs : List UInt8) : Prop := ∀ i, ∀ h : i < bs.length, m.byte (o + i) = bs[i]

/-- `dn_expand` returns the length of the names of the questions. -/
def Asks : Nat → List Dns.Question → Prop
  | _, [] => True
  | o, q :: qs => (∃ name, m.expand o = some (q.name.length, name)) ∧ Asks (o + q.bytes.length) qs

/-- `dn_expand` returns the length of a name, and the host for a target. -/
def Names (o : Nat) (r : Dns.Record) : Prop :=
  (∃ name, m.expand o = some (r.name.length, name)) ∧
    match r.data with
    | .srv _ _ _ target host => m.expand (o + r.name.length + 16) = some (target.length, host)
    | .other _ _ => True

def AllNames : Nat → List Dns.Record → Prop
  | _, [] => True
  | o, r :: rs => m.Names o r ∧ AllNames (o + r.bytes.length) rs

/-- The reply is a message. -/
structure Encodes (msg : Dns.Packet) : Prop where
  result : m.result = msg.bytes.length
  bytes : m.Carries 0 msg.bytes
  fits : msg.bytes.length ≤ replySize
  asks : m.Asks headerSize msg.questions
  names : m.AllNames (headerSize + (msg.questions.flatMap Dns.Question.bytes).length) msg.answers

variable {m}

theorem carries_append {o : Nat} {a b : List UInt8} :
    m.Carries o (a ++ b) ↔ m.Carries o a ∧ m.Carries (o + a.length) b := by
  constructor
  · intro h
    refine ⟨fun i hi => ?_, fun i hi => ?_⟩
    · have here := h i (by simp; omega)
      rwa [List.getElem_append_left hi] at here
    · have here := h (a.length + i) (by simp; omega)
      simpa only [List.getElem_append_right (Nat.le_add_right _ _), Nat.add_sub_cancel_left,
        ← Nat.add_assoc] using here
  · rintro ⟨first, last⟩ i hi
    by_cases low : i < a.length
    · rw [List.getElem_append_left low]
      exact first i low
    · have place := last (i - a.length) (by simp at hi; omega)
      rw [List.getElem_append_right (Nat.not_lt.mp low), ← place]
      congr 1
      omega

theorem word_carries {o : Nat} {x : UInt16} (h : m.Carries o (word16 x)) : m.word o = x := by
  have high := h 0 (by simp [word16])
  have low := h 1 (by simp [word16])
  have small := x.toNat_lt
  simp only [word16, Nat.add_zero, List.getElem_cons_zero, List.getElem_cons_succ] at high low
  rw [word, high, low]
  refine UInt16.toNat_inj.mp ?_
  rw [UInt16.toNat_ofNat', UInt8.toNat_ofNat', UInt8.toNat_ofNat']
  omega

theorem number_carries {o n : Nat} (h : m.Carries o (word16 (UInt16.ofNat n)))
    (small : n < 65536) : (m.word o).toNat = n := by
  rw [word_carries h, UInt16.toNat_ofNat']
  exact Nat.mod_eq_of_lt small

end Reply

@[simp] theorem word16_length (x : UInt16) : (word16 x).length = 2 := rfl

theorem question_length (q : Dns.Question) : q.bytes.length = q.name.length + fixedSize := by
  simp [Dns.Question.bytes, fixedSize]

theorem record_length (r : Dns.Record) :
    r.bytes.length = r.name.length + 10 + r.data.bytes.length := by
  simp only [Dns.Record.bytes, List.length_append, word16_length]

variable {α : Type} {net : Net α} {m : Reply} {w : Walk α} {L : List (Address α)}

theorem record_fields {cp : Nat} {r : Dns.Record} (h : m.Carries cp r.bytes) :
    m.word (cp + r.name.length) = r.data.type ∧
      (m.word (cp + r.name.length + 8)).toNat = r.data.bytes.length ∧
      m.Carries (cp + r.name.length + 10) r.data.bytes := by
  simp only [Dns.Record.bytes, Reply.carries_append, List.length_append, word16_length] at h
  obtain ⟨⟨⟨⟨⟨⟨-, type⟩, -⟩, -⟩, -⟩, length⟩, data⟩ := h
  exact ⟨Reply.word_carries type, Reply.number_carries length r.short, data⟩

theorem srv_fields {cp : Nat} {priority weight port : UInt16} {target : List UInt8}
    {host : List Char}
    (h : m.Carries cp (Dns.Data.srv priority weight port target host).bytes) :
    m.word cp = priority ∧ m.word (cp + 2) = weight ∧ m.word (cp + 4) = port := by
  simp only [Dns.Data.bytes, Reply.carries_append, List.length_append, word16_length] at h
  obtain ⟨⟨⟨first, second⟩, third⟩, -⟩ := h
  exact ⟨Reply.word_carries first, Reply.word_carries second, Reply.word_carries third⟩

theorem questions_walk (qs : List Dns.Question) (cp : Nat) (asks : m.Asks cp qs)
    (inside : cp + (qs.flatMap Dns.Question.bytes).length < m.ep) :
    questions m qs.length cp = some (cp + (qs.flatMap Dns.Question.bytes).length) := by
  induction qs generalizing cp with
  | nil => rfl
  | cons q qs ih =>
    obtain ⟨⟨name, found⟩, asks⟩ := asks
    have size := question_length q
    rw [List.flatMap_cons, List.length_append, ← Nat.add_assoc] at inside ⊢
    have before : cp < m.ep := by omega
    rw [List.length_cons, questions, if_pos before, found]
    simp only
    rw [Nat.add_assoc, ← size]
    exact ih _ asks inside

/-- What a record adds to the array: the address of its target, and its priority. -/
def Dns.Record.offered (net : Net α) (r : Dns.Record) : Option (α × UInt16) :=
  match r.data with
  | .srv priority _ port _ host => (net.resolve host port).map fun sp => (sp, priority)
  | .other _ _ => none

theorem filled_take (filled : w.object.Filled L) (host : List Char)
    (priority weight port : UInt16) :
    ∃ L', (w.take net host priority weight port).object.Filled (L ++ L') ∧
      L'.map (fun a => (a.addr, a.priority)) =
        ((net.resolve host port).map fun sp => (sp, priority)).toList := by
  cases found : net.resolve host port with
  | none =>
    simp only [Walk.take, found]
    exact ⟨[], by rwa [List.append_nil], rfl⟩
  | some sp =>
    simp only [Walk.take, found]
    exact ⟨_, filled_store filled sp _ priority, rfl⟩

/-- The second loop stores the answers that offer an address, in their order. -/
theorem answers_walk (rs : List Dns.Record) (cp : Nat) (w : Walk α) (L : List (Address α))
    (filled : w.object.Filled L) (carries : m.Carries cp (rs.flatMap Dns.Record.bytes))
    (names : m.AllNames cp rs) (inside : cp + (rs.flatMap Dns.Record.bytes).length ≤ m.ep) :
    (answers net m rs.length cp w).1 = false ∧
      ∃ L', (answers net m rs.length cp w).2.object.Filled (L ++ L') ∧
        L'.map (fun a => (a.addr, a.priority)) = rs.filterMap (Dns.Record.offered net) := by
  induction rs generalizing cp w L with
  | nil => exact ⟨rfl, [], by rwa [List.append_nil], rfl⟩
  | cons r rs ih =>
    rw [List.flatMap_cons] at carries inside
    rw [List.length_append, ← Nat.add_assoc] at inside
    obtain ⟨first, others⟩ := Reply.carries_append.mp carries
    obtain ⟨⟨⟨name, found⟩, target⟩, names⟩ := names
    obtain ⟨type, length, data⟩ := record_fields first
    have size := record_length r
    have named := List.length_pos_iff.mpr r.named
    have before : cp < m.ep := by omega
    cases shape : r.data with
    | other t bytes =>
      rw [shape] at type
      have skip : m.word (cp + r.name.length) ≠ srvType := type ▸ t.2
      have next : cp + r.name.length + 10 + (m.word (cp + r.name.length + 8)).toNat =
          cp + r.bytes.length := by
        omega
      have nothing : Dns.Record.offered net r = none := by rw [Dns.Record.offered, shape]
      rw [List.length_cons, answers_other before found skip, next, List.filterMap_cons, nothing]
      exact ih _ _ L filled others names inside
    | srv priority weight port bytes host =>
      rw [shape] at type target data size
      obtain ⟨first, second, third⟩ := srv_fields data
      have next : cp + r.name.length + 16 + bytes.length = cp + r.bytes.length := by
        rw [size]
        simp [Dns.Data.bytes]
        omega
      rw [List.length_cons, answers_srv before found type target, next]
      obtain ⟨stored, filled, added⟩ := @filled_take α net
        ((w.read [cp + r.name.length, cp + r.name.length + 8]).read
          [cp + r.name.length + 10, cp + r.name.length + 12, cp + r.name.length + 14])
        L filled host priority weight port
      rw [Walk.record, first, second, third]
      obtain ⟨ended, L', filled', more⟩ := ih _ _ (L ++ stored) filled others names inside
      refine ⟨ended, stored ++ L', by rwa [← List.append_assoc], ?_⟩
      have offer : Dns.Record.offered net r = (net.resolve host port).map fun sp => (sp, priority) := by
        rw [Dns.Record.offered, shape]
      rw [List.map_append, added, more, List.filterMap_cons, offer]
      cases net.resolve host port <;> rfl

theorem length_le_flatMap {β : Type} {f : β → List UInt8} (full : ∀ b, f b ≠ []) (l : List β) :
    l.length ≤ (l.flatMap f).length := by
  induction l with
  | nil => exact Nat.le_refl _
  | cons b l ih =>
    have some := List.length_pos_iff.mpr (full b)
    rw [List.flatMap_cons, List.length_append, List.length_cons]
    omega

theorem bytes_length (msg : Dns.Packet) : msg.bytes.length = headerSize +
    (msg.questions.flatMap Dns.Question.bytes).length +
    (msg.answers.flatMap Dns.Record.bytes).length + msg.rest.length := by
  simp only [Dns.Packet.bytes, Dns.Packet.header, List.length_append, word16_length, headerSize]

theorem counts_le (msg : Dns.Packet) :
    msg.questions.length ≤ (msg.questions.flatMap Dns.Question.bytes).length ∧
      msg.answers.length ≤ (msg.answers.flatMap Dns.Record.bytes).length :=
  ⟨length_le_flatMap (fun q => by simp [Dns.Question.bytes, q.named]) msg.questions,
    length_le_flatMap (fun r => by simp [Dns.Record.bytes, r.named]) msg.answers⟩

theorem small_counts {msg : Dns.Packet} (fits : msg.bytes.length ≤ replySize) :
    msg.questions.length < 65536 ∧ msg.answers.length < 65536 := by
  have counts := counts_le msg
  rw [bytes_length, replySize] at fits
  omega

theorem packet_fields {msg : Dns.Packet} (h : m.Encodes msg) :
    m.qcount = msg.questions.length ∧ m.acount = msg.answers.length ∧
      m.Carries (headerSize + (msg.questions.flatMap Dns.Question.bytes).length)
        (msg.answers.flatMap Dns.Record.bytes) := by
  obtain ⟨questions, answers⟩ := small_counts h.fits
  have bytes := h.bytes
  simp only [Dns.Packet.bytes, Dns.Packet.header, Reply.carries_append, List.length_append,
    word16_length, Nat.zero_add] at bytes
  obtain ⟨⟨⟨⟨⟨⟨⟨⟨-, -⟩, qd⟩, an⟩, -⟩, -⟩, -⟩, carried⟩, -⟩ := bytes
  exact ⟨Reply.number_carries qd questions, Reply.number_carries an answers, carried⟩

/-- For a well-formed reply `set` fills the array with an entry for every SRV answer whose
target resolves, in the order of the answers, and with nothing else. -/
theorem set_stored (net : Net α) (uri : List Char) (family protocol : Nat) (o : Object α)
    (walked : asked net uri protocol = some m) (msg : Dns.Packet) (encodes : m.Encodes msg) :
    ∃ L, (set net uri family protocol o).object.Holds L ∧
      L.map (fun a => (a.addr, a.priority)) =
        msg.answers.filterMap (Dns.Record.offered net) := by
  obtain ⟨qcount, acount, carried⟩ := packet_fields encodes
  have size := bytes_length msg
  have ep : m.ep = msg.bytes.length := by
    rw [Reply.ep, encodes.result]
    rfl
  have long : ¬ m.result < headerSize := by
    rw [encodes.result]
    omega
  have some : m.acount ≠ 0 := by
    rw [acount]
    exact fun none => msg.answered (List.length_eq_zero_iff.mp none)
  have full := counts_le msg
  have start := questions_walk msg.questions headerSize encodes.asks (by omega)
  rw [← qcount] at start
  have walk := @answers_walk α net m msg.answers _
    (((⟨o.clear, [], []⟩ : Walk α).read [6, 4]).lift (·.allocate m.acount)) []
    (filled_allocate m.acount rfl rfl) carried encodes.names (by omega)
  obtain ⟨ended, L, filled, stored⟩ := walk
  rw [← acount] at ended filled
  have searched : search net m ⟨o.clear, [], []⟩ = answers net m m.acount
      (headerSize + (msg.questions.flatMap Dns.Question.bytes).length)
      (((⟨o.clear, [], []⟩ : Walk α).read [6, 4]).lift (·.allocate m.acount)) := by
    rw [search, if_neg long]
    simp only [some, if_false, start]
  refine ⟨L, ?_, stored⟩
  rw [set, walked]
  simp only [searched, ended, Bool.false_eq_true, if_false]
  exact filled.holds

def Dns.Packet.reply (msg : Dns.Packet) (expand : Nat → Option (Nat × List Char)) : Reply where
  result := msg.bytes.length
  byte := fun o => msg.bytes.getD o 0
  expand := expand

theorem carries_reply (msg : Dns.Packet) (expand : Nat → Option (Nat × List Char)) :
    (msg.reply expand).Carries 0 msg.bytes := by
  intro i hi
  simp [Dns.Packet.reply, hi]

def packet : Dns.Packet where
  id := 1
  flags := 0x8180
  questions := [⟨[0], srvType, 1, by simp⟩]
  answers := [⟨[0], 1, (0, 60), .other ⟨1, by decide⟩ [10, 0, 0, 1], by simp, by decide⟩,
    ⟨[0], 1, (0, 60), .srv 10 20 5060 [0] ['h'], by simp, by decide⟩]
  authority := 0
  additional := 0
  rest := []
  answered := by simp

def packetNames (o : Nat) : Option (Nat × List Char) :=
  if o = 12 ∨ o = 17 ∨ o = 32 then some (1, []) else if o = 49 then some (1, ['h']) else none

theorem set_stored_packet : ∃ L, (set (netOf (packet.reply packetNames)) "sip:example.com".toList
    2 udp empty).object.Holds L ∧ L.map (fun a => (a.addr, a.priority)) = [(5060, 10)] := by
  refine set_stored (netOf (packet.reply packetNames)) "sip:example.com".toList 2 udp empty rfl
    packet ⟨rfl, carries_reply packet packetNames, by decide, ?_, ?_⟩
  · exact ⟨⟨[], rfl⟩, trivial⟩
  · exact ⟨⟨⟨[], rfl⟩, trivial⟩, ⟨⟨[], rfl⟩, rfl⟩, trivial⟩

end Uri
end Bayonne
