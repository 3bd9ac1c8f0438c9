import Bayonne.Uri.Resolver

/-! Where the records of a reply are, and which bytes of it `set` reads. -/
namespace Bayonne
namespace Uri

namespace Reply
variable (m : Reply)

/-- The offset behind the record at an offset: past the data of its length, or for an SRV
record past its target. -/
def after (o : Nat) : Option Nat :=
  if o < m.ep then
    match m.expand o with
    | none => none
    | some (n, _) =>
      if m.word (o + n) ≠ srvType then some (o + n + 10 + (m.word (o + n + 8)).toNat)
      else (m.expand (o + n + 16)).map fun target => o + n + 16 + target.1
  else none

def nth : Nat → Nat → Option Nat
  | 0, o => some o
  | k + 1, o => (m.after o).bind (nth k)

def Answer (o : Nat) : Prop :=
  headerSize ≤ m.result ∧ m.acount ≠ 0 ∧ ∃ start, questions m m.qcount headerSize = some start ∧
    ∃ k < m.acount, m.nth k start = some o ∧ o < m.ep

def limit : Nat := min m.ep replySize

/-- The fixed fields behind the name of the record at an offset end before the reply does:
ten bytes, and six more of an SRV record. -/
def Whole (o : Nat) : Prop :=
  ∀ n name, m.expand o = some (n, name) →
    o + n + 10 ≤ m.limit ∧ (m.word (o + n) = srvType → o + n + 16 ≤ m.limit)

/-- What the second loop can find at its cursor: the end, a broken name, a record of another
type, an SRV record with a broken target, or a whole one. -/
inductive Turn (cp : Nat) : Prop where
  | past (h : ¬ cp < m.ep)
  | broken (inside : cp < m.ep) (h : m.expand cp = none)
  | other (n : Nat) (name : List Char) (inside : cp < m.ep) (h : m.expand cp = some (n, name))
      (type : m.word (cp + n) ≠ srvType)
  | untargeted (n : Nat) (name : List Char) (inside : cp < m.ep)
      (h : m.expand cp = some (n, name)) (type : m.word (cp + n) = srvType)
      (target : m.expand (cp + n + 16) = none)
  | srv (n : Nat) (name : List Char) (k : Nat) (target : List Char) (inside : cp < m.ep)
      (h : m.expand cp = some (n, name)) (type : m.word (cp + n) = srvType)
      (found : m.expand (cp + n + 16) = some (k, target))

theorem turn (cp : Nat) : m.Turn cp := by
  by_cases inside : cp < m.ep
  · cases h : m.expand cp with
    | none => exact .broken inside h
    | some name =>
      by_cases type : m.word (cp + name.1) = srvType
      · cases target : m.expand (cp + name.1 + 16) with
        | none => exact .untargeted name.1 name.2 inside h type target
        | some found => exact .srv name.1 name.2 found.1 found.2 inside h type target
      · exact .other name.1 name.2 inside h type
  · exact .past inside

end Reply

variable {α : Type} {net : Net α} {m : Reply} {w : Walk α}

def Walk.record (w : Walk α) (net : Net α) (m : Reply) (cp : Nat) (target : List Char) : Walk α :=
  ((w.read [cp, cp + 8]).read [cp + 10, cp + 12, cp + 14]).take net target
    (m.word (cp + 10)) (m.word (cp + 12)) (m.word (cp + 14))

section Turn
variable {cp n k count : Nat} {name target : List Char}

theorem answers_past (h : ¬ cp < m.ep) : answers net m count cp w = (false, w) := by
  cases count <;> simp [answers, h]

theorem answers_broken (inside : cp < m.ep) (h : m.expand cp = none) :
    answers net m (count + 1) cp w = (true, w) := by
  simp [answers, inside, h]

theorem answers_other (inside : cp < m.ep) (h : m.expand cp = some (n, name))
    (type : m.word (cp + n) ≠ srvType) : answers net m (count + 1) cp w =
      answers net m count (cp + n + 10 + (m.word (cp + n + 8)).toNat)
        (w.read [cp + n, cp + n + 8]) := by
  simp [answers, inside, h, type]

theorem answers_untargeted (inside : cp < m.ep) (h : m.expand cp = some (n, name))
    (type : m.word (cp + n) = srvType) (target : m.expand (cp + n + 16) = none) :
    answers net m (count + 1) cp w = (false, (w.read [cp + n, cp + n + 8]).read
      [cp + n + 10, cp + n + 12, cp + n + 14]) := by
  simp [answers, inside, h, type, target]

theorem answers_srv (inside : cp < m.ep) (h : m.expand cp = some (n, name))
    (type : m.word (cp + n) = srvType) (found : m.expand (cp + n + 16) = some (k, target)) :
    answers net m (count + 1) cp w =
      answers net m count (cp + n + 16 + k) (w.record net m (cp + n) target) := by
  simp [answers, inside, h, type, found, Walk.record]

theorem nth_past (h : ¬ cp < m.ep) : m.nth (count + 1) cp = none := by
  simp [Reply.nth, Reply.after, h]

theorem nth_broken (h : m.expand cp = none) : m.nth (count + 1) cp = none := by
  simp [Reply.nth, Reply.after, h]

theorem nth_other (inside : cp < m.ep) (h : m.expand cp = some (n, name))
    (type : m.word (cp + n) ≠ srvType) :
    m.nth (count + 1) cp = m.nth count (cp + n + 10 + (m.word (cp + n + 8)).toNat) := by
  simp [Reply.nth, Reply.after, inside, h, type]

theorem nth_untargeted (h : m.expand cp = some (n, name)) (type : m.word (cp + n) = srvType)
    (target : m.expand (cp + n + 16) = none) : m.nth (count + 1) cp = none := by
  simp [Reply.nth, Reply.after, h, type, target]

theorem nth_srv (inside : cp < m.ep) (h : m.expand cp = some (n, name))
    (type : m.word (cp + n) = srvType) (found : m.expand (cp + n + 16) = some (k, target)) :
    m.nth (count + 1) cp = m.nth count (cp + n + 16 + k) := by
  simp [Reply.nth, Reply.after, inside, h, type, found]

theorem whole_other (h : m.expand cp = some (n, name)) (type : m.word (cp + n) ≠ srvType) :
    m.Whole cp ↔ cp + n + 10 ≤ m.limit := by
  simp [Reply.Whole, h, type]

theorem whole_srv (h : m.expand cp = some (n, name)) (type : m.word (cp + n) = srvType) :
    m.Whole cp ↔ cp + n + 16 ≤ m.limit := by
  simp [Reply.Whole, h, type]
  omega

end Turn

theorem mem_read {r : Nat} {cps : List Nat} :
    r ∈ (w.read cps).reads ↔ r ∈ w.reads ∨ ∃ cp ∈ cps, r = cp ∨ r = cp + 1 := by
  simp [Walk.read]

theorem take_reads (target : List Char) (priority weight port : UInt16) :
    (w.take net target priority weight port).reads = w.reads := by
  unfold Walk.take
  split <;> rfl

theorem read_other {cp : Nat} : (∀ r ∈ (w.read [cp, cp + 8]).reads, r < m.limit) ↔
    (∀ r ∈ w.reads, r < m.limit) ∧ cp + 10 ≤ m.limit := by
  simp only [mem_read]
  constructor
  · intro all
    exact ⟨fun r hr => all r (.inl hr), all (cp + 9) (.inr ⟨cp + 8, by simp, .inr rfl⟩)⟩
  · rintro ⟨old, room⟩ r (hr | ⟨x, hx, place⟩)
    · exact old r hr
    · simp only [List.mem_cons, List.not_mem_nil, or_false] at hx
      omega

theorem read_srv {cp : Nat} :
    (∀ r ∈ ((w.read [cp, cp + 8]).read [cp + 10, cp + 12, cp + 14]).reads, r < m.limit) ↔
      (∀ r ∈ w.reads, r < m.limit) ∧ cp + 16 ≤ m.limit := by
  simp only [mem_read]
  constructor
  · intro all
    exact ⟨fun r hr => all r (.inl (.inl hr)), all (cp + 15) (.inr ⟨cp + 14, by simp, .inr rfl⟩)⟩
  · rintro ⟨old, room⟩ r ((hr | ⟨x, hx, place⟩) | ⟨x, hx, place⟩)
    · exact old r hr
    all_goals
      simp only [List.mem_cons, List.not_mem_nil, or_false] at hx
      omega

/-- The second loop reads inside the reply just when the records it comes to are whole. -/
theorem answers_reads (count cp : Nat) (w : Walk α) :
    (∀ r ∈ (answers net m count cp w).2.reads, r < m.limit) ↔
      (∀ r ∈ w.reads, r < m.limit) ∧
        ∀ k < count, ∀ o, m.nth k cp = some o → o < m.ep → m.Whole o := by
  induction count generalizing cp w with
  | zero => simp [answers]
  | succ count ih =>
    rw [Nat.forall_lt_succ_left]
    have here : m.nth 0 cp = some cp := rfl
    cases m.turn cp with
    | past h => simp [answers_past h, nth_past h, here, h]
    | broken inside h =>
      simp [answers_broken inside h, nth_broken h, here, Reply.Whole, h]
    | other n name inside h type =>
      simp [answers_other inside h type, nth_other inside h type, here, inside, ih,
        read_other, whole_other h type, and_assoc]
    | untargeted n name inside h type target =>
      simp [answers_untargeted inside h type target, nth_untargeted h type target, here, inside,
        read_srv, whole_srv h type]
    | srv n name k target inside h type found =>
      simp [answers_srv inside h type found, nth_srv inside h type found, here, inside, ih,
        Walk.record, take_reads, read_srv, whole_srv h type, and_assoc]

theorem take_count (target : List Char) (priority weight port : UInt16) :
    (w.take net target priority weight port).object.count ≤ w.object.count + 1 ∧
      ∀ i ∈ (w.take net target priority weight port).writes,
        i ∈ w.writes ∨ i = w.object.count := by
  unfold Walk.take
  split
  · exact ⟨Nat.le_succ _, fun i hi => .inl hi⟩
  · exact ⟨Nat.le_refl _, by simp⟩

theorem answers_writes {size : Nat} (count cp : Nat) (w : Walk α)
    (room : w.object.count + count ≤ size) (old : ∀ i ∈ w.writes, i < size) :
    ∀ i ∈ (answers net m count cp w).2.writes, i < size := by
  induction count generalizing cp w with
  | zero => exact old
  | succ count ih =>
    cases m.turn cp with
    | past h => rwa [answers_past h]
    | broken inside h => rwa [answers_broken inside h]
    | other n name inside h type =>
      rw [answers_other inside h type]
      exact ih _ _ (by simp only [Walk.read]; omega) old
    | untargeted n name inside h type target =>
      rw [answers_untargeted inside h type target]
      exact old
    | srv n name k target inside h type found =>
      rw [answers_srv inside h type found]
      obtain ⟨more, writes⟩ := @take_count α net
        ((w.read [cp + n, cp + n + 8]).read [cp + n + 10, cp + n + 12, cp + n + 14]) target
        (m.word (cp + n + 10)) (m.word (cp + n + 12)) (m.word (cp + n + 14))
      refine ih _ _ ?_ fun i hi => ?_
      · simp only [Walk.record, Walk.read] at more ⊢
        omega
      · rcases writes i hi with before | rfl
        · exact old i before
        · simp only [Walk.read]
          omega

/-- What `set` reads of the reply is part of it, and what it stores is part of the array. -/
structure Inside (m : Reply) (w : Walk α) : Prop where
  reads : ∀ r ∈ w.reads, r < m.limit
  writes : ∀ i ∈ w.writes, i < m.acount

def Reply.begun (m : Reply) (o : Object α) : Walk α :=
  ((⟨o, [], []⟩ : Walk α).read [6, 4]).lift (·.allocate m.acount)

theorem header_inside (long : headerSize ≤ m.result) (o : Object α) :
    ∀ r ∈ ((⟨o, [], []⟩ : Walk α).read [6, 4]).reads, r < m.limit := by
  simp only [Walk.read, Reply.limit, Reply.ep, headerSize, replySize] at long ⊢
  simp
  omega

/-- The search gives up with nothing stored, and there is no answer, or it comes to the
answers. -/
theorem search_cases (net : Net α) (m : Reply) (o : Object α) :
    ((search net m ⟨o, [], []⟩).1 = true ∧ (search net m ⟨o, [], []⟩).2.object.entry = o.entry ∧
      Inside m (search net m ⟨o, [], []⟩).2 ∧ ∀ a, ¬ m.Answer a) ∨
    ∃ cp, search net m ⟨o, [], []⟩ = answers net m m.acount cp (m.begun o) ∧
      (∀ r ∈ (m.begun o).reads, r < m.limit) ∧
      ∀ a, m.Answer a ↔ ∃ k < m.acount, m.nth k cp = some a ∧ a < m.ep := by
  by_cases short : m.result < headerSize
  · rw [search, if_pos short]
    exact .inl ⟨rfl, rfl, ⟨by simp, by simp⟩, fun a answer => absurd answer.1 (Int.not_le.mpr short)⟩
  have long := Int.not_lt.mp short
  have header := header_inside long o
  rw [search, if_neg short]
  by_cases none : m.acount = 0
  · simp only [none, if_true]
    exact .inl ⟨trivial, rfl, ⟨header, by simp [Walk.read]⟩, fun a answer => absurd none answer.2.1⟩
  simp only [none, if_false]
  cases start : questions m m.qcount headerSize with
  | none =>
    refine .inl ⟨rfl, rfl, ⟨header, by simp [Walk.read, Walk.lift]⟩, ?_⟩
    rintro a ⟨-, -, cp, found, -⟩
    rw [start] at found
    cases found
  | some cp =>
    refine .inr ⟨cp, rfl, header, fun a => ⟨?_, ?_⟩⟩
    · rintro ⟨-, -, cp', found, answer⟩
      cases start.symm.trans found
      exact answer
    · intro answer
      exact ⟨long, none, cp, start, answer⟩

theorem search_inside (o : Object α) (zero : o.count = 0) :
    Inside m (search net m ⟨o, [], []⟩).2 ↔ ∀ a, m.Answer a → m.Whole a := by
  rcases search_cases net m o with ⟨-, -, inside, nothing⟩ | ⟨cp, begun, header, answer⟩
  · exact iff_of_true inside fun a here => absurd here (nothing a)
  · rw [begun]
    have room : (m.begun o).object.count + m.acount ≤ m.acount := by
      simp [Reply.begun, Walk.lift, Walk.read, Object.allocate, zero]
    have writes := @answers_writes α net m m.acount m.acount cp (m.begun o) room nofun
    have reads := @answers_reads α net m m.acount cp (m.begun o)
    constructor
    · intro inside a here
      obtain ⟨k, hk, place, before⟩ := (answer a).mp here
      exact (reads.mp inside.reads).2 k hk a place before
    · intro whole
      refine ⟨reads.mpr ⟨header, fun k hk a place before => whole a ?_⟩, writes⟩
      exact (answer a).mpr ⟨k, hk, place, before⟩

/-- `set` stays inside the reply just when every answer it begins is there with its fixed
fields: it tests its cursor at the start of an answer only. -/
theorem inside_iff (net : Net α) (uri : List Char) (family protocol : Nat) (o : Object α)
    (walked : asked net uri protocol = some m) :
    Inside m (set net uri family protocol o) ↔ ∀ a, m.Answer a → m.Whole a := by
  have logs : (set net uri family protocol o).reads = (search net m ⟨o.clear, [], []⟩).2.reads ∧
      (set net uri family protocol o).writes = (search net m ⟨o.clear, [], []⟩).2.writes := by
    rw [set, walked]
    simp only
    split <;> exact ⟨rfl, rfl⟩
  have searched := @search_inside α net m o.clear rfl
  constructor
  · intro inside
    exact searched.mp ⟨logs.1 ▸ inside.reads, logs.2 ▸ inside.writes⟩
  · intro whole
    have inside := searched.mpr whole
    exact ⟨logs.1 ▸ inside.reads, logs.2 ▸ inside.writes⟩

def netOf (m : Reply) : Net Nat where
  isNumeric := fun _ => false
  query := fun _ => m
  resolve := fun _ port => some port.toNat
  random := fun _ => 0
  getaddrinfo := fun _ _ _ => [0]

def empty : Object Nat := ⟨none, none, none, 0, 0, 0⟩

/-- A reply of one SRV record, of the root and with the target `h`. -/
def single : Reply where
  result := 30
  byte := fun o => if o = 7 then 1 else if o = 14 then 33 else 0
  expand := fun o => if o = 12 then some (1, []) else if o = 29 then some (1, ['h']) else none

theorem inside_iff_single :
    Inside single (set (netOf single) "sip:example.com".toList 2 udp empty) := by
  refine (inside_iff (netOf single) "sip:example.com".toList 2 udp empty rfl).mpr ?_
  rintro a ⟨-, -, start, found, k, hk, place, -⟩
  cases found
  have first : k = 0 := Nat.lt_one_iff.mp hk
  subst first
  cases place
  rintro n name ⟨⟩
  decide

def truncated : Reply where
  result := 13
  byte := fun o => if o = 7 then 1 else 0
  expand := fun o => if o = 12 then some (1, []) else none

/-- The type of that record is read past the end of the reply. -/
theorem not_inside : ¬ ∀ (net : Net Nat) (uri : List Char) (family protocol : Nat)
    (o : Object Nat) (m : Reply), asked net uri protocol = some m →
    (∀ cp n name, m.expand cp = some (n, name) → 0 < n ∧ cp + n ≤ m.ep) →
    Inside m (set net uri family protocol o) := by
  intro whole
  have names : ∀ cp n name, truncated.expand cp = some (n, name) → 0 < n ∧ cp + n ≤ truncated.ep := by
    intro cp n name found
    simp only [truncated] at found
    split at found
    · rename_i here
      cases found
      subst here
      decide
    · cases found
  have inside := whole (netOf truncated) "sip:example.com".toList 2 udp empty truncated rfl names
  exact absurd (inside.reads 13 (by decide)) (by decide)

end Uri
end Bayonne
