import Bayonne.Base.Run
import Bayonne.Uri.Failover
import Bayonne.Uri.Records

/-! Whether `entry` points anywhere, and what `next` reads, over any calls of one object. -/
namespace Bayonne
namespace Uri

variable {α : Type} {net : Net α} {m : Reply} {w : Walk α} {o : Object α} {L : List (Address α)}

namespace Reply
variable (m : Reply)

def Breaks : Prop := ∃ a, m.Answer a ∧ m.expand a = none

/-- The record at an offset is an SRV record whose target resolves. -/
def Resolves (net : Net α) (a : Nat) : Prop :=
  ∃ n name k host, m.expand a = some (n, name) ∧ m.word (a + n) = srvType ∧
    m.expand (a + n + 16) = some (k, host) ∧ (net.resolve host (m.word (a + n + 14))).isSome

def Offers (net : Net α) : Prop := ∃ a, m.Answer a ∧ m.Resolves net a

end Reply

theorem answers_breaks (count cp : Nat) (w : Walk α) :
    (answers net m count cp w).1 = true ↔
      ∃ k < count, ∃ a, m.nth k cp = some a ∧ a < m.ep ∧ m.expand a = none := by
  induction count generalizing cp w with
  | zero => simp [answers]
  | succ count ih =>
    rw [Nat.exists_lt_succ_left]
    have here : m.nth 0 cp = some cp := rfl
    cases m.turn cp with
    | past h => simp [answers_past h, nth_past h, here, h]
    | broken inside h => simp [answers_broken inside h, here, inside, h]
    | other n name inside h type =>
      simp [answers_other inside h type, nth_other inside h type, here, h, ih]
    | untargeted n name inside h type target =>
      simp [answers_untargeted inside h type target, nth_untargeted h type target, here, h]
    | srv n name k target inside h type found =>
      simp [answers_srv inside h type found, nth_srv inside h type found, here, h, ih]

theorem filled_record {cp : Nat} {target : List Char} (filled : w.object.Filled L) :
    ∃ L', (w.record net m cp target).object.Filled (L ++ L') ∧
      (L' ≠ [] ↔ (net.resolve target (m.word (cp + 14))).isSome) := by
  unfold Walk.record Walk.take
  cases net.resolve target (m.word (cp + 14)) with
  | none => exact ⟨[], by rwa [List.append_nil], by simp⟩
  | some sp => exact ⟨_, filled_store filled sp _ _, by simp⟩

theorem answers_filled (count cp : Nat) (w : Walk α) (L : List (Address α))
    (filled : w.object.Filled L) :
    ∃ L', (answers net m count cp w).2.object.Filled (L ++ L') ∧
      (L' ≠ [] ↔ ∃ k < count, ∃ a, m.nth k cp = some a ∧ a < m.ep ∧ m.Resolves net a) := by
  induction count generalizing cp w L with
  | zero => exact ⟨[], by rwa [List.append_nil], by simp⟩
  | succ count ih =>
    rw [Nat.exists_lt_succ_left]
    have here : m.nth 0 cp = some cp := rfl
    cases m.turn cp with
    | past h =>
      refine ⟨[], ?_, by simp [nth_past h, here, h]⟩
      rwa [List.append_nil, answers_past h]
    | broken inside h =>
      refine ⟨[], ?_, by simp [nth_broken h, here, h, Reply.Resolves]⟩
      rwa [List.append_nil, answers_broken inside h]
    | other n name inside h type =>
      obtain ⟨L', filled', some'⟩ := ih (cp + n + 10 + (m.word (cp + n + 8)).toNat)
        (w.read [cp + n, cp + n + 8]) L filled
      rw [answers_other inside h type]
      exact ⟨L', filled', by simp [some', nth_other inside h type, here, h, type, Reply.Resolves]⟩
    | untargeted n name inside h type target =>
      refine ⟨[], ?_, by simp [nth_untargeted h type target, here, h, target, Reply.Resolves]⟩
      rwa [List.append_nil, answers_untargeted inside h type target]
    | srv n name k target inside h type found =>
      obtain ⟨first, filled', one⟩ := @filled_record α net m w L (cp + n) target filled
      obtain ⟨L', filled', some'⟩ := ih (cp + n + 16 + k) (w.record net m (cp + n) target)
        (L ++ first) filled'
      rw [answers_srv inside h type found]
      refine ⟨first ++ L', by rwa [← List.append_assoc], ?_⟩
      have resolves : m.Resolves net cp ↔ first ≠ [] := by
        simp [Reply.Resolves, h, type, found, one]
      have later : (∃ k' < count, ∃ a, m.nth (k' + 1) cp = some a ∧ a < m.ep ∧
          m.Resolves net a) ↔ L' ≠ [] := by
        simp only [nth_srv inside h type found]
        exact some'.symm
      rw [later, Ne, List.append_eq_nil_iff, not_and_or]
      simp [here, inside, resolves]

/-- How the search ends: what has been stored, and that it goes on to `nosrv` after storing
something just for a reply with a broken name and an SRV record that resolves. -/
theorem search_spec (o : Object α) (fresh : o.entry = none) (zero : o.count = 0) :
    ∃ L, ((search net m ⟨o, [], []⟩).1 = false → (search net m ⟨o, [], []⟩).2.object.Filled L) ∧
      (L = [] → (search net m ⟨o, [], []⟩).2.object.entry = none) ∧
      (L ≠ [] → (search net m ⟨o, [], []⟩).2.object.entry ≠ none) ∧
      ((search net m ⟨o, [], []⟩).1 = true ∧ L ≠ [] ↔ m.Breaks ∧ m.Offers net) := by
  rcases search_cases net m o with ⟨ended, entry, -, nothing⟩ | ⟨cp, begun, -, answer⟩
  · refine ⟨[], fun found => ?_, fun _ => entry.trans fresh, fun h => absurd rfl h,
      fun h => absurd rfl h.2, ?_⟩
    · rw [ended] at found
      cases found
    · rintro ⟨⟨a, here, -⟩, -⟩
      exact absurd here (nothing a)
  · rw [begun]
    have breaks := @answers_breaks α net m m.acount cp (m.begun o)
    obtain ⟨L, filled, stored⟩ := @answers_filled α net m m.acount cp (m.begun o) []
      (filled_allocate m.acount fresh zero)
    rw [List.nil_append] at filled
    have some : ∀ P : Nat → Prop, (∃ a, m.Answer a ∧ P a) ↔
        ∃ k < m.acount, ∃ a, m.nth k cp = some a ∧ a < m.ep ∧ P a := by
      intro P
      constructor
      · rintro ⟨a, here, holds⟩
        obtain ⟨k, hk, place, inside⟩ := (answer a).mp here
        exact ⟨k, hk, a, place, inside, holds⟩
      · rintro ⟨k, hk, a, place, inside, holds⟩
        exact ⟨a, (answer a).mpr ⟨k, hk, place, inside⟩, holds⟩
    refine ⟨L, fun _ => filled, fun empty => ?_, fun full => ?_, ?_⟩
    · rw [filled.entry, if_pos empty]
    · obtain ⟨b, found, -⟩ := filled.holds.block
      rw [filled.entry, if_neg full, found]
      simp
    · rw [breaks, stored, Reply.Breaks, Reply.Offers, some, some]

/-- `entry` is null, or points at a stored element of the array that is not freed or at an
address of the list. -/
def Object.Valid (o : Object α) : Prop :=
  match o.entry with
  | none => True
  | some (.element serial index) =>
    ∃ b, o.srvlist = some b ∧ b.serial = serial ∧ (b.cell index).isSome
  | some (.address serial index) => ∃ l, o.list = some (serial, l) ∧ index < l.length

/-- What `set` and `next` leave, as long as nothing goes wrong: the array, if there is one, has
as many elements as `count` says. -/
structure Object.Sound (o : Object α) : Prop where
  valid : o.Valid
  stored : ∀ b, o.srvlist = some b → ∀ i < o.count, (b.cell i).isSome

theorem Object.Filled.sound (h : o.Filled L) : o.Sound := by
  obtain ⟨b, found, cells⟩ := h.holds.block
  have stored : ∀ i < L.length, (b.cell i).isSome := by
    intro i hi
    rw [cells, List.getElem?_eq_getElem hi]
    rfl
  constructor
  · rw [Object.Valid, h.entry]
    by_cases empty : L = []
    · rw [if_pos empty]
      trivial
    · rw [if_neg empty, found]
      have last := List.length_pos_iff.mpr empty
      exact ⟨b, rfl, rfl, stored _ (by omega)⟩
  · intro b' found' i hi
    cases found.symm.trans found'
    exact stored i (h.holds.count ▸ hi)

theorem sound_fallback (o : Object α) (addrs : List α) (kept : addrs = [] → o.entry = none) :
    (o.fallback addrs).Sound := by
  refine ⟨?_, nofun⟩
  rw [Object.Valid, Object.fallback]
  by_cases empty : addrs = []
  · simp [empty, kept]
  · simp [empty, List.length_pos_iff]

/-- A pointer that outlives `nosrv` points at a freed array. -/
theorem not_valid_fallback (o : Object α) (kept : o.entry ≠ none) : ¬ (o.fallback []).Valid := by
  rw [Object.Valid, Object.fallback]
  obtain ⟨entry, found⟩ := Option.ne_none_iff_exists'.mp kept
  simp only [if_true, found]
  cases entry <;> simp

inductive Call (α : Type) where
  | set (net : Net α) (uri : List Char) (family protocol : Nat)
  | clear
  | next

def step (o : Object α) : Call α → Option (Object α)
  | .set net uri family protocol => some (set net uri family protocol o).object
  | .clear => some o.clear
  | .next => o.next

/-- The constructor. It leaves `pri` as it is. -/
def Object.construct (pri : UInt16) : Object α := ⟨none, none, none, pri, 0, 0⟩

/-- A call that does no harm: a `set` that does not lose the array it has stored records in
and then finds no address, a `next` that does not come to a list of addresses. -/
def Harmless (o : Object α) : Call α → Prop
  | .set net uri family protocol => ∀ m, asked net uri protocol = some m → m.Breaks →
      m.Offers net → listed net uri family protocol ≠ []
  | .clear => True
  | .next => o.srvlist = none → o.count = 0

theorem set_sound (net : Net α) (uri : List Char) (family protocol : Nat) (o : Object α) :
    (Harmless o (.set net uri family protocol) →
      (set net uri family protocol o).object.Sound) ∧
    (¬ Harmless o (.set net uri family protocol) →
      ¬ (set net uri family protocol o).object.Valid) := by
  cases walked : asked net uri protocol with
  | none =>
    have found : (set net uri family protocol o).object =
        o.clear.fallback (listed net uri family protocol) := by
      rw [set, walked]
      rfl
    rw [found]
    refine ⟨fun _ => sound_fallback _ _ fun _ => rfl, fun bad => absurd (fun m found => ?_) bad⟩
    cases walked.symm.trans found
  | some m =>
    obtain ⟨L, filled, empty, full, lost⟩ := @search_spec α net m o.clear rfl rfl
    cases ended : (search net m ⟨o.clear, [], []⟩).1 with
    | false =>
      have found : (set net uri family protocol o).object =
          (search net m ⟨o.clear, [], []⟩).2.object := by
        rw [set, walked]
        simp [ended]
      rw [found]
      refine ⟨fun _ => (filled ended).sound, fun bad => absurd (fun m' found breaks offers => ?_) bad⟩
      cases walked.symm.trans found
      rw [(lost.mpr ⟨breaks, offers⟩).1] at ended
      cases ended
    | true =>
      have found : (set net uri family protocol o).object =
          (search net m ⟨o.clear, [], []⟩).2.object.fallback (listed net uri family protocol) := by
        rw [set, walked]
        simp [ended, Walk.lift]
      rw [found]
      constructor
      · intro harmless
        refine sound_fallback _ _ fun nothing => empty ?_
        by_contra stored
        obtain ⟨breaks, offers⟩ := lost.mp ⟨ended, stored⟩
        exact harmless m walked breaks offers nothing
      · intro bad
        simp only [Harmless, not_forall] at bad
        obtain ⟨m', found, breaks, offers, nothing⟩ := bad
        cases walked.symm.trans found
        rw [not_not.mp nothing]
        exact not_valid_fallback _ (full (lost.mpr ⟨breaks, offers⟩).2)

theorem scan_stored (cell : Nat → Option (Address α)) (pri : UInt16) (count index : Nat)
    (node : Option (Address α × Nat)) (stored : ∀ i, index ≤ i → i < index + count →
      (cell i).isSome) (known : ∀ n, node = some n → cell n.2 = some n.1) :
    ∃ found, scan cell pri count index node = some found ∧
      ∀ n, found = some n → cell n.2 = some n.1 := by
  induction count generalizing index node with
  | zero => exact ⟨node, rfl, known⟩
  | succ count ih =>
    obtain ⟨np, here⟩ := Option.isSome_iff_exists.mp (stored index (Nat.le_refl _) (by omega))
    rw [scan, here]
    refine ih (index + 1) _ (fun i low high => stored i (by omega) (by omega)) fun n picked => ?_
    by_cases skip : np.priority < pri
    · rw [if_pos skip] at picked
      exact known n picked
    · rw [if_neg skip] at picked
      obtain ⟨n', picked', old⟩ := @Leader.pick_some _ (fun x y => beats x.1 y.1) node
        (np, index)
      cases picked.symm.trans picked'
      rcases old with rfl | old
      · exact here
      · exact known n old

theorem next_sound (h : o.Sound) (harmless : Harmless o .next) :
    ∃ t, o.next = some t ∧ t.Sound := by
  have stored : ∀ i, 0 ≤ i → i < 0 + o.count → (o.cell i).isSome := by
    intro i _ hi
    rw [Nat.zero_add] at hi
    cases found : o.srvlist with
    | none =>
      rw [harmless found] at hi
      cases hi
    | some b =>
      rw [Object.cell, found]
      exact h.stored b found i hi
  obtain ⟨node, scanned, known⟩ :=
    scan_stored o.cell (o.pri + 1) o.count 0 none stored fun _ none => by cases none
  rw [Object.next, scanned]
  cases node with
  | none => exact ⟨_, rfl, ⟨trivial, h.stored⟩⟩
  | some node =>
    refine ⟨_, rfl, ⟨?_, h.stored⟩⟩
    have here := known node rfl
    cases found : o.srvlist with
    | none =>
      rw [Object.cell, found] at here
      cases here
    | some b =>
      rw [Object.cell, found] at here
      have cell : b.cell node.2 = some node.1 := here
      simp [Object.Valid, cell]

theorem next_refused (bad : ¬ Harmless o .next) : o.next = none := by
  simp only [Harmless, Classical.not_imp] at bad
  obtain ⟨found, some⟩ := bad
  obtain ⟨count, more⟩ := Nat.exists_eq_succ_of_ne_zero some
  rw [Object.next, more, scan, Object.cell, found]
  rfl

/-- Throughout the calls `entry` is valid and `next` reads stored elements, exactly if no `set`
loses the array it has filled without finding an address, and no `next` follows a `set`
that has found addresses. -/
theorem valid_iff (pri : UInt16) (calls : List (Call α)) :
    Run.Safe step Object.Valid (.construct pri) calls ↔
      Run.Along step Harmless (.construct pri) calls := by
  refine Run.safe_iff_along (I := Object.Sound) (fun s h => h.valid) ?_ ?_ ⟨trivial, nofun⟩
  · intro s a h harmless
    cases a with
    | set net uri family protocol =>
      exact ⟨_, rfl, (set_sound net uri family protocol s).1 harmless⟩
    | clear => exact ⟨_, rfl, trivial, nofun⟩
    | next => exact next_sound h harmless
  · intro s a t h bad stepped
    cases a with
    | set net uri family protocol =>
      cases stepped
      exact (set_sound net uri family protocol s).2 bad
    | clear => exact absurd trivial bad
    | next =>
      rw [step, next_refused bad] at stepped
      cases stepped

/-- After a `set` that has taken an address, `next` reads through a null pointer. -/
theorem not_valid : ¬ ∀ (pri : UInt16) (calls : List (Call Nat)),
    Run.Safe step Object.Valid (.construct pri) calls := by
  intro whole
  obtain ⟨-, t, stepped, -, u, again, -⟩ := whole 0
    [.set { netOf single with isNumeric := fun _ => true } "sip:10.0.0.1".toList 2 udp, .next]
  cases stepped
  have refused : step (set { netOf single with isNumeric := fun _ => true }
      "sip:10.0.0.1".toList 2 udp (.construct 0)).object .next = none := rfl
  cases refused.symm.trans again

end Uri
end Bayonne
