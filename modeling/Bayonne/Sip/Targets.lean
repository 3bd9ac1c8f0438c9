import Bayonne.Base.Words
import Bayonne.Sip

/-! The lists of names of a registration, which `incoming` searches with `strstr`. -/
namespace Bayonne
namespace Sip
open Words

def separator (c : Char) : Bool := isspace c || c ∈ [',', ';', ':']

def elements (names : String) : List (List Char) := words separator names.toList

/-- A name that could be an element: it is not empty and has no separator. -/
def Proper (name : String) : Prop := name ≠ "" ∧ ∀ c ∈ name.toList, separator c = false

section Strstr
variable {name w s r : List Char} {x : Char}

theorem strstr_split (found : strstr name s = some r) :
    ∃ pre t, r = name ++ t ∧ s = pre ++ r := by
  induction s with
  | nil =>
    rw [strstr] at found
    split at found
    · rename_i none
      cases found
      exact ⟨[], [], by rw [none]; rfl, rfl⟩
    · cases found
  | cons c s ih =>
    rw [strstr] at found
    split at found
    · rename_i starts
      cases found
      obtain ⟨t, split⟩ := List.isPrefixOf_iff_prefix.mp starts
      exact ⟨[], t, split.symm, rfl⟩
    · obtain ⟨pre, t, shape, rfl⟩ := ih found
      exact ⟨c :: pre, t, shape, rfl⟩

theorem strstr_self (full : name ≠ []) : strstr name name = some name := by
  cases name with
  | nil => exact absurd rfl full
  | cons c s => rw [strstr, if_pos (List.isPrefixOf_iff_prefix.mpr List.prefix_rfl)]

theorem strstr_append (full : name ≠ []) (other : x ∉ name) : strstr name (w ++ x :: s) =
    match strstr name w with
    | some r => some (r ++ x :: s)
    | none => strstr name s := by
  have same : ∀ w, name.isPrefixOf (w ++ x :: s) = name.isPrefixOf w := by
    intro w
    rw [Bool.eq_iff_iff, List.isPrefixOf_iff_prefix, List.isPrefixOf_iff_prefix,
      prefix_append other]
  induction w with
  | nil =>
    have miss : name.isPrefixOf (x :: s) = false := by
      have nothing := same []
      rw [List.nil_append] at nothing
      rw [nothing, Bool.eq_false_iff]
      intro starts
      exact full (List.prefix_nil.mp (List.isPrefixOf_iff_prefix.mp starts))
    have first : strstr name (x :: s) = strstr name s := by
      rw [strstr, miss]
      rfl
    have last : strstr name [] = none := by rw [strstr, if_neg full]
    rw [List.nil_append, first, last]
  | cons c w ih =>
    have here := same (c :: w)
    rw [List.cons_append] at here
    rw [List.cons_append, strstr, here, strstr]
    by_cases starts : name.isPrefixOf (c :: w) = true
    · rw [if_pos starts, if_pos starts]
      rfl
    · rw [if_neg starts, if_neg starts]
      exact ih

end Strstr

/-- The first element that has the name somewhere in it. -/
def container (names name : String) : Option (List Char) :=
  (elements names).find? fun e => (strstr name.toList e).isSome

def ends : List Char → Bool
  | [] => true
  | c :: _ => separator c

theorem listed_iff {names name : String} (full : name ≠ "") : listed names name = true ↔
    ∃ r, strstr name.toList names.toList = some r ∧ ends (r.drop name.length) = true := by
  rw [listed]
  cases strstr name.toList names.toList with
  | none => simp
  | some r => cases h : r.drop name.length <;> simp [full, ends, separator, h]

theorem ends_iff {name : List Char} (full : name ≠ [])
    (clean : ∀ c ∈ name, separator c = false) (s : List Char) :
    (∃ r, strstr name s = some r ∧ ends (r.drop name.length) = true) ↔
      ∃ e, (words separator s).find? (fun e => (strstr name e).isSome) = some e ∧
        strstr name e = some name := by
  induction s using @words_induction Char separator with
  | one s word =>
    rw [words_clean word, List.find?_singleton]
    cases found : strstr name s with
    | none => simp
    | some r =>
      obtain ⟨pre, t, rfl, rfl⟩ := strstr_split found
      cases t with
      | nil =>
        rw [List.append_nil] at found
        simp [found, ends]
      | cons c t =>
        have inner : separator c = false := word c (by simp)
        simp [found, ends, inner]
  | more w x s word last ih =>
    have other : x ∉ name := by
      intro mem
      rw [clean x mem] at last
      cases last
    rw [words_append word last, strstr_append full other, List.find?_cons]
    cases found : strstr name w with
    | none => simpa using ih
    | some r =>
      obtain ⟨pre, t, rfl, rfl⟩ := strstr_split found
      cases t with
      | nil =>
        rw [List.append_nil] at found
        simp [found, ends, last]
      | cons c t =>
        have inner : separator c = false := word c (by simp)
        simp [found, ends, inner]

theorem listed_container {names name : String} (proper : Proper name) :
    listed names name = true ↔ ∃ e, container names name = some e ∧
      strstr name.toList e = some name.toList := by
  rw [listed_iff proper.1, ← String.length_toList]
  exact ends_iff (fun none => proper.1 (String.toList_eq_nil_iff.mp none)) proper.2 _

/-- The first element that has the name in it ends where the name first does just when the
name is an element. -/
def Clear (names name : String) : Prop := ∀ e, container names name = some e →
  (strstr name.toList e = some name.toList ↔ name.toList ∈ elements names)

theorem listed_iff_mem {names name : String} (proper : Proper name) :
    (listed names name = true ↔ name.toList ∈ elements names) ↔ Clear names name := by
  rw [listed_container proper]
  cases found : container names name with
  | none =>
    have absent : name.toList ∉ elements names := by
      intro mem
      have self := strstr_self fun none => proper.1 (String.toList_eq_nil_iff.mp none)
      have none := List.find?_eq_none.mp found _ mem
      rw [self] at none
      exact none rfl
    simp [Clear, found, absent]
  | some e => simp [Clear, found]

/-- A list in which the name stands nowhere but as an element. -/
theorem clear_of_alone {names name : String} (proper : Proper name)
    (alone : ∀ e ∈ elements names, (strstr name.toList e).isSome → e = name.toList) :
    Clear names name := by
  intro e found
  rw [container] at found
  have mem := List.mem_of_find?_eq_some found
  have occurs := List.find?_some found
  have here := alone e mem occurs
  subst here
  have self := strstr_self fun none => proper.1 (String.toList_eq_nil_iff.mp none)
  exact ⟨fun _ => mem, fun _ => self⟩

/-- An INVITE with a To user and a From host that could be elements, for a registration with
both lists. -/
structure Addressed (reg : SipRegistration) (m : Message) (targets localnames user host : String) :
    Prop where
  targets : reg.targets = some targets
  localnames : reg.localnames = some localnames
  dialed : ∃ to', m.dialed = some to' ∧ to'.username = some user
  caller : ∃ f, m.caller = some f ∧ f.host = some host
  user : Proper user
  host : Proper host

/-- The call jumps to the script of its To user just when that is a target, and if it would
be remote, it is local just when its From host is a local name. -/
structure Elementwise (reg : SipRegistration) (m : Message)
    (targets localnames user host : String) : Prop where
  chosen : (∃ entry, reg.route m (m.remote reg.localnames) = .ok ⟨user, entry, false⟩) ↔
    user.toList ∈ elements targets
  near : m.remote none = true →
    (m.remote reg.localnames = false ↔ host.toList ∈ elements localnames)

theorem chosen_iff {reg : SipRegistration} {m : Message} {targets user : String}
    (offered : reg.targets = some targets)
    (dialed : ∃ t, m.dialed = some t ∧ t.username = some user) (remote : Bool) :
    (∃ entry, reg.route m remote = .ok ⟨user, entry, false⟩) ↔ listed targets user = true := by
  obtain ⟨t, called, named⟩ := dialed
  simp only [SipRegistration.route, called, offered, named, Option.getD_some]
  cases listed targets user with
  | true => simp
  | false => cases remote <;> simp <;> grind

theorem near_iff {m : Message} {localnames host : String}
    (caller : ∃ f, m.caller = some f ∧ f.host = some host) (remote : m.remote none = true) :
    m.remote (some localnames) = false ↔ listed localnames host = true := by
  obtain ⟨f, calling, named⟩ := caller
  simp only [Message.remote, calling, named, Bool.not_false, Bool.and_true] at remote ⊢
  rw [remote]
  simp

/-- Both tests are right exactly for lists that are clear for the names they are searched for. -/
theorem elementwise_iff {reg : SipRegistration} {m : Message}
    {targets localnames user host : String}
    (addressed : Addressed reg m targets localnames user host) :
    Elementwise reg m targets localnames user host ↔
      Clear targets user ∧ (m.remote none = true → Clear localnames host) := by
  have chosen := chosen_iff addressed.targets addressed.dialed (m.remote reg.localnames)
  have near := @near_iff m localnames host addressed.caller
  rw [← addressed.localnames] at near
  constructor
  · intro whole
    refine ⟨(listed_iff_mem addressed.user).mp (chosen.symm.trans whole.chosen), fun remote => ?_⟩
    exact (listed_iff_mem addressed.host).mp ((near remote).symm.trans (whole.near remote))
  · rintro ⟨user, host⟩
    refine ⟨chosen.trans ((listed_iff_mem addressed.user).mpr user), fun remote => ?_⟩
    exact (near remote).trans ((listed_iff_mem addressed.host).mpr (host remote))

def callSales : Message where
  toHeader := some (some ⟨some "sip", some "sales", some "pbx.example.com", none⟩)
  fromHeader := some (some ⟨some "sip", some "bob", some "example.com", none⟩)
  reqUri := none
  vias := []
  authorization := none

def offering (targets localnames : String) : SipRegistration :=
  ⟨0, "", none, some targets, some localnames⟩

theorem addressed_sales (targets localnames : String) :
    Addressed (offering targets localnames) callSales targets localnames "sales" "example.com" where
  targets := rfl
  localnames := rfl
  dialed := ⟨_, rfl, rfl⟩
  caller := ⟨_, rfl, rfl⟩
  user := ⟨by decide, by simp [separator, isspace]⟩
  host := ⟨by decide, by simp [separator, isspace]⟩

theorem elementwise_iff_sales : Elementwise (offering "support, sales" "localhost") callSales
    "support, sales" "localhost" "sales" "example.com" := by
  refine (elementwise_iff (addressed_sales _ _)).mpr ⟨?_, fun _ => ?_⟩
  · rintro e ⟨⟩
    decide
  · rintro e ⟨⟩

/-- With the targets `presales` a call to `sales` gets a script of that name. -/
theorem not_elementwise : ¬ ∀ (reg : SipRegistration) (m : Message)
    (targets localnames user host : String), Addressed reg m targets localnames user host →
    Elementwise reg m targets localnames user host := by
  intro whole
  have elementwise := whole _ _ _ _ _ _ (addressed_sales "presales" "localhost")
  exact absurd (elementwise.chosen.mp ⟨_, rfl⟩) (by decide)

end Sip
end Bayonne
