import Bayonne.Base.Linked
import Bayonne.Base.Run
import Bayonne.Timeslot

/-! The call detail queue: any number of threads fill and post records, one thread takes
the run list and works through it. Every section under a lock is a step, and so is every
statement outside one. -/
namespace Bayonne.DbiThread
open Linked

/-- The call log. `fclose` leaves the pointer as it was. -/
inductive File where
  | null | opened | closed
  deriving DecidableEq, Repr

/-- Where `dbithread::run` is: before `running = true`, at the head of the loop, in
`Conditional::wait`, at the test of the inner loop, before `enlist(&freelist)`, or gone. -/
inductive Pc where
  | starting
  | head
  | waiting
  | walk (cp : Option Nat)
  | recycle (cp : Nat) (next : Option Nat)
  | stopped
  deriving DecidableEq

def Pc.rest : Pc → Option Nat
  | .walk cp => cp
  | .recycle _ next => next
  | _ => none

def Pc.hand : Pc → List Nat
  | .recycle cp _ => [cp]
  | _ => []

/-- Records are numbered in the order their memory was got; `made` of them exist.
`holder r` is the thread that has `r` from `get` and has not posted it. `posted` and
`drained` list what was posted and what the thread has visited, `queried` what it handed to
`Driver::query`. -/
structure State where
  next : Nat → Option Nat
  type : Nat → DbiType
  runlist : Option Nat
  runlast : Option Nat
  freelist : Option Nat
  made : Nat
  holder : Nat → Option Nat
  cdr : Bool
  running : Bool
  fp : File
  pc : Pc
  posted : List Nat
  drained : List Nat
  queried : List (Nat × File)

def start : State where
  next := fun _ => none
  type := fun _ => .start
  runlist := none
  runlast := none
  freelist := none
  made := 0
  holder := fun _ => none
  cdr := false
  running := false
  fp := .null
  pc := .starting
  posted := []
  drained := []
  queried := []

def State.get (s : State) (t : Nat) : State :=
  match s.freelist with
  | some r => { s with freelist := s.next r, holder := Function.update s.holder r (some t) }
  | none =>
    { s with made := s.made + 1, holder := Function.update s.holder s.made (some t) }

def State.post (s : State) (r : Nat) (type : DbiType) : State :=
  let s :=
    { s with
      type := Function.update s.type r type
      holder := Function.update s.holder r none
      next := Function.update s.next r none
      posted := s.posted ++ [r] }
  let s :=
    match s.runlast with
    | some l => { s with next := Function.update s.next l (some r) }
    | none => { s with runlist := some r, runlast := some r }
  if type = .stop then { s with cdr := true } else s

/-- The section from the end of the wait to the unlock. -/
def State.drain (s : State) (opens : Bool) : State :=
  { s with
    pc := .walk s.runlist
    fp := if s.runlist ≠ none ∧ s.cdr then if opens then .opened else .null else s.fp
    cdr := false
    runlist := none
    runlast := none }

def State.visit (s : State) (cp : Nat) : State :=
  { s with
    pc := .recycle cp (s.next cp)
    queried := if s.fp = .null then s.queried else s.queried ++ [(cp, s.fp)]
    drained := s.drained ++ [cp] }

def State.recycle (s : State) (cp : Nat) (next : Option Nat) : State :=
  { s with
    pc := .walk next
    next := Function.update s.next cp s.freelist
    freelist := some cp }

inductive Action where
  | get (t : Nat)
  | post (t r : Nat) (type : DbiType)
  | stop
  | next (opens : Bool)

/-- One step of a poster, of `dbi::stop` or of the dbi thread. A wait may end at any time. -/
def step (s : State) : Action → Option State
  | .get t => some (s.get t)
  | .post t r type => if s.holder r = some t then some (s.post r type) else none
  | .stop => some { s with running := false }
  | .next opens =>
    match s.pc with
    | .starting => some { s with running := true, pc := .head }
    | .head =>
      if ¬ s.running then some { s with pc := .stopped }
      else if s.runlist = none then some { s with pc := .waiting }
      else some (s.drain opens)
    | .waiting => some (s.drain opens)
    | .walk (some cp) => some (s.visit cp)
    | .walk none => some { s with pc := .head, fp := if s.fp = .null then .null else .closed }
    | .recycle cp next => some (s.recycle cp next)
    | .stopped => none

def State.turn (s : State) : State :=
  { s with pc := .head, fp := if s.fp = .null then .null else .closed }

inductive Move (s : State) (opens : Bool) : State → Prop where
  | up (pc : s.pc = .starting) : Move s opens { s with running := true, pc := .head }
  | quit (pc : s.pc = .head) (down : s.running = false) : Move s opens { s with pc := .stopped }
  | wait (pc : s.pc = .head) (up : s.running = true) (empty : s.runlist = none) :
      Move s opens { s with pc := .waiting }
  | drain (idle : s.pc = .waiting ∨ s.pc = .head ∧ s.running = true ∧ s.runlist ≠ none) :
      Move s opens (s.drain opens)
  | visit (cp : Nat) (pc : s.pc = .walk (some cp)) : Move s opens (s.visit cp)
  | turn (pc : s.pc = .walk none) : Move s opens s.turn
  | recycle (cp : Nat) (next : Option Nat) (pc : s.pc = .recycle cp next) :
      Move s opens (s.recycle cp next)

theorem step_next {s t : State} {opens : Bool} :
    step s (.next opens) = some t ↔ Move s opens t := by
  constructor
  · intro hs
    cases pc : s.pc with
    | starting => simp only [step, pc] at hs; cases hs; exact .up pc
    | head =>
      simp only [step, pc] at hs
      split at hs
      · cases hs
        exact .quit pc (Bool.eq_false_iff.mpr ‹_›)
      · rename_i up
        split at hs <;> cases hs
        · exact .wait pc (not_not.mp up) ‹_›
        · exact .drain (.inr ⟨pc, not_not.mp up, ‹_›⟩)
    | waiting => simp only [step, pc] at hs; cases hs; exact .drain (.inl pc)
    | walk cp =>
      cases cp with
      | none => simp only [step, pc] at hs; cases hs; exact .turn pc
      | some cp => simp only [step, pc] at hs; cases hs; exact .visit cp pc
    | recycle cp next => simp only [step, pc] at hs; cases hs; exact .recycle cp next pc
    | stopped => simp only [step, pc] at hs; cases hs
  · intro move
    cases move with
    | up pc => simp [step, pc]
    | quit pc down => simp [step, pc, down]
    | wait pc up empty => simp [step, pc, up, empty]
    | drain idle =>
      rcases idle with pc | ⟨pc, up, full⟩
      · simp [step, pc]
      · simp [step, pc, up, full]
    | visit cp pc => simp [step, pc]
    | turn pc => simp [step, pc, State.turn]
    | recycle cp next pc => simp [step, pc]

/-- What the thread has visited, what is left of the chain it took and what is on the run
list are the posted records in post order. -/
def InOrder (s : State) : Prop :=
  ∃ batch run, Chain s.next s.pc.rest batch ∧ Chain s.next s.runlist run ∧
    s.drained ++ batch ++ run = s.posted

/-- The post finds at most one record on the run list. -/
def Short (s : State) : Action → Prop
  | .post _ _ _ => ∀ r, s.runlist = some r → s.next r = none
  | _ => True

instance (s : State) : (a : Action) → Decidable (Short s a)
  | .post _ _ _ => inferInstanceAs (Decidable (∀ r ∈ s.runlist, s.next r = none))
  | .get _ | .stop | .next _ => .isTrue trivial

def State.kept (s : State) (batch run free : List Nat) : List Nat :=
  s.pc.hand ++ batch ++ run ++ free

/-- Where every record is: in the thread's hand, on its chain, on the run list, on the free
list or with a poster. The code leaves `runlast` at the head of the run list. -/
structure Inv (s : State) (batch run free : List Nat) : Prop where
  taken : Chain s.next s.pc.rest batch
  queued : Chain s.next s.runlist run
  spare : Chain s.next s.freelist free
  order : s.drained ++ batch ++ run = s.posted
  last : s.runlast = s.runlist
  nodup : (s.kept batch run free).Nodup
  held : ∀ r t, s.holder r = some t → r ∉ s.kept batch run free ∧ r < s.made
  made : ∀ r ∈ s.kept batch run free, r < s.made

theorem Inv.inOrder {s : State} {batch run free : List Nat} (h : Inv s batch run free) :
    InOrder s := ⟨batch, run, h.taken, h.queued, h.order⟩

theorem start_inv : Inv start [] [] [] := by
  constructor <;> simp [start, Pc.rest, State.kept, Pc.hand]

section Step
variable {s : State} {batch run free : List Nat}

theorem Inv.get (h : Inv s batch run free) (t : Nat) : ∃ free', Inv (s.get t) batch run free' := by
  cases hf : s.freelist with
  | none =>
    have got : s.get t =
        { s with made := s.made + 1, holder := Function.update s.holder s.made (some t) } := by
      simp only [State.get, hf]
    rw [got]
    refine ⟨free, h.taken, h.queued, h.spare, h.order, h.last, h.nodup, fun r t' hr => ?_,
      fun r hr => ?_⟩
    · by_cases new : r = s.made
      · subst new
        exact ⟨fun here => Nat.lt_irrefl _ (h.made _ here), Nat.lt_succ_self _⟩
      · have old : s.holder r = some t' := by simpa [Function.update_of_ne new] using hr
        exact ⟨(h.held r t' old).1, Nat.lt_succ_of_lt (h.held r t' old).2⟩
    · exact Nat.lt_succ_of_lt (h.made r hr)
  | some x =>
    have got : s.get t =
        { s with freelist := s.next x, holder := Function.update s.holder x (some t) } := by
      simp only [State.get, hf]
    rw [got]
    have spare := h.spare
    rw [hf] at spare
    cases free with
    | nil => cases spare
    | cons y free =>
      obtain ⟨head, rest⟩ := chain_cons.mp spare
      cases head
      have kept : (s.kept batch run (x :: free)).Perm (x :: s.kept batch run free) :=
        List.perm_middle
      obtain ⟨fresh, nodup⟩ := List.nodup_cons.mp (kept.nodup_iff.mp h.nodup)
      refine ⟨free, h.taken, h.queued, rest, h.order, h.last, nodup, fun r t' hr => ?_,
        fun r hr => h.made r (kept.mem_iff.mpr (List.mem_cons_of_mem x hr))⟩
      by_cases here : r = x
      · subst here
        exact ⟨fresh, h.made r (kept.mem_iff.mpr List.mem_cons_self)⟩
      · have old : s.holder r = some t' := by simpa [Function.update_of_ne here] using hr
        obtain ⟨absent, bound⟩ := h.held r t' old
        exact ⟨fun hr => absent (kept.mem_iff.mpr (List.mem_cons_of_mem x hr)), bound⟩

theorem post_fields (s : State) (r : Nat) (type : DbiType) :
    (s.post r type).pc = s.pc ∧ (s.post r type).freelist = s.freelist ∧
      (s.post r type).made = s.made ∧ (s.post r type).drained = s.drained ∧
      (s.post r type).posted = s.posted ++ [r] ∧
      (s.post r type).holder = Function.update s.holder r none ∧
      match s.runlast with
      | some l => (s.post r type).next = Function.update (Function.update s.next r none) l (some r) ∧
          (s.post r type).runlist = s.runlist ∧ (s.post r type).runlast = s.runlast
      | none => (s.post r type).next = Function.update s.next r none ∧
          (s.post r type).runlist = some r ∧ (s.post r type).runlast = some r := by
  unfold State.post
  cases s.runlast <;> by_cases stop : type = .stop <;> simp [stop]

theorem Inv.post (h : Inv s batch run free) {t r : Nat} (type : DbiType)
    (holds : s.holder r = some t) (short : ∀ l, s.runlist = some l → s.next l = none) :
    Inv (s.post r type) batch (run ++ [r]) free := by
  obtain ⟨pc, freelist, made, drained, posted, holder, links⟩ := post_fields s r type
  obtain ⟨fresh, bound⟩ := h.held r t holds
  have kept : ((s.post r type).kept batch (run ++ [r]) free).Perm (r :: s.kept batch run free) := by
    simp only [State.kept, pc, List.append_assoc, List.singleton_append]
    simpa only [List.append_assoc] using
      @List.perm_middle Nat r (s.pc.hand ++ batch ++ run) free
  have away : ∀ x ∈ s.kept batch run free, x ≠ r := fun x hx e => fresh (e ▸ hx)
  have order : (s.post r type).drained ++ batch ++ (run ++ [r]) = (s.post r type).posted := by
    rw [drained, posted, ← h.order]
    simp
  have held : ∀ x t', (s.post r type).holder x = some t' →
      x ∉ (s.post r type).kept batch (run ++ [r]) free ∧ x < (s.post r type).made := by
    intro x t' hx
    rw [holder] at hx
    have other : x ≠ r := fun e => by subst e; simp at hx
    rw [Function.update_of_ne other] at hx
    obtain ⟨absent, small⟩ := h.held x t' hx
    rw [kept.mem_iff, made]
    exact ⟨by simp [other, absent], small⟩
  have made' : ∀ x ∈ (s.post r type).kept batch (run ++ [r]) free, x < (s.post r type).made := by
    intro x hx
    rw [made]
    rcases List.mem_cons.mp (kept.mem_iff.mp hx) with rfl | old
    · exact bound
    · exact h.made x old
  have nodup : ((s.post r type).kept batch (run ++ [r]) free).Nodup :=
    kept.nodup_iff.mpr (List.nodup_cons.mpr ⟨fresh, h.nodup⟩)
  have queued := h.queued
  rw [h.last] at links
  cases run with
  | nil =>
    rw [chain_nil.mp queued] at links
    obtain ⟨next, runlist, runlast⟩ := links
    have keep : ∀ x ∈ s.kept batch [] free, (s.post r type).next x = s.next x := fun x hx => by
      rw [next, Function.update_of_ne (away x hx)]
    refine ⟨?_, ?_, ?_, order, by rw [runlast, runlist], nodup, held, made'⟩
    · rw [pc]; exact h.taken.frame fun x hx => keep x (by simp [State.kept, hx])
    · simp [runlist, next]
    · rw [freelist]; exact h.spare.frame fun x hx => keep x (by simp [State.kept, hx])
  | cons a rest =>
    obtain ⟨head, rest'⟩ := chain_cons.mp queued
    rw [head] at links
    obtain ⟨next, runlist, runlast⟩ := links
    have single : rest = [] := by
      rw [short a head] at rest'
      cases rest'
      rfl
    subst single
    have others : ∀ x, x ≠ r → x ≠ a → (s.post r type).next x = s.next x := fun x hr ha => by
      rw [next, Function.update_of_ne ha, Function.update_of_ne hr]
    have apart : ∀ x, x ∈ batch ∨ x ∈ free → x ≠ a := by
      have all := h.nodup
      simp only [State.kept, List.nodup_append, List.mem_append, List.mem_singleton] at all
      grind
    refine ⟨?_, ?_, ?_, order, by rw [runlast, runlist], nodup, held, made'⟩
    · rw [pc]
      exact h.taken.frame fun x hx =>
        others x (away x (by simp [State.kept, hx])) (apart x (.inl hx))
    · have ne : r ≠ a := (away a (by simp [State.kept])).symm
      simp [runlist, next, Function.update_of_ne ne]
    · rw [freelist]
      exact h.spare.frame fun x hx =>
        others x (away x (by simp [State.kept, hx])) (apart x (.inr hx))

/-- A post that finds two records on the run list unlinks the second. -/
theorem Inv.post_lost (h : Inv s batch run free) {t r : Nat} (type : DbiType)
    (holds : s.holder r = some t) {l m : Nat} (head : s.runlist = some l)
    (more : s.next l = some m) : ¬ InOrder (s.post r type) := by
  obtain ⟨pc, freelist, made, drained, posted, holder, links⟩ := post_fields s r type
  obtain ⟨fresh, bound⟩ := h.held r t holds
  rw [h.last, head] at links
  obtain ⟨next, runlist, -⟩ := links
  have queued := h.queued
  cases run with
  | nil => rw [chain_nil.mp queued] at head; cases head
  | cons a rest =>
    obtain ⟨head', rest'⟩ := chain_cons.mp queued
    cases head.symm.trans head'
    cases rest with
    | nil => rw [chain_nil.mp rest'] at more; cases more
    | cons b rest =>
      have away : ∀ x ∈ s.kept batch (l :: b :: rest) free, x ≠ r := fun x hx e => fresh (e ▸ hx)
      have apart : ∀ x ∈ batch, x ≠ l := by
        have all := h.nodup
        simp only [State.kept, List.nodup_append, List.mem_append] at all
        grind
      have taken : Chain (s.post r type).next (s.post r type).pc.rest batch := by
        rw [pc]
        refine h.taken.frame fun x hx => ?_
        rw [next, Function.update_of_ne (apart x hx),
          Function.update_of_ne (away x (by simp [State.kept, hx]))]
      have short : Chain (s.post r type).next (s.post r type).runlist [l, r] := by
        have ne : r ≠ l := (away l (by simp [State.kept])).symm
        simp [runlist, next, Function.update_of_ne ne]
      rintro ⟨batch', run', hb, hr, order⟩
      rw [hb.unique taken, hr.unique short, drained, posted, ← h.order] at order
      have length := congrArg List.length order
      simp only [List.length_append, List.length_cons, List.length_nil] at length
      omega

theorem Inv.drain (h : Inv s batch run free) (idle : s.pc = .head ∨ s.pc = .waiting)
    (opens : Bool) : Inv (s.drain opens) run [] free := by
  have none : s.pc.rest = none ∧ s.pc.hand = [] := by
    rcases idle with e | e <;> simp [e, Pc.rest, Pc.hand]
  have taken := h.taken
  rw [none.1] at taken
  cases taken
  have order := h.order
  have nodup := h.nodup
  have held := h.held
  have made := h.made
  simp only [State.kept, none.2, List.nil_append] at nodup held made
  exact ⟨h.queued, .nil, h.spare, by simpa [State.drain] using order, rfl,
    by simpa [State.kept, State.drain, Pc.hand] using nodup,
    by simpa [State.kept, State.drain, Pc.hand] using held,
    by simpa [State.kept, State.drain, Pc.hand] using made⟩

theorem Inv.visit (h : Inv s batch run free) {cp : Nat} (pc : s.pc = .walk (some cp)) :
    ∃ batch', Inv (s.visit cp) batch' run free := by
  have taken := h.taken
  rw [pc] at taken
  cases batch with
  | nil => cases taken
  | cons x batch =>
    obtain ⟨head, rest⟩ := chain_cons.mp taken
    cases head
    have kept : (s.visit cp).kept batch run free = s.kept (cp :: batch) run free := by
      simp [State.kept, State.visit, Pc.hand, pc]
    refine ⟨batch, rest, h.queued, h.spare, ?_, h.last, ?_, ?_, ?_⟩
    · have order := h.order
      simpa [State.visit] using order
    · rw [kept]; exact h.nodup
    · rw [kept]; exact h.held
    · rw [kept]; exact h.made

theorem Inv.recycle (h : Inv s batch run free) {cp : Nat} {next : Option Nat}
    (pc : s.pc = .recycle cp next) : Inv (s.recycle cp next) batch run (cp :: free) := by
  have kept : ((s.recycle cp next).kept batch run (cp :: free)).Perm (s.kept batch run free) := by
    simp only [State.kept, State.recycle, Pc.hand, pc, List.nil_append]
    exact List.perm_middle
  have away : ∀ x, x ∈ batch ∨ x ∈ run ∨ x ∈ free → x ≠ cp := by
    have all := h.nodup
    simp only [State.kept, pc, Pc.hand, List.nodup_append, List.mem_append,
      List.mem_singleton] at all
    grind
  have keep : ∀ x, x ≠ cp → (s.recycle cp next).next x = s.next x := fun x hx =>
    Function.update_of_ne hx _ _
  have taken := h.taken
  rw [pc] at taken
  refine ⟨taken.frame fun x hx => keep x (away x (.inl hx)),
    h.queued.frame fun x hx => keep x (away x (.inr (.inl hx))), ?_, h.order, h.last,
    kept.nodup_iff.mpr h.nodup, fun x t hx => ?_, fun x hx => h.made x (kept.mem_iff.mp hx)⟩
  · refine chain_cons.mpr ⟨rfl, ?_⟩
    have link : (s.recycle cp next).next cp = s.freelist := Function.update_self _ _ _
    rw [link]
    exact h.spare.frame fun x hx => keep x (away x (.inr (.inr hx)))
  · rw [kept.mem_iff]
    exact h.held x t hx

theorem Inv.quiet (h : Inv s batch run free) {running : Bool} {fp : File} {pc : Pc}
    (rest : pc.rest = s.pc.rest) (hand : pc.hand = s.pc.hand) :
    Inv { s with running := running, fp := fp, pc := pc } batch run free := by
  have kept : State.kept { s with running := running, fp := fp, pc := pc } batch run free =
      s.kept batch run free := by
    simp only [State.kept, hand]
  refine ⟨?_, h.queued, h.spare, h.order, h.last, ?_, ?_, ?_⟩
  · simp only [rest]; exact h.taken
  · rw [kept]; exact h.nodup
  · rw [kept]; exact h.held
  · rw [kept]; exact h.made

end Step

def Kept (s : State) : Prop := ∃ batch run free, Inv s batch run free

theorem step_kept {s t : State} {a : Action} (h : Kept s) (short : Short s a)
    (hs : step s a = some t) : Kept t := by
  obtain ⟨batch, run, free, inv⟩ := h
  cases a with
  | get p =>
    cases hs
    obtain ⟨free', inv⟩ := inv.get p
    exact ⟨batch, run, free', inv⟩
  | post p r type =>
    simp only [step] at hs
    split at hs <;> cases hs
    exact ⟨batch, run ++ [r], free, inv.post type ‹_› short⟩
  | stop => cases hs; exact ⟨batch, run, free, inv.quiet rfl rfl⟩
  | next opens =>
    cases step_next.mp hs with
    | up pc | quit pc | wait pc =>
      exact ⟨batch, run, free, inv.quiet (by rw [pc]; rfl) (by rw [pc]; rfl)⟩
    | drain idle =>
      exact ⟨run, [], free, inv.drain (idle.symm.imp_left And.left) opens⟩
    | visit cp pc =>
      obtain ⟨batch', inv⟩ := inv.visit pc
      exact ⟨batch', run, free, inv⟩
    | turn pc => exact ⟨batch, run, free, inv.quiet (by rw [pc]; rfl) (by rw [pc]; rfl)⟩
    | recycle cp next pc => exact ⟨batch, run, cp :: free, inv.recycle pc⟩

theorem step_lost {s t : State} {a : Action} (h : Kept s) (long : ¬ Short s a)
    (hs : step s a = some t) : ¬ InOrder t := by
  obtain ⟨batch, run, free, inv⟩ := h
  cases a with
  | post p r type =>
    simp only [Short, not_forall] at long
    obtain ⟨l, head, more⟩ := long
    obtain ⟨m, hm⟩ := Option.ne_none_iff_exists'.mp more
    simp only [step] at hs
    split at hs <;> cases hs
    exact inv.post_lost type ‹_› head hm
  | _ => exact absurd trivial long

/-- The records come off the queue complete and in post order, throughout a run, if and only
if no post of the run finds two records on the run list. -/
theorem inOrder_iff (as : List Action) (s : State) (run : Run.exec step start as = some s) :
    Run.Always step InOrder start as ↔ Run.Along step Short start as :=
  Run.always_iff_along (fun _ _ _ h ok hs => step_kept h ok hs)
    (fun _ ⟨_, _, _, inv⟩ => inv.inOrder) (fun _ _ _ h bad hs => step_lost h bad hs)
    ⟨[], [], [], start_inv⟩ run

/-- The dbi thread comes up; one thread gets three records, posts them, and the thread works
through what it finds. -/
def threePosts : List Action :=
  [.next true, .get 0, .get 0, .get 0, .post 0 0 .start, .post 0 1 .start, .post 0 2 .start,
    .next true, .next true, .next true, .next true, .next true]

/-- Two threads post a record each. While the thread works through them, the first record is got
and posted again. -/
def twoTurns : List Action :=
  [.next true, .get 0, .get 1, .post 0 0 .start, .post 1 1 .stop, .next true, .next true,
    .next true, .get 0, .next true, .post 0 0 .stop, .next true, .next true, .next true,
    .next true]

theorem inOrder_iff_two : ∃ s, Run.exec step start twoTurns = some s ∧
    s.posted = [0, 1, 0] ∧ s.drained = [0, 1, 0] ∧ Run.Always step InOrder start twoTurns :=
  ⟨_, rfl, rfl, rfl, (inOrder_iff twoTurns _ rfl).mpr (by decide)⟩

/-- The second of three records posted before a drain is lost. -/
theorem not_inOrder : ∃ s, Run.exec step start threePosts = some s ∧
    s.posted = [0, 1, 2] ∧ s.drained = [0, 2] ∧ s.runlist = none ∧ ¬ InOrder s := by
  refine ⟨_, rfl, rfl, rfl, rfl, ?_⟩
  rintro ⟨batch, run, taken, queued, order⟩
  cases taken
  cases queued
  revert order
  decide

end Bayonne.DbiThread
