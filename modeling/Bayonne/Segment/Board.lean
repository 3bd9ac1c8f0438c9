import Bayonne.Segment

/-! Boards. A board without spans is a segment of its own; any other hands its orders on to
a range of spans, and takes the answer of each the wrong way round. -/
namespace Bayonne

/-- `first` counts timeslots on a board without spans, and spans on any other. -/
structure Board extends Segment where
  spans : UInt32

def SegmentOp.cannotSpans : SegmentOp → String
  | .suspend => "cannot suspend spans"
  | .resume => "cannot resume spans"

structure Boarded (n m : Nat) where
  err : Option String
  board : Board
  spans : Fin m → Segment
  pool : Pool n

namespace Board
variable {n m : Nat} (server : Server)

def orders (o : SegmentOp) (ans : Fin m → Fin n → Answers) :
    Nat → UInt32 → (Fin m → Segment) × Pool n → Option String × (Fin m → Segment) × Pool n
  | 0, _, w => (none, w)
  | spc + 1, spid, w =>
    match entry m spid with
    | none => orders o ans spc (spid + 1) w
    | some sp =>
      let out := (w.1 sp).perform server o (ans sp) w.2
      let w := (Function.update w.1 sp out.segment, out.pool)
      -- `if(!span->suspend())`
      if out.err = none then (some o.cannotSpans, w) else orders o ans spc (spid + 1) w

/-- `own` is for the timeslots of a board without spans, `ans` for those of the spans. -/
def perform (o : SegmentOp) (own : Fin n → Answers) (ans : Fin m → Fin n → Answers) (b : Board)
    (spans : Fin m → Segment) (p : Pool n) : Boarded n m :=
  if b.live ≠ o.live then ⟨some o.already, b, spans, p⟩
  else if b.spans = 0 then
    let out := b.toSegment.perform server o own p
    ⟨out.err, { b with toSegment := out.segment }, spans, out.pool⟩
  else
    let out := orders server o ans b.spans.toNat b.first (spans, p)
    match out.1 with
    | some err => ⟨some err, b, out.2.1, out.2.2⟩
    | none => ⟨none, { b with live := !o.live }, out.2.1, out.2.2⟩

def suspend (own : Fin n → Answers) (ans : Fin m → Fin n → Answers) (b : Board)
    (spans : Fin m → Segment) (p : Pool n) : Boarded n m :=
  perform server .suspend own ans b spans p

def resume (own : Fin n → Answers) (ans : Fin m → Fin n → Answers) (b : Board)
    (spans : Fin m → Segment) (p : Pool n) : Boarded n m :=
  perform server .resume own ans b spans p

def members (b : Board) (m : Nat) : List (Fin m) := entries m b.first b.spans.toNat

def ask (o : SegmentOp) (ans : Fin m → Fin n → Answers) (w : (Fin m → Segment) × Pool n)
    (sp : Fin m) : Bool × (Fin m → Segment) × Pool n :=
  let out := (w.1 sp).perform server o (ans sp) w.2
  (out.err.isNone, Function.update w.1 sp out.segment, out.pool)

/-- What its spans say to an order, each asked in turn, or its timeslots where it has no
spans. -/
def replies (o : SegmentOp) (own : Fin n → Answers) (ans : Fin m → Fin n → Answers) (b : Board)
    (spans : Fin m → Segment) (p : Pool n) : List Bool :=
  if b.spans = 0 then Scan.answers (Segment.ask server o.event own) (b.slots n) p
  else Scan.answers (ask server o ans) (b.members m) (spans, p)

def reach (b : Board) (spans : Fin m → Segment) (n : Nat) : List (Fin n) :=
  if b.spans = 0 then b.slots n else (b.members m).flatMap fun sp => (spans sp).slots n

/-- An order succeeds if and only if every reply is that it does, and then it is carried
out. -/
structure Lawful (b : Board) (o : SegmentOp) (own : Fin n → Answers) (ans : Fin m → Fin n → Answers)
    (spans : Fin m → Segment) (p : Pool n) (out : Boarded n m) : Prop where
  none_iff : out.err = none ↔ ∀ reply ∈ b.replies server o own ans spans p, reply = true
  slots : out.err = none → ∀ i ∈ b.reach spans n, (out.pool.slot i).handler = o.target
  live : out.err = none → out.board.live = !o.live

variable {server} {o : SegmentOp} {own : Fin n → Answers} {ans : Fin m → Fin n → Answers}
  {b : Board} {spans : Fin m → Segment} {p : Pool n}

theorem orders_eq (spc : Nat) (spid : UInt32) (w : (Fin m → Segment) × Pool n) :
    orders server o ans spc spid w =
      let out := Scan.upTo (ask server o ans) true (entries m spid spc) w
      (if out.1 then some o.cannotSpans else none, out.2) := by
  induction spc generalizing spid w with
  | zero => rfl
  | succ spc ih =>
    rw [entries_succ, orders]
    cases entry m spid with
    | none => exact ih (spid + 1) w
    | some sp =>
      by_cases done : ((w.1 sp).perform server o (ans sp) w.2).err = none
      · simp [Scan.upTo, ask, done]
      · simp [Scan.upTo, ask, done, ih]

theorem lawful_of_spanless (right : b.live = o.live) (spanless : b.spans = 0) :
    b.Lawful server o own ans spans p (b.perform server o own ans spans p) := by
  have right' : b.toSegment.live = o.live := right
  obtain ⟨taken, none_iff, segment⟩ := Segment.perform_right server own p right'
  obtain ⟨_, all_iff⟩ := @Segment.upTo_taken n server o own (b.slots n) p p
    (entries_nodup n b.first b.count) fun _ _ => rfl
  have out : b.perform server o own ans spans p =
      let out := b.toSegment.perform server o own p
      ⟨out.err, { b with toSegment := out.segment }, spans, out.pool⟩ := by
    simp [perform, right, spanless]
  rw [out]
  refine ⟨?_, fun done i here => ?_, fun done => ?_⟩
  · rw [none_iff, ← all_iff, Scan.not_upTo_iff, replies, if_pos spanless]
    simp only [← Bool.not_eq_false]
    exact ⟨fun absent reply here wrong => absent (wrong ▸ here), fun all here => all _ here rfl⟩
  · rw [reach, if_pos spanless] at here
    rw [Pool.willing_self (none_iff.mp done)] at taken
    exact taken.taken i here
  · rw [if_pos done] at segment
    exact congrArg Segment.live segment

theorem perform_spans (right : b.live = o.live) (spanned : b.spans ≠ 0) :
    ((b.perform server o own ans spans p).err = none ↔
        true ∉ b.replies server o own ans spans p) ∧
      ((b.perform server o own ans spans p).err = none →
        (b.perform server o own ans spans p).board.live = !o.live) := by
  have loop := @orders_eq n m server o ans b.spans.toNat b.first (spans, p)
  rw [← members] at loop
  rw [replies, if_neg spanned, ← Scan.not_upTo_iff]
  cases stopped : (Scan.upTo (ask server o ans) true (b.members m) (spans, p)).1 with
  | false => simp [perform, right, spanned, loop, stopped]
  | true => simp [perform, right, spanned, loop, stopped]

theorem lawful_spans_iff (right : b.live = o.live) (spanned : b.spans ≠ 0) :
    b.Lawful server o own ans spans p (b.perform server o own ans spans p) ↔
      b.replies server o own ans spans p = [] ∨
        true ∈ b.replies server o own ans spans p ∧
          false ∈ b.replies server o own ans spans p := by
  obtain ⟨none_iff, live⟩ := @perform_spans n m server o own ans b spans p right spanned
  refine ⟨fun lawful => ?_, fun h => ?_⟩
  · have alike := none_iff.symm.trans lawful.none_iff
    by_cases took : true ∈ b.replies server o own ans spans p
    · refine .inr ⟨took, ?_⟩
      by_contra refused
      refine alike.mpr (fun reply here => ?_) took
      cases reply with
      | true => rfl
      | false => exact absurd here refused
    · refine .inl (List.eq_nil_iff_forall_not_mem.mpr fun reply here => took ?_)
      rw [← alike.mp took reply here]
      exact here
  · rcases h with empty | ⟨took, refused⟩
    · have alone : b.members m = [] := by
        rw [replies, if_neg spanned] at empty
        exact Scan.answers_eq_nil_iff.mp empty
      refine ⟨?_, fun _ i here => ?_, live⟩
      · rw [none_iff, empty]
        simp
      · rw [reach, if_neg spanned, alone] at here
        cases here
    · have failed : (b.perform server o own ans spans p).err ≠ none := fun none =>
        none_iff.mp none took
      refine ⟨iff_of_false failed fun all => ?_, fun none => absurd none failed, live⟩
      cases all false refused

end Board

/-- What decides whether spans take an order: which of them are in the state for it, and
which timeslots accept its event. -/
structure Avail (n m : Nat) where
  ready : Fin m → Bool
  can : Fin n → Bool

namespace Avail
variable {n m : Nat}

def of (o : SegmentOp) (spans : Fin m → Segment) (p : Pool n) : Avail n m where
  ready := fun sp => decide ((spans sp).live = o.live)
  can := fun i => o.accepts (p.slot i).handler

/-- A span takes the order if all of its timeslots accept. Those before the first that does
not are used up in any case. -/
def ask (layout : Fin m → List (Fin n)) (a : Avail n m) (sp : Fin m) : Bool × Avail n m :=
  if a.ready sp then
    let took := (layout sp).all a.can
    (took,
      { ready := if took then Function.update a.ready sp false else a.ready
        can := fun i => a.can i && decide (i ∉ (layout sp).takeWhile a.can) })
  else (false, a)

structure Shows (o : SegmentOp) (layout : Fin m → List (Fin n)) (w : (Fin m → Segment) × Pool n)
    (a : Avail n m) : Prop where
  slots : ∀ sp, (w.1 sp).slots n = layout sp
  ready : ∀ sp, a.ready sp = decide ((w.1 sp).live = o.live)
  can : ∀ i, a.can i = o.accepts (w.2.slot i).handler

variable {server : Server} {o : SegmentOp} {ans : Fin m → Fin n → Answers}
  {layout : Fin m → List (Fin n)} {w : (Fin m → Segment) × Pool n} {a : Avail n m}

theorem Shows.ask_ready (h : a.Shows o layout w) {sp : Fin m} (right : (w.1 sp).live = o.live) :
    (Board.ask server o ans w sp).1 = (a.ask layout sp).1 ∧
      (a.ask layout sp).2.Shows o layout (Board.ask server o ans w sp).2 := by
  have ready : a.ready sp = true := by rw [h.ready, decide_eq_true_eq, right]
  obtain ⟨taken, none_iff, segment⟩ := Segment.perform_right server (ans sp) w.2 right
  have can : a.can = fun i => o.accepts (w.2.slot i).handler := funext h.can
  have willing : w.2.willing o ((w.1 sp).slots n) = (layout sp).takeWhile a.can := by
    rw [Pool.willing, h.slots, can]
  have took : ((w.1 sp).perform server o (ans sp) w.2).err = none ↔
      (layout sp).all a.can = true := by
    rw [none_iff, List.all_eq_true, h.slots, can]
  rw [willing] at taken
  have others : ∀ j, j ≠ sp → (Board.ask server o ans w sp).2.1 j = w.1 j := fun j ne =>
    Function.update_of_ne ne _ _
  have here : (Board.ask server o ans w sp).2.1 sp =
      ((w.1 sp).perform server o (ans sp) w.2).segment := Function.update_self _ _ _
  have asked : a.ask layout sp =
      ((layout sp).all a.can,
        { ready := if (layout sp).all a.can then Function.update a.ready sp false else a.ready
          can := fun i => a.can i && decide (i ∉ (layout sp).takeWhile a.can) }) := by
    rw [Avail.ask, if_pos ready]
  rw [asked]
  refine ⟨?_, ?_, ?_, fun i => ?_⟩
  · rw [Board.ask, Bool.eq_iff_iff, Option.isNone_iff_eq_none]
    exact took
  · intro j
    by_cases hj : j = sp
    · subst hj
      rw [here, segment, ← h.slots]
      split <;> rfl
    · rw [others j hj, h.slots]
  · intro j
    by_cases hj : j = sp
    · subst hj
      rw [here, segment]
      by_cases all : (layout j).all a.can = true
      · rw [if_pos (took.mpr all)]
        simp [all]
      · rw [if_neg fun none => all (took.mp none)]
        simp [all, ready, right]
    · rw [others j hj, ← h.ready]
      split
      · exact Function.update_of_ne hj _ _
      · rfl
  · by_cases run : i ∈ (layout sp).takeWhile a.can
    · have target := taken.taken i run
      have refuses : o.accepts ((Board.ask server o ans w sp).2.2.slot i).handler = false := by
        rw [← o.not_accepts_target, ← target]
        rfl
      rw [refuses]
      simp [run]
    · have same : (Board.ask server o ans w sp).2.2.slot i = w.2.slot i := taken.frame i run
      rw [same, ← h.can]
      simp [run]

theorem Shows.ask (h : a.Shows o layout w) (sp : Fin m) :
    (Board.ask server o ans w sp).1 = (a.ask layout sp).1 ∧
      (a.ask layout sp).2.Shows o layout (Board.ask server o ans w sp).2 := by
  by_cases right : (w.1 sp).live = o.live
  · exact h.ask_ready right
  · have ready : ¬ a.ready sp = true := by rw [h.ready, decide_eq_true_eq]; exact right
    have same : Board.ask server o ans w sp = (false, w) := by
      simp [Board.ask, Segment.perform_wrong server (ans sp) w.2 right]
    rw [Avail.ask, if_neg ready, same]
    exact ⟨rfl, h⟩

end Avail

namespace Board
variable {n m : Nat} {server : Server} {o : SegmentOp} {own : Fin n → Answers}
  {ans : Fin m → Fin n → Answers} {b : Board} {spans : Fin m → Segment} {p : Pool n}

def turns (b : Board) (o : SegmentOp) (spans : Fin m → Segment) (p : Pool n) : List Bool :=
  Scan.answers (Avail.ask fun sp => (spans sp).slots n) (b.members m) (.of o spans p)

theorem replies_eq_turns (spanned : b.spans ≠ 0) :
    b.replies server o own ans spans p = b.turns o spans p := by
  rw [replies, if_neg spanned]
  exact Scan.answers_congr (fun _ _ sp shows => Avail.Shows.ask shows sp)
    ⟨fun _ => rfl, fun _ => rfl, fun _ => rfl⟩

/-- An order does what it should if and only if the board has no spans, or none that the
driver knows, or some of its spans can take the order and some cannot. -/
theorem perform_lawful_iff (server : Server) (o : SegmentOp) (own : Fin n → Answers)
    (ans : Fin m → Fin n → Answers) (b : Board) (spans : Fin m → Segment) (p : Pool n)
    (right : b.live = o.live) :
    b.Lawful server o own ans spans p (b.perform server o own ans spans p) ↔
      b.spans = 0 ∨ b.turns o spans p = [] ∨
        true ∈ b.turns o spans p ∧ false ∈ b.turns o spans p := by
  by_cases spanless : b.spans = 0
  · exact iff_of_true (lawful_of_spanless right spanless) (.inl spanless)
  · rw [lawful_spans_iff right spanless, replies_eq_turns spanless]
    exact ⟨.inr, fun h => h.resolve_left spanless⟩

theorem orders_lawful_iff (server : Server) (own : Fin n → Answers) (ans : Fin m → Fin n → Answers)
    (b : Board) (spans : Fin m → Segment) (p : Pool n) :
    (b.live = true →
      (b.Lawful server .suspend own ans spans p (b.suspend server own ans spans p) ↔
        b.spans = 0 ∨ b.turns .suspend spans p = [] ∨
          true ∈ b.turns .suspend spans p ∧ false ∈ b.turns .suspend spans p)) ∧
    (b.live = false →
      (b.Lawful server .resume own ans spans p (b.resume server own ans spans p) ↔
        b.spans = 0 ∨ b.turns .resume spans p = [] ∨
          true ∈ b.turns .resume spans p ∧ false ∈ b.turns .resume spans p)) :=
  ⟨perform_lawful_iff server .suspend own ans b spans p,
    perform_lawful_iff server .resume own ans b spans p⟩

theorem orders_lawful_iff_spanless :
    let p : Pool 2 := .construct .sample fun _ => ⟨0, .incoming, none, none, none, none⟩
    let b : Board := ⟨⟨true, 0, 2⟩, 0⟩
    let spans : Fin 0 → Segment := fun sp => sp.elim0
    let own : Fin 2 → Answers := fun _ => .at (tick 0) true
    b.Lawful .sample .suspend own (fun _ => own) spans p
      (b.suspend .sample own (fun _ => own) spans p) :=
  ((orders_lawful_iff .sample _ _ _ _ _).1 rfl).mpr (.inl rfl)

/-- Both spans of a board would take the order; the loop reports an error after the first,
and leaves the second in service. -/
theorem not_orders_lawful :
    let p : Pool 2 := .construct .sample fun _ => ⟨0, .incoming, none, none, none, none⟩
    let b : Board := ⟨⟨true, 0, 0⟩, 2⟩
    let spans : Fin 2 → Segment := fun sp => ⟨true, UInt32.ofNat sp, 1⟩
    let own : Fin 2 → Answers := fun _ => .at (tick 0) true
    let out := b.suspend .sample own (fun _ => own) spans p
    out.err = some "cannot suspend spans" ∧
      b.replies .sample .suspend own (fun _ => own) spans p = [true, true] ∧
      ¬ b.Lawful .sample .suspend own (fun _ => own) spans p out := by
  refine ⟨by decide, by decide, fun lawful => ?_⟩
  have failed := lawful.none_iff
  revert failed
  decide

end Board
end Bayonne
