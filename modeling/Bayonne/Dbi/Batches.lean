import Bayonne.Dbi

/-! The batches that `dbithread::run` takes off the queue one after another. The stream
variable lives on from batch to batch, and `fclose` leaves it as it is. -/
namespace Bayonne
namespace DbiThread
open Linked

/-- What one drain finds: the records, whether a STOP was posted since the last drain, and
whether `fopen` of the call log succeeds. -/
structure Batch where
  types : List DbiType
  cdr : Bool
  opens : Bool
  filled : types ≠ []
  stop : .stop ∈ types → cdr = true

/-- One call of `Driver::query`: the record by its number among all that were drained, the
stream it is passed, the plugins it asks and the stream it writes the call to. -/
structure Query where
  record : Nat
  fp : Option Nat
  asked : Nat
  line : Option Nat
  deriving DecidableEq

inductive Event where
  | opened (n : Nat)
  | query (q : Query)
  | recycle (k : Nat)
  | closed (n : Nat)
  deriving DecidableEq

/-- The state of `run` between two batches. Streams are numbered in the order they are
opened. -/
structure Log where
  fp : Option Nat
  opened : Nat
  drained : Nat

def asked (type : DbiType) : List (DbiType → Bool) → Nat
  | [] => 0
  | cb :: callbacks => if cb type then 1 else asked type callbacks + 1

section Plugins
variable (callbacks : List (DbiType → Bool))

def query (fp : Option Nat) (k : Nat) (type : DbiType) : Query where
  record := k
  fp := fp
  asked := asked type callbacks
  line := if fp = none ∨ type ≠ .stop then none else fp

/-- `if(fp) Driver::query(fp, *cp)`, and the record goes back on the free list. -/
def visit (fp : Option Nat) (r : DbiType × Nat) : List Event :=
  match fp with
  | none => [.recycle r.2]
  | some n => [.query (query callbacks (some n) r.2 r.1), .recycle r.2]

/-- `if(runlist && cdr) fp = fopen(env("calls"), "a")`. -/
def Log.fopen (s : Log) (b : Batch) : List Event × Option Nat × Nat :=
  if b.cdr then
    if b.opens then ([.opened s.opened], some s.opened, s.opened + 1) else ([], none, s.opened)
  else ([], s.fp, s.opened)

def fclose : Option Nat → List Event
  | none => []
  | some n => [.closed n]

def Log.batch (s : Log) (b : Batch) : List Event × Log :=
  let (start, fp, opened) := s.fopen b
  (start ++ (b.types.zipIdx s.drained).flatMap (visit callbacks fp) ++ fclose fp,
    ⟨fp, opened, s.drained + b.types.length⟩)

def Log.run (s : Log) : List Batch → List Event
  | [] => []
  | b :: bs => (s.batch callbacks b).1 ++ (s.batch callbacks b).2.run bs

end Plugins

structure Desk where
  opened : Nat
  live : List Nat
  deriving DecidableEq

/-- What may be done with streams: a stream that is opened is a new one, and only an open
one is passed on or closed. -/
def use (d : Desk) : Event → Option Desk
  | .opened n => if n = d.opened then some ⟨d.opened + 1, n :: d.live⟩ else none
  | .query q => if ∀ n, q.fp = some n → n ∈ d.live then some d else none
  | .recycle _ => some d
  | .closed n => if n ∈ d.live then some { d with live := d.live.erase n } else none

def handled : Event → Option (Nat × Option Nat)
  | .query q => some (q.record, some q.asked)
  | .recycle k => some (k, none)
  | _ => none

def dues (bs : List Batch) : List (DbiType × Bool) :=
  bs.flatMap fun b => b.types.map (·, b.opens)

/-- Every record is handed to `Driver::query` once and then given back. -/
def Log.Once (callbacks : List (DbiType → Bool)) (s : Log) (bs : List Batch) : Prop :=
  (s.run callbacks bs).filterMap handled = ((dues bs).zipIdx s.drained).flatMap fun r =>
    [(r.2, some (asked r.1.1 callbacks)), (r.2, none)]

/-- Every stream is a new one, is passed on only while it is open and is closed once. -/
def Log.Streams (callbacks : List (DbiType → Bool)) (s : Log) (bs : List Batch) : Prop :=
  ∃ n, Run.exec use ⟨s.opened, []⟩ (s.run callbacks bs) = some ⟨n, []⟩

/-- A STOP comes with a stream if the log could be opened for its batch. -/
def Log.Stops (callbacks : List (DbiType → Bool)) (s : Log) (bs : List Batch) : Prop :=
  ∀ k, ((.stop, true), k) ∈ (dues bs).zipIdx s.drained →
    ∃ q, .query q ∈ s.run callbacks bs ∧ q.record = k ∧ q.fp ≠ none

structure Log.Recorded (callbacks : List (DbiType → Bool)) (s : Log) (bs : List Batch) : Prop where
  once : s.Once callbacks bs
  streams : s.Streams callbacks bs
  stops : s.Stops callbacks bs

section Records
variable {callbacks : List (DbiType → Bool)} {n k : Nat} {types : List DbiType} {d : Desk}

theorem handled_visits : ((types.zipIdx k).flatMap (visit callbacks (some n))).filterMap handled =
    (types.zipIdx k).flatMap fun r => [(r.2, some (asked r.1 callbacks)), (r.2, none)] := by
  rw [List.filterMap_flatMap]
  rfl

theorem use_visits (live : n ∈ d.live) :
    Run.exec use d ((types.zipIdx k).flatMap (visit callbacks (some n))) = some d := by
  induction types generalizing k with
  | nil => rfl
  | cons type types ih =>
    have passed : ∀ m, (query callbacks (some n) k type).fp = some m → m ∈ d.live := by
      rintro m ⟨⟩
      exact live
    simp only [List.zipIdx_cons, List.flatMap_cons, visit, List.cons_append, List.nil_append,
      Run.exec, use, if_pos passed, Option.bind_some]
    exact ih

theorem use_stale (filled : types ≠ []) (stale : n ∉ d.live) (es : List Event) :
    Run.exec use d ((types.zipIdx k).flatMap (visit callbacks (some n)) ++ es) = none := by
  cases types with
  | nil => exact absurd rfl filled
  | cons type types =>
    have refused : ¬ ∀ m, (query callbacks (some n) k type).fp = some m → m ∈ d.live :=
      fun all => stale (all n rfl)
    simp only [List.zipIdx_cons, List.flatMap_cons, visit, List.cons_append, Run.exec, use,
      if_neg refused, Option.bind_none]

end Records

theorem dues_cons (b : Batch) (bs : List Batch) (k : Nat) : (dues (b :: bs)).zipIdx k =
    (b.types.map (·, b.opens)).zipIdx k ++ (dues bs).zipIdx (k + b.types.length) := by
  simp [dues, List.zipIdx_append]

section Batch
variable {callbacks : List (DbiType → Bool)} {s : Log} {b : Batch} {bs : List Batch}

theorem due_handled : ((b.types.map (·, b.opens)).zipIdx s.drained).flatMap
      (fun r => [(r.2, some (asked r.1.1 callbacks)), (r.2, none)]) =
    (b.types.zipIdx s.drained).flatMap
      fun r => [(r.2, some (asked r.1 callbacks)), (r.2, none)] := by
  rw [List.zipIdx_map, List.flatMap_map]
  rfl

theorem batch_opened (cdr : b.cdr = true) (opens : b.opens = true) :
    s.batch callbacks b = (.opened s.opened ::
      ((b.types.zipIdx s.drained).flatMap (visit callbacks (some s.opened)) ++ [.closed s.opened]),
      ⟨some s.opened, s.opened + 1, s.drained + b.types.length⟩) := by
  simp [Log.batch, Log.fopen, cdr, opens, fclose]

theorem use_batch (cdr : b.cdr = true) (opens : b.opens = true) :
    Run.exec use ⟨s.opened, []⟩ (s.batch callbacks b).1 = some ⟨s.opened + 1, []⟩ := by
  have live : s.opened ∈ (Desk.mk (s.opened + 1) [s.opened]).live := List.mem_singleton_self _
  rw [batch_opened cdr opens]
  simp only [Run.exec, use, if_true, Option.bind_some, Run.exec_append, use_visits live]
  simp

theorem handled_batch (cdr : b.cdr = true) (opens : b.opens = true) :
    (s.batch callbacks b).1.filterMap handled = (b.types.zipIdx s.drained).flatMap
      fun r => [(r.2, some (asked r.1 callbacks)), (r.2, none)] := by
  rw [batch_opened cdr opens]
  simp only [List.filterMap_cons, handled, List.filterMap_append, handled_visits]
  simp

theorem once_cons (cdr : b.cdr = true) (opens : b.opens = true) :
    s.Once callbacks (b :: bs) ↔ (s.batch callbacks b).2.Once callbacks bs := by
  simp only [Log.Once, Log.run, List.filterMap_append, handled_batch cdr opens, dues_cons,
    List.flatMap_append, due_handled, List.append_cancel_left_eq]
  rw [batch_opened cdr opens]

theorem streams_cons (cdr : b.cdr = true) (opens : b.opens = true) :
    s.Streams callbacks (b :: bs) ↔ (s.batch callbacks b).2.Streams callbacks bs := by
  simp only [Log.Streams, Log.run, Run.exec_append, use_batch cdr opens, Option.bind_some]
  rw [batch_opened cdr opens]

theorem stops_cons (cdr : b.cdr = true) (opens : b.opens = true)
    (rest : (s.batch callbacks b).2.Stops callbacks bs) : s.Stops callbacks (b :: bs) := by
  intro k mem
  rw [dues_cons, List.mem_append] at mem
  rcases mem with here | later
  · rw [List.zipIdx_map, List.mem_map] at here
    obtain ⟨⟨type, j⟩, mem, same⟩ := here
    obtain rfl : j = k := congrArg Prod.snd same
    refine ⟨query callbacks (some s.opened) j type, ?_, rfl, Option.some_ne_none _⟩
    rw [Log.run, batch_opened cdr opens]
    refine List.mem_append_left _ (List.mem_cons_of_mem _ (List.mem_append_left _ ?_))
    exact List.mem_flatMap.mpr ⟨_, mem, List.mem_cons_self⟩
  · have drained : (s.batch callbacks b).2.drained = s.drained + b.types.length := by
      rw [batch_opened cdr opens]
    rw [← drained] at later
    obtain ⟨q, mem, passed⟩ := rest k later
    exact ⟨q, List.mem_append_right _ mem, passed⟩

/-- Without a stream the batch is given back unread. -/
theorem not_once (unread : (s.batch callbacks b).1 = (b.types.zipIdx s.drained).flatMap
    (visit callbacks none)) : ¬ s.Once callbacks (b :: bs) := by
  intro once
  simp only [Log.Once, Log.run, unread, dues_cons] at once
  cases types : b.types with
  | nil => exact b.filled types
  | cons type types =>
    simp [types, visit, handled] at once

theorem not_streams (late : b.cdr = false) {n : Nat} (stale : s.fp = some n) :
    ¬ s.Streams callbacks (b :: bs) := by
  rintro ⟨m, run⟩
  have batch : (s.batch callbacks b).1 =
      (b.types.zipIdx s.drained).flatMap (visit callbacks (some n)) ++ [.closed n] := by
    simp [Log.batch, Log.fopen, late, stale, fclose]
  have refused := @use_stale callbacks n s.drained b.types ⟨s.opened, []⟩ b.filled
    List.not_mem_nil ([.closed n] ++ (s.batch callbacks b).2.run callbacks bs)
  rw [← List.append_assoc] at refused
  rw [Log.run, batch, refused] at run
  cases run

end Batch

/-- The queue does what it is for exactly if a STOP was posted for every batch and the log
could be opened each time. -/
theorem recorded_iff (callbacks : List (DbiType → Bool)) (s : Log) (bs : List Batch) :
    s.Recorded callbacks bs ↔ ∀ b ∈ bs, b.cdr = true ∧ b.opens = true := by
  constructor
  · rintro ⟨once, streams, -⟩
    induction bs generalizing s with
    | nil => simp
    | cons b bs ih =>
      have good : b.cdr = true ∧ b.opens = true := by
        cases cdr : b.cdr with
        | false =>
          cases fp : s.fp with
          | none =>
            refine absurd once (not_once ?_)
            simp [Log.batch, Log.fopen, cdr, fp, fclose]
          | some n => exact absurd streams (not_streams cdr fp)
        | true =>
          cases opens : b.opens with
          | false =>
            refine absurd once (not_once ?_)
            simp [Log.batch, Log.fopen, cdr, opens, fclose]
          | true => exact ⟨rfl, rfl⟩
      have rest := ih _ ((once_cons good.1 good.2).mp once) ((streams_cons good.1 good.2).mp streams)
      intro b' mem
      rcases List.mem_cons.mp mem with rfl | mem
      · exact good
      · exact rest b' mem
  · intro good
    induction bs generalizing s with
    | nil => exact ⟨rfl, ⟨s.opened, rfl⟩, fun k mem => absurd mem List.not_mem_nil⟩
    | cons b bs ih =>
      obtain ⟨cdr, opens⟩ := good b List.mem_cons_self
      obtain ⟨once, streams, stops⟩ :=
        ih (s.batch callbacks b).2 fun b' mem => good b' (List.mem_cons_of_mem b mem)
      exact ⟨(once_cons cdr opens).mpr once, (streams_cons cdr opens).mpr streams,
        stops_cons cdr opens stops⟩

/-- A batch of one START is given back unread. -/
theorem not_recorded : ¬ ∀ (callbacks : List (DbiType → Bool)) (bs : List Batch),
    (Log.mk none 0 0).Recorded callbacks bs := by
  intro whole
  have once := (whole [] [⟨[.start], false, true, by decide, by decide⟩]).once
  unfold Log.Once at once
  exact absurd once (by decide)

section Thread
variable {s : State} {batch run free : List Nat}

theorem work (opens : Bool) {cp : Option Nat} (inv : Inv s batch run free)
    (pc : s.pc = .walk cp) : ∃ t free',
      Run.exec step s (List.replicate (2 * batch.length) (.next opens)) = some t ∧
      Inv t [] run free' ∧ t.pc = .walk none ∧ t.fp = s.fp ∧ t.drained = s.drained ++ batch ∧
      t.queried = s.queried ++ if s.fp = .null then [] else batch.map (·, s.fp) := by
  induction batch generalizing s free cp with
  | nil =>
    have ended := inv.taken
    rw [pc] at ended
    cases ended
    exact ⟨s, free, rfl, inv, pc, rfl, by simp, by simp⟩
  | cons x batch ih =>
    have taken := inv.taken
    rw [pc] at taken
    obtain ⟨here, rest⟩ := chain_cons.mp taken
    obtain rfl : cp = some x := here
    obtain ⟨batch', visited⟩ := inv.visit pc
    obtain rfl : batch' = batch := visited.taken.unique rest
    obtain ⟨t, free', steps, kept, walk, fp, drained, queried⟩ := ih (visited.recycle rfl) rfl
    refine ⟨t, free', ?_, kept, walk, fp, ?_, ?_⟩
    · have twice : 2 * (x :: batch').length = 2 * batch'.length + 1 + 1 := by
        simp only [List.length_cons]
        omega
      have first : step s (.next opens) = some (s.visit x) := step_next.mpr (.visit x pc)
      rw [twice, List.replicate_succ, List.replicate_succ, Run.exec, first]
      exact steps
    · rw [drained]
      simp [State.recycle, State.visit]
    · rw [queried]
      by_cases null : s.fp = .null <;> simp [State.recycle, State.visit, null]

/-- The thread between two batches, beside the log of the batches it has worked through. -/
structure Log.Shows (l : Log) (s : State) : Prop where
  fp : s.fp = if l.fp = none then .null else .closed
  drained : l.drained = s.drained.length

def numbered : Event → Option Nat
  | .query q => some q.record
  | _ => none

theorem numbered_visits {callbacks : List (DbiType → Bool)} {n k : Nat} {types : List DbiType} :
    ((types.zipIdx k).flatMap (visit callbacks (some n))).filterMap numbered =
      List.range' k types.length := by
  induction types generalizing k with
  | nil => rfl
  | cons type types ih =>
    rw [List.length_cons, List.range'_succ, ← ih]
    rfl

theorem numbered_unread {callbacks : List (DbiType → Bool)} {k : Nat} {types : List DbiType} :
    ((types.zipIdx k).flatMap (visit callbacks none)).filterMap numbered = [] := by
  induction types generalizing k with
  | nil => rfl
  | cons type types ih => exact ih

theorem read_tail (xs ys : List Nat) :
    (List.range' xs.length ys.length).filterMap ((xs ++ ys)[·]?) = ys := by
  induction ys generalizing xs with
  | nil => rfl
  | cons y ys ih =>
    have here : (xs ++ y :: ys)[xs.length]? = some y := by simp
    have rest := ih (xs ++ [y])
    simp only [List.append_assoc, List.singleton_append, List.length_append,
      List.length_singleton] at rest
    rw [List.length_cons, List.range'_succ, List.filterMap_cons, here, rest]

theorem drain_null {l : Log} {b : Batch} (shows : l.Shows s) (full : s.runlist ≠ none)
    (cdr : b.cdr = s.cdr) : (s.drain b.opens).fp = .null ↔ (l.fopen b).2.1 = none := by
  cases late : s.cdr <;> cases opens : b.opens <;>
    simp [State.drain, Log.fopen, full, cdr, late, opens, shows.fp]

theorem numbered_batch (callbacks : List (DbiType → Bool)) (l : Log) (b : Batch) :
    (l.batch callbacks b).1.filterMap numbered =
      if (l.fopen b).2.1 = none then [] else List.range' l.drained b.types.length := by
  have start : (l.fopen b).1.filterMap numbered = [] := by
    cases cdr : b.cdr <;> cases opens : b.opens <;> simp [Log.fopen, cdr, opens, numbered]
  simp only [Log.batch, List.filterMap_append, start, List.nil_append]
  cases (l.fopen b).2.1 with
  | none => simp [numbered_unread, fclose]
  | some n => simp [numbered_visits, fclose, numbered]

/-- From a wait or the head of the loop to the next turn the thread does what the log says: it
queries the records that have a query there. -/
theorem batch_steps (callbacks : List (DbiType → Bool)) {l : Log} {b : Batch}
    (inv : Inv s [] run free) (idle : s.pc = .waiting ∨ s.pc = .head ∧ s.running = true)
    (shows : l.Shows s)
    (types : b.types = run.map s.type) (cdr : b.cdr = s.cdr) : ∃ t free',
      Run.exec step s (List.replicate (2 * run.length + 2) (.next b.opens)) = some t ∧
      Inv t [] [] free' ∧ t.pc = .head ∧ (l.batch callbacks b).2.Shows t ∧
      t.drained = s.drained ++ run ∧
      t.queried.map Prod.fst = s.queried.map Prod.fst ++
        ((l.batch callbacks b).1.filterMap numbered).filterMap (t.drained[·]?) := by
  have full : s.runlist ≠ none := by
    intro none
    have empty := inv.queued.unique (chain_nil.mpr none)
    exact b.filled (by rw [types, empty, List.map_nil])
  have first : step s (.next b.opens) = some (s.drain b.opens) :=
    step_next.mpr (.drain (idle.imp_right fun head => ⟨head.1, head.2, full⟩))
  have idle : s.pc = .head ∨ s.pc = .waiting := idle.symm.imp_left And.left
  obtain ⟨t, free', steps, kept, walk, fp, drained, queried⟩ :=
    work b.opens (inv.drain idle b.opens) rfl
  have last : step t (.next b.opens) = some t.turn := step_next.mpr (.turn walk)
  have null := drain_null shows full cdr
  have drained : t.drained = s.drained ++ run := drained
  have here := read_tail s.drained run
  refine ⟨t.turn, free', ?_, kept.quiet (by rw [walk]; rfl) (by rw [walk]; rfl), rfl, ?_,
    drained, ?_⟩
  · rw [List.replicate_succ, List.replicate_succ', Run.exec, first, Option.bind_some,
      Run.exec_append, steps, Option.bind_some, Run.exec, last]
    rfl
  · constructor
    · simp only [State.turn, fp, null]
      rfl
    · simp [State.turn, drained, Log.batch, shows.drained, types]
  · simp only [State.turn, numbered_batch, queried, drained, null]
    by_cases unread : (l.fopen b).2.1 = none
    · simp [unread, State.drain]
    · have ids : (run.map fun r => (r, (s.drain b.opens).fp)).map Prod.fst = run := by
        rw [List.map_map]
        exact List.map_id run
      simp only [unread, if_false, List.map_append, ids, shows.drained, types, List.length_map, here]
      rfl

end Thread

end DbiThread
end Bayonne
