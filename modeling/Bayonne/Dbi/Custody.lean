import Bayonne.Dbi.Shutdown

/-! The memory of the call detail records: who may write to a record, and what of it comes to
`Driver::query`, whatever the queue loses. -/
namespace Bayonne
namespace DbiThread
open Linked

/-- A `dbi` without its link. `optional` is the address of the tuples. -/
structure Record where
  type : DbiType
  uuid : String
  source : String
  target : String
  script : String
  reason : String
  optional : Option Nat
  timeslot : Nat
  sequence : Nat
  starting : Int
  duration : Nat
  deriving DecidableEq

def Record.cleared (r : Record) : Record where
  type := r.type
  uuid := ""
  source := ""
  target := ""
  script := ""
  reason := ""
  optional := none
  timeslot := 0
  sequence := 0
  starting := 0
  duration := 0

/-- The queue and the memory of the records. `sent` lists what the records held when they were
posted, `shown` what they held when the dbi thread came to them, with its stream, and `freed` the
tuples given back. -/
structure Custody where
  queue : State
  memory : Nat → Record
  sent : List Record
  shown : List (Record × File)
  freed : List Nat

/-- `fresh` is what the memory of a new record holds, `record` what a thread makes of its own. -/
inductive CustodyAction where
  | get (t : Nat) (fresh : Record)
  | fill (t r : Nat) (record : Record)
  | post (t r : Nat)
  | stop
  | next (opens : Bool)

namespace Custody

def got (s : Custody) (fresh : Record) : Nat → Record :=
  match s.queue.freelist with
  | some r => Function.update s.memory r (s.memory r).cleared
  | none => Function.update s.memory s.queue.made fresh

/-- The dbi thread comes to a record, which it hands to `Driver::query` unless its stream is null,
and frees the tuples. -/
def query (s : Custody) (cp : Nat) : Custody :=
  { s with
    shown := s.shown ++ [(s.memory cp, s.queue.fp)]
    freed := s.freed ++ (s.memory cp).optional.toList }

def step (s : Custody) : CustodyAction → Option Custody
  | .get t fresh => some { s with queue := s.queue.get t, memory := s.got fresh }
  | .fill t r record =>
    if s.queue.holder r = some t then
      some { s with memory := Function.update s.memory r record }
    else none
  | .post t r =>
    (DbiThread.step s.queue (.post t r (s.memory r).type)).map fun queue =>
      { s with queue := queue, sent := s.sent ++ [s.memory r] }
  | .stop => some { s with queue := { s.queue with running := false } }
  | .next opens =>
    (DbiThread.step s.queue (.next opens)).map fun queue =>
      match s.queue.pc with
      | .walk (some cp) => { s.query cp with queue := queue }
      | _ => { s with queue := queue }

def start (memory : Nat → Record) : Custody where
  queue := DbiThread.start
  memory := memory
  sent := []
  shown := []
  freed := []

end Custody

/-- The invariant of the queue, with the records that are still known as its history. -/
def Sound (q : State) (batch run free : List Nat) : Prop :=
  Inv { q with posted := q.drained ++ batch ++ run } batch run free

section Queue
variable {q u : State} {batch run free : List Nat}

theorem Sound.of (h : Inv u batch run free) (same : u = { q with posted := u.posted }) :
    Sound q batch run free := by
  have drained : u.drained = q.drained := by rw [same]
  have posted : u.posted = q.drained ++ batch ++ run := by rw [← h.order, drained]
  rw [Sound, ← posted, ← same]
  exact h

theorem Sound.chains (h : Sound q batch run free) : Chain q.next q.pc.rest batch ∧
    Chain q.next q.runlist run ∧ Chain q.next q.freelist free := ⟨h.taken, h.queued, h.spare⟩

theorem Sound.get (h : Sound q batch run free) (t : Nat) :
    ∃ free', Sound (q.get t) batch run free' := by
  obtain ⟨free', inv⟩ := Inv.get h t
  refine ⟨free', .of inv ?_⟩
  cases head : q.freelist <;> simp [State.get, head]

/-- A post leaves some of the run list, in its order, and the new record behind it. -/
theorem Sound.post (h : Sound q batch run free) {t r : Nat} (type : DbiType)
    (holds : q.holder r = some t) :
    ∃ pre, Sound (q.post r type) batch (pre ++ [r]) free ∧ pre.Sublist run := by
  by_cases short : ∀ l, q.runlist = some l → q.next l = none
  · refine ⟨run, .of (Inv.post h type holds short) ?_, .refl run⟩
    cases last : q.runlast <;> by_cases stop : type = .stop <;> simp [State.post, last, stop]
  · simp only [not_forall] at short
    obtain ⟨l, head, more⟩ := short
    have queued : Chain q.next q.runlist run := h.queued
    rw [head] at queued
    cases run with
    | nil => cases queued
    | cons x run =>
      obtain ⟨here, rest⟩ := chain_cons.mp queued
      cases here
      refine ⟨[l], .of (Inv.post_long h type holds) ?_, ?_⟩
      · cases last : q.runlast <;> by_cases stop : type = .stop <;> simp [State.post, last, stop]
      · exact List.Sublist.cons_cons l (List.nil_sublist run)

theorem Sound.quiet (h : Sound q batch run free) {running : Bool} {fp : File} {pc : Pc}
    (rest : pc.rest = q.pc.rest) (hand : pc.hand = q.pc.hand) :
    Sound { q with running := running, fp := fp, pc := pc } batch run free :=
  Inv.quiet h rest hand

theorem Sound.drain (h : Sound q batch run free) (idle : q.pc = .head ∨ q.pc = .waiting)
    (opens : Bool) : batch = [] ∧ Sound (q.drain opens) run [] free := by
  have taken : Chain q.next q.pc.rest batch := h.taken
  have none : q.pc.rest = none := by rcases idle with e | e <;> rw [e] <;> rfl
  rw [none] at taken
  cases taken
  exact ⟨rfl, .of (Inv.drain h idle opens) rfl⟩

theorem Sound.visit (h : Sound q batch run free) {cp : Nat} (pc : q.pc = .walk (some cp)) :
    ∃ batch', batch = cp :: batch' ∧ Sound (q.visit cp) batch' run free := by
  obtain ⟨batch', inv⟩ := Inv.visit h pc
  refine ⟨batch', ?_, .of inv rfl⟩
  have order : q.drained ++ [cp] ++ batch' ++ run = q.drained ++ batch ++ run := inv.order
  rw [List.append_assoc q.drained] at order
  exact (List.append_cancel_left (List.append_cancel_right order)).symm

theorem Sound.recycle (h : Sound q batch run free) {cp : Nat} {next : Option Nat}
    (pc : q.pc = .recycle cp next) : Sound (q.recycle cp next) batch run (cp :: free) :=
  .of (Inv.recycle h pc) rfl

theorem Sound.got (h : Sound q batch run free) : ∀ x ∈ batch ++ run,
    x ≠ q.made ∧ q.freelist ≠ some x := by
  intro x mem
  have kept : x ∈ State.kept { q with posted := q.drained ++ batch ++ run } batch run free := by
    simp only [State.kept, List.append_assoc, List.mem_append] at mem ⊢
    exact .inr (mem.elim .inl fun h => .inr (.inl h))
  refine ⟨Nat.ne_of_lt (h.made x kept), fun head => ?_⟩
  have spare : Chain q.next q.freelist free := h.spare
  rw [head] at spare
  cases free with
  | nil => cases spare
  | cons y free =>
    obtain ⟨here, -⟩ := chain_cons.mp spare
    cases here
    have all := h.nodup
    simp only [State.kept, List.nodup_append, List.mem_append, List.mem_cons] at all mem
    grind

theorem Sound.held (h : Sound q batch run free) {r t : Nat} (holds : q.holder r = some t) :
    r ∉ q.pc.hand ++ batch ++ run ++ free := (Inv.held h r t holds).1

end Queue

namespace Custody
variable {s t : Custody}

/-- The records on their way to the query hold what they held when they were posted. -/
structure Guarded (s : Custody) (batch run free : List Nat) : Prop where
  sound : Sound s.queue batch run free
  sealed : (s.shown.map Prod.fst ++ (batch ++ run).map s.memory).Sublist s.sent
  freed : s.freed = (s.shown.map Prod.fst).filterMap Record.optional

section Step
variable {batch run free : List Nat}

theorem memory_apart {memory : Nat → Record} {r : Nat} {record : Record} {l : List Nat}
    (apart : r ∉ l) : l.map (Function.update memory r record) = l.map memory :=
  List.map_congr_left fun _ mem => Function.update_of_ne (ne_of_mem_of_not_mem mem apart) _ _

theorem Guarded.get (h : Guarded s batch run free) (t : Nat) (fresh : Record) :
    ∃ free', Guarded { s with queue := s.queue.get t, memory := s.got fresh } batch run free' := by
  obtain ⟨free', sound⟩ := h.sound.get t
  have same : (batch ++ run).map (s.got fresh) = (batch ++ run).map s.memory := by
    unfold got
    split
    · rename_i r head
      exact memory_apart fun mem => (h.sound.got r mem).2 head
    · exact memory_apart fun mem => (h.sound.got _ mem).1 rfl
  refine ⟨free', sound, ?_, h.freed⟩
  show (s.shown.map Prod.fst ++ (batch ++ run).map (s.got fresh)).Sublist s.sent
  rw [same]
  exact h.sealed

theorem Guarded.fill (h : Guarded s batch run free) {t r : Nat} (record : Record)
    (holds : s.queue.holder r = some t) :
    Guarded { s with memory := Function.update s.memory r record } batch run free := by
  refine ⟨h.sound, ?_, h.freed⟩
  have apart : r ∉ batch ++ run := fun mem => h.sound.held holds (by
    simp only [List.append_assoc, List.mem_append] at mem ⊢
    exact .inr (mem.elim .inl fun h => .inr (.inl h)))
  show (_ ++ (batch ++ run).map (Function.update s.memory r record)).Sublist s.sent
  rw [memory_apart apart]
  exact h.sealed

theorem Guarded.post (h : Guarded s batch run free) {t r : Nat}
    (holds : s.queue.holder r = some t) : ∃ run', Guarded
      { s with queue := s.queue.post r (s.memory r).type, sent := s.sent ++ [s.memory r] }
      batch run' free := by
  obtain ⟨pre, sound, kept⟩ := h.sound.post (s.memory r).type holds
  refine ⟨pre ++ [r], sound, ?_, h.freed⟩
  show (s.shown.map Prod.fst ++ (batch ++ (pre ++ [r])).map s.memory).Sublist
    (s.sent ++ [s.memory r])
  have less : (s.shown.map Prod.fst ++ (batch ++ pre).map s.memory).Sublist s.sent :=
    ((List.Sublist.refl _).append (((List.Sublist.refl batch).append kept).map _)).trans h.sealed
  have last : s.shown.map Prod.fst ++ (batch ++ (pre ++ [r])).map s.memory =
      s.shown.map Prod.fst ++ (batch ++ pre).map s.memory ++ [s.memory r] := by
    simp
  rw [last]
  exact less.append (List.Sublist.refl _)

theorem Guarded.visit (h : Guarded s batch run free) {cp : Nat}
    (pc : s.queue.pc = .walk (some cp)) : ∃ batch',
      Guarded { s.query cp with queue := s.queue.visit cp } batch' run free := by
  obtain ⟨batch', rfl, sound⟩ := h.sound.visit pc
  refine ⟨batch', sound, ?_, ?_⟩
  · show ((s.shown ++ [(s.memory cp, s.queue.fp)]).map Prod.fst ++
      (batch' ++ run).map s.memory).Sublist s.sent
    have sealed := h.sealed
    rw [List.map_append, List.append_assoc]
    exact sealed
  · show s.freed ++ (s.memory cp).optional.toList =
      ((s.shown ++ [(s.memory cp, s.queue.fp)]).map Prod.fst).filterMap Record.optional
    rw [List.map_append, List.filterMap_append, ← h.freed]
    cases tuples : (s.memory cp).optional <;> simp [tuples]

theorem Guarded.queued (h : Guarded s batch run free) {q : State} {batch' run' free' : List Nat}
    (sound : Sound q batch' run' free') (same : batch' ++ run' = batch ++ run) :
    Guarded { s with queue := q } batch' run' free' :=
  ⟨sound, same ▸ h.sealed, h.freed⟩

theorem step_guarded {a : CustodyAction} (h : ∃ batch run free, Guarded s batch run free)
    (moved : s.step a = some t) : ∃ batch run free, Guarded t batch run free := by
  obtain ⟨batch, run, free, h⟩ := h
  cases a with
  | get t' fresh =>
    cases moved
    obtain ⟨free', after⟩ := h.get t' fresh
    exact ⟨batch, run, free', after⟩
  | fill t' r record =>
    obtain ⟨holds, same⟩ := Option.ite_none_right_eq_some.mp moved
    cases same
    exact ⟨batch, run, free, h.fill record holds⟩
  | post t' r =>
    obtain ⟨q, posts, rfl⟩ := Option.map_eq_some_iff.mp moved
    obtain ⟨holds, same⟩ := Option.ite_none_right_eq_some.mp posts
    cases same
    obtain ⟨run', after⟩ := h.post holds
    exact ⟨batch, run', free, after⟩
  | stop =>
    cases moved
    exact ⟨batch, run, free, h.queued (h.sound.quiet rfl rfl) rfl⟩
  | next opens =>
    obtain ⟨q, moves, rfl⟩ := Option.map_eq_some_iff.mp moved
    cases step_next.mp moves with
    | up pc | quit pc down | wait pc up empty =>
      rw [pc]
      exact ⟨batch, run, free, h.queued (h.sound.quiet (by rw [pc]; rfl) (by rw [pc]; rfl)) rfl⟩
    | drain idle =>
      have idle' : s.queue.pc = .head ∨ s.queue.pc = .waiting := idle.symm.imp_left And.left
      obtain ⟨rfl, sound⟩ := h.sound.drain idle' opens
      have after := h.queued sound (List.append_nil run)
      rcases idle' with pc | pc <;> rw [pc] <;> exact ⟨run, [], free, after⟩
    | visit cp pc =>
      rw [pc]
      obtain ⟨batch', after⟩ := h.visit pc
      exact ⟨batch', run, free, after⟩
    | turn pc =>
      rw [pc]
      exact ⟨batch, run, free, h.queued (h.sound.quiet (by rw [pc]; rfl) (by rw [pc]; rfl)) rfl⟩
    | recycle cp next pc =>
      rw [pc]
      exact ⟨batch, run, cp :: free, h.queued (h.sound.recycle pc) rfl⟩

end Step

theorem start_guarded (memory : Nat → Record) : Guarded (start memory) [] [] [] where
  sound := .of (q := DbiThread.start) start_inv rfl
  sealed := List.nil_sublist _
  freed := rfl

theorem exec_guarded {memory : Nat → Record} {as : List CustodyAction}
    (run : Run.exec step (start memory) as = some s) : ∃ batch run free, Guarded s batch run free :=
  Run.invariant (I := fun s => ∃ batch run free, Guarded s batch run free)
    (fun _ _ _ => step_guarded) ⟨[], [], [], start_guarded memory⟩ run

/-- Whatever the threads do, the run list, the free list and the chain that the dbi thread works
through are chains without a record in common, and a record that a thread has from `get` is on
none of them and not in the hand of the dbi thread. -/
theorem held_apart (memory : Nat → Record) (as : List CustodyAction)
    (run : Run.exec step (start memory) as = some s) : ∃ batch run free,
      Chain s.queue.next s.queue.pc.rest batch ∧ Chain s.queue.next s.queue.runlist run ∧
      Chain s.queue.next s.queue.freelist free ∧
      (s.queue.pc.hand ++ batch ++ run ++ free).Nodup ∧
      ∀ r t, s.queue.holder r = some t → r ∉ s.queue.pc.hand ++ batch ++ run ++ free := by
  obtain ⟨batch, run, free, h⟩ := exec_guarded run
  obtain ⟨taken, queued, spare⟩ := h.sound.chains
  exact ⟨batch, run, free, taken, queued, spare, h.sound.nodup, fun r t => h.sound.held⟩

/-- The dbi thread comes to every record that was posted at most once, in the order of the posts and
with what it held then, though the thread that posted it may have got its memory again; and if no
two of them have the same tuples, no tuples are freed twice. -/
theorem shown_sent (memory : Nat → Record) (as : List CustodyAction)
    (run : Run.exec step (start memory) as = some s) :
    (s.shown.map Prod.fst).Sublist s.sent ∧
      ((s.sent.filterMap Record.optional).Nodup → s.freed.Nodup) := by
  obtain ⟨batch, run, free, h⟩ := exec_guarded run
  have shown : (s.shown.map Prod.fst).Sublist s.sent :=
    (List.sublist_append_left _ _).trans h.sealed
  refine ⟨shown, fun apart => ?_⟩
  rw [h.freed]
  exact apart.sublist (shown.filterMap _)

def numbered (n : Nat) : Record :=
  ⟨.stop, "", "", "", "", "", some n, 0, n, 0, 0⟩

def queried : List CustodyAction :=
  [.get 0 (numbered 1), .post 0 0, .next true, .next true, .next true]

/-- Two records are posted and taken; the first is got again and a third is posted while the thread
has still to come to the second. -/
def recycled : List CustodyAction :=
  [.next true, .get 0 (numbered 1), .get 1 (numbered 2), .post 0 0, .post 1 1, .next true,
    .next true, .next true, .get 2 (numbered 3), .get 1 (numbered 4), .post 1 2]

theorem held_apart_recycled : ∃ s, Run.exec step (start numbered) recycled = some s ∧
    s.queue.pc = .walk (some 1) ∧ s.queue.runlist = some 2 ∧ s.queue.holder 0 = some 2 ∧
    ∃ batch run free, Chain s.queue.next s.queue.pc.rest batch ∧
      Chain s.queue.next s.queue.runlist run ∧ Chain s.queue.next s.queue.freelist free ∧
      (s.queue.pc.hand ++ batch ++ run ++ free).Nodup ∧
      0 ∉ s.queue.pc.hand ++ batch ++ run ++ free := by
  have ends : (Run.exec step (start numbered) recycled).map (fun s =>
      (s.queue.pc, s.queue.runlist, s.queue.holder 0)) = some (.walk (some 1), some 2, some 2) := by
    decide +kernel
  obtain ⟨s, done, fields⟩ := Option.map_eq_some_iff.mp ends
  simp only [Prod.mk.injEq] at fields
  obtain ⟨pc, runlist, holder⟩ := fields
  obtain ⟨batch, run, free, taken, queued, spare, apart, held⟩ :=
    held_apart numbered recycled done
  exact ⟨s, done, pc, runlist, holder, batch, run, free, taken, queued, spare, apart,
    held 0 2 holder⟩

theorem shown_sent_queried : ∃ s, Run.exec step (start numbered) queried = some s ∧
    s.shown.map Prod.fst = [numbered 1] ∧ s.sent = [numbered 1] ∧
    (s.shown.map Prod.fst).Sublist s.sent ∧ s.freed.Nodup := by
  refine ⟨_, rfl, rfl, rfl, ?_⟩
  obtain ⟨shown, freed⟩ := shown_sent numbered queried rfl
  exact ⟨shown, freed (List.nodup_singleton 1)⟩

end Custody

end DbiThread

end Bayonne
