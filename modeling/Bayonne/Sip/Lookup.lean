import Bayonne.Base.Run
import Bayonne.Sip

/-! An event thread looks its timeslot up in one section and posts to it in another. Any
number of event, timer and control threads take turns at the sections of `get`, `assign`,
`post`, `expire` and `release`; what an event thread does to its slot between `assign` and
the end of `invite` is a step as well. -/
namespace Bayonne

/-- Between its sections a thread has found a timeslot to post an event to, has been
assigned one, or has still to put one on the free list. With a found slot goes the call
that was looked up, with the sequence number the slot then had. -/
inductive EventThread (n : Nat) where
  | ready
  | found (i : Fin n) (cid : Nat) (sequence : UInt32) (event : EventId)
  | assigned (i : Fin n)
  | listing (i : Fin n) (path : Fin indexSize)
  deriving DecidableEq

/-- A post by an event thread: the call and sequence number of the slot at the lookup, the
same when the handler starts, and the event as the handler leaves it. -/
structure Posted (n : Nat) where
  slot : Fin n
  cid : Nat
  sequence : UInt32
  cidThen : Nat
  sequenceThen : UInt32
  effect : EventId
  deriving DecidableEq

def Posted.Faithful {n : Nat} (r : Posted n) : Prop :=
  r.effect ≠ .reject → r.cidThen = r.cid ∧ r.sequenceThen = r.sequence

instance {n : Nat} (r : Posted n) : Decidable r.Faithful := inferInstanceAs (Decidable (_ → _))

structure SipThreads (n : Nat) where
  sip : Sip n
  thread : Nat → EventThread n
  posts : List (Posted n)

/-- A section of a thread, or the end of `invite` for the slot it has been assigned. -/
inductive Section (n : Nat) where
  | get (t : Nat) (cid : Nat) (event : EventId)
  | post (t : Nat) (ans : Answers)
  | assign (t : Nat) (reg : Option Nat) (cid : Nat) (context : Option Context) (now : Now)
  | admitTo (t : Nat) (reg : SipRegistration) (ctx : Context) (m : Message) (tid did : Int)
      (out : Outside)
  | control (t : Nat) (i : Fin n) (event : EventId) (ans : Answers)
  | expire (t : Nat) (i : Fin n) (read : Timeout → Timeout) (ans : Answers)
  | list (t : Nat)

namespace SipThreads
variable {n : Nat}

def start (driver : SipDriver) (raw : Fin n → Raw) (leg : Fin n → Leg) : SipThreads n where
  sip := .start driver raw leg
  thread := fun _ => .ready
  posts := []

def sections (server : Server) (n : Nat) : Virtual n (Sip n) :=
  { Sip.hooks server n with
    release := fun s i ans _ => ((s.drop i).lift (·.releaseCall server i ans), .release) }

def move (m : SipThreads n) (t : Nat) (at' : EventThread n) : SipThreads n :=
  { m with thread := Function.update m.thread t at' }

def handled (m : SipThreads n) (t : Nat) (i : Fin n) (out : Sip n × EventId) : SipThreads n :=
  let slot := m.sip.pool.slot i
  let at' : EventThread n :=
    if out.2 = .release ∧ slot.handler ≠ .offline then .listing i (path slot.cid) else .ready
  { m with sip := out.1, thread := Function.update m.thread t at' }

def step (driver : SipDriver) (m : SipThreads n) : Section n → Option (SipThreads n)
  | .get t cid event =>
    match m.thread t with
    | .ready =>
      match m.sip.pool.get cid with
      | none => some m
      | some i => some (m.move t (.found i cid (m.sip.pool.slot i).sequence event))
    | _ => none
  | .post t ans =>
    match m.thread t with
    | .found i cid sequence event =>
      let out := (sections driver.server n).post m.sip i ans event
      let slot := m.sip.pool.slot i
      let posted : Posted n := ⟨i, cid, sequence, slot.cid, slot.sequence, out.2⟩
      some ({ m with posts := m.posts ++ [posted] }.handled t i out)
    | _ => none
  | .assign t reg cid context now =>
    match m.thread t with
    | .ready =>
      match m.sip.pool.assign driver.server reg .incoming cid now with
      | (none, _) => some m
      | (some i, p) =>
        some ({ m with sip := { m.sip with pool := p }.clearLeg i context }.move t (.assigned i))
    | _ => none
  | .admitTo t reg ctx msg tid did out =>
    match m.thread t with
    | .assigned i =>
      (m.sip.admitTo i reg ctx msg tid did out).map fun s => { m with sip := s }.move t .ready
    | _ => none
  | .control t i event ans =>
    match m.thread t with
    | .ready => some (m.handled t i ((sections driver.server n).post m.sip i ans event))
    | _ => none
  | .expire t i read ans =>
    match m.thread t with
    | .ready =>
      let v := sections driver.server n
      some (m.handled t i (v.expire (v.getExpires m.sip i read) i ans))
    | _ => none
  | .list t =>
    match m.thread t with
    | .listing i path =>
      some ({ m with sip := m.sip.lift (·.relist i path) }.move t .ready)
    | _ => none

/-- Every event that was acted on was acted on for the call it was looked up for. -/
def Faithful (m : SipThreads n) : Prop := ∀ r ∈ m.posts, r.Faithful

def Sought (m : SipThreads n) (i : Fin n) : Prop :=
  ∃ t cid sequence event, m.thread t = .found i cid sequence event

/-- The step hands out no slot that a thread has looked up and not posted to yet. -/
def Unsought (m : SipThreads n) : Section n → Prop
  | .assign .. => ∀ i, m.sip.pool.links.root .timeslots = some i → ¬ m.Sought i
  | _ => True

end SipThreads

namespace Sip
variable {n : Nat} {server : Server}

def calls (s : Sip n) (i : Fin n) : Nat × UInt32 :=
  ((s.pool.slot i).cid, (s.pool.slot i).sequence)

theorem calls_modify (s : Sip n) (i : Fin n) {f : Timeslot → Timeslot}
    (cid : ∀ t, (f t).cid = t.cid) (sequence : ∀ t, (f t).sequence = t.sequence) :
    (s.lift (·.modify i f)).calls = s.calls := by
  funext j
  by_cases hj : j = i
  · subst hj
    simp [calls, lift, cid, sequence]
  · simp [calls, lift, Pool.slot_modify_of_ne _ _ hj]

theorem calls_drop (s : Sip n) (i : Fin n) : (s.drop i).calls = s.calls := by
  have cleared : ∀ s' : Sip n, ((s'.setLeg i fun l => { l with tid := -1 }).lift
      (·.modify i (·.disarm))).calls = s'.calls := fun s' =>
    calls_modify (s'.setLeg i fun l => { l with tid := -1 }) i (fun _ => rfl) (fun _ => rfl)
  unfold drop
  split
  · exact (cleared _).trans (calls_modify _ i (f := fun t => { t with connected := false })
      (fun _ => rfl) (fun _ => rfl))
  · split
    · exact cleared _
    · exact cleared s

theorem calls_hangup (s : Sip n) (i : Fin n) : (s.hangup i).calls = s.calls :=
  (calls_modify (s.drop i) i (f := (·.disarm.disconnect)) (fun _ => rfl) (fun _ => rfl)).trans
    (calls_drop s i)

theorem calls_disconnect (s : Sip n) (i : Fin n) : (s.disconnect i).calls = s.calls :=
  calls_modify (s.setLeg i _) i (fun _ => rfl) (fun _ => rfl)

theorem calls_releaseCall (s : Sip n) (i : Fin n) (ans : Answers) :
    (s.lift (·.releaseCall server i ans)).calls = s.calls := by
  funext j
  by_cases hj : j = i
  · subst hj
    simp [calls, lift, Pool.releaseCall, Timeslot.setIdle, Timeslot.disarm, Timeslot.giveReason]
  · simp [calls, lift, Pool.releaseCall, Pool.slot_modify_of_ne _ _ hj]

theorem calls_admitTo {s s' : Sip n} {i : Fin n} {reg : SipRegistration} {ctx : Context}
    {m : Message} {tid did : Int} {out : Outside}
    (run : s.admitTo i reg ctx m tid did out = some s') : s'.calls = s.calls := by
  obtain ⟨check, _, run⟩ := Option.map_eq_some_iff.mp run
  cases check with
  | challenge =>
    simp only at run
    split at run <;> subst run <;> rfl
  | forbidden =>
    subst run
    rfl
  | passed =>
    obtain ⟨f, eq, spec⟩ := incoming_spec s i reg m tid did out
    have kept : (s.incoming i reg m tid did out).2.calls = s.calls := by
      rw [eq]
      exact calls_modify (s.setLeg i _) i (fun t => (spec t).1) (fun t => (spec t).2.1)
    have run : reject ctx tid (s.incoming i reg m tid did out) = s' := run
    generalize s.incoming i reg m tid did out = r at kept run
    obtain ⟨_ | status, r⟩ := r <;> subst run <;> exact kept

end Sip

namespace SipThreads
variable {n : Nat} {driver : SipDriver}

theorem calls_handle {server : Server} (s : Sip n) (i : Fin n) (ans : Answers) (event : EventId) :
    ((sections server n).handle s i ans event).1.calls = s.calls := by
  have idle : (s.lift (·.modify i (·.setIdle))).calls = s.calls :=
    Sip.calls_modify s i (fun _ => rfl) (fun _ => rfl)
  have released : ((s.drop i).lift (·.releaseCall server i ans)).calls = s.calls :=
    (Sip.calls_releaseCall (s.drop i) i ans).trans (Sip.calls_drop s i)
  cases h : (s.pool.slot i).handler with
  | idle =>
    simp only [Virtual.handle, sections, Sip.hooks, h]
    cases event with
    | shutdown => exact idle
    | _ => rfl
  | release =>
    simp only [Virtual.handle, sections, Sip.hooks, h]
    cases event with
    | shutdown => exact idle
    | timeout => exact released
    | release => exact released
    | _ => rfl
  | script =>
    simp only [Virtual.handle, sections, Sip.hooks, h]
    cases event with
    | release => exact released
    | drop => exact Sip.calls_disconnect s i
    | hangup => exact Sip.calls_hangup s i
    | timeout =>
      simp only [Virtual.scriptHandler, h, if_true]
      split
      · exact Sip.calls_hangup s i
      · exact Sip.calls_modify s i (fun _ => rfl) (fun _ => rfl)
    | _ => rfl
  | offline =>
    simp only [Virtual.handle, sections, Sip.hooks, h]
    cases event with
    | shutdown => exact idle
    | enable => exact idle
    | _ => rfl

theorem calls_post {server : Server} (s : Sip n) (i : Fin n) (ans : Answers) (event : EventId) :
    ((sections server n).post s i ans event).1.calls = s.calls := by
  have handled := @calls_handle n server (s.lift (·.lock i)) i ans event
  simp only [Virtual.post]
  split <;> exact handled

theorem calls_expire {server : Server} (s : Sip n) (i : Fin n) (read : Timeout → Timeout)
    (ans : Answers) :
    ((sections server n).expire ((sections server n).getExpires s i read) i ans).1.calls =
      s.calls := by
  have locked : ((sections server n).getExpires s i read).calls = s.calls :=
    Sip.calls_modify (s.lift (·.lock i)) i (fun _ => rfl) (fun _ => rfl)
  generalize (sections server n).getExpires s i read = q at locked
  have after : ∀ r : Sip n, (r.lift (·.modify i fun t => { t with expires := .inf })).calls =
      r.calls := fun r => Sip.calls_modify r i (fun _ => rfl) (fun _ => rfl)
  rw [← locked]
  simp only [Virtual.expire]
  by_cases due : (q.pool.slot i).expires = .after 0
  · have handled := @calls_handle n server q i ans .timeout
    have same : (((sections server n).pool q).slot i).expires = .after 0 := due
    simp only [same, if_true]
    split
    · exact (after _).trans handled
    · exact (after _).trans handled
  · have same : ¬ (((sections server n).pool q).slot i).expires = .after 0 := due
    simp only [same, if_false]
    exact after q

/-- What a thread has looked up is still the call of its slot. -/
structure Settled (m : SipThreads n) : Prop where
  found : ∀ {t i cid sequence event}, m.thread t = .found i cid sequence event →
    m.sip.calls i = (cid, sequence)
  posts : m.Faithful

theorem Settled.move {m : SipThreads n} (h : m.Settled) {q : Sip n} (calls : q.calls = m.sip.calls)
    {t : Nat} {at' : EventThread n}
    (found : ∀ i cid sequence event, at' = .found i cid sequence event →
      m.sip.calls i = (cid, sequence)) {posts : List (Posted n)}
    (faithful : ∀ r ∈ posts, r.Faithful) :
    (SipThreads.mk q (Function.update m.thread t at') posts).Settled := by
  refine ⟨fun {u i cid sequence event} at_u => ?_, faithful⟩
  simp only at at_u ⊢
  rw [calls]
  by_cases hu : u = t
  · subst hu
    rw [Function.update_self] at at_u
    exact found i cid sequence event at_u
  · rw [Function.update_of_ne hu] at at_u
    exact h.found at_u

theorem get_cid {p : Pool n} {cid : Nat} {i : Fin n} (found : p.get cid = some i) :
    (p.slot i).cid = cid := by
  simp only [Pool.get] at found
  split at found
  · cases found
  · rename_i j walk
    split at found
    · cases found
    · cases found
      simpa using Linked.find_some walk

theorem Settled.handled {m : SipThreads n} (h : m.Settled) {t : Nat} {i : Fin n}
    {out : Sip n × EventId} (calls : out.1.calls = m.sip.calls) : (m.handled t i out).Settled := by
  refine h.move calls (fun j cid sequence event at_j => ?_) h.posts
  split at at_j <;> cases at_j

theorem Settled.step {m m' : SipThreads n} (h : m.Settled) {a : Section n} (ok : m.Unsought a)
    (step : m.step driver a = some m') : m'.Settled := by
  cases a with
  | get t cid event =>
    cases at_t : m.thread t with
    | ready =>
      simp only [SipThreads.step, at_t] at step
      cases found : m.sip.pool.get cid with
      | none =>
        rw [found] at step
        cases step
        exact h
      | some i =>
        rw [found] at step
        cases step
        refine h.move rfl (fun j c q e at_j => ?_) h.posts
        cases at_j
        simp only [Sip.calls, get_cid found]
    | _ => simp [SipThreads.step, at_t] at step
  | post t ans =>
    cases at_t : m.thread t with
    | found i cid sequence event =>
      simp only [SipThreads.step, at_t] at step
      cases step
      have same := h.found at_t
      have posted : Settled { m with
          posts := m.posts ++ [⟨i, cid, sequence, (m.sip.pool.slot i).cid,
            (m.sip.pool.slot i).sequence,
            ((sections driver.server n).post m.sip i ans event).2⟩] } := by
        refine ⟨h.found, fun r hr => ?_⟩
        rcases List.mem_append.mp hr with old | new
        · exact h.posts r old
        · cases List.mem_singleton.mp new
          exact fun _ => ⟨congrArg Prod.fst same, congrArg Prod.snd same⟩
      exact posted.handled (calls_post m.sip i ans event)
    | _ => simp [SipThreads.step, at_t] at step
  | assign t reg cid context now =>
    cases at_t : m.thread t with
    | ready =>
      cases head : m.sip.pool.links.root .timeslots with
      | none =>
        simp only [SipThreads.step, at_t, Pool.assign, head] at step
        cases step
        exact h
      | some i =>
        simp only [SipThreads.step, at_t, Pool.assign, head] at step
        cases step
        refine ⟨fun {u j c q e} at_u => ?_, h.posts⟩
        simp only [SipThreads.move] at at_u
        by_cases hu : u = t
        · subst hu
          rw [Function.update_self] at at_u
          cases at_u
        · rw [Function.update_of_ne hu] at at_u
          -- the slot that is handed out is not the one looked up
          have other : j ≠ i := fun e' => ok i head ⟨u, c, q, e, e' ▸ at_u⟩
          have kept := h.found at_u
          simpa [Sip.calls, SipThreads.move, Sip.clearLeg, Sip.setLeg, Pool.slot_allocate,
            Function.update_of_ne other] using kept
    | _ => simp [SipThreads.step, at_t] at step
  | admitTo t reg ctx msg tid did out =>
    cases at_t : m.thread t with
    | assigned i =>
      simp only [SipThreads.step, at_t, Option.map_eq_some_iff] at step
      obtain ⟨s, run, rfl⟩ := step
      exact h.move (Sip.calls_admitTo run) (fun _ _ _ _ at_j => by cases at_j) h.posts
    | _ => simp [SipThreads.step, at_t] at step
  | control t i event ans =>
    cases at_t : m.thread t with
    | ready =>
      simp only [SipThreads.step, at_t] at step
      cases step
      exact h.handled (calls_post m.sip i ans event)
    | _ => simp [SipThreads.step, at_t] at step
  | expire t i read ans =>
    cases at_t : m.thread t with
    | ready =>
      simp only [SipThreads.step, at_t] at step
      cases step
      exact h.handled (calls_expire m.sip i read ans)
    | _ => simp [SipThreads.step, at_t] at step
  | list t =>
    cases at_t : m.thread t with
    | listing i path =>
      simp only [SipThreads.step, at_t] at step
      cases step
      have kept : (m.sip.lift (·.relist i path)).calls = m.sip.calls := rfl
      exact h.move kept (fun _ _ _ _ at_j => by cases at_j) h.posts
    | _ => simp [SipThreads.step, at_t] at step

/-- In every interleaving that hands out no slot between the lookup of a call and the post
to it, no event is acted on for another call. -/
theorem faithful_of_unsought (driver : SipDriver) (raw : Fin n → Raw) (leg : Fin n → Leg)
    (as : List (Section n))
    (unsought : Run.Along (step driver) Unsought (start driver raw leg) as) :
    Run.Always (step driver) Faithful (start driver raw leg) as := by
  have settled : (start driver raw leg).Settled :=
    ⟨fun at_t => (by cases at_t), fun _ sent => (by cases sent)⟩
  exact Run.Always.of_invariant (fun _ _ _ h ok step => Settled.step h ok step)
    (fun _ h => h.posts) settled unsought

theorem faithful_of_unsought_one :
    Run.Always (step ⟨.sample, [], none⟩) Faithful
      (start ⟨.sample, [], none⟩ (fun _ => ⟨0, .incoming, none, none, none, none⟩)
        fun _ => ⟨none, -1, -1⟩ : SipThreads 1)
      [.assign 0 none 7 none (tick 0), .get 1 7 .release, .post 1 (.at (tick 1) true), .list 1] := by
  refine faithful_of_unsought _ _ _ _ ⟨?_, fun _ _ => ⟨trivial, fun _ _ => ⟨trivial, fun _ _ =>
    ⟨trivial, fun _ _ => trivial⟩⟩⟩⟩
  rintro i _ ⟨t, cid, sequence, event, sought⟩
  cases sought

instance (m : SipThreads n) : Decidable m.Faithful :=
  inferInstanceAs (Decidable (∀ r ∈ m.posts, _))

def lateRelease (i : Fin n) : List (Section n) :=
  [.assign 0 none 7 none (tick 0), .get 1 7 .release,
    .expire 2 i (fun _ => .after 0) (.at (tick 1) true), .list 2,
    .assign 3 none 8 none (tick 2), .post 1 (.at (tick 3) true)]

/-- A late event releases another call. -/
theorem not_faithful :
    ¬ Run.Always (step ⟨.sample, [], none⟩) Faithful
      (start ⟨.sample, [], none⟩ (fun _ => ⟨0, .incoming, none, none, none, none⟩)
        fun _ => ⟨none, -1, -1⟩ : SipThreads 1) (lateRelease 0) := by
  intro always
  have last := always.last rfl
  revert last
  decide

end SipThreads

end Bayonne
