import Bayonne.Background
import Bayonne.Base.Run
import Bayonne.Base.Tally

/-! The end of the SIP threads: `thread::shutdown` against the event threads and the
background thread, every statement on a shared flag a step. -/
namespace Bayonne

/-- The statement of `thread::run` that is next. `test` is the second test of
`shutdown_flag`, `have` the count of an event in hand, `handling` all up to its release. -/
inductive EventPc where
  | begin | top | get | test | have | handling | stop | done
  deriving DecidableEq, Repr

structure EventLoop where
  pc : EventPc
  sevent : Bool
  deriving DecidableEq

def EventLoop.next (t : EventLoop) (flag got : Bool) : EventLoop :=
  match t.pc with
  | .begin => { t with pc := .top }
  | .top => { t with pc := if flag then .test else .get }
  | .get => ⟨.test, got⟩
  | .test => { t with pc := if flag then .stop else if t.sevent then .have else .top }
  | .have => { t with pc := .handling }
  | .handling => { t with pc := .top }
  | .stop => { t with pc := .done }
  | .done => t

/-- The statement of `thread::shutdown` that is next, with those of `Background::shutdown`
and of its `notify` in their place. -/
inductive ShutdownPc where
  | begin | background | stopping | notifying | spinning | draining
  | releaseTcp | releaseUdp | releaseTls | joining | done
  deriving DecidableEq, Repr

namespace ShutdownPc

def releases : ShutdownPc → Bool
  | .releaseTcp | .releaseUdp | .releaseTls | .joining | .done => true
  | _ => false

end ShutdownPc

structure Closing (n : Nat) where
  bk : Background
  shutdownFlag : Bool
  activeCount : Nat
  startupCount : Nat
  shutdownCount : Nat
  thread : Fin n → EventLoop
  pc : ShutdownPc

/-- Who takes a step: the background thread, which reads whether its timer is due, any
thread that calls `Background::notify`, an event thread, which gets an event or none, and
the thread that shuts down. -/
inductive ClosingMove (n : Nat) where
  | background (due : Bool)
  | notify
  | event (i : Fin n) (got : Bool)
  | shutdown

namespace Closing
variable {n : Nat}

def start (n : Nat) : Closing n where
  bk := .start
  shutdownFlag := false
  activeCount := 0
  startupCount := 0
  shutdownCount := 0
  thread := fun _ => ⟨.begin, false⟩
  pc := .begin

def eventStep (s : Closing n) (i : Fin n) (got : Bool) : Closing n :=
  let pc := (s.thread i).pc
  { s with
    thread := Function.update s.thread i ((s.thread i).next s.shutdownFlag got)
    startupCount := if pc = .begin then s.startupCount + 1 else s.startupCount
    activeCount :=
      if pc = .have then s.activeCount + 1
      else if pc = .handling then s.activeCount - 1
      else s.activeCount
    shutdownCount := if pc = .stop then s.shutdownCount + 1 else s.shutdownCount }

def shutdownStep (s : Closing n) : Option (Closing n) :=
  match s.pc with
  | .begin => some { s with shutdownFlag := true, pc := .background }
  | .background => some { s with pc := if s.bk.running then .stopping else .draining }
  | .stopping => some { s with bk := { s.bk with running := false }, pc := .notifying }
  | .notifying => s.bk.notify.map fun bk => { s with bk := bk, pc := .spinning }
  | .spinning => some { s with pc := if s.bk.signalled then .spinning else .draining }
  | .draining => some { s with pc := if s.activeCount = 0 then .releaseTcp else .draining }
  | .releaseTcp => some { s with pc := .releaseUdp }
  | .releaseUdp => some { s with pc := .releaseTls }
  | .releaseTls => some { s with pc := .joining }
  | .joining =>
    some { s with pc := if s.shutdownCount < s.startupCount then .joining else .done }
  | .done => some s

def step (s : Closing n) : ClosingMove n → Option (Closing n)
  | .background due =>
    -- the lock is its own when it needs it: `notify` is one step under it
    some { s with bk := s.bk.step due }
  | .notify => s.bk.notify.map fun bk => { s with bk := bk }
  | .event i got => some (s.eventStep i got)
  | .shutdown => s.shutdownStep

/-- An event thread between its test of the flag with an event in hand and the end of
handling that event. -/
def Busy (t : EventLoop) : Prop := t.pc = .have ∨ t.pc = .handling

/-- No context is released while a thread may still use it. -/
def Safe (s : Closing n) : Prop :=
  s.pc.releases = true → (∀ i, ¬ Busy (s.thread i)) ∧ s.bk.pc = .done

/-- What `thread::shutdown` relies on: the background thread has started when
`Background::shutdown` asks, it does not wait when it is notified of its end, and no event
thread is about to count an event when the count is read as zero. -/
def Heard (s : Closing n) : ClosingMove n → Prop
  | .shutdown =>
    (s.pc = .background → s.bk.running = true) ∧
    (s.pc = .notifying → s.bk.pc ≠ .waiting) ∧
    (s.pc = .draining → s.activeCount = 0 → ∀ i, (s.thread i).pc ≠ .have)
  | _ => True

/-- The background thread on its way out: what is left of its loop cannot take the signal
that announces the end. -/
def Leaving (b : Background) : Prop :=
  b.running = false ∧ (b.pc = .done ∨ b.signalled = true ∧
    b.pc ∈ [.scan, .automatic, .head, .locked, .leaving, .clearing])

structure Handshake (s : Closing n) : Prop where
  active : s.activeCount = Tally.tally fun i => (s.thread i).pc = .handling
  flag : s.pc ≠ .begin → s.shutdownFlag = true
  begun : s.bk.pc = .begin → s.bk.running = false
  stopping : s.pc = .stopping → s.bk.pc ≠ .begin
  notifying : s.pc = .notifying → s.bk.running = false ∧ s.bk.pc ≠ .begin
  spinning : s.pc = .spinning → Leaving s.bk
  draining : s.pc = .draining → s.bk.pc = .done
  released : s.pc.releases = true → (∀ i, ¬ Busy (s.thread i)) ∧ s.bk.pc = .done

variable {s t : Closing n}

theorem start_handshake : Handshake (start n) where
  active := by
    symm
    exact Tally.tally_eq_zero fun i => nofun
  flag := fun h => absurd rfl h
  begun := fun _ => rfl
  stopping := nofun
  notifying := nofun
  spinning := nofun
  draining := nofun
  released := nofun

theorem leaving_step {b : Background} (h : Leaving b) (due : Bool) : Leaving (b.step due) := by
  obtain ⟨stopped, gone | ⟨signal, at_⟩⟩ := h
  · rw [Background.step, gone]
    exact ⟨stopped, .inl gone⟩
  · simp only [List.mem_cons, List.not_mem_nil, or_false] at at_
    rcases at_ with h | h | h | h | h | h <;> rw [Background.step, h]
    · exact ⟨stopped, .inr ⟨signal, by simp⟩⟩
    · exact ⟨stopped, .inr ⟨signal, by simp⟩⟩
    · exact ⟨stopped, .inr ⟨signal, by simp⟩⟩
    · refine ⟨stopped, .inr ⟨signal, ?_⟩⟩
      simp [stopped]
    · exact ⟨stopped, .inr ⟨signal, by simp⟩⟩
    · exact ⟨stopped, .inl rfl⟩

theorem leaving_notify {b : Background} (h : Leaving b) :
    Leaving { b with signalled := true } := by
  obtain ⟨stopped, gone | ⟨signal, place⟩⟩ := h
  · exact ⟨stopped, .inl gone⟩
  · exact ⟨stopped, .inr ⟨rfl, place⟩⟩

theorem next_handling (t : EventLoop) (flag got : Bool) :
    (t.next flag got).pc = .handling ↔ t.pc = .have := by
  obtain ⟨pc, sevent⟩ := t
  cases pc <;> cases flag <;> cases sevent <;> simp [EventLoop.next]

theorem next_idle {t : EventLoop} (idle : ¬ Busy t) (got : Bool) : ¬ Busy (t.next true got) := by
  obtain ⟨pc, sevent⟩ := t
  unfold Busy at idle ⊢
  cases pc <;> simp_all [EventLoop.next]

theorem eventStep_other (s : Closing n) {i j : Fin n} (got : Bool) (hj : j ≠ i) :
    (s.eventStep i got).thread j = s.thread j :=
  Function.update_of_ne hj _ _

theorem eventStep_self (s : Closing n) (i : Fin n) (got : Bool) :
    (s.eventStep i got).thread i = (s.thread i).next s.shutdownFlag got :=
  Function.update_self _ _ _

theorem eventStep_active {i : Fin n} (got : Bool)
    (h : s.activeCount = Tally.tally fun i => (s.thread i).pc = .handling) :
    (s.eventStep i got).activeCount =
      Tally.tally fun j => ((s.eventStep i got).thread j).pc = .handling := by
  have others : ∀ j, j ≠ i → ((s.thread j).pc = .handling ↔
      ((s.eventStep i got).thread j).pc = .handling) := fun j hj => by
    rw [eventStep_other s got hj]
  have here : ((s.eventStep i got).thread i).pc = .handling ↔ (s.thread i).pc = .have := by
    rw [eventStep_self, next_handling]
  show (if (s.thread i).pc = .have then s.activeCount + 1
    else if (s.thread i).pc = .handling then s.activeCount - 1 else s.activeCount) = _
  by_cases counts : (s.thread i).pc = .have
  · have more := Tally.tally_add others (by rw [counts]; nofun) (here.mpr counts)
    rw [if_pos counts, more, h]
  · rw [if_neg counts]
    by_cases ends : (s.thread i).pc = .handling
    · have less := Tally.tally_add (fun j hj => (others j hj).symm)
        (fun still => counts (here.mp still)) ends
      rw [if_pos ends, h, less, Nat.add_sub_cancel]
    · rw [if_neg ends, h]
      exact Tally.tally_same others (iff_of_false ends fun still => counts (here.mp still))

theorem eventStep_busy {i : Fin n} (got : Bool) (flag : s.shutdownFlag = true)
    (idle : ∀ j, ¬ Busy (s.thread j)) (j : Fin n) : ¬ Busy ((s.eventStep i got).thread j) := by
  by_cases hj : j = i
  · rw [hj, eventStep_self, flag]
    exact next_idle (idle i) got
  · rw [eventStep_other s got hj]
    exact idle j

theorem step_background {due : Bool} (h : Handshake s) :
    Handshake { s with bk := s.bk.step due } where
  active := h.active
  flag := h.flag
  begun := fun start => absurd start (Background.step_ne_begin _ _)
  stopping := fun _ => Background.step_ne_begin _ _
  notifying := fun here =>
    ⟨(Background.step_running (h.notifying here).2 due).trans (h.notifying here).1,
      Background.step_ne_begin _ _⟩
  spinning := fun here => leaving_step (h.spinning here) due
  draining := fun here => by
    show (s.bk.step due).pc = .done
    rw [Background.step_done (h.draining here)]
    exact h.draining here
  released := fun here => by
    refine ⟨(h.released here).1, ?_⟩
    show (s.bk.step due).pc = .done
    rw [Background.step_done (h.released here).2]
    exact (h.released here).2

theorem step_notify {bk : Background} (h : Handshake s) (notified : s.bk.notify = some bk) :
    Handshake { s with bk := bk } := by
  obtain ⟨-, rfl⟩ := Background.notify_some notified
  exact ⟨h.active, h.flag, h.begun, h.stopping, h.notifying,
    fun here => leaving_notify (h.spinning here), h.draining, h.released⟩

theorem step_event {i : Fin n} {got : Bool} (h : Handshake s) :
    Handshake (s.eventStep i got) where
  active := eventStep_active got h.active
  flag := h.flag
  begun := h.begun
  stopping := h.stopping
  notifying := h.notifying
  spinning := h.spinning
  draining := h.draining
  released := fun here => by
    have flag : s.shutdownFlag = true := h.flag fun start => by
      have began : s.pc.releases = true := here
      rw [start] at began
      cases began
    exact ⟨eventStep_busy got flag (h.released here).1, (h.released here).2⟩

theorem drained (h : Handshake s) (here : s.pc = .draining) (zero : s.activeCount = 0)
    (counted : ∀ i, (s.thread i).pc ≠ .have) :
    (∀ i, ¬ Busy (s.thread i)) ∧ s.bk.pc = .done := by
  refine ⟨fun i busy => ?_, h.draining here⟩
  rcases busy with counts | handles
  · exact counted i counts
  · have some := Tally.tally_pos (p := fun i => (s.thread i).pc = .handling) handles
    rw [← h.active, zero] at some
    exact Nat.lt_irrefl 0 some

theorem told (h : Handshake s) (here : s.pc = .notifying) (free : s.bk.pc.locks = false)
    (awake : s.bk.pc ≠ .waiting) : Leaving { s.bk with signalled := true } := by
  obtain ⟨stopped, began⟩ := h.notifying here
  refine ⟨stopped, ?_⟩
  cases place : s.bk.pc with
  | begin => exact absurd place began
  | waiting => exact absurd place awake
  | done => exact .inl rfl
  | scan | automatic | head | clearing => exact .inr ⟨rfl, by simp⟩
  | _ =>
    rw [place] at free
    cases free

theorem step_shutdown (h : Handshake s) (heard : Heard s .shutdown)
    (run : s.shutdownStep = some t) : Handshake t := by
  obtain ⟨started, awake, counted⟩ := heard
  unfold shutdownStep at run
  cases here : s.pc with
  | begin =>
    rw [here] at run
    cases run
    exact ⟨h.active, fun _ => rfl, h.begun, nofun, nofun, nofun, nofun, nofun⟩
  | background =>
    have flag := h.flag (by rw [here]; nofun)
    have running := started here
    rw [here] at run
    simp only [running, if_true] at run
    cases run
    refine ⟨h.active, fun _ => flag, h.begun, fun _ start => ?_, nofun, nofun, nofun, nofun⟩
    rw [h.begun start] at running
    cases running
  | stopping =>
    have flag := h.flag (by rw [here]; nofun)
    rw [here] at run
    cases run
    exact ⟨h.active, fun _ => flag, fun _ => rfl, nofun, fun _ => ⟨rfl, h.stopping here⟩, nofun,
      nofun, nofun⟩
  | notifying =>
    have flag := h.flag (by rw [here]; nofun)
    rw [here] at run
    obtain ⟨bk, notified, rfl⟩ := Option.map_eq_some_iff.mp run
    obtain ⟨free, rfl⟩ := Background.notify_some notified
    exact ⟨h.active, fun _ => flag, h.begun, nofun, nofun,
      fun _ => told h here free (awake here), nofun, nofun⟩
  | spinning =>
    have flag := h.flag (by rw [here]; nofun)
    have leaving := h.spinning here
    rw [here] at run
    cases signal : s.bk.signalled with
    | true =>
      simp only [signal, if_true] at run
      cases run
      exact ⟨h.active, fun _ => flag, h.begun, nofun, nofun, fun _ => leaving, nofun, nofun⟩
    | false =>
      simp only [signal] at run
      cases run
      refine ⟨h.active, fun _ => flag, h.begun, nofun, nofun, nofun, fun _ => ?_, nofun⟩
      rcases leaving.2 with gone | ⟨told, -⟩
      · exact gone
      · rw [signal] at told
        cases told
  | draining =>
    have flag := h.flag (by rw [here]; nofun)
    rw [here] at run
    by_cases zero : s.activeCount = 0
    · have safe := drained h here zero (counted here zero)
      simp only [zero, if_true] at run
      cases run
      exact ⟨zero ▸ h.active, fun _ => flag, h.begun, nofun, nofun, nofun, nofun, fun _ => safe⟩
    · simp only [zero, if_false] at run
      cases run
      exact ⟨h.active, fun _ => flag, h.begun, nofun, nofun, nofun, fun _ => h.draining here,
        nofun⟩
  | releaseTcp | releaseUdp | releaseTls | done =>
    have flag := h.flag (by rw [here]; nofun)
    have safe := h.released (by rw [here]; rfl)
    rw [here] at run
    cases run
    exact ⟨h.active, fun _ => flag, h.begun, by simp [here], by simp [here], by simp [here],
      by simp [here], fun _ => safe⟩
  | joining =>
    have flag := h.flag (by rw [here]; nofun)
    have safe := h.released (by rw [here]; rfl)
    rw [here] at run
    cases run
    refine ⟨h.active, fun _ => flag, h.begun, ?_, ?_, ?_, ?_, fun _ => safe⟩ <;>
      exact fun there => by split at there <;> cases there

theorem step_handshake {m : ClosingMove n} (h : Handshake s) (heard : Heard s m)
    (run : s.step m = some t) : Handshake t := by
  cases m with
  | background due =>
    cases run
    exact step_background h
  | notify =>
    obtain ⟨bk, notified, rfl⟩ := Option.map_eq_some_iff.mp run
    exact step_notify h notified
  | event i got =>
    cases run
    exact step_event h
  | shutdown => exact step_shutdown h heard run

/-- In every run of the SIP threads whose shutdown is heard, no context is released while
an event is in hand or the background thread is in its loop. -/
theorem safe_of_heard (n : Nat) {moves : List (ClosingMove n)}
    (heard : Run.Along step Heard (start n) moves) :
    Run.Always step Safe (start n) moves :=
  Run.Always.of_invariant (fun _ _ _ h ok run => step_handshake h ok run)
    (fun _ h => h.released) start_handshake heard

instance (s : Closing n) : ∀ m, Decidable (Heard s m)
  | .shutdown => inferInstanceAs (Decidable (_ ∧ _ ∧ _))
  | .background _ | .notify | .event .. => isTrue trivial

def scanning {n : Nat} : List (ClosingMove n) :=
  List.replicate 7 (.background true) ++ List.replicate 4 .shutdown ++
    List.replicate 6 (.background true) ++ List.replicate 2 .shutdown

/-- The background thread waits while the server shuts down: it takes the signal that
announces the end for one more scan. -/
def asleep {n : Nat} : List (ClosingMove n) :=
  List.replicate 5 (.background false) ++ List.replicate 4 .shutdown ++
    List.replicate 4 (.background false) ++ List.replicate 2 .shutdown

theorem safe_of_heard_scanning :
    (Run.exec step (start 1) scanning).map (·.pc) = some .releaseTcp ∧
      Run.Always step Safe (start 1) scanning :=
  ⟨by decide, safe_of_heard 1 (by decide)⟩

/-- The first context is released while the background thread scans the timeslots. -/
theorem not_safe_asleep : ¬ Run.Always step Safe (start 1) asleep := by
  intro always
  cases run : Run.exec step (start 1) asleep with
  | none => exact absurd (congrArg Option.isSome run) (by decide)
  | some u =>
    have reached : (Run.exec step (start 1) asleep).map (fun u => (u.pc, u.bk.pc)) =
        some (.releaseTcp, .scan) := by decide
    rw [run] at reached
    obtain ⟨releases, scans⟩ := Prod.mk.inj (Option.some.inj reached)
    have gone := (always.last run (by rw [releases]; rfl)).2
    rw [scans] at gone
    cases gone

end Closing

end Bayonne
