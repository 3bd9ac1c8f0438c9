import Bayonne.Background
import Bayonne.Base.Run
import Bayonne.Sip

/-! The timers of the SIP timeslots and the background thread that looks after them. A
section under a mutex is one step, and so is every other statement; the clock moves
between them. -/
namespace Bayonne

/-- A timer that runs. Every arm has a number of its own. -/
structure Shot where
  id : Nat
  deadline : Nat
  deriving DecidableEq

structure Station where
  handler : Handler
  timer : Option Shot
  deriving DecidableEq

namespace Station

def arm (t : Station) (shot : Shot) : Station := { t with timer := some shot }

def disarm (t : Station) : Station := { t with timer := none }

def drop (t : Station) : Station := t.disarm

def disconnect (t : Station) : Station := { t.disarm with handler := .release }

def hangup (t : Station) : Station := { t.drop.disarm with handler := .release }

def setIdle (t : Station) : Station := disarm { t with handler := .idle }

def release (t : Station) : Station := t.drop.setIdle

variable (t : Station) (stepped : Bool) (shot : Shot)

/-- The handlers say whether they armed the timer, with `shot`. `stepped` is what
`interp::step` returns. -/
def scriptHandler (event : EventId) : Station × Bool :=
  match event with
  | .release => (t.release, false)
  | .drop => (t.disconnect, false)
  | .hangup => (t.hangup, false)
  | .timeout =>
    if ¬ stepped then (t.hangup, false)
    else if t.handler = .script then (t.arm shot, true)
    else (t, false)
  | _ => (t, false)

def offlineHandler (event : EventId) : Station :=
  match event with
  | .shutdown | .enable => t.setIdle
  | _ => t

def idleHandler (event : EventId) : Station :=
  match event with
  | .shutdown => t.setIdle
  | _ => t

def releaseHandler (event : EventId) : Station :=
  match event with
  | .shutdown => t.setIdle
  | .timeout | .release => t.release
  | _ => t

def handle (event : EventId) : Station × Bool :=
  match t.handler with
  | .idle => (t.idleHandler event, false)
  | .release => (t.releaseHandler event, false)
  | .script => t.scriptHandler stepped shot event
  | .offline => (t.offlineHandler event, false)

def due (now : Nat) : Bool := t.timer.any fun x => x.deadline ≤ now

/-- `getExpires` and `expire`, under one lock: a timer that has run out is reset and the
handler gets its timeout. -/
def visit (now : Nat) : Station × Bool :=
  if t.due now then t.disarm.handle stepped shot .timeout else (t, false)

/-- What a handler can do: leave the timeslot alone, end its script and its timer, or arm
the timer. A script is never left alone by a timeout. -/
theorem handle_cases (event : EventId) :
    t.handle stepped shot event = (t, false) ∧ (event = .timeout → t.handler ≠ .script) ∨
      (∃ u, t.handle stepped shot event = (u, false) ∧ u.timer = none ∧ u.handler ≠ .script) ∨
      t.handle stepped shot event = (t.arm shot, true) := by
  obtain ⟨handler, timer⟩ := t
  cases handler with
  | idle =>
    cases event with
    | shutdown => exact .inr (.inl ⟨_, rfl, rfl, nofun⟩)
    | _ => exact .inl ⟨rfl, fun _ => nofun⟩
  | release =>
    cases event with
    | shutdown | timeout | release => exact .inr (.inl ⟨_, rfl, rfl, nofun⟩)
    | _ => exact .inl ⟨rfl, fun _ => nofun⟩
  | offline =>
    cases event with
    | shutdown | enable => exact .inr (.inl ⟨_, rfl, rfl, nofun⟩)
    | _ => exact .inl ⟨rfl, fun _ => nofun⟩
  | script =>
    cases event with
    | release | drop | hangup => exact .inr (.inl ⟨_, rfl, rfl, nofun⟩)
    | timeout =>
      cases stepped with
      | false => exact .inr (.inl ⟨_, rfl, rfl, nofun⟩)
      | true => exact .inr (.inr rfl)
    | _ => exact .inl ⟨rfl, nofun⟩

end Station

section Faithful
variable {n : Nat}

/-- A station shows the handler of a timeslot and whether its timer is armed. -/
def Timeslot.Shows (t : Timeslot) (u : Station) : Prop :=
  t.handler = u.handler ∧ (t.timer = .inf ↔ u.timer = none)

theorem slot_ended (server : Server) (s : Sip n) (i : Fin n) (ans : Answers) :
    ((((s.drop i).lift (·.release server i ans)).pool.slot i).Shows ⟨.idle, none⟩) ∧
      ((s.disconnect i).pool.slot i).Shows ⟨.release, none⟩ ∧
      ((s.hangup i).pool.slot i).Shows ⟨.release, none⟩ := by
  refine ⟨⟨?_, ?_⟩, ⟨?_, ?_⟩, ⟨?_, ?_⟩⟩
  · simp [Sip.lift, Pool.slot_release, Timeslot.setIdle, Timeslot.disarm]
  · simp [Sip.lift, Pool.slot_release, Timeslot.setIdle, Timeslot.disarm]
  · simp [Sip.disconnect, Sip.lift, Sip.setLeg, Timeslot.disarm, Timeslot.disconnect]
  · simp [Sip.disconnect, Sip.lift, Sip.setLeg, Timeslot.disarm, Timeslot.disconnect]
  · simp [Sip.hangup, Sip.lift, Timeslot.disarm, Timeslot.disconnect]
  · simp [Sip.hangup, Sip.lift, Timeslot.disarm, Timeslot.disconnect]

theorem slot_setIdle (s : Sip n) (i : Fin n) :
    ((s.lift (·.modify i (·.setIdle))).pool.slot i).Shows ⟨.idle, none⟩ ∧
      ((s.lift (·.enable i)).pool.slot i).Shows ⟨.idle, none⟩ := by
  refine ⟨⟨?_, ?_⟩, ⟨?_, ?_⟩⟩ <;>
    simp [Sip.lift, Pool.enable, Timeslot.setIdle, Timeslot.disarm]

theorem handle_shows (server : Server) (s : Sip n) (i : Fin n) (ans : Answers) (event : EventId)
    (finite : ans.stepping ≠ .inf) {u : Station} (shot : Shot) (h : (s.pool.slot i).Shows u) :
    (((Sip.hooks server n).handle s i ans event).1.pool.slot i).Shows
      (u.handle ans.stepped shot event).1 := by
  obtain ⟨released, disconnected, hungUp⟩ := slot_ended server s i ans
  obtain ⟨idle, enabled⟩ := slot_setIdle s i
  obtain ⟨handler, timer⟩ := u
  have same : (s.pool.slot i).handler = handler := h.1
  have hooked : ((Sip.hooks server n).pool s).slot i = s.pool.slot i := rfl
  unfold Virtual.handle Station.handle
  rw [hooked, same]
  cases handler with
  | idle =>
    cases event with
    | shutdown => exact idle
    | _ => exact h
  | release =>
    cases event with
    | shutdown => exact idle
    | timeout | release => exact released
    | _ => exact h
  | offline =>
    cases event with
    | shutdown => exact idle
    | enable => exact enabled
    | _ => exact h
  | script =>
    cases event with
    | release => exact released
    | drop => exact disconnected
    | hangup => exact hungUp
    | timeout =>
      show ((if ¬ ans.stepped then (s.hangup i, EventId.timeout)
        else if (s.pool.slot i).handler = .script then
          (s.lift (·.modify i (·.arm ans.stepping)), .timeout)
        else (s, .timeout)).1.pool.slot i).Shows
        (Station.scriptHandler ⟨.script, timer⟩ ans.stepped shot .timeout).1
      unfold Station.scriptHandler
      cases ans.stepped with
      | false => exact hungUp
      | true =>
        rw [same]
        refine ⟨?_, ?_⟩
        · simp [Sip.lift, Timeslot.arm, Station.arm, same]
        · simp [Sip.lift, Timeslot.arm, Station.arm, finite]
    | _ => exact h

theorem ended_shows (out : Sip n × EventId) {i : Fin n} {u : Station}
    (h : (out.1.pool.slot i).Shows u) :
    ((if out.2 = .release then out.1.lift (·.modify i fun t => { t with expires := .inf })
      else (out.1.lift (·.modify i fun t => { t with expires := .inf })).lift
        (·.unlock i)).pool.slot i).Shows u := by
  split
  · exact ⟨by simpa [Sip.lift] using h.1, by simpa [Sip.lift] using h.2⟩
  · exact ⟨by simpa [Sip.lift] using h.1, by simpa [Sip.lift] using h.2⟩

theorem visit_shows (server : Server) (s : Sip n) (i : Fin n) (ans : Answers)
    (finite : ans.stepping ≠ .inf) (read : Timeout → Timeout) {u : Station} (now : Nat)
    (shot : Shot) (h : (s.pool.slot i).Shows u)
    (reading : read (s.pool.slot i).timer = .after 0 ↔ u.due now = true) :
    (((Sip.hooks server n).expire ((Sip.hooks server n).getExpires s i read) i ans).1.pool.slot
      i).Shows (u.visit ans.stepped shot now).1 := by
  have timeslot : ((Sip.hooks server n).pool ((Sip.hooks server n).getExpires s i read)).slot i =
      (s.pool.slot i).readTimer read := by
    simp [Virtual.getExpires, Sip.hooks, Sip.lift]
  apply ended_shows
  unfold Station.visit
  cases due : u.due now with
  | true =>
    have run : read (s.pool.slot i).timer = .after 0 := reading.mpr due
    have zero : ((s.pool.slot i).readTimer read).expires = .after 0 := run
    rw [timeslot, if_pos zero, if_pos rfl]
    refine handle_shows server _ i ans .timeout finite shot ?_
    show (((Sip.hooks server n).pool ((Sip.hooks server n).getExpires s i read)).slot i).Shows _
    rw [timeslot]
    refine ⟨h.1, ?_⟩
    simp [Timeslot.readTimer, run, Station.disarm]
  | false =>
    have runs : read (s.pool.slot i).timer ≠ .after 0 := fun run => by
      rw [reading.mp run] at due
      cases due
    have nonzero : ((s.pool.slot i).readTimer read).expires ≠ .after 0 := runs
    rw [timeslot, if_neg nonzero, if_neg Bool.false_ne_true]
    show (((Sip.hooks server n).pool ((Sip.hooks server n).getExpires s i read)).slot i).Shows _
    rw [timeslot]
    refine ⟨h.1, ?_⟩
    simpa [Timeslot.readTimer, runs] using h.2

end Faithful

/-- What an event thread does with a timeslot outside its mutex: `incoming` arms it for
the invitation and, if it has a script, for the script. An arm that has set the timer has
still to notify the background thread. -/
inductive Errand (n : Nat) where
  | idle
  | incoming (i : Fin n)
  | notifying (i : Fin n) (id : Nat) (last : Bool)
  | routing (i : Fin n)
  | scripting (i : Fin n)
  | arming (i : Fin n)

def Errand.On {n : Nat} (i : Fin n) : Errand n → Prop
  | .idle => False
  | .incoming j | .notifying j _ _ | .routing j | .scripting j | .arming j => j = i

/-- The timeslots, the background thread with what `run` keeps during a scan (`left` are
the timeslots still to visit, `timeout` the least time read), and any number of event
threads. `read` is what the last scan read of each timeslot, and of which arm, `ended` when
it ended, `fired` the arms whose timeouts were delivered and `stopped` those whose timer
was set again or disarmed. -/
structure Timers (n : Nat) where
  bk : Background
  now : Nat
  expires : Option Nat
  left : List (Fin n)
  timeout : Option Nat
  slot : Fin n → Station
  task : Nat → Errand n
  made : Nat
  read : Fin n → Option (Nat × Nat)
  ended : Nat
  fired : List Nat
  stopped : List Nat

/-- `stepping` is the driver's stepping when a timer is armed with it, a finite one. -/
inductive TimersMove (n : Nat) where
  | tick (ms : Nat)
  | background (stepped : Bool) (stepping : Nat)
  | stop
  | notify
  | allocate (k : Nat) (i : Fin n)
  | incoming (k : Nat) (script : Bool) (stepping : Nat)
  | post (i : Fin n) (event : EventId) (stepped : Bool) (stepping : Nat)

namespace Timers
variable {n : Nat}

def start (n : Nat) : Timers n where
  bk := .start
  now := 0
  expires := none
  left := []
  timeout := none
  slot := fun _ => ⟨.idle, none⟩
  task := fun _ => .idle
  made := 0
  read := fun _ => none
  ended := 0
  fired := []
  stopped := []

variable (s : Timers n)

def shot (ms : Nat) : Shot := ⟨s.made, s.now + ms⟩

def setTask (k : Nat) (task : Errand n) : Timers n :=
  { s with task := Function.update s.task k task }

/-- A timeslot is written; a timer that ran and runs no more was stopped. -/
def write (i : Fin n) (t : Station) : Timers n :=
  { s with
    slot := Function.update s.slot i t
    stopped :=
      match (s.slot i).timer with
      | some x => if t.timer = some x then s.stopped else s.stopped ++ [x.id]
      | none => s.stopped }

def notify : Option (Timers n) := s.bk.notify.map fun bk => { s with bk := bk }

def count : Timers n := { s with made := s.made + 1 }

def setTimer (i : Fin n) (ms : Nat) : Timers n :=
  (s.write i ((s.slot i).arm (s.shot ms))).count

def visit (i : Fin n) (stepped : Bool) (stepping : Nat) : Timers n :=
  let out := (s.slot i).visit stepped (s.shot stepping) s.now
  match (s.slot i).timer with
  | none => { s with read := Function.update s.read i none }
  | some x =>
    if x.deadline ≤ s.now then
      { s with
        slot := Function.update s.slot i out.1
        bk := { s.bk with signalled := s.bk.signalled || out.2 }
        made := if out.2 then s.made + 1 else s.made
        read := Function.update s.read i none
        fired := s.fired ++ [x.id] }
    else
      { s with
        read := Function.update s.read i (some (x.id, x.deadline - s.now))
        timeout := some (s.timeout.elim (x.deadline - s.now) (min (x.deadline - s.now))) }

def background (stepped : Bool) (stepping : Nat) : Timers n :=
  let next := s.bk.step (s.expires.any (· ≤ s.now))
  match s.bk.pc with
  | .begin => { s with bk := next, expires := none }
  | .scanUnlock => { s with bk := next, left := (List.finRange n).reverse, timeout := none }
  | .scan =>
    match s.left with
    | [] => { s with bk := next, expires := s.timeout.map (s.now + ·), ended := s.now }
    | i :: left => { s with left := left }.visit i stepped stepping
  | _ => { s with bk := next }

/-- The next statement of an errand. `script` says whether `incoming` finds a script that
it can attach. -/
def incoming (k : Nat) (script : Bool) (stepping : Nat) : Option (Timers n) :=
  match s.task k with
  | .idle => none
  | .incoming i => some ((s.setTimer i 16000).setTask k (.notifying i s.made false))
  | .notifying i _ last =>
    s.notify.map fun s => s.setTask k (if last then .idle else .routing i)
  | .routing i => some (s.setTask k (if script then .scripting i else .idle))
  | .scripting i =>
    some ((s.write i { s.slot i with handler := .script }).setTask k (.arming i))
  | .arming i => some ((s.setTimer i stepping).setTask k (.notifying i s.made true))

def post (i : Fin n) (event : EventId) (stepped : Bool) (stepping : Nat) : Option (Timers n) :=
  let out := (s.slot i).handle stepped (s.shot stepping) event
  if out.2 then (s.write i out.1).count.notify else some (s.write i out.1)

def step (s : Timers n) : TimersMove n → Option (Timers n)
  | .tick ms => some { s with now := s.now + ms }
  | .background stepped stepping => some (s.background stepped stepping)
  | .stop => some { s with bk := { s.bk with running := false } }
  | .notify => s.notify
  | .allocate k i =>
    -- the handler that `allocate` gives an idle timeslot, before `incoming` runs
    match s.task k with
    | .idle =>
      some ((s.write i
        { s.slot i with
          handler := if (s.slot i).handler = .idle then .release else (s.slot i).handler }).setTask
            k (.incoming i))
    | _ => none
  | .incoming k script stepping => s.incoming k script stepping
  | .post i event stepped stepping => s.post i event stepped stepping

/-- What the visit of the scan does: it finds no timer, reads one that runs, or delivers a
timeout whose handler ends the timer or arms it again. -/
theorem visit_cases (i : Fin n) (stepped : Bool) (stepping : Nat) :
    (s.slot i).timer = none ∧
        s.visit i stepped stepping = { s with read := Function.update s.read i none } ∨
      (∃ x, (s.slot i).timer = some x ∧ s.visit i stepped stepping =
        { s with
          read := Function.update s.read i (some (x.id, x.deadline - s.now))
          timeout := some (s.timeout.elim (x.deadline - s.now) (min (x.deadline - s.now))) }) ∨
      (∃ x u, (s.slot i).timer = some x ∧ u.timer = none ∧ u.handler ≠ .script ∧
        s.visit i stepped stepping =
          { s with
            slot := Function.update s.slot i u
            read := Function.update s.read i none
            fired := s.fired ++ [x.id] }) ∨
      ∃ x, (s.slot i).timer = some x ∧ s.visit i stepped stepping =
        { s with
          slot := Function.update s.slot i ((s.slot i).arm (s.shot stepping))
          bk := { s.bk with signalled := true }
          made := s.made + 1
          read := Function.update s.read i none
          fired := s.fired ++ [x.id] } := by
  unfold visit
  cases timer : (s.slot i).timer with
  | none => exact .inl ⟨rfl, rfl⟩
  | some x =>
    refine .inr ?_
    dsimp only
    split
    · rename_i run
      have due : (s.slot i).due s.now = true := by
        unfold Station.due
        rw [timer]
        exact decide_eq_true run
      refine .inr ?_
      unfold Station.visit
      rw [if_pos due]
      rcases (s.slot i).disarm.handle_cases stepped (s.shot stepping) .timeout with
        ⟨alone, other⟩ | ⟨u, ended, off, other⟩ | armed
      · rw [alone]
        exact .inl ⟨x, (s.slot i).disarm, rfl, rfl, other rfl, by simp⟩
      · rw [ended]
        exact .inl ⟨x, u, rfl, off, other, by simp⟩
      · rw [armed]
        exact .inr ⟨x, rfl, by simp [Station.arm, Station.disarm]⟩
    · exact .inl ⟨x, rfl, rfl⟩

theorem background_cases (stepped : Bool) (stepping : Nat) :
    let next := s.bk.step (s.expires.any (· ≤ s.now))
    let t := s.background stepped stepping
    s.bk.pc = .begin ∧ t = { s with bk := next, expires := none } ∨
      s.bk.pc = .scanUnlock ∧
        t = { s with bk := next, left := (List.finRange n).reverse, timeout := none } ∨
      s.bk.pc = .scan ∧ s.left = [] ∧
        t = { s with bk := next, expires := s.timeout.map (s.now + ·), ended := s.now } ∨
      (∃ i left, s.bk.pc = .scan ∧ s.left = i :: left ∧
        t = { s with left := left }.visit i stepped stepping) ∨
      (s.bk.pc ≠ .begin ∧ s.bk.pc ≠ .scanUnlock ∧ s.bk.pc ≠ .scan) ∧ t = { s with bk := next } := by
  intro next t
  cases pc : s.bk.pc with
  | begin =>
    refine .inl ⟨rfl, ?_⟩
    simp only [t, background, pc]
    rfl
  | scanUnlock =>
    refine .inr (.inl ⟨rfl, ?_⟩)
    simp only [t, background, pc]
    rfl
  | scan =>
    cases left : s.left with
    | nil =>
      refine .inr (.inr (.inl ⟨rfl, rfl, ?_⟩))
      simp only [t, background, pc, left]
      rfl
    | cons i rest =>
      refine .inr (.inr (.inr (.inl ⟨i, rest, rfl, rfl, ?_⟩)))
      simp only [t, background, pc, left]
  | _ =>
    refine .inr (.inr (.inr (.inr ⟨⟨nofun, nofun, nofun⟩, ?_⟩)))
    simp only [t, background, pc]
    rfl

theorem post_cases {i : Fin n} {event : EventId} {stepped : Bool} {stepping : Nat} {t : Timers n}
    (h : s.post i event stepped stepping = some t) :
    t = s.write i (s.slot i) ∨
      (∃ u, u.timer = none ∧ u.handler ≠ .script ∧ t = s.write i u) ∨
      (s.write i ((s.slot i).arm (s.shot stepping))).count.notify = some t := by
  unfold post at h
  rcases (s.slot i).handle_cases stepped (s.shot stepping) event with
    ⟨alone, -⟩ | ⟨u, ended, off, other⟩ | armed
  · rw [alone] at h
    exact .inl (Option.some.inj h).symm
  · rw [ended] at h
    exact .inr (.inl ⟨u, off, other, (Option.some.inj h).symm⟩)
  · rw [armed] at h
    exact .inr (.inr h)

theorem notify_some {t : Timers n} (h : s.notify = some t) :
    s.bk.pc.locks = false ∧ t = { s with bk := { s.bk with signalled := true } } := by
  obtain ⟨bk, signal, rfl⟩ := Option.map_eq_some_iff.mp h
  obtain ⟨free, rfl⟩ := Background.notify_some signal
  exact ⟨free, rfl⟩

end Timers

end Bayonne
