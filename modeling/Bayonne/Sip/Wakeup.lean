import Bayonne.Sip.Timers

/-! No timer of a SIP timeslot is forgotten: the background thread wakes up for every arm,
each arm has at most one timeout, and a running script is always armed. -/
namespace Bayonne
namespace Timers
variable {n : Nat} {s t : Timers n}

def Calling (s : Timers n) (id : Nat) : Prop := ∃ k i last, s.task k = .notifying i id last

/-- The background thread cannot wait past an arm: it is signalled, or the scan has still to
come to the timeslot, or has read this arm and will not wait longer than that. -/
def Covered (s : Timers n) (i : Fin n) (id : Nat) : Prop :=
  s.bk.signalled = true ∨ s.bk.pc = .done ∨ s.bk.pc = .scanUnlock ∨
    s.bk.pc = .scan ∧
      (i ∈ s.left ∨ ∃ m r, s.timeout = some m ∧ s.read i = some (id, r) ∧ m ≤ r) ∨
    s.bk.pc ≠ .scan ∧
      ∃ e r, s.expires = some e ∧ s.read i = some (id, r) ∧ e ≤ s.ended + r

structure Watched (s : Timers n) : Prop where
  covered : ∀ i x, (s.slot i).timer = some x → Calling s x.id ∨ Covered s i x.id
  unsignalled : s.bk.pc = .idleClear → s.bk.signalled = false
  unset : s.bk.pc = .begin → s.expires = none

/-- The arms have different numbers, and one whose timer runs was neither fired nor
stopped. -/
structure Numbered (timer : Fin n → Option Shot) (made : Nat) (fired stopped : List Nat) :
    Prop where
  below : ∀ i x, timer i = some x → x.id < made
  live : ∀ i x, timer i = some x → x.id ∉ fired ∧ x.id ∉ stopped
  own : ∀ i j x y, timer i = some x → timer j = some y → x.id = y.id → i = j
  past : ∀ id, id ∈ fired ∨ id ∈ stopped → id < made
  once : fired.Nodup
  apart : ∀ id ∈ fired, id ∉ stopped

/-- A script without a timer is about to be armed. -/
def Scripted (slot : Fin n → Station) (task : Nat → Errand n) : Prop :=
  ∀ i, (slot i).handler = .script → (slot i).timer = none → ∃ k, task k = .arming i

/-- The three properties of the timers: no arm that has returned is slept through, each arm
is fired at most once and not after it was stopped, and a script always has its timer
armed outside of the operations on its timeslot. -/
structure Scheduled (s : Timers n) : Prop where
  wakes : s.bk.pc = .about → ∀ i x, (s.slot i).timer = some x → ¬ Calling s x.id →
    s.bk.signalled = true ∨
      ∃ e r, s.expires = some e ∧ s.read i = some (x.id, r) ∧ e ≤ s.ended + r
  once : s.fired.Nodup
  never : ∀ id ∈ s.fired, id ∉ s.stopped
  armed : ∀ i, (s.slot i).handler = .script → (∀ k, ¬ (s.task k).On i) →
    (s.slot i).timer ≠ none

theorem slot_write (s : Timers n) (i : Fin n) (u : Station) : (s.write i u).slot i = u :=
  Function.update_self _ _ _

theorem slot_write_of_ne (s : Timers n) {i j : Fin n} (u : Station) (hj : j ≠ i) :
    (s.write i u).slot j = s.slot j :=
  Function.update_of_ne hj _ _

section Numbers
variable {timer : Fin n → Option Shot} {made : Nat} {fired stopped : List Nat} {i : Fin n}
  {x : Shot}

theorem Numbered.others (h : Numbered timer made fired stopped) (hx : timer i = some x) {j y}
    (hy : Function.update timer i none j = some y) : timer j = some y ∧ y.id ≠ x.id := by
  have hj : j ≠ i := by
    rintro rfl
    rw [Function.update_self] at hy
    cases hy
  rw [Function.update_of_ne hj] at hy
  exact ⟨hy, fun same => hj (h.own j i y x hy hx same)⟩

theorem Numbered.fire (h : Numbered timer made fired stopped) (hx : timer i = some x) :
    Numbered (Function.update timer i none) made (fired ++ [x.id]) stopped where
  below j y hy := h.below j y (h.others hx hy).1
  live j y hy := by
    obtain ⟨old, other⟩ := h.others hx hy
    refine ⟨?_, (h.live j y old).2⟩
    simpa using ⟨(h.live j y old).1, other⟩
  own j k y z hy hz same := h.own j k y z (h.others hx hy).1 (h.others hx hz).1 same
  past id hid := by
    rcases hid with hid | hid
    · rcases List.mem_append.mp hid with old | new
      · exact h.past id (.inl old)
      · rw [List.mem_singleton.mp new]
        exact h.below i x hx
    · exact h.past id (.inr hid)
  once := by
    refine List.nodup_append.mpr ⟨h.once, List.nodup_singleton _, ?_⟩
    intro a old b new same
    rw [List.mem_singleton.mp new] at same
    exact (h.live i x hx).1 (same ▸ old)
  apart id hid := by
    rcases List.mem_append.mp hid with old | new
    · exact h.apart id old
    · rw [List.mem_singleton.mp new]
      exact (h.live i x hx).2

theorem Numbered.stop (h : Numbered timer made fired stopped) (hx : timer i = some x) :
    Numbered (Function.update timer i none) made fired (stopped ++ [x.id]) where
  below j y hy := h.below j y (h.others hx hy).1
  live j y hy := by
    obtain ⟨old, other⟩ := h.others hx hy
    refine ⟨(h.live j y old).1, ?_⟩
    simpa using ⟨(h.live j y old).2, other⟩
  own j k y z hy hz same := h.own j k y z (h.others hx hy).1 (h.others hx hz).1 same
  past id hid := by
    rcases hid with hid | hid
    · exact h.past id (.inl hid)
    · rcases List.mem_append.mp hid with old | new
      · exact h.past id (.inr old)
      · rw [List.mem_singleton.mp new]
        exact h.below i x hx
  once := h.once
  apart id hid := by
    intro mem
    rcases List.mem_append.mp mem with old | new
    · exact h.apart id hid old
    · rw [List.mem_singleton.mp new] at hid
      exact (h.live i x hx).1 hid

theorem Numbered.issue (h : Numbered timer made fired stopped) (off : timer i = none)
    (deadline : Nat) :
    Numbered (Function.update timer i (some ⟨made, deadline⟩)) (made + 1) fired stopped := by
  have split : ∀ j y, Function.update timer i (some ⟨made, deadline⟩) j = some y →
      timer j = some y ∨ j = i ∧ y.id = made := by
    intro j y hy
    by_cases hj : j = i
    · subst hj
      rw [Function.update_self] at hy
      cases hy
      exact .inr ⟨rfl, rfl⟩
    · rw [Function.update_of_ne hj] at hy
      exact .inl hy
  have unused : ∀ id, id ∈ fired ∨ id ∈ stopped → id ≠ made :=
    fun id hid => Nat.ne_of_lt (h.past id hid)
  refine ⟨?_, ?_, ?_, fun id hid => Nat.lt_succ_of_lt (h.past id hid), h.once, h.apart⟩
  · intro j y hy
    rcases split j y hy with old | ⟨-, new⟩
    · exact Nat.lt_succ_of_lt (h.below j y old)
    · omega
  · intro j y hy
    rcases split j y hy with old | ⟨-, new⟩
    · exact h.live j y old
    · exact ⟨fun mem => unused _ (.inl mem) new, fun mem => unused _ (.inr mem) new⟩
  · intro j k y z hy hz same
    rcases split j y hy with old | ⟨rfl, new⟩
    · rcases split k z hz with old' | ⟨rfl, new'⟩
      · exact h.own j k y z old old' same
      · exact absurd (same.trans new') (Nat.ne_of_lt (h.below j y old))
    · rcases split k z hz with old' | ⟨rfl, -⟩
      · exact absurd (same.symm.trans new) (Nat.ne_of_lt (h.below k z old'))
      · rfl

end Numbers

section Arms

def Listed (s : Timers n) : Prop :=
  Numbered (fun i => (s.slot i).timer) s.made s.fired s.stopped

theorem timer_update (s : Timers n) (i : Fin n) (u : Station) :
    (fun j => (Function.update s.slot i u j).timer) =
      Function.update (fun j => (s.slot j).timer) i u.timer := by
  funext j
  by_cases hj : j = i
  · subst hj
    rw [Function.update_self, Function.update_self]
  · rw [Function.update_of_ne hj, Function.update_of_ne hj]

theorem stopped_same (s : Timers n) {i : Fin n} {u : Station}
    (same : u.timer = (s.slot i).timer) : (s.write i u).stopped = s.stopped := by
  unfold write
  cases h : (s.slot i).timer with
  | none => rfl
  | some x => exact if_pos (same.trans h)

theorem stopped_other (s : Timers n) {i : Fin n} {u : Station} {x : Shot}
    (hx : (s.slot i).timer = some x) (other : u.timer ≠ some x) :
    (s.write i u).stopped = s.stopped ++ [x.id] := by
  unfold write
  rw [hx]
  exact if_neg other

theorem listed_same {i : Fin n} {u : Station} (h : Listed s)
    (same : u.timer = (s.slot i).timer) : Listed (s.write i u) := by
  unfold Listed
  rw [stopped_same s same]
  show Numbered (fun j => (Function.update s.slot i u j).timer) s.made s.fired s.stopped
  rw [timer_update, same, Function.update_eq_self]
  exact h

theorem listed_off {i : Fin n} {u : Station} (h : Listed s) (off : u.timer = none) :
    Listed (s.write i u) := by
  cases hx : (s.slot i).timer with
  | none => exact listed_same h (off.trans hx.symm)
  | some x =>
    have other : u.timer ≠ some x := by
      rw [off]
      exact nofun
    unfold Listed
    rw [stopped_other s hx other]
    show Numbered (fun j => (Function.update s.slot i u j).timer) s.made s.fired _
    rw [timer_update, off]
    exact Numbered.stop h hx

theorem listed_arm {i : Fin n} {u : Station} {ms : Nat} (h : Listed s)
    (armed : u.timer = some (s.shot ms)) : Listed (s.write i u).count := by
  unfold Listed
  show Numbered (fun j => (Function.update s.slot i u j).timer) (s.made + 1) s.fired
    (s.write i u).stopped
  rw [timer_update, armed]
  cases hx : (s.slot i).timer with
  | none =>
    have kept : (s.write i u).stopped = s.stopped := by
      unfold write
      rw [hx]
    rw [kept]
    exact Numbered.issue h hx _
  | some x =>
    have new : u.timer ≠ some x := by
      rw [armed]
      intro same
      have reused : s.made = x.id := congrArg Shot.id (Option.some.inj same)
      exact absurd reused (Nat.ne_of_gt (h.below i x hx))
    rw [stopped_other s hx new]
    have off : Function.update (fun j => (s.slot j).timer) i none i = none :=
      Function.update_self _ _ _
    have issued := (Numbered.stop h hx).issue off (s.now + ms)
    rw [Function.update_idem] at issued
    exact issued

theorem listed_fire {i : Fin n} {u : Station} {x : Shot} (h : Listed s)
    (hx : (s.slot i).timer = some x) (off : u.timer = none) :
    Numbered (fun j => (Function.update s.slot i u j).timer) s.made (s.fired ++ [x.id])
      s.stopped := by
  rw [timer_update, off]
  exact Numbered.fire h hx

theorem listed_refire {i : Fin n} {u : Station} {x : Shot} {ms : Nat} (h : Listed s)
    (hx : (s.slot i).timer = some x) (armed : u.timer = some (s.shot ms)) :
    Numbered (fun j => (Function.update s.slot i u j).timer) (s.made + 1) (s.fired ++ [x.id])
      s.stopped := by
  rw [timer_update, armed]
  have off : Function.update (fun j => (s.slot j).timer) i none i = none :=
    Function.update_self _ _ _
  have issued := (Numbered.fire h hx).issue off (s.now + ms)
  rw [Function.update_idem] at issued
  exact issued

theorem listed_visit (h : Listed s) (i : Fin n) (stepped : Bool) (stepping : Nat) :
    Listed (s.visit i stepped stepping) := by
  rcases s.visit_cases i stepped stepping with
    ⟨-, out⟩ | ⟨x, -, out⟩ | ⟨x, u, hx, off, -, out⟩ | ⟨x, hx, out⟩
  · rw [out]
    exact h
  · rw [out]
    exact h
  · rw [out]
    exact listed_fire h hx off
  · rw [out]
    exact listed_refire h hx rfl

theorem listed_background (h : Listed s) (stepped : Bool) (stepping : Nat) :
    Listed (s.background stepped stepping) := by
  rcases s.background_cases stepped stepping with
    ⟨-, out⟩ | ⟨-, out⟩ | ⟨-, -, out⟩ | ⟨i, left, -, -, out⟩ | ⟨-, out⟩
  · rw [out]
    exact h
  · rw [out]
    exact h
  · rw [out]
    exact h
  · rw [out]
    exact listed_visit (s := { s with left := left }) h i stepped stepping
  · rw [out]
    exact h

theorem listed_incoming {k : Nat} {script : Bool} {stepping : Nat} (h : Listed s)
    (moved : s.incoming k script stepping = some t) : Listed t := by
  unfold incoming at moved
  split at moved
  · cases moved
  · cases moved
    exact listed_arm h rfl
  · obtain ⟨u, signal, rfl⟩ := Option.map_eq_some_iff.mp moved
    rw [(notify_some s signal).2]
    exact h
  · cases moved
    exact h
  · cases moved
    exact listed_same h rfl
  · cases moved
    exact listed_arm h rfl

theorem listed_post {i : Fin n} {event : EventId} {stepped : Bool} {stepping : Nat} (h : Listed s)
    (moved : s.post i event stepped stepping = some t) : Listed t := by
  rcases s.post_cases moved with rfl | ⟨u, off, -, rfl⟩ | signal
  · exact listed_same h rfl
  · exact listed_off h off
  · rw [(notify_some _ signal).2]
    exact listed_arm h rfl

theorem listed_step {a : TimersMove n} (h : Listed s) (moved : step s a = some t) : Listed t := by
  cases a with
  | tick ms =>
    cases moved
    exact h
  | background stepped stepping =>
    cases moved
    exact listed_background h stepped stepping
  | stop =>
    cases moved
    exact h
  | notify =>
    rw [(notify_some s moved).2]
    exact h
  | allocate k i =>
    unfold step at moved
    dsimp only at moved
    split at moved
    · cases moved
      exact listed_same h rfl
    · cases moved
  | incoming k script stepping => exact listed_incoming h moved
  | post i event stepped stepping => exact listed_post h moved

end Arms

section Scripts
variable {slot : Fin n → Station} {task : Nat → Errand n} {i : Fin n} {u : Station} {k : Nat}
  {e : Errand n}

theorem Scripted.written (h : Scripted slot task)
    (same : u.handler = .script → u.timer = none →
      (slot i).handler = .script ∧ (slot i).timer = none) :
    Scripted (Function.update slot i u) task := by
  intro j script off
  by_cases hj : j = i
  · subst hj
    rw [Function.update_self] at script off
    obtain ⟨script, off⟩ := same script off
    exact h j script off
  · rw [Function.update_of_ne hj] at script off
    exact h j script off

theorem Scripted.moved (h : Scripted slot task) (other : ∀ i, task k ≠ .arming i) :
    Scripted slot (Function.update task k e) := by
  intro j script off
  obtain ⟨k', arming⟩ := h j script off
  have hk : k' ≠ k := by
    rintro rfl
    exact other j arming
  exact ⟨k', (Function.update_of_ne hk _ _).trans arming⟩

theorem Scripted.errand (h : Scripted slot task)
    (here : u.handler = .script → u.timer = none → e = .arming i)
    (other : ∀ j, j ≠ i → task k ≠ .arming j) :
    Scripted (Function.update slot i u) (Function.update task k e) := by
  intro j script off
  by_cases hj : j = i
  · subst hj
    rw [Function.update_self] at script off
    exact ⟨k, (Function.update_self _ _ _).trans (here script off)⟩
  · rw [Function.update_of_ne hj] at script off
    obtain ⟨k', arming⟩ := h j script off
    have hk : k' ≠ k := by
      rintro rfl
      exact other j hj arming
    exact ⟨k', (Function.update_of_ne hk _ _).trans arming⟩

theorem scripted_visit (h : Scripted s.slot s.task) (i : Fin n) (stepped : Bool)
    (stepping : Nat) :
    Scripted (s.visit i stepped stepping).slot (s.visit i stepped stepping).task := by
  rcases s.visit_cases i stepped stepping with
    ⟨-, out⟩ | ⟨x, -, out⟩ | ⟨x, u, -, -, other, out⟩ | ⟨x, -, out⟩
  · rw [out]
    exact h
  · rw [out]
    exact h
  · rw [out]
    exact h.written fun script _ => absurd script other
  · rw [out]
    exact h.written fun _ off => absurd off (Option.some_ne_none _)

theorem scripted_background (h : Scripted s.slot s.task) (stepped : Bool) (stepping : Nat) :
    Scripted (s.background stepped stepping).slot (s.background stepped stepping).task := by
  rcases s.background_cases stepped stepping with
    ⟨-, out⟩ | ⟨-, out⟩ | ⟨-, -, out⟩ | ⟨i, left, -, -, out⟩ | ⟨-, out⟩
  · rw [out]
    exact h
  · rw [out]
    exact h
  · rw [out]
    exact h
  · rw [out]
    exact scripted_visit (s := { s with left := left }) h i stepped stepping
  · rw [out]
    exact h

theorem scripted_incoming {script : Bool} {stepping : Nat} (h : Scripted s.slot s.task)
    (moved : s.incoming k script stepping = some t) : Scripted t.slot t.task := by
  unfold incoming at moved
  split at moved
  · cases moved
  · rename_i errand
    cases moved
    exact h.errand (fun _ off => absurd off (Option.some_ne_none _))
      fun j _ arming => by rw [errand] at arming; cases arming
  · rename_i errand
    obtain ⟨u, signal, rfl⟩ := Option.map_eq_some_iff.mp moved
    rw [(notify_some s signal).2]
    exact h.moved fun j arming => by rw [errand] at arming; cases arming
  · rename_i errand
    cases moved
    exact h.moved fun j arming => by rw [errand] at arming; cases arming
  · rename_i errand
    cases moved
    exact h.errand (fun _ _ => rfl) fun j _ arming => by rw [errand] at arming; cases arming
  · rename_i errand
    cases moved
    exact h.errand (fun _ off => absurd off (Option.some_ne_none _))
      fun j hj arming => by rw [errand] at arming; cases arming; exact hj rfl

theorem scripted_post {event : EventId} {stepped : Bool} {stepping : Nat}
    (h : Scripted s.slot s.task) (moved : s.post i event stepped stepping = some t) :
    Scripted t.slot t.task := by
  rcases s.post_cases moved with rfl | ⟨u, -, other, rfl⟩ | signal
  · exact h.written fun script off => ⟨script, off⟩
  · exact h.written fun script _ => absurd script other
  · rw [(notify_some _ signal).2]
    exact h.written fun _ off => absurd off (Option.some_ne_none _)

theorem scripted_step {a : TimersMove n} (h : Scripted s.slot s.task)
    (moved : step s a = some t) : Scripted t.slot t.task := by
  cases a with
  | tick ms =>
    cases moved
    exact h
  | background stepped stepping =>
    cases moved
    exact scripted_background h stepped stepping
  | stop =>
    cases moved
    exact h
  | notify =>
    rw [(notify_some s moved).2]
    exact h
  | allocate k i =>
    unfold step at moved
    dsimp only at moved
    split at moved
    · rename_i free
      cases moved
      refine Scripted.moved (Scripted.written h fun script off => ⟨?_, off⟩) fun j arming => ?_
      · by_contra other
        dsimp only at script
        split at script
        · cases script
        · exact other script
      · rw [show (s.write i _).task k = s.task k from rfl, free] at arming
        cases arming
    · cases moved
  | incoming k script stepping => exact scripted_incoming h moved
  | post i event stepped stepping => exact scripted_post h moved

end Scripts

section Wakeups

theorem watched_of_signalled (signal : s.bk.signalled = true) (idle : s.bk.pc ≠ .idleClear)
    (unset : s.bk.pc = .begin → s.expires = none) : Watched s :=
  ⟨fun _ _ _ => .inr (.inl signal), fun pc => absurd pc idle, unset⟩

theorem watched_of_pc (pc : s.bk.pc = .done ∨ s.bk.pc = .scanUnlock) : Watched s := by
  refine ⟨fun i x _ => .inr (.inr ?_), fun idle => ?_, fun start => ?_⟩
  · rcases pc with pc | pc
    · exact .inl pc
    · exact .inr (.inl pc)
  · rw [idle] at pc
    rcases pc with pc | pc <;> cases pc
  · rw [start] at pc
    rcases pc with pc | pc <;> cases pc

/-- Outside of a scan only `signalled` is cleared, and then every timeslot is visited or
there was no signal. -/
theorem watched_advance (h : Watched s)
    (pc : s.bk.pc ≠ .begin ∧ s.bk.pc ≠ .scanUnlock ∧ s.bk.pc ≠ .scan) (due : Bool) :
    Watched { s with bk := s.bk.step due } := by
  rcases s.bk.step_quiet due pc with final | unlock | ⟨ended, next, idle, kept⟩
  · exact watched_of_pc (.inl final)
  · exact watched_of_pc (.inr unlock)
  refine ⟨fun i x hx => ?_, idle, fun start => absurd start (s.bk.step_ne_begin due)⟩
  rcases h.covered i x hx with calling | set | final | unlock | ⟨scan, -⟩ | ⟨-, e, r, waits⟩
  · exact .inl calling
  · refine .inr (.inl (kept set fun clear => ?_))
    rw [h.unsignalled clear] at set
    cases set
  · exact absurd final ended
  · exact absurd unlock pc.2.1
  · exact absurd scan pc.2.2
  · exact .inr (.inr (.inr (.inr (.inr ⟨next, e, r, waits⟩))))

theorem covered_scan {i j : Fin n} {left : List (Fin n)} {id : Nat} (scan : s.bk.pc = .scan)
    (list : s.left = i :: left) (other : j ≠ i) (h : Covered s j id) :
    s.bk.signalled = true ∨ j ∈ left ∨
      ∃ m r, s.timeout = some m ∧ s.read j = some (id, r) ∧ m ≤ r := by
  rcases h with set | final | unlock | ⟨-, mem | waits⟩ | ⟨ne, -⟩
  · exact .inl set
  · rw [scan] at final
    cases final
  · rw [scan] at unlock
    cases unlock
  · rw [list] at mem
    rcases List.mem_cons.mp mem with here | there
    · exact absurd here other
    · exact .inr (.inl there)
  · exact .inr (.inr waits)
  · exact absurd scan ne

theorem watched_scan {i : Fin n} {left : List (Fin n)} {slot : Fin n → Station}
    {timeout : Option Nat} {read : Option (Nat × Nat)} {fired : List Nat} (h : Watched s)
    (scan : s.bk.pc = .scan) (list : s.left = i :: left)
    (others : ∀ j, j ≠ i → slot j = s.slot j)
    (shorter : ∀ m, s.timeout = some m → ∃ m', timeout = some m' ∧ m' ≤ m)
    (here : ∀ x, (slot i).timer = some x →
      ∃ m r, timeout = some m ∧ read = some (x.id, r) ∧ m ≤ r) :
    Watched { s with
      left := left
      slot := slot
      timeout := timeout
      read := Function.update s.read i read
      fired := fired } := by
  refine ⟨fun j x hx => ?_, h.unsignalled, h.unset⟩
  by_cases hj : j = i
  · subst hj
    obtain ⟨m, r, least, own, le⟩ := here x hx
    exact .inr (.inr (.inr (.inr (.inl
      ⟨scan, .inr ⟨m, r, least, (Function.update_self _ _ _).trans own, le⟩⟩))))
  · have old : (s.slot j).timer = some x := others j hj ▸ hx
    rcases h.covered j x old with calling | covered
    · exact .inl calling
    rcases covered_scan scan list hj covered with set | mem | ⟨m, r, least, own, le⟩
    · exact .inr (.inl set)
    · exact .inr (.inr (.inr (.inr (.inl ⟨scan, .inl mem⟩))))
    · obtain ⟨m', least', le'⟩ := shorter m least
      exact .inr (.inr (.inr (.inr (.inl ⟨scan, .inr ⟨m', r, least',
        (Function.update_of_ne hj _ _).trans own, Nat.le_trans le' le⟩⟩))))

theorem watched_visit {i : Fin n} {left : List (Fin n)} (h : Watched s) (scan : s.bk.pc = .scan)
    (list : s.left = i :: left) (stepped : Bool) (stepping : Nat) :
    Watched ({ s with left := left }.visit i stepped stepping) := by
  rcases { s with left := left }.visit_cases i stepped stepping with
    ⟨off, out⟩ | ⟨x, timer, out⟩ | ⟨x, u, -, off, -, out⟩ | ⟨x, -, out⟩
  · rw [out]
    refine watched_scan (s := s) h scan list (fun _ _ => rfl) (fun m hm => ⟨m, hm, Nat.le_refl m⟩) ?_
    intro y hy
    cases off.symm.trans hy
  · rw [out]
    refine watched_scan (s := s) h scan list (fun _ _ => rfl) ?_ ?_
    · intro m hm
      refine ⟨_, rfl, ?_⟩
      rw [hm]
      exact Nat.min_le_right _ _
    · intro y hy
      cases timer.symm.trans hy
      refine ⟨_, _, rfl, rfl, ?_⟩
      cases s.timeout with
      | none => exact Nat.le_refl _
      | some m => exact Nat.min_le_left _ _
  · rw [out]
    refine watched_scan (s := s) h scan list (fun j hj => Function.update_of_ne hj _ _)
      (fun m hm => ⟨m, hm, Nat.le_refl m⟩) ?_
    intro y hy
    rw [Function.update_self, off] at hy
    cases hy
  · rw [out]
    refine watched_of_signalled rfl ?_ ?_
    · show s.bk.pc ≠ .idleClear
      rw [scan]
      exact nofun
    · intro start
      cases scan.symm.trans start

theorem watched_background (h : Watched s) (stepped : Bool) (stepping : Nat) :
    Watched (s.background stepped stepping) := by
  rcases s.background_cases stepped stepping with
    ⟨pc, out⟩ | ⟨pc, out⟩ | ⟨pc, list, out⟩ | ⟨i, left, pc, list, out⟩ | ⟨⟨begun, unlock, scan⟩, out⟩
  · -- nothing but a signal can have covered an arm so far
    rw [out]
    refine ⟨fun i x hx => ?_, fun idle => ?_, fun _ => rfl⟩
    · rcases h.covered i x hx with calling | set | final | unlock | ⟨scan, -⟩ | ⟨-, e, r, waits, -⟩
      · exact .inl calling
      · refine .inr (.inl ?_)
        rw [Background.step, pc]
        exact set
      · cases pc.symm.trans final
      · cases pc.symm.trans unlock
      · cases pc.symm.trans scan
      · cases (h.unset pc).symm.trans waits
    · rw [Background.step, pc] at idle
      cases idle
  · rw [out]
    have next : s.bk.step (s.expires.any (· ≤ s.now)) = { s.bk with pc := .scan } := by
      rw [Background.step, pc]
    rw [next]
    refine ⟨fun i x _ => .inr (.inr (.inr (.inr (.inl ⟨rfl, .inl (by simp)⟩)))), ?_, ?_⟩
    · intro idle
      cases idle
    · intro start
      cases start
  · rw [out]
    have next : s.bk.step (s.expires.any (· ≤ s.now)) = { s.bk with pc := .automatic } := by
      rw [Background.step, pc]
    rw [next]
    have automatic : BackgroundPc.automatic ≠ .scan := by decide
    refine ⟨fun i x hx => ?_, fun idle => ?_, fun start => ?_⟩
    · rcases h.covered i x hx with calling | set | final | unlock |
        ⟨-, mem | ⟨m, r, least, own, le⟩⟩ | ⟨ne, -⟩
      · exact .inl calling
      · exact .inr (.inl set)
      · cases pc.symm.trans final
      · cases pc.symm.trans unlock
      · rw [list] at mem
        cases mem
      · refine .inr (.inr (.inr (.inr (.inr ⟨automatic, s.now + m, r, ?_, own, ?_⟩))))
        · rw [least]
          rfl
        · exact Nat.add_le_add_left le _
      · exact absurd pc ne
    · cases idle
    · cases start
  · rw [out]
    exact watched_visit h pc list stepped stepping
  · rw [out]
    exact watched_advance h ⟨begun, unlock, scan⟩ _

theorem Watched.written {i : Fin n} {u : Station} (h : Watched s)
    (called : ∀ x, u.timer = some x → (s.slot i).timer = some x ∨ Calling s x.id) :
    Watched (s.write i u) := by
  refine ⟨fun j x hx => ?_, h.unsignalled, h.unset⟩
  by_cases hj : j = i
  · subst hj
    rw [slot_write] at hx
    rcases called x hx with old | calling
    · exact h.covered j x old
    · exact .inl calling
  · rw [slot_write_of_ne s u hj] at hx
    exact h.covered j x hx

theorem Watched.moved {k : Nat} {e : Errand n} (h : Watched s)
    (quiet : ∀ i id last, s.task k ≠ .notifying i id last) : Watched (s.setTask k e) := by
  refine ⟨fun j x hx => ?_, h.unsignalled, h.unset⟩
  rcases h.covered j x hx with ⟨k', i, last, calling⟩ | covered
  · have hk : k' ≠ k := by
      rintro rfl
      exact quiet i _ last calling
    exact .inl ⟨k', i, last, (Function.update_of_ne hk _ _).trans calling⟩
  · exact .inr covered

theorem watched_notify (h : Watched s) (moved : s.notify = some t) : Watched t := by
  obtain ⟨free, rfl⟩ := notify_some s moved
  refine watched_of_signalled rfl ?_ h.unset
  intro idle
  rw [show s.bk.pc = .idleClear from idle] at free
  cases free

theorem watched_setTimer {k : Nat} {i : Fin n} {ms : Nat} {last : Bool} (h : Watched s)
    (quiet : ∀ i id last, s.task k ≠ .notifying i id last) :
    Watched ((s.setTimer i ms).setTask k (.notifying i s.made last)) := by
  have calling := h.moved (e := .notifying i s.made last) quiet
  have written := calling.written (i := i) (u := (s.slot i).arm (s.shot ms)) fun x hx => by
    cases hx
    exact .inr ⟨k, i, last, Function.update_self _ _ _⟩
  exact ⟨written.covered, written.unsignalled, written.unset⟩

theorem watched_incoming {k : Nat} {script : Bool} {stepping : Nat} (h : Watched s)
    (moved : s.incoming k script stepping = some t) : Watched t := by
  unfold incoming at moved
  split at moved
  · cases moved
  · rename_i errand
    cases moved
    exact watched_setTimer h fun _ _ _ same => by rw [errand] at same; cases same
  · obtain ⟨u, signal, rfl⟩ := Option.map_eq_some_iff.mp moved
    have signalled := watched_notify h signal
    obtain ⟨-, rfl⟩ := notify_some s signal
    refine watched_of_signalled rfl (fun idle => ?_) signalled.unset
    cases signalled.unsignalled idle
  · rename_i errand
    cases moved
    exact h.moved fun _ _ _ same => by rw [errand] at same; cases same
  · rename_i errand
    cases moved
    refine Watched.moved (h.written fun x hx => .inl hx) fun _ _ _ same => ?_
    rw [show (s.write _ _).task k = s.task k from rfl, errand] at same
    cases same
  · rename_i errand
    cases moved
    exact watched_setTimer h fun _ _ _ same => by rw [errand] at same; cases same

theorem watched_post {i : Fin n} {event : EventId} {stepped : Bool} {stepping : Nat}
    (h : Watched s) (moved : s.post i event stepped stepping = some t) : Watched t := by
  rcases s.post_cases moved with rfl | ⟨u, off, -, rfl⟩ | signal
  · exact h.written fun x hx => .inl hx
  · exact h.written fun x hx => by rw [off] at hx; cases hx
  · obtain ⟨free, rfl⟩ := notify_some _ signal
    refine watched_of_signalled rfl ?_ h.unset
    intro idle
    rw [show (s.write i _).count.bk.pc = .idleClear from idle] at free
    cases free

theorem watched_step {a : TimersMove n} (h : Watched s) (moved : step s a = some t) :
    Watched t := by
  cases a with
  | tick ms =>
    cases moved
    exact ⟨h.covered, h.unsignalled, h.unset⟩
  | background stepped stepping =>
    cases moved
    exact watched_background h stepped stepping
  | stop =>
    cases moved
    exact ⟨h.covered, h.unsignalled, h.unset⟩
  | notify => exact watched_notify h moved
  | allocate k i =>
    unfold step at moved
    dsimp only at moved
    split at moved
    · rename_i free
      cases moved
      refine Watched.moved (h.written fun x hx => .inl hx) fun _ _ _ same => ?_
      rw [show (s.write i _).task k = s.task k from rfl, free] at same
      cases same
    · cases moved
  | incoming k script stepping => exact watched_incoming h moved
  | post i event stepped stepping => exact watched_post h moved

end Wakeups

structure Kept (s : Timers n) : Prop where
  watched : Watched s
  listed : Listed s
  scripted : Scripted s.slot s.task

theorem kept_start (n : Nat) : Kept (start n) where
  watched := ⟨nofun, nofun, fun _ => rfl⟩
  listed := ⟨nofun, nofun, nofun, nofun, List.nodup_nil, nofun⟩
  scripted := nofun

theorem kept_step {a : TimersMove n} (h : Kept s) (moved : step s a = some t) : Kept t :=
  ⟨watched_step h.watched moved, listed_step h.listed moved, scripted_step h.scripted moved⟩

theorem Kept.all_scheduled (h : Kept s) : Scheduled s where
  wakes about i x hx quiet := by
    rcases h.watched.covered i x hx with calling | set | final | unlock | ⟨scan, -⟩ | ⟨-, waits⟩
    · exact absurd calling quiet
    · exact .inl set
    · cases about.symm.trans final
    · cases about.symm.trans unlock
    · cases about.symm.trans scan
    · exact .inr waits
  once := h.listed.once
  never := h.listed.apart
  armed i script quiet off := by
    obtain ⟨k, arming⟩ := h.scripted i script off
    refine quiet k ?_
    rw [arming]
    rfl

/-- In every run, whatever the event threads, the control thread, the background thread and
the clock do, no arm is slept through, each arm has at most one timeout and none after it
was stopped, and no running script is left without its timer. -/
theorem scheduled (n : Nat) (moves : List (TimersMove n)) :
    Run.Always step Scheduled (start n) moves :=
  .of_steps (fun _ _ _ h moved => kept_step h moved) (fun _ h => h.all_scheduled) (kept_start n)

end Timers
end Bayonne
