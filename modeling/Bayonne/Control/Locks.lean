import Bayonne.Control.Outcome

/-! The holds of the control thread on the driver configuration, line by line. -/
namespace Bayonne

/-- The drivers a thread has looked up and not yet released, after one more effect; none
once it has released one it did not have. -/
def Effect.track : Option (List Nat) → Effect → Option (List Nat)
  | some held, .got d => some (d :: held)
  | some held, .released d => if d ∈ held then some (held.erase d) else none
  | held, _ => held

namespace Control

def pending (s : Control) : Option (List Nat) := s.done.foldl Effect.track (some [])

/-- The thread holds nothing: the lock's count of it is zero, and the last line released
what it looked up, each driver once, and nothing else. A process that was killed has no
holds. -/
def Settled (s : Control) : Prop :=
  s.ending = some .fault ∨ s.holds = 0 ∧ s.pending = some []

def heard (s : Control) (c : ControlLine) : List String :=
  match receive s.buf s.replytarget c.text with
  | some (.line buf _ cp) => words 64 (CString.text nul buf cp)
  | _ => []

/-- A `timeslot` command with a bad number, after a line that looked the driver up. -/
def Stale (s : Control) (c : ControlLine) : Prop :=
  ∃ n cmd d, heard s c = ["timeslot", n, cmd] ∧ isTimeslot n = false ∧ s.driver = some d

def Steady (s t : Control) : Prop := t.holds = s.holds ∧ t.pending = s.pending

variable {s t u : Control}

theorem Steady.rfl : Steady s s := ⟨Eq.refl _, Eq.refl _⟩

theorem Steady.trans (h : Steady s t) (h' : Steady t u) : Steady s u :=
  ⟨h'.1.trans h.1, h'.2.trans h.2⟩

theorem pending_emit (s : Control) (e : Effect) :
    (s.emit e).pending = Effect.track s.pending e := by
  simp [pending, emit, List.foldl_append]

theorem pending_access (s : Control) : s.access.pending = s.pending := by
  show (s.emit .access).pending = s.pending
  rw [pending_emit]
  cases s.pending <;> rfl

theorem pending_leave (s : Control) : s.leave.pending = s.pending := by
  show (s.emit .leave).pending = s.pending
  rw [pending_emit]
  cases s.pending <;> rfl

theorem emit_steady (s : Control) {e : Effect} (plain : e.isPlain = true) :
    Steady s (s.emit e) := by
  refine ⟨rfl, ?_⟩
  rw [pending_emit]
  cases e with
  | got d => cases plain
  | released d => cases plain
  | _ => cases s.pending <;> rfl

theorem log_steady (s : Control) (msg : Option Reason) : Steady s (s.log msg) := by
  cases msg with
  | none => exact .rfl
  | some m =>
    refine ⟨rfl, ?_⟩
    rw [log, pending_emit]
    cases s.pending <;> rfl

theorem reply_steady (s : Control) (msg : Option Reason) : Steady s (s.reply msg) := by
  have logged := log_steady s msg
  unfold reply
  split
  · exact logged
  · rename_i i _
    split
    · refine ⟨logged.1, ?_⟩
      have signalled := pending_emit (s.log msg) (.signal (s.target i) (answer msg))
      refine signalled.trans (Eq.trans ?_ logged.2)
      cases (s.log msg).pending <;> rfl
    · exact logged

theorem release_steady {d : Nat} {held : List Nat} (hd : s.driver = some d)
    (hs : s.pending = some (d :: held)) :
    s.release.holds = s.holds - 1 ∧ s.release.pending = some held := by
  rw [release, hd]
  refine ⟨rfl, ?_⟩
  rw [pending_leave, pending_emit, hs]
  simp [Effect.track]

theorem driverDispatch_steady (s : Control) (argv : List String) :
    Steady s (s.driverDispatch argv).1 ∧ (s.driverDispatch argv).1.driver = s.driver := by
  unfold driverDispatch
  split
  · split
    · exact ⟨emit_steady s rfl, rfl⟩
    · exact ⟨.rfl, rfl⟩
  · split <;> exact ⟨.rfl, rfl⟩
  · exact ⟨.rfl, rfl⟩

theorem get_none (h : s.get.driver = none) : Steady s s.get := by
  cases ha : s.active with
  | some d => rw [get, ha] at h; cases h
  | none =>
    rw [get, ha]
    exact ⟨Int.add_sub_cancel _ _, (pending_leave s.access).trans (pending_access s)⟩

theorem get_some {d : Nat} (h : s.get.driver = some d) :
    s.get.holds = s.holds + 1 ∧ s.get.pending = Effect.track s.pending (.got d) := by
  cases ha : s.active with
  | none => rw [get, ha] at h; cases h
  | some e =>
    rw [get, ha] at h ⊢
    cases h
    have looked := pending_emit s.access (.got d)
    rw [pending_access] at looked
    exact ⟨rfl, looked⟩

theorem acted_steady {line : List String} {held : List Nat} (hs : s.pending = some held)
    (h : Acted s line t)
    (fresh : ∀ n cmd d, line = ["timeslot", n, cmd] → isTimeslot n = false →
      s.driver ≠ some d) : Steady s t := by
  cases h with
  | nothing => exact .rfl
  | effect e plain => exact emit_steady s plain
  | missed absent => exact get_none absent
  | looked words d found =>
    obtain ⟨holds, got⟩ := get_some found
    obtain ⟨same, driver⟩ := driverDispatch_steady s.get words
    have looked : (s.get.driverDispatch words).1.pending = some (d :: held) := by
      rw [same.2, got, hs]
      rfl
    obtain ⟨left, rest⟩ := release_steady (driver.trans found) looked
    refine ⟨?_, ?_⟩
    · rw [left, same.1, holds]
      exact Int.add_sub_cancel _ _
    · rw [rest, hs]
  | reloaded d found =>
    rw [reload, found]
    refine ⟨Int.add_sub_cancel _ _, ?_⟩
    exact (emit_steady s.access.leave (Eq.refl _ : (Effect.reloaded s.made).isPlain = true)).2.trans
      ((pending_leave s.access).trans (pending_access s))
  | stale n cmd d said bad old => exact absurd old (fresh n cmd d said bad)

theorem handle_steady {held : List Nat} (hs : s.pending = some held) (c : ControlLine)
    (cp : List Char)
    (fresh : ∀ n cmd d, words 64 cp = ["timeslot", n, cmd] → isTimeslot n = false →
      s.driver ≠ some d) :
    (s.handle c cp).ending = some .fault ∨ Steady s (s.handle c cp) := by
  by_cases ends : Ends cp
  · obtain ⟨code, how, ended⟩ := handle_ends s c ends
    rw [ended]
    exact .inr ⟨rfl, rfl⟩
  by_cases deadly : Deadly s c cp
  · rcases handle_deadly deadly with dead | dead
    · exact .inl (by rw [dead]; rfl)
    · exact .inl (by rw [dead]; rfl)
  obtain ⟨u, acted, how⟩ := handle_answered ends deadly
  have steady := acted_steady hs acted fresh
  rcases how with same | ⟨msg, same⟩
  · rw [same]
    exact .inr steady
  · rw [same]
    exact .inr (steady.trans (reply_steady u msg))

theorem turn_steady (s : Control) : Steady s s.turn := by
  unfold turn
  split
  · exact .rfl
  · exact reply_steady s none

theorem turn_fault (h : s.ending = some .fault) : s.turn = s := by
  rw [turn, h]
  rfl

theorem handle_stale {n cmd : String} {cp : List Char} (c : ControlLine)
    (said : words 64 cp = ["timeslot", n, cmd]) (bad : isTimeslot n = false) :
    s.handle c cp = s.error (some invalidTimeslot) := by
  have several : (words 64 cp).length ≠ 1 := by
    rw [said]
    nofun
  rw [handle_command c several, said]
  show s.timeslot c ["timeslot", n, cmd] [n, cmd] = _
  simp [timeslot, bad]

theorem log_ending (s : Control) (msg : Option Reason) : (s.log msg).ending = s.ending := by
  cases msg <;> rfl

theorem reply_ending (s : Control) (msg : Option Reason) :
    (s.reply msg).ending = s.ending := by
  unfold reply
  split
  · exact log_ending s msg
  · split <;> exact log_ending s msg

theorem heard_line {c : ControlLine} {buf : List Char} {target : Option Nat} {cp : Nat}
    (line : receive s.buf s.replytarget c.text = some (.line buf target cp)) :
    heard s c = words 64 (CString.text nul buf cp) := by
  rw [heard, line]

theorem step_settled {c : ControlLine} (before : Settled s) (fresh : ¬ Stale s c)
    (run : step s c = some t) : Settled t := by
  obtain ⟨going, how⟩ := step_cases run
  have free : s.holds = 0 := by
    rcases before with dead | settled
    · rw [going] at dead
      cases dead
    · exact settled.1
  rcases how with ⟨-, rfl⟩ | ⟨buf, -, rfl⟩ | ⟨buf, target, cp, line, rfl⟩
  · exact .inl rfl
  · exact .inr ⟨free, rfl⟩
  · have kept := handle_steady (s := s.opened buf target) (Eq.refl (some [])) c
      (CString.text nul buf cp)
      (fun n cmd d said bad old => fresh ⟨n, cmd, d, (heard_line line).trans said, bad, old⟩)
    rcases kept with dead | steady
    · rw [turn_fault dead]
      exact .inl dead
    · have turned := steady.trans (turn_steady _)
      exact .inr ⟨turned.1.trans free, turned.2⟩

theorem step_stale {c : ControlLine} (before : Settled s) (stale : Stale s c)
    (run : step s c = some t) : ¬ Settled t := by
  obtain ⟨n, cmd, d, said, bad, old⟩ := stale
  obtain ⟨going, how⟩ := step_cases run
  have free : s.holds = 0 := by
    rcases before with dead | settled
    · rw [going] at dead
      cases dead
    · exact settled.1
  rcases how with ⟨lost, rfl⟩ | ⟨buf, again, rfl⟩ | ⟨buf, target, cp, line, rfl⟩
  · rw [heard, lost] at said
    cases said
  · rw [heard, again] at said
    cases said
  · rw [handle_stale c ((heard_line line).symm.trans said) bad]
    set r := (s.opened buf target).release.reply (some invalidTimeslot) with hr
    have below : r.holds = -1 := by
      have released : (s.opened buf target).release.holds = -1 := by
        have driver : (s.opened buf target).driver = some d := old
        rw [release, driver]
        show s.holds - 1 = -1
        omega
      exact (reply_steady _ _).1.trans released
    have alive : r.ending = none := by
      have released : (s.opened buf target).release.ending = none := by
        have driver : (s.opened buf target).driver = some d := old
        rw [release, driver]
        exact going
      exact (reply_ending _ _).trans released
    have turned : r.turn = r.reply none := by
      rw [turn, alive]
      rfl
    show ¬ Settled r.turn
    rw [turned]
    rintro (dead | ⟨zero, -⟩)
    · rw [reply_ending, alive] at dead
      cases dead
    · rw [(reply_steady r none).1, below] at zero
      omega

/-- In every run of control lines the thread holds nothing between the lines, and each
line releases exactly what it looked up, as long as no `timeslot` command with a bad
number follows a line that looked the driver up. -/
theorem settled_iff_along (buf : List Char) (active : Option Nat) (made : Nat)
    (registrations : List String) (timeslots boards : Nat) {lines : List ControlLine}
    {u : Control}
    (run : Run.exec step (start buf active made registrations timeslots boards) lines = some u) :
    Run.Always step Settled (start buf active made registrations timeslots boards) lines ↔
      Run.Along step (fun s c => ¬ Stale s c)
        (start buf active made registrations timeslots boards) lines := by
  refine Run.always_iff_along (I := Settled) ?_ (fun _ h => h) ?_ (.inr ⟨rfl, rfl⟩) run
  · exact fun s c t before fresh took => step_settled before fresh took
  · exact fun s c t before stale took => step_stale before (not_not.mp stale) took

def spans : ControlLine := .said "spans\n".toList (by decide) (by decide) (by decide)

def badTimeslot : ControlLine :=
  .said "timeslot x drop\n".toList (by decide) (by decide) (by decide)

theorem settled_iff_along_spans :
    Run.Always step Settled fresh [spans, spans] ↔
      Run.Along step (fun s c => ¬ Stale s c) fresh [spans, spans] := by
  cases run : Run.exec step fresh [spans, spans] with
  | none => exact absurd (congrArg Option.isSome run) (by decide)
  | some u => exact settled_iff_along _ _ _ _ _ _ run

/-- After a line that looked the driver up, a bad timeslot number leaves the lock's count
below zero. -/
theorem not_settled : ¬ Run.Always step Settled fresh [spans, badTimeslot] := by
  intro always
  cases run : Run.exec step fresh [spans, badTimeslot] with
  | none => exact absurd (congrArg Option.isSome run) (by decide)
  | some u =>
    have held : u.holds = -1 := by
      have counted : (Run.exec step fresh [spans, badTimeslot]).map (·.holds) = some (-1) := by
        decide
      rw [run] at counted
      exact Option.some.inj counted
    have alive : u.ending = none := by
      have kept : (Run.exec step fresh [spans, badTimeslot]).map (·.ending) = some none := by
        decide
      rw [run] at kept
      exact Option.some.inj kept
    rcases always.last run with dead | ⟨zero, -⟩
    · rw [alive] at dead
      cases dead
    · rw [held] at zero
      cases zero

end Control

end Bayonne
