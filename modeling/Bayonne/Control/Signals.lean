import Bayonne.Control.Outcome
import Bayonne.Control.Receive

/-! Which process a control line signals: the one that the line itself names, once, with
the outcome of the line. -/
namespace Bayonne

def Effect.signalled : Effect → Option (Int × UserSignal)
  | .signal pid sig => some (pid, sig)
  | _ => none

def Effect.isReport : Effect → Bool
  | .reported _ => true
  | _ => false

namespace Control

def signals (s : Control) : List (Int × UserSignal) := s.done.filterMap Effect.signalled

def failed (s : Control) : Bool := s.done.any Effect.isReport

variable {s t u : Control}

structure Calm (s t : Control) : Prop where
  buf : t.buf = s.buf
  target : t.replytarget = s.replytarget
  ending : t.ending = s.ending
  signals : t.signals = s.signals
  failed : t.failed = s.failed

theorem Calm.rfl : Calm s s := ⟨Eq.refl _, Eq.refl _, Eq.refl _, Eq.refl _, Eq.refl _⟩

theorem Calm.trans (h : Calm s t) (h' : Calm t u) : Calm s u :=
  ⟨h'.buf.trans h.buf, h'.target.trans h.target, h'.ending.trans h.ending,
    h'.signals.trans h.signals, h'.failed.trans h.failed⟩

theorem emit_calm (s : Control) (e : Effect) (quiet : e.signalled = none := by rfl)
    (silent : e.isReport = false := by rfl) : Calm s (s.emit e) := by
  refine ⟨rfl, rfl, rfl, ?_, ?_⟩
  · simp [signals, emit, quiet]
  · simp [failed, emit, silent]

theorem access_calm (s : Control) : Calm s s.access :=
  (emit_calm s .access).trans ⟨rfl, rfl, rfl, rfl, rfl⟩

theorem leave_calm (s : Control) : Calm s s.leave :=
  (emit_calm s .leave).trans ⟨rfl, rfl, rfl, rfl, rfl⟩

theorem get_calm (s : Control) : Calm s s.get := by
  unfold get
  split
  · rename_i d _
    exact (access_calm s).trans ((emit_calm _ (.got d)).trans ⟨rfl, rfl, rfl, rfl, rfl⟩)
  · exact (access_calm s).trans ((leave_calm _).trans ⟨rfl, rfl, rfl, rfl, rfl⟩)

theorem release_calm (s : Control) : Calm s s.release := by
  unfold release
  split
  · exact (emit_calm s _).trans (leave_calm _)
  · exact .rfl

theorem driverDispatch_calm (s : Control) (argv : List String) :
    Calm s (s.driverDispatch argv).1 := by
  unfold driverDispatch
  split
  · split
    · exact emit_calm s _
    · exact .rfl
  · split <;> exact .rfl
  · exact .rfl

theorem acted_calm {line : List String} (h : Acted s line t) : Calm s t := by
  cases h with
  | nothing => exact .rfl
  | effect e plain =>
    cases e with
    | signal pid sig => cases plain
    | reported m => cases plain
    | _ => exact emit_calm s _
  | missed absent => exact get_calm s
  | looked words d found =>
    exact (get_calm s).trans ((driverDispatch_calm _ words).trans (release_calm _))
  | reloaded d found =>
    rw [reload, found]
    have emitted := emit_calm s.access.leave (.reloaded s.made)
    exact (access_calm s).trans ((leave_calm _).trans
      (emitted.trans ⟨rfl, rfl, rfl, rfl, rfl⟩))
  | stale n cmd d said bad old => exact release_calm s

def owed (s : Control) (signal : UserSignal) : List (Int × UserSignal) :=
  match s.replytarget with
  | some i => if s.toProcess i then [(s.target i, signal)] else []
  | none => []

theorem log_signals (s : Control) (msg : Option Reason) : (s.log msg).signals = s.signals := by
  cases msg with
  | none => rfl
  | some m => simp [log, signals, emit, Effect.signalled]

theorem log_failed (s : Control) (msg : Option Reason) :
    (s.log msg).failed = (s.failed || msg.isSome) := by
  cases msg with
  | none => simp [log]
  | some m => simp [log, failed, emit, Effect.isReport]

theorem reply_signals (s : Control) (msg : Option Reason) :
    (s.reply msg).signals = s.signals ++ s.owed (answer msg) ∧
      (s.reply msg).failed = (s.failed || msg.isSome) ∧ (s.reply msg).replytarget = none := by
  unfold reply owed
  cases target : s.replytarget with
  | none =>
    refine ⟨by simp [log_signals], log_failed s msg, ?_⟩
    cases msg <;> exact target
  | some i =>
    simp only
    split
    · refine ⟨?_, ?_, rfl⟩
      · rw [← log_signals s msg]
        simp [signals, emit, Effect.signalled]
      · rw [← log_failed s msg]
        simp [failed, emit, Effect.isReport]
    · exact ⟨by rw [List.append_nil]; exact log_signals s msg, log_failed s msg, rfl⟩

theorem Calm.owed (h : Calm s t) (signal : UserSignal) : t.owed signal = s.owed signal := by
  rw [Control.owed, Control.owed, h.target]
  cases s.replytarget with
  | none => rfl
  | some i =>
    have process : t.toProcess i = s.toProcess i := by rw [toProcess, toProcess, h.buf]
    have target : t.target i = s.target i := by rw [Control.target, Control.target, h.buf]
    simp only [process, target]

theorem Answered.turn {line : List String} (h : Answered s line t) (going : s.ending = none) (quiet : s.signals = [])
    (good : s.failed = false) :
    t.turn.signals = s.owed (if t.turn.failed then .usr2 else .usr1) := by
  obtain ⟨u, acted, how⟩ := h
  have calm := acted_calm acted
  have alive : u.ending = none := calm.ending.trans going
  rcases how with rfl | ⟨msg, rfl⟩
  · rw [Control.turn, alive]
    obtain ⟨sent, failed, -⟩ := reply_signals t none
    show (t.reply none).signals = s.owed (if (t.reply none).failed then .usr2 else .usr1)
    rw [sent, failed, calm.failed, calm.signals, calm.owed, quiet, good]
    rfl
  · have ended : (u.reply msg).ending = none := by
      rw [← alive]
      unfold reply
      cases msg <;> split <;> first | rfl | (split <;> rfl)
    obtain ⟨sent, failed, cleared⟩ := reply_signals u msg
    obtain ⟨again, failed', -⟩ := reply_signals (u.reply msg) none
    have nothing : (u.reply msg).owed (answer none) = [] := by
      rw [Control.owed, cleared]
    rw [Control.turn, ended]
    show ((u.reply msg).reply none).signals =
      s.owed (if ((u.reply msg).reply none).failed then .usr2 else .usr1)
    rw [again, failed', nothing, sent, failed, calm.failed, calm.signals, calm.owed, quiet, good]
    cases msg <;> simp [answer]

theorem handle_signals {c : ControlLine} {buf : List Char} {target : Option Nat}
    {cp : List Char} (going : s.ending = none)
    (took : t = ((s.opened buf target).handle c cp).turn) :
    (Ends cp ∨ Deadly s c cp) ∧ t.signals = [] ∨
      ¬ Ends cp ∧ ¬ Deadly s c cp ∧
        t.signals = (s.opened buf target).owed (if t.failed then .usr2 else .usr1) := by
  subst took
  have ended {h : Control} (dead : h.ending.isSome) : h.turn = h := by rw [turn, if_pos dead]
  by_cases ends : Ends cp
  · obtain ⟨code, how, left⟩ := handle_ends (s.opened buf target) c ends
    rw [left, ended rfl]
    exact .inl ⟨.inl ends, rfl⟩
  by_cases deadly : Deadly s c cp
  · rcases handle_deadly (s := s.opened buf target) deadly with dead | dead
    · rw [dead, ended rfl]
      exact .inl ⟨.inr deadly, rfl⟩
    · rw [dead, ended rfl]
      exact .inl ⟨.inr deadly, rfl⟩
  · have answered := handle_answered (s := s.opened buf target) ends deadly
    exact .inr ⟨ends, deadly, answered.turn going rfl rfl⟩

def Waiting (s : Control) : Prop := s.ending = none → s.replytarget = none

theorem step_waiting {c : ControlLine} (before : Waiting s) (run : step s c = some t) :
    Waiting t := by
  obtain ⟨going, how⟩ := step_cases run
  rcases how with ⟨-, rfl⟩ | ⟨buf, -, rfl⟩ | ⟨buf, target, cp, -, rfl⟩
  · nofun
  · exact fun _ => before going
  · intro alive
    rw [turn] at alive ⊢
    split
    · rename_i dead
      rw [if_pos dead] at alive
      rw [alive] at dead
      cases dead
    · exact (reply_signals _ none).2.2

end Control

def ControlLine.Numbered (c : ControlLine) (pid : Nat) : Prop :=
  ∃ digits x rest, c.line = digits ++ x :: rest ∧ digits ≠ [] ∧
    (∀ d ∈ digits, Control.isdigit d = true) ∧ Sip.isspace x = true ∧
    Sip.digits digits 0 = pid ∧ 0 < pid ∧ pid < 2147483648

/-- What a line has signalled when the next one is read: a line with a reply pid that does
not end the loop has signalled that pid, once, with the outcome; a line without one has
signalled nobody; and a signal goes to no pid but the line's own. -/
structure Acknowledged (c : ControlLine) (t : Control) : Prop where
  once : ∀ pid : Nat, c.Numbered pid → ¬ Control.Ends c.command →
    t.signals = [((pid : Int), if t.failed then .usr2 else .usr1)]
  bare : ¬ c.HasPid → t.signals = []
  own : ∀ p ∈ t.signals, p.1 = atoi (String.ofList c.first)

namespace Control
variable {s t : Control}

theorem numbered_first {c : ControlLine} {pid : Nat} (h : c.Numbered pid) :
    atoi (String.ofList c.first) = pid ∧ c.HasPid ∧ ∃ x more,
      c.line.dropWhile (!Sip.isspace ·) = x :: more ∧
      c.command = more.dropWhile Sip.isspace := by
  obtain ⟨ds, x, rest, line, some, all, space, value, -, fits⟩ := h
  have keep : ∀ d ∈ ds, (!Sip.isspace d) = true := fun d hd => by
    rw [isspace_of_isdigit (all d hd)]
    rfl
  have word : c.first = ds := by
    rw [ControlLine.first, line, List.takeWhile_append_of_pos keep, List.takeWhile_cons, space]
    simp
  have after : c.line.dropWhile (!Sip.isspace ·) = x :: rest := by
    rw [line, List.dropWhile_append_of_pos keep, List.dropWhile_cons, space]
    rfl
  refine ⟨?_, ?_, x, rest, after, ?_⟩
  · rw [word, atoi_digits all (by omega), value]
  · cases ds with
    | nil => exact absurd rfl some
    | cons d ds =>
      rw [ControlLine.HasPid, line]
      exact all d List.mem_cons_self
  · rw [ControlLine.command, after]
    rfl

theorem owed_opened {c : ControlLine} {b : List Char} {i : Nat} (s : Control)
    (named : prefixed c.line = true) (target : CString.text nul b i = c.first)
    (signal : UserSignal) : (s.opened b (some i)).owed signal =
      if c.line.head?.any isdigit then [(atoi (String.ofList c.first), signal)] else [] := by
  have head : c.first.head? = c.line.head? := by
    rw [ControlLine.first, List.head?_takeWhile]
    cases first : c.line.head? with
    | none => rfl
    | some x =>
      have solid : Sip.isspace x = false := by
        rw [prefixed, first] at named
        rcases Bool.or_eq_true _ _ |>.mp named with slash | digit
        · rw [of_decide_eq_true slash]
          rfl
        · exact isspace_of_isdigit digit
      simp [Option.filter, solid]
  have process : (s.opened b (some i)).toProcess i = c.line.head?.any isdigit := by
    rw [← head, ← target]
    exact (CString.head_text (by decide) b i).symm
  have value : (s.opened b (some i)).target i = atoi (String.ofList c.first) := by
    rw [← target]
    rfl
  show (if (s.opened b (some i)).toProcess i then _ else _) = _
  rw [process, value]

theorem step_prefixed {c : ControlLine} (h : refused c.line = false)
    (named : prefixed c.line = true) (run : step s c = some t) :
    t.signals = [] ∨ ∃ signal, t.signals =
      if c.line.head?.any isdigit then [(atoi (String.ofList c.first), signal)] else [] := by
  obtain ⟨going, how⟩ := step_cases run
  rcases how with ⟨-, rfl⟩ | ⟨buf, -, rfl⟩ | ⟨buf, target, cp, line, took⟩
  · exact .inl rfl
  · exact .inl rfl
  rcases receive_prefixed s.buf s.replytarget h named with lost | ⟨b, i, p, received, first⟩
  · rw [lost] at line
    cases line
  rw [received] at line
  cases line
  rcases handle_signals going took with ⟨-, none⟩ | ⟨-, -, sent⟩
  · exact .inl none
  · rw [sent, owed_opened s named first]
    exact .inr ⟨_, rfl⟩

theorem step_plain {c : ControlLine} (waiting : Waiting s)
    (plain : refused c.line = true ∨ prefixed c.line = false) (run : step s c = some t) : t.signals = [] := by
  obtain ⟨going, how⟩ := step_cases run
  rcases how with ⟨-, rfl⟩ | ⟨buf, -, rfl⟩ | ⟨buf, target, cp, line, took⟩
  · rfl
  · rfl
  cases refusal : refused c.line with
  | true =>
    obtain ⟨b, again⟩ := receive_refused s.buf s.replytarget refusal
    rw [again] at line
    cases line
  | false =>
    have bare : prefixed c.line = false := by
      rcases plain with h | h
      · rw [refusal] at h
        cases h
      · exact h
    obtain ⟨b, p, received, -⟩ := receive_plain s.buf s.replytarget refusal bare
    rw [received] at line
    cases line
    rcases handle_signals going took with ⟨-, none⟩ | ⟨-, -, sent⟩
    · exact none
    · have cleared : (s.opened buf s.replytarget).replytarget = none := waiting going
      rw [sent, owed, cleared]

theorem step_numbered {c : ControlLine} {pid : Nat} (number : c.Numbered pid)
    (run : step s c = some t) :
    (Ends c.command ∨ Deadly s c c.command) ∧ t.signals = [] ∨
      ¬ Ends c.command ∧ ¬ Deadly s c c.command ∧
        t.signals = [((pid : Int), if t.failed then .usr2 else .usr1)] := by
  obtain ⟨value, hasPid, x, more, split, command⟩ := numbered_first number
  obtain ⟨h, named⟩ := prefixed_of_hasPid hasPid
  obtain ⟨b, i, cp, received, first, said⟩ := receive_target s.buf s.replytarget h named split
  obtain ⟨going, how⟩ := step_cases run
  rw [received] at how
  rcases how with ⟨lost, -⟩ | ⟨buf, again, -⟩ | ⟨buf, target, p, line, took⟩
  · cases lost
  · cases again
  cases line
  rw [said, ← command] at took
  rcases handle_signals going took with ended | ⟨stays, safe, sent⟩
  · exact .inl ended
  · refine .inr ⟨stays, safe, ?_⟩
    have digit : c.line.head?.any isdigit = true := hasPid
    rw [sent, owed_opened s named first, digit, value]
    rfl

/-- A line is acknowledged exactly when it has no reply pid or does not kill the process. -/
theorem acknowledged_iff {c : ControlLine} (waiting : Waiting s) (run : step s c = some t) :
    Acknowledged c t ↔ ∀ pid, c.Numbered pid → ¬ Deadly s c c.command := by
  constructor
  · intro ack pid number deadly
    have sent := ack.once pid number (not_ends_of_deadly deadly)
    rcases step_numbered number run with ⟨-, none⟩ | ⟨-, safe, -⟩
    · rw [none] at sent
      cases sent
    · exact safe deadly
  · intro safe
    refine ⟨?_, ?_, ?_⟩
    · intro pid number stays
      rcases step_numbered number run with ⟨ends | deadly, -⟩ | ⟨-, -, sent⟩
      · exact absurd ends stays
      · exact absurd deadly (safe pid number)
      · exact sent
    · intro bare
      have none : c.line.head?.any isdigit = false := Bool.eq_false_iff.mpr bare
      cases h : refused c.line with
      | true => exact step_plain waiting (.inl h) run
      | false =>
        cases named : prefixed c.line with
        | false => exact step_plain waiting (.inr named) run
        | true =>
          rcases step_prefixed h named run with nobody | ⟨signal, sent⟩
          · exact nobody
          · rw [sent, none]
            rfl
    · intro p hp
      cases h : refused c.line with
      | true => rw [step_plain waiting (.inl h) run] at hp; cases hp
      | false =>
        cases named : prefixed c.line with
        | false => rw [step_plain waiting (.inr named) run] at hp; cases hp
        | true =>
          rcases step_prefixed h named run with nobody | ⟨signal, sent⟩
          · rw [nobody] at hp
            cases hp
          · rw [sent] at hp
            split at hp
            · rw [List.mem_singleton.mp hp]
            · cases hp

/-- In every run of control lines, each line has the signals it should when the next one
is read, as long as none that names a reply pid kills the process. -/
theorem acknowledged_iff_along (buf : List Char) (active : Option Nat) (made : Nat)
    (registrations : List String) (timeslots boards : Nat) (lines : List ControlLine) :
    Run.Along step (fun s c => ∀ t, step s c = some t → Acknowledged c t)
        (start buf active made registrations timeslots boards) lines ↔
      Run.Along step (fun s c => s.ending = none →
          ∀ pid, c.Numbered pid → ¬ Deadly s c c.command)
        (start buf active made registrations timeslots boards) lines := by
  refine Run.along_iff_of_invariant (I := Waiting) (fun s c t => step_waiting) ?_ lines
    (fun _ => rfl)
  intro s c waiting
  constructor
  · intro ack going
    obtain ⟨t, run⟩ := step_some c going
    exact (acknowledged_iff waiting run).mp (ack t run)
  · intro safe t run
    exact (acknowledged_iff waiting run).mpr (safe (step_cases run).1)

def periodZero : ControlLine :=
  .said "123 period 0\n".toList (by decide) (by decide) (by decide)

/-- A period of no minutes kills the process before process 123 is signalled. -/
theorem not_acknowledged :
    ¬ Run.Along step (fun s c => ∀ t, step s c = some t → Acknowledged c t)
      fresh [periodZero] := by
  intro along
  obtain ⟨t, run⟩ := step_some (s := fresh) periodZero rfl
  have number : periodZero.Numbered 123 :=
    ⟨['1', '2', '3'], ' ', "period 0".toList, by decide, by decide, List.all_eq_true.mp rfl,
      by decide, by decide, by decide, by decide⟩
  have deadly : Deadly fresh periodZero periodZero.command :=
    .inl ⟨"0", by decide, by decide⟩
  have once := (along.1 t run).once 123 number (not_ends_of_deadly deadly)
  rcases step_numbered number run with ⟨-, silent⟩ | ⟨-, safe, -⟩
  · rw [silent] at once
    cases once
  · exact safe deadly

end Control

end Bayonne
