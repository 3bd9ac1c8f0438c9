import Bayonne.Control

/-! What a command can do: everything that holds of a line is read off from here. -/
namespace Bayonne

def Effect.isPlain : Effect → Bool
  | .signal .. | .reported _ | .access | .leave | .got _ | .released _ => false
  | _ => true

namespace Control

/-- What a command does before it replies. The last case is the error exit of a
`timeslot` command with a bad number, where an earlier line looked the driver up. -/
inductive Acted (s : Control) (argv : List String) : Control → Prop
  | nothing : Acted s argv s
  | effect (e : Effect) (plain : e.isPlain = true) : Acted s argv (s.emit e)
  | missed (absent : s.get.driver = none) : Acted s argv s.get
  | looked (words : List String) (d : Nat) (found : s.get.driver = some d) :
      Acted s argv (s.get.driverDispatch words).1.release
  | reloaded (d : Nat) (found : s.active = some d) : Acted s argv s.reload
  | stale (n cmd : String) (d : Nat) (said : argv = ["timeslot", n, cmd])
      (bad : isTimeslot n = false) (old : s.driver = some d) : Acted s argv s.release

def Answered (s : Control) (argv : List String) (t : Control) : Prop :=
  ∃ u, Acted s argv u ∧ (t = u ∨ ∃ msg, t = u.reply msg)

def Ends (cp : List Char) : Prop :=
  String.ofList cp ∈ ["stop", "down", "exit", "restart", "abort"]

/-- The commands that kill the process: a period that is not positive or wraps to no
seconds, a snapshot whose file cannot be opened, and a reload where no driver is active. -/
def Deadly (s : Control) (c : ControlLine) (cp : List Char) : Prop :=
  (∃ w, words 64 cp = ["period", w] ∧ badPeriod (atol w) = true) ∨
    String.ofList cp = "snapshot" ∧ c.opens = false ∨
    String.ofList cp = "reload" ∧ s.active = none

section Effects
variable {β : Type} {f : Effect → Option β}

structure Skips (f : Effect → Option β) : Prop where
  access : f .access = none
  leave : f .leave = none
  got : ∀ d, f (.got d) = none
  released : ∀ d, f (.released d) = none

theorem effects_emit (s : Control) (e : Effect) :
    (s.emit e).done.filterMap f = s.done.filterMap f ++ (f e).toList := by
  cases h : f e <;> simp [emit, h]

theorem effects_quiet (s : Control) {e : Effect} (quiet : f e = none) :
    (s.emit e).done.filterMap f = s.done.filterMap f := by
  rw [effects_emit, quiet]
  exact List.append_nil _

theorem effects_get (skips : Skips f) (s : Control) :
    s.get.done.filterMap f = s.done.filterMap f := by
  unfold get
  split
  · exact (effects_quiet s.access (skips.got _)).trans (effects_quiet s skips.access)
  · exact (effects_quiet s.access skips.leave).trans (effects_quiet s skips.access)

theorem effects_release (skips : Skips f) (s : Control) :
    s.release.done.filterMap f = s.done.filterMap f := by
  unfold release
  split
  · exact (effects_quiet _ skips.leave).trans (effects_quiet s (skips.released _))
  · rfl

theorem effects_log (s : Control) (msg : Option Reason) :
    (s.log msg).done.filterMap f =
      s.done.filterMap f ++ (msg.bind fun m => f (.reported m)).toList := by
  cases msg with
  | none => exact (List.append_nil _).symm
  | some m => exact effects_emit s (.reported m)

theorem effects_reply (silent : ∀ pid sig, f (.signal pid sig) = none) (s : Control)
    (msg : Option Reason) : (s.reply msg).done.filterMap f =
      s.done.filterMap f ++ (msg.bind fun m => f (.reported m)).toList := by
  unfold reply
  split
  · exact effects_log s msg
  · split
    · exact (effects_quiet (s.log msg) (silent _ _)).trans (effects_log s msg)
    · exact effects_log s msg

end Effects

variable {s t u : Control} {line : List String}

theorem Acted.replied (h : Acted s line u) (msg : Option Reason) :
    Answered s line (u.reply msg) := ⟨u, h, .inr ⟨msg, rfl⟩⟩

theorem Acted.answered (h : Acted s line u) : Answered s line u := ⟨u, h, .inl rfl⟩

theorem Acted.replyError (h : Acted s line u) (err : Option Reason) :
    Answered s line (u.replyError err) := by
  cases err with
  | none => exact h.answered
  | some m => exact h.replied _

theorem release_none (h : s.driver = none) : s.release = s := by
  rw [release, h]

theorem lookup_answered (s : Control) (argv : List String) (err : Reason) :
    Answered s line (s.lookup argv err) := by
  cases hd : s.get.driver with
  | none =>
    rw [lookup, hd]
    show Answered s line (s.get.release.reply (some err))
    rw [release_none hd]
    exact (Acted.missed hd).replied _
  | some d =>
    rw [lookup, hd]
    exact (Acted.looked argv d hd).replied _

theorem post_answered (s : Control) (c : ControlLine) (w : String) (event : EventId) :
    Answered s line (s.post c w event) := by
  by_cases known : index w < s.timeslots
  · rw [post, if_pos known]
    exact (Acted.effect (.posted (index w) event) rfl).replyError _
  · rw [post, if_neg known]
    exact Acted.nothing.replyError _

theorem argument_answered (s : Control) (args : List String) {act : String → Control}
    (each : ∀ w, args = [w] → Answered s line (act w)) :
    Answered s line (s.argument args act) := by
  unfold argument
  split
  · exact each _ rfl
  · exact Acted.nothing.replied _

theorem slotCommand_answered (s : Control) (c : ControlLine) (argv args : List String)
    (event : EventId) : Answered s line (s.slotCommand c argv args event) := by
  have single : s.slotCommand c argv args event = s.argument args fun w =>
      if isTimeslot w then s.post c w event else s.lookup argv invalidTimeslot := rfl
  rw [single]
  refine argument_answered s args fun w _ => ?_
  split
  · exact post_answered s c w event
  · exact lookup_answered s _ _

theorem timeslot_answered (s : Control) (c : ControlLine) (args : List String) :
    Answered s ("timeslot" :: args) (s.timeslot c ("timeslot" :: args) args) := by
  unfold timeslot
  split
  · rename_i n cmd
    split
    · rename_i bad
      have invalid : isTimeslot n = false := by simpa using bad
      cases hd : s.driver with
      | none =>
        rw [error, release_none hd]
        exact Acted.nothing.replied _
      | some d => exact (Acted.stale n cmd d rfl invalid hd).replied _
    split
    · exact slotCommand_answered s c _ _ _
    · exact lookup_answered s _ _
  · exact Acted.nothing.replied _

theorem suspend_answered (s : Control) (c : ControlLine) (w : String) :
    Answered s line (s.suspend c w) := by
  by_cases known : index w < s.boards
  · rw [suspend, if_pos known]
    exact (Acted.effect (.suspended (index w)) rfl).replyError _
  · rw [suspend, if_neg known]
    exact Acted.nothing.replyError _

theorem resume_answered (s : Control) (c : ControlLine) (w : String) :
    Answered s line (s.resume c w) := by
  by_cases known : index w < s.boards
  · rw [resume, if_pos known]
    exact (Acted.effect (.resumed (index w)) rfl).replyError _
  · rw [resume, if_neg known]
    exact Acted.nothing.replyError _

theorem command_answered (s : Control) (c : ControlLine) (argv : List String)
    (safe : ∀ w, argv = ["period", w] → badPeriod (atol w) = false) :
    Answered s argv (s.command c argv) := by
  cases argv with
  | nil => exact Acted.nothing.answered
  | cons cmd args =>
    unfold command
    simp only
    split
    · exact argument_answered s args fun w _ =>
        (Acted.effect (.verbose (atoi w)) rfl).answered
    split
    · rename_i named
      refine argument_answered s args fun w one => ?_
      rw [period, safe w (by rw [named, one])]
      exact (Acted.effect (.period (atol w)) rfl).answered
    split
    · exact argument_answered s args fun w _ =>
        (Acted.effect (.concurrency (atoi w)) rfl).answered
    split
    · exact argument_answered s args fun w _ => suspend_answered s c w
    split
    · exact argument_answered s args fun w _ => resume_answered s c w
    split
    · exact slotCommand_answered s c _ _ _
    split
    · rename_i named
      rw [named]
      exact timeslot_answered s c args
    · exact lookup_answered s _ _

theorem handle_answered {c : ControlLine} {cp : List Char} (stays : ¬ Ends cp)
    (safe : ¬ Deadly s c cp) : Answered s (words 64 cp) (s.handle c cp) := by
  obtain ⟨period, opens, active⟩ := by
    simpa [Deadly] using safe
  unfold handle
  simp only
  split
  · rename_i left
    refine absurd ?_ stays
    simp only [leaves, decide_eq_true_eq] at left
    simp only [Ends, List.mem_cons] at left ⊢
    tauto
  split
  · rename_i named
    cases ha : s.active with
    | none => exact absurd ha (active named)
    | some d => exact (Acted.reloaded d ha).answered
  split
  · exact Acted.nothing.answered
  split
  · rename_i named
    exact absurd (by simp [Ends, named]) stays
  split
  · rename_i named
    rw [takeSnapshot, if_pos (opens named)]
    exact (Acted.effect (.snapshot s.pid) rfl).answered
  split
  · rename_i named
    exact absurd (by simp [Ends, named]) stays
  · exact command_answered s c _ fun w said => period w said

theorem handle_ends {cp : List Char} (s : Control) (c : ControlLine) (ends : Ends cp) :
    ∃ code how, s.handle c cp = { s with exitCode := code, ending := some how } := by
  simp only [Ends, List.mem_cons, List.not_mem_nil, or_false] at ends
  unfold handle
  simp only
  rcases ends with h | h | h | h | h <;> rw [h] <;> exact ⟨_, _, rfl⟩

theorem handle_deadly {c : ControlLine} {cp : List Char} (deadly : Deadly s c cp) :
    s.handle c cp = s.fail ∨ s.handle c cp = s.access.fail := by
  rcases deadly with ⟨w, said, bad⟩ | ⟨named, shut⟩ | ⟨named, absent⟩
  · have several : (words 64 cp).length ≠ 1 := by
      rw [said]
      nofun
    rw [handle_command c several, said]
    have commanded : s.command c ["period", w] = s.period w := rfl
    rw [commanded, period, if_pos bad]
    exact .inl rfl
  · have snapped : s.handle c cp = s.takeSnapshot c := by
      unfold handle
      simp only
      rw [named]
      rfl
    rw [snapped, takeSnapshot, shut]
    exact .inl rfl
  · have reloads : s.handle c cp = s.reload := by
      unfold handle
      simp only
      rw [named]
      rfl
    rw [reloads, reload, absent]
    exact .inr rfl

theorem not_ends_of_deadly {c : ControlLine} {cp : List Char} (deadly : Deadly s c cp) :
    ¬ Ends cp := by
  intro ends
  simp only [Ends, List.mem_cons, List.not_mem_nil, or_false] at ends
  rcases deadly with ⟨w, said, -⟩ | ⟨named, -⟩ | ⟨named, -⟩
  · have single : (words 64 cp).length = 1 := by
      rw [← String.toList_ofList (l := cp)]
      rcases ends with h | h | h | h | h <;> rw [h] <;> rfl
    rw [said] at single
    cases single
  · rw [named] at ends
    revert ends
    decide
  · rw [named] at ends
    revert ends
    decide

end Control

end Bayonne
