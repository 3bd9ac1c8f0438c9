import Bayonne.Control.Signals
import Bayonne.Stats.Slices

/-! What the words of a command make it act on: the minutes of `period`, and the number of
a timeslot or a board. -/
namespace Bayonne
namespace Control

theorem atol_bounds (w : String) :
    -9223372036854775808 ≤ atol w ∧ atol w ≤ 9223372036854775807 := by
  unfold atol
  omega

theorem wraps_iff {n : Int} (pos : 0 < n) (high : n ≤ 9223372036854775807) :
    (n * 60).bmod 18446744073709551616 = 0 ↔ n = 4611686018427387904 := by
  rw [← Int.dvd_iff_bmod_eq_zero]
  grind

theorem badPeriod_iff (w : String) :
    badPeriod (atol w) = true ↔ atol w ≤ 0 ∨ atol w = 4611686018427387904 := by
  unfold badPeriod
  rw [Bool.or_eq_true, decide_eq_true_eq, decide_eq_true_eq]
  by_cases low : atol w ≤ 0
  · simp [low]
  · rw [wraps_iff (by omega) (atol_bounds w).2]

variable {s : Control} {cp : List Char}

/-- A `period` line is survived by the assertion and by the divisions of `server::period`
exactly when its word is a number of minutes that is positive and does not wrap to 0. -/
theorem period_survives (s : Control) (c : ControlLine) {w : String}
    (going : s.ending = none) (said : words 64 cp = ["period", w]) :
    ((s.handle c cp).ending = none ∧
      ∀ (st : Statistics) now opens, st.period (atol w) now opens ≠ none) ↔
    0 < atol w ∧ atol w ≠ 4611686018427387904 := by
  have several : (words 64 cp).length ≠ 1 := by
    simp [said]
  have handled : s.handle c cp = s.period w := by
    rw [handle_command c several, said]
    rfl
  rw [handled, period]
  by_cases bad : badPeriod (atol w) = true
  · have dies := (badPeriod_iff w).mp bad
    rw [if_pos bad]
    refine ⟨fun h => ?_, fun good => by omega⟩
    cases h.1
  · have lives := mt (badPeriod_iff w).mpr bad
    rw [if_neg bad]
    refine ⟨fun _ => by omega, fun _ => ⟨going, fun st now opens dead => ?_⟩⟩
    exact bad ((st.period_none _ now opens).mp dead)

theorem period_survives_five :
    (fresh.handle (.said "period 5\n".toList (by decide) (by decide) (by decide))
      "period 5".toList).ending = none :=
  ((period_survives fresh _ rfl (by decide : words 64 "period 5".toList = ["period", "5"])).mpr
    (by decide)).1

theorem not_period_survives : ¬ ∀ (s : Control) (c : ControlLine) (cp : List Char) (w : String),
    s.ending = none → words 64 cp = ["period", w] → (s.handle c cp).ending = none := by
  intro whole
  have survived := whole fresh (.said "period 0\n".toList (by decide) (by decide) (by decide))
    "period 0".toList "0" rfl (by decide)
  exact absurd survived (by decide)

def value (w : String) : Nat := Sip.digits w.toList 0

def Denotes (w : String) (i : Nat) : Prop := isTimeslot w = true ∧ value w = i

theorem index_eq {w : String} (numeral : isTimeslot w = true) :
    index w = min (value w) 9223372036854775807 % 4294967296 := by
  have all : ∀ d ∈ w.toList, isdigit d = true := by
    simp only [isTimeslot, Bool.and_eq_true] at numeral
    exact List.all_eq_true.mp numeral.2
  have plain := unbounded_digits all
  rw [String.ofList_toList] at plain
  have low : index w = (atol w % ((4294967296 : Nat) : Int)).toNat :=
    congrArg Int.toNat Int.bmod_emod
  rw [low, atol, plain, show Sip.digits w.toList 0 = value w from rfl]
  omega

theorem value_eq_index {w : String} (numeral : isTimeslot w = true) :
    value w = index w ↔ value w < 4294967296 := by
  rw [index_eq numeral]
  omega

end Control

def Effect.touches : Effect → Option Nat
  | .posted timeslot _ => some timeslot
  | .suspended board => some board
  | .resumed board => some board
  | _ => none

namespace Control

def touched (s : Control) : List Nat := s.done.filterMap Effect.touches

theorem skips_touches : Skips Effect.touches := ⟨rfl, rfl, fun _ => rfl, fun _ => rfl⟩

theorem touched_emit (s : Control) (e : Effect) :
    (s.emit e).touched = s.touched ++ e.touches.toList := effects_emit s e

theorem touched_reply (s : Control) (msg : Option Reason) :
    (s.reply msg).touched = s.touched ∧ (s.reply msg).failed = (s.failed || msg.isSome) := by
  refine ⟨?_, (reply_signals s msg).2.1⟩
  have replied := effects_reply (f := Effect.touches) (fun _ _ => rfl) s msg
  have nothing : (msg.bind fun m => Effect.touches (.reported m)) = none := by
    cases msg <;> rfl
  rw [nothing] at replied
  exact replied.trans (List.append_nil _)

theorem touched_replyError (s : Control) (err : Option Reason) :
    (s.replyError err).touched = s.touched := by
  cases err with
  | none => rfl
  | some m => exact (touched_reply s (some m)).1

theorem touched_get (s : Control) : s.get.touched = s.touched := effects_get skips_touches s

theorem touched_release (s : Control) : s.release.touched = s.touched :=
  effects_release skips_touches s

def slotCommands : List String := ["drop", "hangup", "enable", "disable"]

def boardCommands : List String := ["suspend", "resume"]

theorem driverDispatch_slot (s : Control) {cmd : String} (args : List String)
    (slot : cmd ∈ slotCommands) :
    s.driverDispatch (cmd :: args) = (s, some unknownResource) := by
  simp only [slotCommands, List.mem_cons, List.not_mem_nil, or_false] at slot
  rcases slot with rfl | rfl | rfl | rfl <;> rfl

theorem lookup_touched (s : Control) {cmd w : String} (err : Reason)
    (slot : cmd ∈ slotCommands) :
    (s.lookup [cmd, w] err).touched = s.touched ∧ (s.lookup [cmd, w] err).failed = true := by
  have released := (touched_release s.get).trans (touched_get s)
  have refused : ∀ m, (s.get.error (some m)).touched = s.touched ∧
      (s.get.error (some m)).failed = true := by
    intro m
    obtain ⟨touched, failed⟩ := touched_reply s.get.release (some m)
    exact ⟨touched.trans released, failed.trans (by simp)⟩
  have unknown := driverDispatch_slot s.get [w] slot
  unfold lookup
  split
  · rw [unknown]
    exact refused _
  · exact refused _

def objects (s : Control) (cmd : String) : Nat :=
  if cmd ∈ boardCommands then s.boards else s.timeslots

/-- `dispatch` finds an object for the word. Only a timeslot is looked for by digits. -/
def Reaches (s : Control) (cmd w : String) : Prop :=
  (cmd ∈ slotCommands → isTimeslot w = true) ∧ index w < s.objects cmd

theorem post_touched (s : Control) (c : ControlLine) (w : String) (event : EventId) :
    index w < s.timeslots ∧ (s.post c w event).touched = s.touched ++ [index w] ∨
      ¬ index w < s.timeslots ∧ (s.post c w event).touched = s.touched ∧
        (s.post c w event).failed = true := by
  by_cases known : index w < s.timeslots
  · rw [post, if_pos known, touched_replyError, touched_emit]
    exact .inl ⟨known, rfl⟩
  · rw [post, if_neg known]
    obtain ⟨touched, failed⟩ := touched_reply s (some invalidTimeslot)
    exact .inr ⟨known, touched, failed.trans (by simp)⟩

theorem slotCommand_touched (s : Control) (c : ControlLine) {cmd w : String} (event : EventId)
    (slot : cmd ∈ slotCommands) :
    let t := s.slotCommand c [cmd, w] [w] event
    isTimeslot w = true ∧ index w < s.timeslots ∧ t.touched = s.touched ++ [index w] ∨
      ¬ (isTimeslot w = true ∧ index w < s.timeslots) ∧ t.touched = s.touched ∧
        t.failed = true := by
  intro t
  by_cases numeral : isTimeslot w = true
  · have posted : t = s.post c w event := if_pos numeral
    rw [posted]
    rcases post_touched s c w event with ⟨known, touched⟩ | ⟨unknown, refused⟩
    · exact .inl ⟨numeral, known, touched⟩
    · exact .inr ⟨fun h => unknown h.2, refused⟩
  · have looked : t = s.lookup [cmd, w] invalidTimeslot := if_neg numeral
    rw [looked]
    exact .inr ⟨fun h => numeral h.1, lookup_touched s invalidTimeslot slot⟩

theorem board_touched (s : Control) {i : Nat} (e : Effect) (err : Option Reason)
    (here : e.touches = some i) :
    let t := if i < s.boards then (s.emit e).replyError err else s.replyError (some unknownBoard)
    i < s.boards ∧ t.touched = s.touched ++ [i] ∨
      ¬ i < s.boards ∧ t.touched = s.touched ∧ t.failed = true := by
  intro t
  by_cases known : i < s.boards
  · have acted : t = (s.emit e).replyError err := if_pos known
    rw [acted, touched_replyError, touched_emit, here]
    exact .inl ⟨known, rfl⟩
  · have refused : t = s.reply (some unknownBoard) := if_neg known
    obtain ⟨touched, failed⟩ := touched_reply s (some unknownBoard)
    rw [refused]
    exact .inr ⟨known, touched, failed.trans (by simp)⟩

variable {s : Control} {cp : List Char} {cmd w : String}

theorem command_slot (s : Control) (c : ControlLine) (w : String) (slot : cmd ∈ slotCommands) :
    ∃ event, s.command c [cmd, w] = s.slotCommand c [cmd, w] [w] event := by
  simp only [slotCommands, List.mem_cons, List.not_mem_nil, or_false] at slot
  rcases slot with rfl | rfl | rfl | rfl <;> exact ⟨_, rfl⟩

theorem command_board (s : Control) (c : ControlLine) (w : String) (board : cmd ∈ boardCommands) :
    ∃ e err, e.touches = some (index w) ∧
      s.command c [cmd, w] = if index w < s.boards then (s.emit e).replyError err
        else s.replyError (some unknownBoard) := by
  simp only [boardCommands, List.mem_cons, List.not_mem_nil, or_false] at board
  rcases board with rfl | rfl
  · exact ⟨.suspended (index w), c.suspend (index w), rfl, rfl⟩
  · exact ⟨.resumed (index w), c.resume (index w), rfl, rfl⟩

theorem handle_touched (s : Control) (c : ControlLine) (said : words 64 cp = [cmd, w])
    (known : cmd ∈ slotCommands ++ boardCommands) :
    s.Reaches cmd w ∧ (s.handle c cp).touched = s.touched ++ [index w] ∨
      ¬ s.Reaches cmd w ∧ (s.handle c cp).touched = s.touched ∧
        (s.handle c cp).failed = true := by
  have several : (words 64 cp).length ≠ 1 := by
    simp [said]
  rw [handle_command c several, said]
  by_cases board : cmd ∈ boardCommands
  · have other : cmd ∉ slotCommands := by
      simp only [boardCommands, List.mem_cons, List.not_mem_nil, or_false] at board
      rcases board with rfl | rfl <;> decide
    obtain ⟨e, err, here, acts⟩ := command_board s c w board
    have acted := board_touched s e err here
    simpa only [acts, Reaches, objects, board, other, if_true, false_imp_iff, true_and] using acted
  · have slot : cmd ∈ slotCommands := (List.mem_append.mp known).resolve_right board
    obtain ⟨event, acts⟩ := command_slot s c w slot
    have acted := slotCommand_touched s c event slot (w := w)
    simpa only [acts, Reaches, objects, board, slot, if_false, true_imp_iff, and_assoc] using acted

/-- What a command does is on the object whose number its word is. Every other word is
answered with an error and changes nothing. -/
structure Obeys (w : String) (count : Nat) (t : Control) : Prop where
  meant : ∀ i ∈ t.touched, Denotes w i
  refused : (∀ i < count, ¬ Denotes w i) → t.failed = true ∧ t.touched = []

/-- A command obeys its word exactly if the word, where `dispatch` finds an object for it,
is a decimal numeral that fits into 32 bits. -/
theorem obeys_iff (s : Control) (c : ControlLine) (buf : List Char) (target : Option Nat)
    (said : words 64 cp = [cmd, w]) (known : cmd ∈ slotCommands ++ boardCommands) :
    Obeys w (s.objects cmd) ((s.opened buf target).handle c cp) ↔
      (s.Reaches cmd w → isTimeslot w = true ∧ value w < 4294967296) := by
  have start : (s.opened buf target).touched = [] := rfl
  have same : (s.opened buf target).Reaches cmd w ↔ s.Reaches cmd w := Iff.rfl
  rcases handle_touched (s.opened buf target) c said known with ⟨found, acted⟩ | ⟨missed, none, failed⟩
  · rw [start, List.nil_append] at acted
    constructor
    · intro obeys _
      obtain ⟨numeral, own⟩ := obeys.meant (index w) (acted ▸ List.mem_cons_self)
      exact ⟨numeral, (value_eq_index numeral).mp own⟩
    · intro plain
      obtain ⟨numeral, small⟩ := plain found
      have denotes : Denotes w (index w) := ⟨numeral, (value_eq_index numeral).mpr small⟩
      refine ⟨fun i hi => ?_, fun unknown => absurd denotes (unknown _ found.2)⟩
      rw [acted, List.mem_singleton] at hi
      exact hi ▸ denotes
  · rw [start] at none
    refine ⟨fun _ found => absurd found missed, fun _ => ⟨fun i hi => ?_, fun _ => ⟨failed, none⟩⟩⟩
    rw [none] at hi
    cases hi

theorem obeys_iff_hangup :
    Obeys "1" 2 ((fresh.opened fresh.buf none).handle
      (.said "hangup 1\n".toList (by decide) (by decide) (by decide)) "hangup 1".toList) :=
  (obeys_iff fresh _ fresh.buf none
    (by decide : words 64 "hangup 1".toList = ["hangup", "1"]) (by decide)).mpr
    fun _ => by decide

/-- The numeral of 2^32 hangs up timeslot 0. -/
theorem not_obeys : ¬ ∀ (s : Control) (c : ControlLine) (buf : List Char) (target : Option Nat)
    (cp : List Char) (cmd w : String), words 64 cp = [cmd, w] →
    cmd ∈ slotCommands ++ boardCommands →
    Obeys w (s.objects cmd) ((s.opened buf target).handle c cp) := by
  intro whole
  have obeys := whole fresh
    (.said "hangup 4294967296\n".toList (by decide) (by decide) (by decide)) fresh.buf none
    "hangup 4294967296".toList "hangup" "4294967296" (by decide) (by decide)
  have wrong := obeys.meant 0 (by decide)
  exact absurd wrong.2 (by decide)

end Control
end Bayonne
