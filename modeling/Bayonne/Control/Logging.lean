import Bayonne.Control

/-! The lines that the server writes: `printlog` to the log file and `control` to the control
FIFO. Both print the message into a local array, which holds anything before, and put a newline
where the terminator was. -/
namespace Bayonne

namespace Control
open CString

/-- From `strlen` to the newline: the array and `len`. The character before the terminator of
an empty message is outside of the array. -/
def endLine (buf : List Char) : Option (List Char × Nat) :=
  (strlen nul buf).bind fun len =>
    if len = 0 then none
    else if buf[len - 1]? ≠ some '\n' then (store buf len '\n').map (·, len + 1)
    else some (buf, len)

def debugLine (buf : List Char) : Option (List Char) :=
  (scan (fun c => c = nul || c = '\n') buf 0).bind fun i =>
    (if buf[i]? = some '\n' then store buf i nul else some buf).bind fun buf =>
      (strlen nul buf).map buf.take

/-- What a message comes to: what is written, unless the file does not open, and the text of
the debug line of `printlog`. -/
structure Logged where
  written : Option (List Char)
  debug : List Char

/-- `server::printlog`, unless it leaves its array. -/
def printlog (buf : Buffer 1024) (opens : Bool) (msg : Text nul) : Option Logged :=
  (print nul buf.1 0 1023 msg.1).bind fun buf =>
  (endLine buf).bind fun (buf, _) =>
  (if opens then (strlen nul buf).map fun n => some (buf.take n) else some none).bind fun written =>
  (debugLine buf).map (⟨written, ·⟩)

structure Posted where
  written : Option (List Char)
  rtn : Bool

/-- `server::control`, unless it leaves its array; `fits` is whether `write` takes all of it. -/
def control (buf : Buffer 512) (opens fits : Bool) (msg : Text nul) : Option Posted :=
  if opens then
    (print nul buf.1 0 511 msg.1).bind fun buf =>
    (endLine buf).map fun (buf, len) => ⟨some (buf.take len), fits⟩
  else some ⟨none, false⟩

def newlined (s : List Char) : List Char := if s.getLast? = some '\n' then s else s ++ ['\n']

def ended (s rest : List Char) : List Char :=
  if s.getLast? = some '\n' then s ++ nul :: rest else s ++ '\n' :: rest

def Writes (opens : Bool) (s : List Char) (written : Option (Option (List Char))) : Prop :=
  written = some (if opens then some (newlined s) else none)

variable {s rest : List Char}

theorem endLine_nil (rest : List Char) : endLine (nul :: rest) = none := by
  have empty : strlen nul (nul :: rest) = some 0 := strlen_append rest List.not_mem_nil
  rw [endLine, empty]
  rfl

theorem endLine_append (rest : List Char) (clean : nul ∉ s) (full : s ≠ []) :
    endLine (s ++ nul :: rest) = some (ended s rest, (newlined s).length) := by
  have some' : s.length ≠ 0 := fun zero => full (List.length_eq_zero_iff.mp zero)
  have before : (s ++ nul :: rest)[s.length - 1]? = s.getLast? := by
    rw [List.getElem?_append_left (by omega), List.getLast?_eq_getElem?]
  rw [endLine, strlen_append rest clean, Option.bind_some, if_neg some', before, newlined, ended]
  by_cases last : s.getLast? = some '\n'
  · rw [if_neg (not_not.mpr last), if_pos last, if_pos last]
  · rw [if_pos last, if_neg last, if_neg last, store_append]
    simp

theorem take_newlined (rest : List Char) :
    (ended s rest).take (newlined s).length = newlined s := by
  unfold ended newlined
  split
  · exact List.take_left
  · have shape : s ++ '\n' :: rest = s ++ ['\n'] ++ rest := by simp
    rw [shape]
    exact List.take_left

theorem debugLine_some {buf : List Char} (mem : nul ∈ buf ∨ '\n' ∈ buf) :
    ∃ text, debugLine buf = some text := by
  obtain ⟨i, found⟩ : ∃ i, scan (fun c => c = nul || c = '\n') buf 0 = some i := by
    rcases mem with mem | mem
    · exact scan_of_mem mem (by simp)
    · exact scan_of_mem mem (by simp)
  obtain ⟨x, here, stop⟩ := scan_mem found
  have inside : i < buf.length := (List.getElem?_eq_some_iff.mp here).1
  rw [debugLine, found, Option.bind_some, here]
  by_cases newline : x = '\n'
  · have set : nul ∈ buf.set i nul := List.mem_set inside nul
    obtain ⟨n, len⟩ := scan_of_mem (p := fun c => decide (c = nul)) set (decide_eq_true rfl)
    rw [if_pos (congrArg some newline), store, if_pos inside, Option.bind_some, strlen, len]
    exact ⟨_, rfl⟩
  · have terminator : x = nul := by simpa [newline] using stop
    have mem : nul ∈ buf := terminator ▸ List.mem_of_getElem? here
    obtain ⟨n, len⟩ := scan_of_mem (p := fun c => decide (c = nul)) mem (decide_eq_true rfl)
    rw [if_neg fun same => newline (Option.some.inj same), Option.bind_some, strlen, len]
    exact ⟨_, rfl⟩

theorem written_iff (rest : List Char) (clean : nul ∉ s) :
    (strlen nul (ended s rest)).map (fun n => some ((ended s rest).take n)) =
        some (some (newlined s)) ↔
      s.getLast? = some '\n' ∨ rest.head? = some nul := by
  by_cases last : s.getLast? = some '\n'
  · have len := strlen_append rest clean
    simp only [ended, last, if_true, newlined, len, Option.map_some, List.take_left, true_or]
  have other : nul ∉ s ++ ['\n'] := by
    intro mem
    rcases List.mem_append.mp mem with mem | mem
    · exact clean mem
    · cases List.mem_singleton.mp mem
  have shape : s ++ '\n' :: rest = s ++ ['\n'] ++ rest := by simp
  simp only [ended, last, if_false, newlined, false_or, shape]
  constructor
  · intro written
    obtain ⟨n, len, took⟩ := Option.map_eq_some_iff.mp written
    obtain ⟨x, here, stop⟩ := scan_mem len
    have inside : n < (s ++ ['\n'] ++ rest).length := (List.getElem?_eq_some_iff.mp here).1
    have place : n = (s ++ ['\n']).length := by
      rw [← Option.some.inj took, List.length_take, Nat.min_eq_left (Nat.le_of_lt inside)]
    rw [place, List.getElem?_append_right (Nat.le_refl _), Nat.sub_self] at here
    rw [List.head?_eq_getElem?, here, of_decide_eq_true stop]
  · intro next
    obtain ⟨more, rfl⟩ := List.head?_eq_some_iff.mp next
    rw [strlen_append more other, Option.map_some, List.take_left]

theorem take_clean (msg : Text nul) (k : Nat) : nul ∉ msg.1.take k := fun mem =>
  msg.2 (List.mem_of_mem_take mem)

theorem take_full {k : Nat} (positive : 0 < k) (full : s ≠ []) : s.take k ≠ [] := by
  intro empty
  rcases List.take_eq_nil_iff.mp empty with zero | none
  · omega
  · exact full none

theorem printlog_written (buf : Buffer 1024) (opens : Bool) (msg : Text nul) (full : msg.1 ≠ []) :
    ∃ rest, rest = buf.1.drop ((msg.1.take 1022).length + 1) ∧
      (printlog buf opens msg).map Logged.written =
        if opens then (strlen nul (ended (msg.1.take 1022) rest)).map
          fun n => some ((ended (msg.1.take 1022) rest).take n) else some none := by
  obtain ⟨rest, behind⟩ : ∃ rest, rest = buf.1.drop ((msg.1.take 1022).length + 1) := ⟨_, rfl⟩
  refine ⟨rest, behind, ?_⟩
  have done := endLine_append rest (take_clean msg 1022) (take_full (by decide) full)
  obtain ⟨debug, cut⟩ : ∃ text, debugLine (ended (msg.1.take 1022) rest) = some text := by
    refine debugLine_some ?_
    unfold ended
    split
    · exact .inl (by simp)
    · exact .inr (by simp)
  have room : 1023 ≤ buf.1.length := by rw [buf.2]; decide
  have printed : print nul buf.1 0 1023 msg.1 = some (msg.1.take 1022 ++ nul :: rest) := by
    rw [print_start msg.1 (by decide) room, behind]
  rw [printlog, printed, Option.bind_some, done, Option.bind_some]
  simp only [cut]
  cases opens with
  | false => rfl
  | true =>
    simp only [if_true]
    cases strlen nul (ended (msg.1.take 1022) rest) with
    | none => rfl
    | some n => rfl

theorem printlog_empty (buf : Buffer 1024) (opens : Bool) {msg : Text nul} (empty : msg.1 = []) :
    printlog buf opens msg = none := by
  have room : 1023 ≤ buf.1.length := by rw [buf.2]; decide
  rw [printlog, print_start msg.1 (by decide) room, empty, Option.bind_some]
  simp only [List.take_nil, List.nil_append, endLine_nil, Option.bind_none]

theorem printlog_writes (buf : Buffer 1024) (opens : Bool) (msg : Text nul) :
    Writes opens (msg.1.take 1022) ((printlog buf opens msg).map Logged.written) ↔
      msg.1 ≠ [] ∧ (opens = true → (msg.1.take 1022).getLast? = some '\n' ∨
        buf.1[(msg.1.take 1022).length + 1]? = some nul) := by
  by_cases empty : msg.1 = []
  · rw [printlog_empty buf opens empty]
    exact iff_of_false nofun fun h => h.1 empty
  obtain ⟨rest, rfl, written⟩ := printlog_written buf opens msg empty
  rw [Writes, written, and_iff_right empty]
  cases opens with
  | false => exact iff_of_true rfl nofun
  | true =>
    have next := written_iff (buf.1.drop ((msg.1.take 1022).length + 1)) (take_clean msg 1022)
    rw [List.head?_drop] at next
    simp only [if_true, forall_const]
    exact next

theorem control_some (buf : Buffer 512) (opens fits : Bool) {msg : Text nul} (full : msg.1 ≠ []) :
    control buf opens fits msg =
      some ⟨if opens then some (newlined (msg.1.take 510)) else none, opens && fits⟩ := by
  cases opens with
  | false => rfl
  | true =>
    have room : 511 ≤ buf.1.length := by rw [buf.2]; decide
    rw [control, if_pos rfl, print_start msg.1 (by decide) room, Option.bind_some,
      endLine_append _ (take_clean msg 510) (take_full (by decide) full), Option.map_some]
    simp only [take_newlined, if_true, Bool.true_and]

theorem control_writes (buf : Buffer 512) (opens fits : Bool) (msg : Text nul) :
    Writes opens (msg.1.take 510) ((control buf opens fits msg).map Posted.written) ↔
      (opens = true → msg.1 ≠ []) := by
  by_cases empty : msg.1 = []
  · cases opens with
    | false => exact iff_of_true rfl fun no => by cases no
    | true =>
      have room : 511 ≤ buf.1.length := by rw [buf.2]; decide
      rw [Writes, control, if_pos rfl, print_start msg.1 (by decide) room, Option.bind_some, empty]
      simp only [List.take_nil, List.nil_append, endLine_nil, Option.map_none]
      exact iff_of_false (fun none => by cases none) fun some' => some' trivial rfl
  · rw [control_some buf opens fits empty]
    exact iff_of_true rfl fun _ => empty

/-- Both write the line that they should just when the message is not empty and, for the log,
it was cut at a newline of its own or the stack has a zero in the right place. -/
theorem writes_iff (log : Buffer 1024) (fifo : Buffer 512) (opens opens' fits : Bool)
    (msg : Text nul) :
    (Writes opens (msg.1.take 1022) ((printlog log opens msg).map Logged.written) ↔
      msg.1 ≠ [] ∧ (opens = true → (msg.1.take 1022).getLast? = some '\n' ∨
        log.1[(msg.1.take 1022).length + 1]? = some nul)) ∧
    (Writes opens' (msg.1.take 510) ((control fifo opens' fits msg).map Posted.written) ↔
      (opens' = true → msg.1 ≠ [])) :=
  ⟨printlog_writes log opens msg, control_writes fifo opens' fits msg⟩

/-- A log line over a stack of ones goes on behind its newline, and an empty message has both
functions read before their arrays. -/
theorem not_writes : ¬ (∀ (log : Buffer 1024) (fifo : Buffer 512) (opens opens' fits : Bool)
      (msg : Text nul),
    Writes opens (msg.1.take 1022) ((printlog log opens msg).map Logged.written) ∧
      Writes opens' (msg.1.take 510) ((control fifo opens' fits msg).map Posted.written)) ∧
    ¬ Writes true ['u', 'p'] ((printlog ⟨.replicate 1024 '1', List.length_replicate⟩ true
      ⟨['u', 'p'], by decide⟩).map Logged.written) ∧
    ¬ Writes true [] ((control ⟨.replicate 512 '1', List.length_replicate⟩ true true
      ⟨[], nofun⟩).map Posted.written) := by
  have log : ¬ Writes true ['u', 'p'] ((printlog ⟨.replicate 1024 '1', List.length_replicate⟩ true
      ⟨['u', 'p'], by decide⟩).map Logged.written) := by
    intro right
    rcases ((printlog_writes _ true ⟨['u', 'p'], by decide⟩).mp right).2 rfl with last | next
    · revert last
      decide
    · have place : (['u', 'p'].take 1022).length + 1 = 3 := rfl
      simp only [place, List.getElem?_replicate] at next
      revert next
      decide
  refine ⟨fun all => ?_, log, fun right => ?_⟩
  · exact log (all _ ⟨.replicate 512 '1', List.length_replicate⟩ true true true _).1
  · exact (control_writes _ true true ⟨[], nofun⟩).mp right rfl rfl

end Control

end Bayonne
