import Bayonne.Base.Run
import Bayonne.Control.Serving

/-! What the clients of the server get for their lines, and when it ends: over whole runs of
clients, signals and the two threads. -/
namespace Bayonne

namespace Console
variable {s t : Console} {q q' : List Letter} {p : Pid}

theorem Kept.isLine (kept : Kept s q) {e : Letter} (mem : e ∈ q) :
    Lines.IsLine '\n' s.fifo e.2 := by
  obtain ⟨body, whole, clean, -⟩ := kept.lined e mem
  obtain ⟨pre, post, rfl⟩ := List.append_of_mem mem
  refine ⟨⟨(pre.map (·.2)).flatten, (post.map (·.2)).flatten, ?_, ?_, .inl ?_⟩, ?_⟩
  · rw [kept.bytes]
    simp
  · rcases List.eq_nil_or_concat pre with rfl | ⟨front, l, rfl⟩
    · exact .inl rfl
    · obtain ⟨body', whole', -⟩ := kept.lined l (by simp)
      right
      rw [List.concat_eq_append, List.map_append, List.flatten_append]
      simp [whole']
  · rw [whole]
    exact List.getLast?_concat
  · rw [whole, List.dropLast_concat]
    exact clean

section Runs
variable {buf : List Char} {active : Option Nat} {made : Nat} {registrations : List String}
  {timeslots boards : Nat} {as : List ConsoleAction}

theorem exec_kept (decent : ∀ a ∈ as, Decent a)
    (run : Run.exec step (start (.start buf active made registrations timeslots boards)) as =
      some s) : ∃ q, Kept s q := by
  refine Run.preserved_of_all (I := fun s => ∃ q, Kept s q) ?_ ?_ decent run
  · rintro s a t ⟨q, kept⟩ decent moved
    obtain ⟨q', kept', -⟩ := step_kept kept decent moved
    exact ⟨q', kept'⟩
  · exact ⟨[], start_kept _ rfl rfl⟩

def agreeing : LineAnswers := ⟨fun _ => none, fun _ => none, fun _ _ => false, true⟩

def evening : List ConsoleAction :=
  [.begin, .request Client.process ["verbose", "3"] Client.blank true true, .signal .term,
    .take .term, .serve agreeing, .post Client.blank true true,
    .wake Client.process (.user .usr1), .serve agreeing]

theorem evening_decent : ∀ a ∈ evening, Decent a := by
  have verbose : Decent (.request Client.process ["verbose", "3"] Client.blank true true) := by
    refine ⟨⟨nofun, by decide, ?_, by rintro w ⟨⟩ c ⟨⟩; decide⟩, by decide⟩
    rintro w (_ | ⟨_, _ | ⟨_, ⟨⟩⟩⟩)
    · exact Wire.solid_word (by decide) (by decide)
    · exact Wire.solid_word (by decide) (by decide)
  simpa [evening, Decent] using verbose

set_option maxRecDepth 20000 in
theorem exec_evening : ∃ s, Run.exec step (start .fresh) evening = some s ∧
    s.caller Client.process = .exited ["verbose", "3"] 0 ∧ s.kills = [(123, .usr1)] ∧
    s.delivered = [.term] ∧ s.control.ending = some .left :=
  ⟨_, rfl, rfl, rfl, rfl, rfl⟩

set_option maxRecDepth 20000 in
theorem exec_asking : ∃ s, Run.exec step (start .fresh) (evening.take 2) = some s := ⟨_, rfl⟩

/-- However clients with plain requests, signals and the control thread take turns, the server
handles the lines in the order in which they were written, each once and whole, and those that it
has not handled are in the FIFO. -/
theorem lines_in_order (decent : ∀ a ∈ as, Decent a)
    (run : Run.exec step (start (.start buf active made registrations timeslots boards)) as =
      some s) :
    ∃ rest, s.written = s.handled.map Prod.fst ++ rest ∧ s.fifo = rest.flatten ∧
      ∀ l ∈ rest, l.getLast? = some '\n' ∧ '\n' ∉ l.dropLast := by
  obtain ⟨q, kept⟩ := exec_kept decent run
  refine ⟨q.map (·.2), kept.whole, kept.bytes, fun l mem => ?_⟩
  obtain ⟨e, letter, rfl⟩ := List.mem_map.mp mem
  obtain ⟨body, whole, clean, -⟩ := kept.lined e letter
  rw [whole, List.dropLast_concat]
  exact ⟨List.getLast?_concat, clean⟩

theorem lines_in_order_evening : ∃ s rest, Run.exec step (start .fresh) evening = some s ∧
    s.written = s.handled.map Prod.fst ++ rest ∧ s.fifo = rest.flatten := by
  obtain ⟨s, run, -⟩ := exec_evening
  obtain ⟨rest, written, fifo, -⟩ := lines_in_order evening_decent run
  exact ⟨s, rest, run, written, fifo⟩

theorem Account.signalled (h : Account s q p) : s.killed p = [] ∨ ∃ argv failed,
    s.killed p = [((p.val : Int), verdict failed)] ∧ (sent p argv, failed) ∈ s.handled ∧
      (s.caller p = .waiting argv ∨ ∃ code, s.caller p = .exited argv code) := by
  cases h with
  | ready caller quiet => exact .inl quiet.killed
  | asked argv wanted caller letter only quiet => exact .inl quiet.killed
  | told argv failed caller unsent handled signal file once =>
    exact .inr ⟨argv, failed, once, handled, .inl caller⟩
  | lost argv caller unsent quiet ended once => exact .inl once
  | gone argv code caller unsent fate once =>
    rcases once with none | ⟨failed, told, handled⟩
    · exact .inl none
    · exact .inr ⟨argv, failed, told, handled, .inr ⟨code, caller⟩⟩

/-- The server signals no client twice, and none but with the outcome of the line that this
client has written. -/
theorem signalled_once (decent : ∀ a ∈ as, Decent a)
    (run : Run.exec step (start (.start buf active made registrations timeslots boards)) as =
      some s) :
    (s.kills.map Prod.fst).Nodup ∧ ∀ k ∈ s.kills, ∃ (p : Pid) (argv : List String) (failed : Bool),
      k = ((p.val : Int), verdict failed) ∧ (sent p argv, failed) ∈ s.handled ∧
        (s.caller p = .waiting argv ∨ ∃ code, s.caller p = .exited argv code) := by
  obtain ⟨q, kept⟩ := exec_kept decent run
  have own : ∀ k ∈ s.kills, ∃ p : Pid, k.1 = p.val ∧ k ∈ s.killed p := fun k mem => by
    obtain ⟨p, named⟩ := kept.known k mem
    exact ⟨p, named, List.mem_filter.mpr ⟨mem, decide_eq_true named⟩⟩
  refine ⟨List.nodup_iff_count_le_one.mpr fun x => ?_, fun k mem => ?_⟩
  · by_cases mem : x ∈ s.kills.map Prod.fst
    · obtain ⟨k, held, rfl⟩ := List.mem_map.mp mem
      obtain ⟨p, named, -⟩ := own k held
      have count : (s.kills.map Prod.fst).count k.1 = (s.killed p).length := by
        rw [List.count_eq_countP, List.countP_map, List.countP_eq_length_filter, killed]
        refine congrArg List.length (List.filter_congr fun e _ => ?_)
        rw [← named]
        rfl
      rw [count]
      rcases (kept.account p).signalled with none | ⟨argv, failed, told, -⟩
      · rw [none]
        exact Nat.zero_le 1
      · rw [told]
        exact Nat.le_refl 1
    · rw [List.count_eq_zero.mpr mem]
      exact Nat.zero_le 1
  · obtain ⟨p, -, killed⟩ := own k mem
    rcases (kept.account p).signalled with none | ⟨argv, failed, told, rest⟩
    · rw [none] at killed
      cases killed
    · rw [told] at killed
      exact ⟨p, argv, failed, List.mem_singleton.mp killed, rest⟩

theorem signalled_once_evening : ∃ s, Run.exec step (start .fresh) evening = some s ∧
    ∃ p argv failed, ((123 : Int), UserSignal.usr1) = ((p.val : Int), verdict failed) ∧
      (sent p argv, failed) ∈ s.handled := by
  obtain ⟨s, run, -, kills, -⟩ := exec_evening
  have mem : (123, .usr1) ∈ s.kills := by
    rw [kills]
    exact List.mem_singleton_self _
  obtain ⟨p, argv, failed, told, handled, -⟩ := (signalled_once evening_decent run).2 _ mem
  exact ⟨s, run, p, argv, failed, told, handled⟩

/-- The exit status of a client that waits for the answer tells what became of its own line, and
it has shown a snapshot just when it has asked for one. -/
theorem exit_told (decent : ∀ a ∈ as, Decent a)
    (run : Run.exec step (start (.start buf active made registrations timeslots boards)) as =
      some s) {argv : List String} {code : Nat} (exited : s.caller p = .exited argv code) :
    (code = 0 → (∃ n, n ≠ 0 ∧ Client.main argv = .command n) →
      (sent p argv, false) ∈ s.handled ∧ (s.printed p = true ↔ argv = ["snapshot"])) ∧
    (code = 3 → (sent p argv, true) ∈ s.handled) := by
  obtain ⟨q, kept⟩ := exec_kept decent run
  cases kept.account p with
  | ready caller => cases caller.symm.trans exited
  | told argv failed caller => cases caller.symm.trans exited
  | lost argv caller => cases caller.symm.trans exited
  | asked argv' wanted caller =>
    rcases caller with waits | given
    · cases waits.symm.trans exited
    · cases given.symm.trans exited
      exact ⟨nofun, nofun⟩
  | gone argv' code' caller unsent fate once =>
    cases caller.symm.trans exited
    exact ⟨fate.done, fate.failed⟩

theorem exit_told_evening : ∃ s, Run.exec step (start .fresh) evening = some s ∧
    (sent Client.process ["verbose", "3"], false) ∈ s.handled ∧
      (s.printed Client.process = true ↔ ["verbose", "3"] = ["snapshot"]) := by
  obtain ⟨s, run, exited, -⟩ := exec_evening
  exact ⟨s, run, (exit_told evening_decent run exited).1 rfl ⟨10, by decide, by decide⟩⟩

theorem nextLine_exists {e : Letter} (kept : Kept s (e :: q)) :
    ∃ c, nextLine s.fifo = some c := by
  obtain ⟨body, whole, clean, short⟩ := kept.lined e List.mem_cons_self
  have read : Lines.chunk '\n' 511 s.fifo = body ++ ['\n'] := by
    rw [kept.bytes, List.map_cons, List.flatten_cons, whole, List.append_assoc]
    exact Lines.chunk_line clean short _
  have last : (Lines.chunk '\n' 511 s.fifo).getLast? = some '\n' := by
    rw [read]
    exact List.getLast?_concat
  exact ⟨_, dif_pos (.inr last)⟩

theorem drain (kept : Kept s q) (answers : Nat → LineAnswers) : ∃ n t q',
    Run.exec step s ((List.range n).map fun i => .serve (answers i)) = some t ∧ Kept t q' ∧
      n ≤ q.length ∧ (t.control.ending ≠ none ∨ q' = []) := by
  induction q generalizing s answers with
  | nil => exact ⟨0, s, [], rfl, kept, Nat.le_refl 0, .inr rfl⟩
  | cons e q ih =>
    by_cases going : s.control.ending = none
    · obtain ⟨c, next⟩ := nextLine_exists kept
      obtain ⟨u, took⟩ := Control.step_some (c.answered (answers 0)) going
      obtain ⟨v, moved⟩ : ∃ v, s.serve (answers 0) = some v := by
        rw [serve, next, Option.bind_some, took, Option.map_some]
        exact ⟨_, rfl⟩
      obtain ⟨e', q', same, kept', -⟩ := serve_kept kept moved
      cases same
      obtain ⟨n, t, q', run, kept'', short, done⟩ := ih kept' fun i => answers (i + 1)
      refine ⟨n + 1, t, q', ?_, kept'', Nat.succ_le_succ short, done⟩
      rw [List.range_succ_eq_map, List.map_cons, List.map_map]
      exact Run.exec_cons.mpr ⟨_, moved, run⟩
    · exact ⟨0, s, e :: q, rfl, kept, Nat.zero_le _, .inl going⟩

/-- From wherever a run with plain requests has come, the control thread alone brings every client
that still waits its answer, unless a line ends the server. -/
theorem waiting_answered (decent : ∀ a ∈ as, Decent a)
    (run : Run.exec step (start (.start buf active made registrations timeslots boards)) as =
      some s) (answers : Nat → LineAnswers) : ∃ n t,
    Run.exec step s ((List.range n).map fun i => .serve (answers i)) = some t ∧
      s.handled.length + n ≤ s.written.length ∧
      (t.control.ending ≠ none ∨ ∀ p argv, t.caller p = .waiting argv →
        ∃ failed, (sent p argv, failed) ∈ t.handled ∧
          ∀ u, t.pending p u = true ↔ u = verdict failed) := by
  obtain ⟨q, kept⟩ := exec_kept decent run
  obtain ⟨n, t, q', served, kept', short, done⟩ := drain kept answers
  refine ⟨n, t, served, ?_, ?_⟩
  · rw [kept.whole, List.length_append, List.length_map, List.length_map]
    exact Nat.add_le_add_left short _
  rcases done with ended | rfl
  · exact .inl ended
  by_cases ended : t.control.ending = none
  · refine .inr fun p argv waits => ?_
    cases kept'.account p with
    | ready caller => cases caller.symm.trans waits
    | asked argv' wanted caller letter => cases letter
    | told argv' failed caller unsent handled signal =>
      cases caller.symm.trans waits
      exact ⟨failed, handled, signal⟩
    | lost argv' caller unsent quiet lost => exact absurd ended lost
    | gone argv' code caller => cases caller.symm.trans waits
  · exact .inl ended

theorem waiting_answered_evening : ∃ s n t,
    Run.exec step (start .fresh) (evening.take 2) = some s ∧
    Run.exec step s ((List.range n).map fun _ => .serve agreeing) = some t ∧
      (t.control.ending ≠ none ∨ ∀ p argv, t.caller p = .waiting argv →
        ∃ failed, (sent p argv, failed) ∈ t.handled ∧
          ∀ u, t.pending p u = true ↔ u = verdict failed) := by
  have decent : ∀ a ∈ evening.take 2, Decent a := fun a mem =>
    evening_decent a (List.mem_of_mem_take mem)
  obtain ⟨s, run⟩ := exec_asking
  obtain ⟨n, t, served, -, told⟩ := waiting_answered decent run fun _ => agreeing
  exact ⟨s, n, t, run, served, told⟩

/-- If all requests are plain, the loop is left and the process aborted only if somebody has asked
for it, and a signal that asks the server to end is never forgotten, unless the thread cannot
write its line. -/
theorem ends_as_asked (decent : ∀ a ∈ as, Decent a)
    (run : Run.exec step (start (.start buf active made registrations timeslots boards)) as =
      some s) :
    (s.control.ending = some .left → s.Stopping) ∧
    (s.control.ending = some .aborted → ∃ p, s.caller p = .exited ["abort"] 0) ∧
    (s.listener = .returned → s.control.ending = some .left) ∧
    ∀ g ∈ s.delivered, g = .int ∨ g = .term → s.arrived g = true ∨ s.listener = .carrying g ∨
      Lines.IsLine '\n' s.fifo "down\n".toList ∨ s.control.ending ≠ none ∨ s.refused = true := by
  obtain ⟨q, kept⟩ := exec_kept decent run
  have watched := kept.watched
  refine ⟨watched.left, watched.aborted, watched.returned, fun g mem stops => ?_⟩
  rcases watched.heeded g mem stops with h | h | h | h
  · exact .inl h
  · exact .inr (.inl h)
  · exact .inr (.inr (.inl (kept.isLine h)))
  · exact .inr (.inr (.inr h))

theorem ends_as_asked_evening : ∃ s, Run.exec step (start .fresh) evening = some s ∧
    s.control.ending = some .left ∧ s.Stopping := by
  obtain ⟨s, run, -, -, -, left⟩ := exec_evening
  exact ⟨s, run, left, (ends_as_asked evening_decent run).1 left⟩

end Runs

end Console

end Bayonne
