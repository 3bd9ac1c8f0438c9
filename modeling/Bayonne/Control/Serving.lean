import Bayonne.Control.Callers

/-! The control thread and the signal thread keep what the clients count on. -/
namespace Bayonne

namespace Console
variable {s t : Console} {q q' : List Letter} {p : Pid} {argv : List String}

section Steps

/-- What the line of a client that waits does to it, and to nobody else. -/
structure Heard (u : Control) (p : Pid) (argv : List String) : Prop where
  fate : u.ending ≠ none ∧ u.signals = [] ∨
    u.ending = none ∧ u.signals = [((p.val : Int), verdict u.failed)] ∧
      ((p.val : Int) ∈ u.shots ↔ argv = ["snapshot"])
  shots : ∀ k ∈ u.shots, k = p.val
  going : u.ending ≠ some .left ∧ u.ending ≠ some .aborted

theorem words_of_joined {w word : String} {ws : List String} (sendable : Wire.Sendable (w :: ws))
    (same : String.ofList (Wire.joined w.toList ws) = word) :
    w :: ws = Control.words 64 word.toList := by
  rw [← same, String.toList_ofList]
  exact (Wire.words_joined sendable.few sendable.words).symm

theorem joined_snapshot {w : String} {ws : List String} (sendable : Wire.Sendable (w :: ws)) :
    String.ofList (Wire.joined w.toList ws) = "snapshot" ↔ w :: ws = ["snapshot"] := by
  refine ⟨fun same => words_of_joined sendable same, fun same => ?_⟩
  cases same
  rw [Wire.joined, List.flatMap_nil, List.append_nil, String.ofList_toList]

theorem wanted_word (wanted : Wanted p argv) {word : String}
    (ends : word ∈ ["stop", "down", "exit", "restart", "abort"]) : argv ≠ [word] := by
  rintro rfl
  obtain ⟨n, some', passed⟩ := wanted.passed
  cases Client.passed_of_main passed with
  | unanswered named => exact some' rfl
  | single named =>
    simp only [List.mem_cons, List.not_mem_nil, or_false] at ends
    rcases ends with rfl | rfl | rfl | rfl | rfl <;> revert named <;> decide

theorem single_words {word : String} (ends : word ∈ ["stop", "down", "exit", "restart", "abort"]) :
    Control.words 64 word.toList = [word] := by
  simp only [List.mem_cons, List.not_mem_nil, or_false] at ends
  rcases ends with rfl | rfl | rfl | rfl | rfl <;> decide

theorem heard_sent {c : ControlLine} {v u : Control} (wanted : Wanted p argv)
    (text : c.text = sent p argv) (calm : Control.Waiting v) (run : Control.step v c = some u) :
    Heard u p argv := by
  obtain ⟨w, ws, rfl⟩ := List.exists_cons_of_ne_nil wanted.sendable.some
  obtain ⟨going, b, i, took, pid, owed⟩ :=
    Wire.step_sent p wanted.sendable.words text calm run
  have shots := Control.shots_step took
  rw [pid] at shots
  refine ⟨?_, fun k mem => ?_, ?_⟩
  · rcases Control.handle_fate going took with ⟨ended, silent, -⟩ | ⟨alive, -, safe, signals⟩
    · exact .inl ⟨ended, silent⟩
    · refine .inr ⟨alive, signals.trans (owed _), ?_⟩
      rw [shots, ← joined_snapshot wanted.sendable]
      refine ⟨fun mem => ?_, fun named => ?_⟩
      · by_contra other
        rw [if_neg fun h => other h.1] at mem
        cases mem
      · have opens : c.opens = true := by
          by_contra shut
          exact safe (.inr (.inl ⟨named, Bool.eq_false_iff.mpr shut⟩))
        rw [if_pos ⟨named, opens⟩]
        exact List.mem_singleton_self _
  · rw [shots] at mem
    split at mem
    · exact List.mem_singleton.mp mem
    · cases mem
  · have never : ∀ word ∈ ["stop", "down", "exit", "restart", "abort"],
        String.ofList (Wire.joined w.toList ws) ≠ word := fun word ends same =>
      wanted_word wanted ends ((words_of_joined wanted.sendable same).trans (single_words ends))
    obtain ⟨left, aborted⟩ := Control.handle_ending (s := v.opened b (some i)) c
      (Wire.joined w.toList ws) going
    rw [took, (Control.turn_kept _).1]
    refine ⟨fun ended => never _ ?_ rfl, fun ended => never "abort" (by decide) (aborted ended)⟩
    exact List.mem_append_left ["abort"] (left ended)

theorem Bare.plain {text : List Char} (h : Bare s text) :
    Control.prefixed (Control.lineText text) = false := by
  cases h with
  | client p w named caller =>
    have words : w = "down" ∨ w = "restart" ∨ w = "abort" := by simpa using named
    rcases words with rfl | rfl | rfl <;> decide
  | signal g delivered => cases g <;> decide

structure Noted (u : Control) (text : List Char) : Prop where
  signals : u.signals = []
  shots : ∀ k ∈ u.shots, k = 0
  left : u.ending = some .left →
    String.ofList (Control.lineText text) ∈ ["stop", "down", "exit", "restart"]
  aborted : u.ending = some .aborted → String.ofList (Control.lineText text) = "abort"
  ends : Control.Ends (Control.lineText text) → u.ending ≠ none

theorem heard_bare {c : ControlLine} {u : Control} (bare : Bare s c.text)
    (calm : Control.Waiting s.control) (run : Control.step s.control c = some u) :
    Noted u c.text := by
  have text : ∀ c' : ControlLine, c'.text = c.text → c'.line = Control.lineText c.text :=
    fun c' same => by rw [← same]; rfl
  obtain ⟨going, b, took, pid, owed⟩ := Wire.step_said text bare.plain calm run
  have fate := Control.handle_fate going took
  obtain ⟨left, aborted⟩ := Control.handle_ending (s := s.control.opened b none) c
    (Control.lineText c.text) going
  have ending : u.ending = ((s.control.opened b none).handle c (Control.lineText c.text)).ending :=
    took ▸ (Control.turn_kept _).1
  refine ⟨?_, fun k mem => ?_, fun h => left (ending.symm.trans h),
    fun h => aborted (ending.symm.trans h), fun ends alive => ?_⟩
  · rcases fate with ⟨-, silent, -⟩ | ⟨-, -, -, signals⟩
    · exact silent
    · exact signals.trans (owed _)
  · rw [Control.shots_step took, pid] at mem
    split at mem
    · exact List.mem_singleton.mp mem
    · cases mem
  · rcases fate with ⟨ended, -⟩ | ⟨-, stays, -⟩
    · exact ended alive
    · exact stays ends

theorem Bare.stopping {u : Control} {text : List Char} (h : Bare s text) (noted : Noted u text) :
    (u.ending = some .left → s.Stopping) ∧
      (u.ending = some .aborted → ∃ p, s.caller p = .exited ["abort"] 0) := by
  obtain ⟨-, -, left, aborted, -⟩ := noted
  cases h with
  | client p w named caller =>
    have words : w = "down" ∨ w = "restart" ∨ w = "abort" := by simpa using named
    refine ⟨fun ended => .inl ⟨p, w, ?_, caller⟩, fun ended => ⟨p, ?_⟩⟩
    · have line := left ended
      rcases words with rfl | rfl | rfl
      · decide
      · decide
      · revert line
        decide
    · have line := aborted ended
      rcases words with rfl | rfl | rfl
      · exact absurd line (by decide)
      · exact absurd line (by decide)
      · exact caller
  | signal g delivered =>
    refine ⟨fun ended => .inr ?_, fun ended => ?_⟩
    · have line := left ended
      cases g with
      | int => exact .inl delivered
      | term => exact .inr delivered
      | alrm => exact absurd line (by decide)
      | hup => exact absurd line (by decide)
      | usr1 => exact absurd line (by decide)
    · have line := aborted ended
      cases g <;> exact absurd line (by decide)

theorem nextLine_some (kept : Kept s q) {c : ControlLine} (next : nextLine s.fifo = some c) :
    ∃ e q', q = e :: q' ∧ c.text = e.2 ∧
      s.fifo.drop c.text.length = (q'.map (·.2)).flatten := by
  have text : c.text = Lines.chunk '\n' 511 s.fifo := by
    simp only [nextLine] at next
    split at next
    · cases next
      rfl
    · cases next
  cases q with
  | nil =>
    have empty : s.fifo = [] := kept.bytes
    rw [empty] at next
    cases next
  | cons e q' =>
    obtain ⟨body, whole, clean, short⟩ := kept.lined e List.mem_cons_self
    have bytes : s.fifo = body ++ '\n' :: (q'.map (·.2)).flatten := by
      rw [kept.bytes, List.map_cons, List.flatten_cons, whole, List.append_assoc]
      rfl
    have read : c.text = e.2 := by
      rw [text, bytes, Lines.chunk_line clean short, whole]
    refine ⟨e, q', rfl, read, ?_⟩
    rw [read, kept.bytes, List.map_cons, List.flatten_cons, List.drop_left]

section Served
variable {u : Control} {e : Letter} {rest : List Char}

theorem serve_later (going : s.control.ending = none) : Later s
    { s.deliver u with fifo := rest, handled := s.handled ++ [(e.2, u.failed)] } :=
  ⟨fun _ _ _ h => h, fun _ h => h, fun _ h => List.mem_append_left _ h,
    fun ended => absurd going ended⟩

theorem killed_deliver (p : Pid) : (s.deliver u).killed p =
    s.killed p ++ u.signals.filter (·.1 = (p.val : Int)) := List.filter_append _ _

theorem pending_deliver (p : Pid) (g : UserSignal) : (s.deliver u).pending p g =
    (s.pending p g || (isWaiting (s.caller p) && decide (((p.val : Int), g) ∈ u.signals))) := rfl

theorem served_other (h : Account s (e :: q) p) (going : s.control.ending = none)
    (other : e.1 ≠ some p) (signals : ∀ k ∈ u.signals, k.1 ≠ (p.val : Int))
    (shots : ∀ k ∈ u.shots, k ≠ (p.val : Int)) : Account
      { s.deliver u with fifo := rest, handled := s.handled ++ [(e.2, u.failed)] } q p := by
  refine h.frame (serve_later going) rfl (fun text => ?_) ?_ ?_ rfl ?_
  · rw [List.mem_cons]
    refine ⟨.inr, fun mem => mem.resolve_left ?_⟩
    rintro rfl
    exact other rfl
  · funext g
    have silent : ((p.val : Int), g) ∉ u.signals := fun mem => signals _ mem rfl
    show (s.deliver u).pending p g = _
    rw [pending_deliver, decide_eq_false silent, Bool.and_false, Bool.or_false]
  · have silent : (p.val : Int) ∉ u.shots := fun mem => shots _ mem rfl
    show (s.files p || decide ((p.val : Int) ∈ u.shots)) = _
    rw [decide_eq_false silent, Bool.or_false]
  · have silent : u.signals.filter (·.1 = (p.val : Int)) = [] :=
      List.filter_eq_nil_iff.mpr fun k mem => by simpa using signals k mem
    show (s.deliver u).killed p = _
    rw [killed_deliver, silent, List.append_nil]

theorem Account.of_letter {text : List Char} (h : Account s q p) (mem : (some p, text) ∈ q) :
    ∃ argv, Wanted p argv ∧ text = sent p argv ∧ s.Quiet p ∧
      (s.caller p = .waiting argv ∨ s.caller p = .exited argv 1) := by
  cases h with
  | ready caller quiet unsent => exact absurd mem (unsent text)
  | told argv failed caller unsent => exact absurd mem (unsent text)
  | lost argv caller unsent => exact absurd mem (unsent text)
  | gone argv code caller unsent => exact absurd mem (unsent text)
  | asked argv wanted caller letter only quiet =>
    exact ⟨argv, wanted, only text mem, quiet, caller⟩

/-- The client that a line names is told of it, unless the server has ended. -/
theorem served_own {argv : List String} (heard : Heard u p argv) (quiet : s.Quiet p)
    (caller : s.caller p = .waiting argv ∨ s.caller p = .exited argv 1)
    (fresh : ∀ text, (some p, text) ∉ q) : Account
      { s.deliver u with fifo := rest, handled := s.handled ++ [(sent p argv, u.failed)] } q p := by
  have once : (s.deliver u).killed p = u.signals.filter (·.1 = (p.val : Int)) := by
    rw [killed_deliver, quiet.killed, List.nil_append]
  rcases heard.fate with ⟨ended, silent⟩ | ⟨alive, signals, shot⟩
  · rw [silent] at once
    rcases caller with waits | exited
    · refine .lost argv waits fresh (fun g => ?_) ended once
      show (s.deliver u).pending p g = false
      rw [pending_deliver, quiet.pending, silent, decide_eq_false List.not_mem_nil,
        Bool.and_false, Bool.or_false]
    · exact .gone argv 1 exited fresh ⟨nofun, nofun⟩ (.inl once)
  · have own : u.signals.filter (·.1 = (p.val : Int)) = [((p.val : Int), verdict u.failed)] := by
      rw [signals]
      simp
    rw [own] at once
    rcases caller with waits | exited
    · refine .told argv u.failed waits fresh
        (List.mem_append_right _ (List.mem_singleton_self _)) (fun g => ?_) (fun _ => ?_) once
      · show (s.deliver u).pending p g = true ↔ _
        rw [pending_deliver, quiet.pending, waits, signals]
        simp [isWaiting]
      · show (s.files p || decide ((p.val : Int) ∈ u.shots)) = true ↔ _
        rw [quiet.files, Bool.false_or, decide_eq_true_iff, shot]
    · exact .gone argv 1 exited fresh ⟨nofun, nofun⟩
        (.inr ⟨u.failed, once, List.mem_append_right _ (List.mem_singleton_self _)⟩)

theorem served_watched (h : Watched s (e :: q)) (going : s.control.ending = none)
    (left : u.ending = some .left → s.Stopping)
    (aborted : u.ending = some .aborted → ∃ p, s.caller p = .exited ["abort"] 0)
    (down : e = (none, "down\n".toList) → u.ending ≠ none) : Watched
      { s.deliver u with fifo := rest, handled := s.handled ++ [(e.2, u.failed)] } q where
  carried := h.carried
  arrived := h.arrived
  closing shut := absurd (going.symm.trans (h.closing shut)) nofun
  returned at' := absurd (going.symm.trans (h.returned at')) nofun
  left ended := (left ended).later (serve_later going)
  aborted := aborted
  heeded g mem stops := by
    rcases h.heeded g mem stops with h | h | h | h | h
    · exact .inl h
    · exact .inr (.inl h)
    · rcases List.mem_cons.mp h with same | h
      · exact .inr (.inr (.inr (.inl (down same.symm))))
      · exact .inr (.inr (.inl h))
    · exact absurd going h
    · exact .inr (.inr (.inr (.inr h)))

end Served

theorem serve_kept (kept : Kept s q) {a : LineAnswers} (moved : s.serve a = some t) :
    ∃ e q', q = e :: q' ∧ Kept t q' ∧ Later s t := by
  obtain ⟨c, next, moved⟩ := Option.bind_eq_some_iff.mp moved
  obtain ⟨u, run, rfl⟩ := Option.map_eq_some_iff.mp moved
  obtain ⟨e, q', rfl, text, bytes⟩ := nextLine_some kept next
  have going : s.control.ending = none := (Control.step_cases run).1
  have said : (c.answered a).text = e.2 := text
  rw [text] at bytes ⊢
  refine ⟨e, q', rfl, ?_, serve_later going⟩
  suffices heard : (∀ x, Account
      { s.deliver u with
        fifo := s.fifo.drop e.2.length, handled := s.handled ++ [(e.2, u.failed)] } q' x) ∧
      (∀ k ∈ u.signals, ∃ p : Pid, k.1 = p.val) ∧ (u.ending = some .left → s.Stopping) ∧
      (u.ending = some .aborted → ∃ p, s.caller p = .exited ["abort"] 0) ∧
      (e = (none, "down\n".toList) → u.ending ≠ none) by
    obtain ⟨account, known, left, aborted, down⟩ := heard
    refine ⟨bytes, ?_, fun l mem => kept.lined l (List.mem_cons_of_mem _ mem),
      Control.step_waiting kept.calm run, ?_, account, fun l mem => ?_, fun k mem => ?_,
      served_watched kept.watched going left aborted down⟩
    · show s.written = (s.handled ++ [(e.2, u.failed)]).map (·.1) ++ q'.map (·.2)
      rw [kept.whole, List.map_append, List.append_assoc]
      rfl
    · exact kept.once.sublist ((List.sublist_cons_self e q').filterMap _)
    · exact (kept.bare l (List.mem_cons_of_mem _ mem)).later (serve_later going)
    · exact (List.mem_append.mp mem).elim (kept.known k) (known k)
  obtain ⟨owner, line⟩ := e
  cases owner with
  | none =>
    have bare : Bare s (c.answered a).text := by
      rw [said]
      exact kept.bare line List.mem_cons_self
    have noted := heard_bare bare kept.calm run
    obtain ⟨left, aborted⟩ := bare.stopping noted
    refine ⟨fun x => served_other (kept.account x) going (Option.some_ne_none x).symm ?_ ?_, ?_,
      left, aborted, fun same => noted.ends ?_⟩
    · rw [noted.signals]
      exact fun k mem => absurd mem List.not_mem_nil
    · intro k mem
      rw [noted.shots k mem]
      exact fun zero => absurd (Int.ofNat.inj zero).symm (Nat.pos_iff_ne_zero.mp x.2.1)
    · rw [noted.signals]
      exact fun k mem => absurd mem List.not_mem_nil
    · rw [said, congrArg Prod.snd same]
      show String.ofList (Control.lineText "down\n".toList) ∈ _
      decide
  | some p =>
    have fresh : ∀ text, (some p, text) ∉ q' := fun text mem =>
      (List.nodup_cons.mp kept.once).1 (List.mem_filterMap.mpr ⟨_, mem, rfl⟩)
    obtain ⟨argv, wanted, rfl, quiet, caller⟩ := (kept.account p).of_letter List.mem_cons_self
    have heard : Heard u p argv := heard_sent wanted said kept.calm run
    have told : ∀ k ∈ u.signals, k.1 = (p.val : Int) := by
      rcases heard.fate with ⟨-, silent⟩ | ⟨-, signals, -⟩
      · rw [silent]
        exact fun k mem => absurd mem List.not_mem_nil
      · rw [signals]
        rintro k mem
        rw [List.mem_singleton.mp mem]
    refine ⟨fun x => ?_, fun k mem => ⟨p, told k mem⟩, fun ended => absurd ended heard.going.1,
      fun ended => absurd ended heard.going.2, nofun⟩
    by_cases same : x = p
    · subst same
      exact served_own heard quiet caller fresh
    · have apart : (p.val : Int) ≠ x.val := fun h => same (Subtype.ext (Int.ofNat.inj h).symm)
      refine served_other (kept.account x) going (fun own => same (Option.some.inj own).symm) ?_ ?_
      · exact fun k mem => by rw [told k mem]; exact apart
      · exact fun k mem => by rw [heard.shots k mem]; exact apart

theorem Kept.aside (kept : Kept s q) (later : Later s t) (fifo : t.fifo = s.fifo)
    (whole : t.written = s.written ∧ t.handled = s.handled)
    (control : t.control = s.control) (kills : t.kills = s.kills) (caller : t.caller = s.caller)
    (pending : t.pending = s.pending) (files : t.files = s.files)
    (printed : t.printed = s.printed) (watched : Watched t q) : Kept t q := by
  refine kept.still fifo whole control kills later (fun x => (kept.account x).frame later
    (congrFun caller x) (fun _ => Iff.rfl) (congrFun pending x) (congrFun files x)
    (congrFun printed x) ?_) watched
  rw [killed, kills, killed]

theorem posted (g : Signo) (buffer : Control.Buffer 512) (opens fits : Bool) :
    Control.control buffer opens fits g.text =
      some ⟨if opens then some (g.text.1 ++ ['\n']) else none, opens && fits⟩ := by
  have full : g.text.1 ≠ [] := by cases g <;> decide
  rw [Control.control_some buffer opens fits full]
  cases g <;> rfl

theorem post_kept (kept : Kept s q) {buffer : Control.Buffer 512} {opens fits : Bool}
    (moved : s.post buffer opens fits = some t) : ∃ q', Kept t q' ∧ Later s t := by
  unfold post at moved
  split at moved
  · rename_i g carries
    rw [posted, Option.map_some] at moved
    cases moved
    have delivered := kept.watched.carried g carries
    by_cases through : (opens && fits) = true
    · obtain ⟨rfl, rfl⟩ : opens = true ∧ fits = true := by simpa using through
      simp only [Bool.and_true, if_true, Option.getD_some, Option.toList_some, Bool.not_true]
      have later : Later s { s with
          fifo := s.fifo ++ (g.text.1 ++ ['\n'])
          written := s.written ++ [g.text.1 ++ ['\n']]
          listener := .waiting
          refused := s.refused || false } :=
        ⟨fun _ _ _ h => h, fun _ h => h, fun _ h => h, fun _ => rfl⟩
      refine ⟨q ++ [(none, g.text.1 ++ ['\n'])], kept.append rfl rfl rfl ?_ ?_ rfl rfl later nofun
        (fun x => ?_) (fun _ => .signal g delivered) ?_, later⟩
      · cases g <;> decide
      · cases g <;> decide
      · exact (kept.account x).frame later rfl
          (fun text => mem_append_other (Option.some_ne_none x).symm) rfl rfl rfl rfl
      · refine ⟨nofun, kept.watched.arrived, kept.watched.closing, nofun, kept.watched.left,
          kept.watched.aborted, fun g' mem stops => ?_⟩
        rcases kept.watched.heeded g' mem stops with h | h | h | h | h
        · exact .inl h
        · rw [carries] at h
          cases h
          refine .inr (.inr (.inl (List.mem_append_right _ (List.mem_singleton.mpr ?_))))
          rcases stops with rfl | rfl <;> rfl
        · exact .inr (.inr (.inl (List.mem_append_left _ h)))
        · exact .inr (.inr (.inr (.inl h)))
        · exact .inr (.inr (.inr (.inr (by rw [h]; rfl))))
    · rw [Bool.eq_false_iff.mpr through]
      simp only [Bool.false_eq_true, if_false, List.append_nil, Bool.not_false, Bool.or_true]
      have later : Later s { s with listener := .waiting, refused := true } :=
        ⟨fun _ _ _ h => h, fun _ h => h, fun _ h => h, fun _ => rfl⟩
      refine ⟨q, kept.aside later rfl ⟨rfl, rfl⟩ rfl rfl rfl rfl rfl rfl ?_, later⟩
      exact ⟨nofun, kept.watched.arrived, kept.watched.closing, nofun, kept.watched.left,
        kept.watched.aborted, fun _ _ _ => .inr (.inr (.inr (.inr rfl)))⟩
  · cases moved

theorem signal_kept (kept : Kept s q) (g : Signo) :
    Kept { s with arrived := Function.update s.arrived g true, delivered := s.delivered ++ [g] } q ∧
      Later s { s with
        arrived := Function.update s.arrived g true, delivered := s.delivered ++ [g] } := by
  have later : Later s { s with
      arrived := Function.update s.arrived g true, delivered := s.delivered ++ [g] } :=
    ⟨fun _ _ _ h => h, fun _ => List.mem_append_left _, fun _ h => h, fun _ => rfl⟩
  refine ⟨kept.aside later rfl ⟨rfl, rfl⟩ rfl rfl rfl rfl rfl rfl ?_, later⟩
  have watched := kept.watched
  refine ⟨fun g' h => List.mem_append_left _ (watched.carried g' h), fun g' h => ?_,
    watched.closing, watched.returned, fun h => (watched.left h).later later, watched.aborted,
    fun g' mem stops => ?_⟩
  · by_cases same : g' = g
    · exact .inr (List.mem_append_right _ (List.mem_singleton.mpr same))
    · exact (watched.arrived g' ((Function.update_of_ne same _ _).symm.trans h)).imp_right
        (List.mem_append_left _)
  · by_cases same : g' = g
    · rw [same]
      exact .inl (Function.update_self _ _ _)
    · refine (watched.heeded g' ?_ stops).imp_left (Function.update_of_ne same _ _).trans
      exact (List.mem_append.mp mem).resolve_right fun h => same (List.mem_singleton.mp h)

theorem take_kept (kept : Kept s q) {g : Signo} (moved : s.take g = some t) :
    Kept t q ∧ Later s t := by
  obtain ⟨⟨waits, arrived⟩, same⟩ := Option.ite_none_right_eq_some.mp moved
  cases same
  have later : Later s { s with
      arrived := Function.update s.arrived g false
      listener := if s.shutdown then .returned else .carrying g } :=
    ⟨fun _ _ _ h => h, fun _ h => h, fun _ h => h, fun _ => rfl⟩
  refine ⟨kept.aside later rfl ⟨rfl, rfl⟩ rfl rfl rfl rfl rfl rfl ?_, later⟩
  have watched := kept.watched
  refine ⟨fun g' h => ?_, fun g' h => ?_, watched.closing, fun h => ?_, watched.left,
    watched.aborted, fun g' mem stops => ?_⟩
  · by_cases shut : s.shutdown = true
    · cases (if_pos shut).symm.trans h
    · cases (if_neg shut).symm.trans h
      exact (watched.arrived g arrived).resolve_left shut
  · by_cases same : g' = g
    · rw [same] at h
      cases (Function.update_self g false s.arrived).symm.trans h
    · exact watched.arrived g' ((Function.update_of_ne same _ _).symm.trans h)
  · by_cases shut : s.shutdown = true
    · exact watched.closing shut
    · cases (if_neg shut).symm.trans h
  · rcases watched.heeded g' mem stops with h | h | h
    · by_cases same : g' = g
      · subst same
        by_cases shut : s.shutdown = true
        · refine .inr (.inr (.inr (.inl ?_)))
          show s.control.ending ≠ none
          rw [watched.closing shut]
          nofun
        · exact .inr (.inl (if_neg shut))
      · exact .inl ((Function.update_of_ne same _ _).trans h)
    · cases waits.symm.trans h
    · exact .inr (.inr h)

theorem cancel_kept (kept : Kept s q) (moved : s.cancel = some t) : Kept t q ∧ Later s t := by
  obtain ⟨left, same⟩ := Option.ite_none_right_eq_some.mp moved
  split at same
  · cases same
    exact ⟨kept, .rfl⟩
  · cases same
    have later : Later s { s with
        shutdown := true, arrived := Function.update s.arrived .alrm true } :=
      ⟨fun _ _ _ h => h, fun _ h => h, fun _ h => h, fun _ => rfl⟩
    refine ⟨kept.aside later rfl ⟨rfl, rfl⟩ rfl rfl rfl rfl rfl rfl ?_, later⟩
    have ended : s.control.ending ≠ none := by
      rw [left]
      nofun
    exact ⟨kept.watched.carried, fun _ _ => .inl rfl, fun _ => left, fun _ => left,
      kept.watched.left, kept.watched.aborted, fun _ _ _ => .inr (.inr (.inr (.inl ended)))⟩

theorem begin_kept (kept : Kept s q) (new : s.listener = .new) :
    Kept { s with listener := .waiting } q ∧ Later s { s with listener := .waiting } := by
  have later : Later s { s with listener := .waiting } :=
    ⟨fun _ _ _ h => h, fun _ h => h, fun _ h => h, fun _ => rfl⟩
  refine ⟨kept.aside later rfl ⟨rfl, rfl⟩ rfl rfl rfl rfl rfl rfl ?_, later⟩
  refine ⟨nofun, kept.watched.arrived, kept.watched.closing, nofun, kept.watched.left,
    kept.watched.aborted, fun g mem stops => ?_⟩
  rcases kept.watched.heeded g mem stops with h | h | h
  · exact .inl h
  · cases new.symm.trans h
  · exact .inr (.inr h)

theorem step_kept (kept : Kept s q) {a : ConsoleAction} (decent : Decent a)
    (moved : s.step a = some t) : ∃ q', Kept t q' ∧ Later s t := by
  cases a with
  | request p argv buffer opens fits =>
    simp only [step] at moved
    split at moved
    · rename_i ready passed
      exact request_kept kept ready passed decent.1 decent.2 moved
    · cases moved
  | alarm p =>
    obtain ⟨-, same⟩ := Option.ite_none_right_eq_some.mp moved
    cases same
    have later : Later s { s with alarmed := Function.update s.alarmed p true } :=
      ⟨fun _ _ _ h => h, fun _ h => h, fun _ h => h, fun _ => rfl⟩
    exact ⟨q, kept.aside later rfl ⟨rfl, rfl⟩ rfl rfl rfl rfl rfl rfl
      (kept.watched.frame later rfl rfl rfl rfl rfl rfl fun _ h => h), later⟩
  | wake p w =>
    simp only [step] at moved
    split at moved
    · rename_i argv waits
      exact ⟨q, wake_kept kept waits moved⟩
    · cases moved
  | serve a =>
    obtain ⟨-, q', -, after⟩ := serve_kept kept moved
    exact ⟨q', after⟩
  | signal g =>
    obtain ⟨-, same⟩ := Option.ite_none_right_eq_some.mp moved
    cases same
    exact ⟨q, signal_kept kept g⟩
  | begin =>
    obtain ⟨⟨-, new⟩, same⟩ := Option.ite_none_right_eq_some.mp moved
    cases same
    exact ⟨q, begin_kept kept new⟩
  | take g => exact ⟨q, take_kept kept (Option.ite_none_right_eq_some.mp moved).2⟩
  | post buffer opens fits => exact post_kept kept (Option.ite_none_right_eq_some.mp moved).2
  | cancel => exact ⟨q, cancel_kept kept moved⟩

end Steps

end Console

end Bayonne
