import Bayonne.Control.Console

/-! The clients at the control FIFO: what each of them can count on, in every interleaving with
the server, and that their own steps keep it. -/
namespace Bayonne

namespace Console

abbrev Letter := Option Pid × List Char

def sent (p : Pid) (argv : List String) : List Char := Wire.whole (some p) argv ++ ['\n']

/-- A request with an answer to it, of words that the line holds. -/
structure Wanted (p : Pid) (argv : List String) : Prop where
  passed : ∃ n, n ≠ 0 ∧ Client.main argv = .command n
  sendable : Wire.Sendable argv
  short : (Wire.whole (some p) argv).length ≤ 510

def verdict (failed : Bool) : UserSignal := if failed then .usr2 else .usr1

def killed (s : Console) (p : Pid) : List (Int × UserSignal) :=
  s.kills.filter (·.1 = (p.val : Int))

structure Quiet (s : Console) (p : Pid) : Prop where
  pending : ∀ u, s.pending p u = false
  files : s.files p = false
  printed : s.printed p = false
  killed : s.killed p = []

/-- The exit status of a client that has waited tells of its line. -/
structure Fate (s : Console) (p : Pid) (argv : List String) (code : Nat) : Prop where
  done : code = 0 → (∃ n, n ≠ 0 ∧ Client.main argv = .command n) →
    (sent p argv, false) ∈ s.handled ∧ (s.printed p = true ↔ argv = ["snapshot"])
  failed : code = 3 → (sent p argv, true) ∈ s.handled

def Once (s : Console) (p : Pid) (argv : List String) : Prop :=
  s.killed p = [] ∨ ∃ failed, s.killed p = [((p.val : Int), verdict failed)] ∧
    (sent p argv, failed) ∈ s.handled

/-- Where a client is with its request: before it, with its line in the FIFO (and it may have
given up), with the answer waiting for it, without an answer since the server has ended, or
through with it. -/
inductive Account (s : Console) (q : List Letter) (p : Pid) : Prop
  | ready (caller : s.caller p = .ready) (quiet : s.Quiet p)
      (unsent : ∀ text, (some p, text) ∉ q)
  | asked (argv : List String) (wanted : Wanted p argv)
      (caller : s.caller p = .waiting argv ∨ s.caller p = .exited argv 1)
      (letter : (some p, sent p argv) ∈ q)
      (only : ∀ text, (some p, text) ∈ q → text = sent p argv) (quiet : s.Quiet p)
  | told (argv : List String) (failed : Bool) (caller : s.caller p = .waiting argv)
      (unsent : ∀ text, (some p, text) ∉ q) (handled : (sent p argv, failed) ∈ s.handled)
      (signal : ∀ u, s.pending p u = true ↔ u = verdict failed)
      (file : failed = false → (s.files p = true ↔ argv = ["snapshot"]))
      (once : s.killed p = [((p.val : Int), verdict failed)])
  | lost (argv : List String) (caller : s.caller p = .waiting argv)
      (unsent : ∀ text, (some p, text) ∉ q) (quiet : ∀ u, s.pending p u = false)
      (ended : s.control.ending ≠ none) (once : s.killed p = [])
  | gone (argv : List String) (code : Nat) (caller : s.caller p = .exited argv code)
      (unsent : ∀ text, (some p, text) ∉ q) (fate : s.Fate p argv code)
      (once : s.Once p argv)

/-- A line that names no client: one that a client does not wait for, or one for a signal. -/
inductive Bare (s : Console) : List Char → Prop
  | client (p : Pid) (w : String) (named : w ∈ ["down", "restart", "abort"])
      (caller : s.caller p = .exited [w] 0) : Bare s (' ' :: w.toList ++ ['\n'])
  | signal (g : Signo) (delivered : g ∈ s.delivered) : Bare s (g.text.1 ++ ['\n'])

structure Later (s t : Console) : Prop where
  exited : ∀ p argv code, s.caller p = .exited argv code → t.caller p = .exited argv code
  delivered : ∀ g ∈ s.delivered, g ∈ t.delivered
  handled : ∀ e ∈ s.handled, e ∈ t.handled
  ending : s.control.ending ≠ none → t.control.ending = s.control.ending

variable {s t : Console} {q q' : List Letter} {p : Pid}

theorem Later.rfl : Later s s := ⟨fun _ _ _ h => h, fun _ h => h, fun _ h => h, fun _ => Eq.refl _⟩

theorem Bare.later {text : List Char} (h : Bare s text) (later : Later s t) : Bare t text := by
  cases h with
  | client p w named caller => exact .client p w named (later.exited p _ _ caller)
  | signal g delivered => exact .signal g (later.delivered g delivered)

theorem Account.frame (h : Account s q p) (later : Later s t) (caller : t.caller p = s.caller p)
    (letters : ∀ text, (some p, text) ∈ q' ↔ (some p, text) ∈ q)
    (pending : t.pending p = s.pending p) (files : t.files p = s.files p)
    (printed : t.printed p = s.printed p) (killed : t.killed p = s.killed p) : Account t q' p := by
  have still : s.Quiet p → t.Quiet p := fun quiet =>
    ⟨by rw [pending]; exact quiet.pending, files.trans quiet.files, printed.trans quiet.printed,
      killed.trans quiet.killed⟩
  have absent : (∀ text, (some p, text) ∉ q) → ∀ text, (some p, text) ∉ q' := fun unsent text h =>
    unsent text ((letters text).mp h)
  cases h with
  | ready at' quiet unsent => exact .ready (caller.trans at') (still quiet) (absent unsent)
  | asked argv wanted at' letter only quiet =>
    refine .asked argv wanted (by rwa [caller]) ((letters _).mpr letter) ?_ (still quiet)
    exact fun text h => only text ((letters text).mp h)
  | told argv failed at' unsent handled signal file once =>
    refine .told argv failed (caller.trans at') (absent unsent) (later.handled _ handled) ?_ ?_
      (killed.trans once)
    · rwa [pending]
    · rwa [files]
  | lost argv at' unsent quiet ended once =>
    refine .lost argv (caller.trans at') (absent unsent) ?_ ?_ (killed.trans once)
    · rwa [pending]
    · rwa [later.ending ended]
  | gone argv code at' unsent fate once =>
    refine .gone argv code (caller.trans at') (absent unsent) ?_ ?_
    · exact ⟨fun zero waited => ⟨later.handled _ (fate.done zero waited).1,
        by rw [printed]; exact (fate.done zero waited).2⟩,
        fun three => later.handled _ (fate.failed three)⟩
    · rcases once with none | ⟨failed, told, handled⟩
      · exact .inl (killed.trans none)
      · exact .inr ⟨failed, killed.trans told, later.handled _ handled⟩

def Stopping (s : Console) : Prop :=
  (∃ p w, w ∈ ["down", "restart"] ∧ s.caller p = .exited [w] 0) ∨
    .int ∈ s.delivered ∨ .term ∈ s.delivered

structure Watched (s : Console) (q : List Letter) : Prop where
  carried : ∀ g, s.listener = .carrying g → g ∈ s.delivered
  arrived : ∀ g, s.arrived g = true → s.shutdown = true ∨ g ∈ s.delivered
  closing : s.shutdown = true → s.control.ending = some .left
  returned : s.listener = .returned → s.control.ending = some .left
  left : s.control.ending = some .left → s.Stopping
  aborted : s.control.ending = some .aborted → ∃ p, s.caller p = .exited ["abort"] 0
  heeded : ∀ g ∈ s.delivered, g = .int ∨ g = .term → s.arrived g = true ∨
    s.listener = .carrying g ∨ (none, "down\n".toList) ∈ q ∨ s.control.ending ≠ none ∨
    s.refused = true

theorem Stopping.later (h : s.Stopping) (later : Later s t) : t.Stopping := by
  rcases h with ⟨p, w, named, caller⟩ | h | h
  · exact .inl ⟨p, w, named, later.exited p _ _ caller⟩
  · exact .inr (.inl (later.delivered _ h))
  · exact .inr (.inr (later.delivered _ h))

theorem Watched.frame (h : Watched s q) (later : Later s t) (listener : t.listener = s.listener)
    (arrived : t.arrived = s.arrived) (shutdown : t.shutdown = s.shutdown)
    (control : t.control = s.control) (delivered : t.delivered = s.delivered)
    (refused : t.refused = s.refused) (letters : ∀ l ∈ q, l ∈ q') : Watched t q' where
  carried g at' := by
    rw [delivered]
    exact h.carried g (listener.symm.trans at')
  arrived g at' := by
    rw [shutdown, delivered]
    exact h.arrived g (by rwa [arrived] at at')
  closing at' := by
    rw [control]
    exact h.closing (shutdown.symm.trans at')
  returned at' := by
    rw [control]
    exact h.returned (listener.symm.trans at')
  left ended := (h.left (by rwa [control] at ended)).later later
  aborted ended := by
    obtain ⟨p, caller⟩ := h.aborted (by rwa [control] at ended)
    exact ⟨p, later.exited p _ _ caller⟩
  heeded g mem stops := by
    rw [delivered] at mem
    rw [arrived, listener, control, refused]
    rcases h.heeded g mem stops with h | h | h | h
    · exact .inl h
    · exact .inr (.inl h)
    · exact .inr (.inr (.inl (letters _ h)))
    · exact .inr (.inr (.inr h))

structure Kept (s : Console) (q : List Letter) : Prop where
  bytes : s.fifo = (q.map (·.2)).flatten
  whole : s.written = s.handled.map (·.1) ++ q.map (·.2)
  lined : ∀ e ∈ q, ∃ body, e.2 = body ++ ['\n'] ∧ '\n' ∉ body ∧ body.length < 511
  calm : Control.Waiting s.control
  once : (q.filterMap (·.1)).Nodup
  account : ∀ p, Account s q p
  bare : ∀ text, (none, text) ∈ q → Bare s text
  known : ∀ k ∈ s.kills, ∃ p : Pid, k.1 = p.val
  watched : Watched s q

theorem start_kept (control : Control) (going : control.ending = none)
    (calm : control.replytarget = none) :
    Kept (start control) [] where
  bytes := rfl
  whole := rfl
  lined _ h := by cases h
  calm _ := calm
  once := List.nodup_nil
  account p := .ready rfl ⟨fun _ => rfl, rfl, rfl, rfl⟩ fun _ h => by cases h
  bare _ h := by cases h
  known _ h := by cases h
  watched := by
    refine ⟨nofun, nofun, nofun, nofun, fun ended => ?_, fun ended => ?_, nofun⟩
    · cases going.symm.trans ended
    · cases going.symm.trans ended

section Steps

theorem exit_later {argv : List String} {code : Nat} (open' : ∀ a c, s.caller p ≠ .exited a c) :
    Later s (s.exit p argv code) where
  exited x a c at' := by
    have other : x ≠ p := by
      rintro rfl
      exact open' a c at'
    exact (Function.update_of_ne other _ _).trans at'
  delivered _ h := h
  handled _ h := h
  ending _ := rfl

theorem caller_exit {argv : List String} {code : Nat} :
    (s.exit p argv code).caller p = .exited argv code := Function.update_self _ _ _

theorem exit_account {argv : List String} {code : Nat} {x : Pid} (other : x ≠ p)
    (open' : ∀ a c, s.caller p ≠ .exited a c) (h : Account s q x) :
    Account (s.exit p argv code) q x :=
  h.frame (exit_later open') (Function.update_of_ne other _ _) (fun _ => Iff.rfl) rfl rfl rfl rfl

theorem not_exited_ready (at' : s.caller p = .ready) (a : List String) (c : Nat) :
    s.caller p ≠ .exited a c := by
  rw [at']
  nofun

theorem not_exited_waiting {argv : List String} (at' : s.caller p = .waiting argv)
    (a : List String) (c : Nat) : s.caller p ≠ .exited a c := by
  rw [at']
  nofun

theorem Account.of_ready (h : Account s q p) (at' : s.caller p = .ready) :
    s.Quiet p ∧ ∀ text, (some p, text) ∉ q := by
  cases h with
  | ready _ quiet unsent => exact ⟨quiet, unsent⟩
  | asked argv _ caller => rw [at'] at caller; rcases caller with h | h <;> cases h
  | told argv _ caller => rw [at'] at caller; cases caller
  | lost argv caller => rw [at'] at caller; cases caller
  | gone argv code caller => rw [at'] at caller; cases caller

theorem exit_kept (kept : Kept s q) {argv : List String} {code : Nat}
    (at' : s.caller p = .ready) (failed : code ≠ 0 ∧ code ≠ 3) : Kept (s.exit p argv code) q := by
  have later : Later s (s.exit p argv code) := exit_later (not_exited_ready at')
  refine ⟨kept.bytes, kept.whole, kept.lined, kept.calm, kept.once, fun x => ?_,
    fun text mem => (kept.bare text mem).later later, kept.known,
    kept.watched.frame later rfl rfl rfl rfl rfl rfl fun _ h => h⟩
  by_cases same : x = p
  · subst same
    obtain ⟨quiet, unsent⟩ := (kept.account x).of_ready at'
    refine .gone argv code caller_exit unsent ?_ ?_
    · exact ⟨fun zero => absurd zero failed.1, fun three => absurd three failed.2⟩
    · exact .inl quiet.killed
  · exact exit_account same (not_exited_ready at') (kept.account x)

theorem body_clean (pid : Option Pid) {argv : List String} (sendable : Wire.Sendable argv) :
    '\n' ∉ Wire.whole pid argv := by
  obtain ⟨w, ws, rfl⟩ := List.exists_cons_of_ne_nil sendable.some
  rw [Wire.whole_joined pid sendable.words]
  exact Wire.newline_not_mem pid sendable.words

theorem Kept.append (kept : Kept s q) {owner : Option Pid} {body : List Char}
    (fifo : t.fifo = s.fifo ++ (body ++ ['\n']))
    (written : t.written = s.written ++ [body ++ ['\n']])
    (handled : t.handled = s.handled) (clean : '\n' ∉ body) (short : body.length < 511)
    (control : t.control = s.control) (kills : t.kills = s.kills) (later : Later s t)
    (fresh : ∀ x, owner = some x → ∀ text, (some x, text) ∉ q)
    (account : ∀ x, Account t (q ++ [(owner, body ++ ['\n'])]) x)
    (bare : owner = none → Bare t (body ++ ['\n']))
    (watched : Watched t (q ++ [(owner, body ++ ['\n'])])) :
    Kept t (q ++ [(owner, body ++ ['\n'])]) := by
  refine ⟨?_, ?_, ?_, by rw [control]; exact kept.calm, ?_, account, ?_,
    by rw [kills]; exact kept.known, watched⟩
  · rw [fifo, kept.bytes, List.map_append, List.flatten_append]
    simp
  · rw [written, handled, kept.whole, List.map_append, List.append_assoc]
    rfl
  · intro e mem
    rcases List.mem_append.mp mem with old | new
    · exact kept.lined e old
    · rw [List.mem_singleton.mp new]
      exact ⟨body, rfl, clean, short⟩
  · rw [List.filterMap_append]
    cases owner with
    | none => simpa using kept.once
    | some x =>
      refine List.nodup_append.mpr ⟨kept.once, List.nodup_singleton _, fun y old z new same => ?_⟩
      obtain ⟨⟨o, text⟩, mem, named⟩ := List.mem_filterMap.mp old
      have own : z = x := List.mem_singleton.mp new
      subst own
      cases named
      exact fresh y (by rw [same]) text mem
  · intro text mem
    rcases List.mem_append.mp mem with old | new
    · exact (kept.bare text old).later later
    · cases List.mem_singleton.mp new
      exact bare rfl

theorem mem_append_other {owner : Option Pid} {x : Pid} {body text : List Char}
    (other : owner ≠ some x) : (some x, text) ∈ q ++ [(owner, body)] ↔ (some x, text) ∈ q := by
  rw [List.mem_append, List.mem_singleton]
  refine ⟨fun h => h.resolve_right fun same => ?_, .inl⟩
  cases same
  exact other rfl

/-- Only plain requests are made, of words without white space, braces and control characters in
a line that the buffers hold. A client may be given others: the line of a word with a newline
in it is two lines to the server. -/
def Decent : ConsoleAction → Prop
  | .request p argv _ _ _ =>
    Wire.Sendable argv ∧ (Wire.whole (some p) argv).length ≤ 510
  | _ => True

theorem length_whole (p : Pid) (argv : List String) :
    (Wire.whole none argv).length ≤ (Wire.whole (some p) argv).length := by
  simp [Wire.whole, Wire.sender]

theorem unanswered_line {w : String} (named : w ∈ ["down", "restart", "abort"]) :
    Wire.whole none [w] = ' ' :: w.toList := by
  have cases' : w = "down" ∨ w = "restart" ∨ w = "abort" := by simpa using named
  rcases cases' with rfl | rfl | rfl <;> decide

theorem request_kept (kept : Kept s q) {argv : List String} {n : Nat}
    {buffer : Control.Buffer 512} {opens fits : Bool} (at' : s.caller p = .ready)
    (passed : Client.main argv = .command n) (sendable : Wire.Sendable argv)
    (short : (Wire.whole (some p) argv).length ≤ 510)
    (moved : s.request p argv n buffer opens fits = some t) :
    ∃ q', Kept t q' ∧ Later s t := by
  have later : ∀ code, Later s (s.exit p argv code) := fun code =>
    exit_later (not_exited_ready at')
  unfold request at moved
  split at moved
  · cases moved
    exact ⟨q, exit_kept kept at' (by decide), later 2⟩
  obtain ⟨text, printed, rfl⟩ := Option.map_eq_some_iff.mp moved
  rw [Wire.command_some buffer.2] at printed
  cases printed
  split
  · exact ⟨q, exit_kept kept at' (by decide), later 4⟩
  obtain ⟨quiet, unsent⟩ := (kept.account p).of_ready at'
  have room : (Wire.whole (Client.sender p n) argv).length ≤ 510 := by
    unfold Client.sender
    split
    · exact Nat.le_trans (length_whole p argv) short
    · exact short
  rw [List.take_of_length_le room]
  have clean := body_clean (Client.sender p n) sendable
  split
  · rename_i zero
    subst zero
    have alone := Client.passed_of_main passed
    obtain ⟨w, named, rfl⟩ : ∃ w, w ∈ ["down", "restart", "abort"] ∧ argv = [w] := by
      cases alone with
      | unanswered named => exact ⟨_, named, rfl⟩
    have nobody : Client.sender p 0 = none := if_pos rfl
    rw [nobody] at clean room ⊢
    have exits : Later s ((s.write (Wire.whole none [w] ++ ['\n'])).exit p [w] 0) :=
      ⟨(later 0).exited, (later 0).delivered, (later 0).handled, (later 0).ending⟩
    refine ⟨q ++ [(none, Wire.whole none [w] ++ ['\n'])],
      kept.append rfl rfl rfl clean ?_ rfl rfl exits nofun ?_ ?_ ?_, exits⟩
    · exact Nat.lt_succ_of_le room
    · intro x
      by_cases same : x = p
      · subst same
        refine .gone [w] 0 caller_exit (fun text mem => ?_) ⟨fun _ waited => ?_, nofun⟩ ?_
        · exact unsent text ((mem_append_other (Option.some_ne_none x).symm).mp mem)
        · obtain ⟨n, some', passed'⟩ := waited
          rw [passed] at passed'
          cases passed'
          exact absurd rfl some'
        · exact .inl quiet.killed
      · exact (kept.account x).frame exits (Function.update_of_ne same _ _)
          (fun text => mem_append_other (Option.some_ne_none x).symm) rfl rfl rfl rfl
    · intro _
      rw [unanswered_line named]
      exact .client p w named caller_exit
    · exact kept.watched.frame exits rfl rfl rfl rfl rfl rfl fun _ => List.mem_append_left _
  · rename_i some'
    have answered : Client.sender p n = some p := if_neg some'
    rw [answered] at clean room ⊢
    have waits : Later s { s.write (Wire.whole (some p) argv ++ ['\n']) with
        caller := Function.update s.caller p (.waiting argv) } := by
      refine ⟨fun x a c at'' => ?_, fun _ h => h, fun _ h => h, fun _ => rfl⟩
      have other : x ≠ p := by
        rintro rfl
        exact not_exited_ready at' a c at''
      exact (Function.update_of_ne other _ _).trans at''
    refine ⟨q ++ [(some p, Wire.whole (some p) argv ++ ['\n'])],
      kept.append rfl rfl rfl clean ?_ rfl rfl waits ?_ ?_ nofun ?_, waits⟩
    · exact Nat.lt_succ_of_le (Nat.le_trans room (by decide))
    · rintro x ⟨⟩ text
      exact unsent text
    · intro x
      by_cases same : x = p
      · subst same
        refine .asked argv ⟨⟨n, some', passed⟩, sendable, short⟩
          (.inl (Function.update_self _ _ _)) (List.mem_append_right _ (List.mem_singleton_self _))
          (fun text mem => ?_) ⟨quiet.pending, quiet.files, quiet.printed, quiet.killed⟩
        rcases List.mem_append.mp mem with old | new
        · exact absurd old (unsent text)
        · exact congrArg Prod.snd (List.mem_singleton.mp new)
      · refine (kept.account x).frame waits (Function.update_of_ne same _ _)
          (fun text => mem_append_other ?_) rfl rfl rfl rfl
        rintro ⟨⟩
        exact same rfl
    · exact kept.watched.frame waits rfl rfl rfl rfl rfl rfl fun _ => List.mem_append_left _

theorem Kept.still (kept : Kept s q) (fifo : t.fifo = s.fifo)
    (whole : t.written = s.written ∧ t.handled = s.handled) (control : t.control = s.control)
    (kills : t.kills = s.kills) (later : Later s t) (account : ∀ x, Account t q x)
    (watched : Watched t q) : Kept t q :=
  ⟨fifo.trans kept.bytes, by rw [whole.1, whole.2]; exact kept.whole, kept.lined,
    by rw [control]; exact kept.calm, kept.once, account,
    fun text mem => (kept.bare text mem).later later, by rw [kills]; exact kept.known, watched⟩

theorem Account.of_signal (h : Account s q p) {argv : List String} {u : UserSignal}
    (at' : s.caller p = .waiting argv) (signal : s.pending p u = true) : ∃ failed,
      u = verdict failed ∧ (∀ text, (some p, text) ∉ q) ∧ (sent p argv, failed) ∈ s.handled ∧
      (failed = false → (s.files p = true ↔ argv = ["snapshot"])) ∧ s.Once p argv := by
  cases h with
  | ready caller => rw [at'] at caller; cases caller
  | asked argv' wanted caller letter only quiet =>
    rw [quiet.pending] at signal
    cases signal
  | told argv' failed caller unsent handled signal' file once =>
    rw [at'] at caller
    cases caller
    exact ⟨failed, (signal' u).mp signal, unsent, handled, file,
      .inr ⟨failed, once, handled⟩⟩
  | lost argv' caller unsent quiet =>
    rw [quiet] at signal
    cases signal
  | gone argv' code caller => rw [at'] at caller; cases caller

theorem Account.given_up (h : Account s q p) {argv : List String}
    (at' : s.caller p = .waiting argv) : Account (s.exit p argv 1) q p := by
  cases h with
  | ready caller => rw [at'] at caller; cases caller
  | asked argv' wanted caller letter only quiet =>
    rcases caller with waits | exited
    · rw [at'] at waits
      cases waits
      exact .asked argv wanted (.inr caller_exit) letter only
        ⟨quiet.pending, quiet.files, quiet.printed, quiet.killed⟩
    · rw [at'] at exited
      cases exited
  | told argv' failed caller unsent handled signal file once =>
    rw [at'] at caller
    cases caller
    exact .gone argv 1 caller_exit unsent ⟨nofun, nofun⟩ (.inr ⟨failed, once, handled⟩)
  | lost argv' caller unsent quiet ended once =>
    exact .gone argv 1 caller_exit unsent ⟨nofun, nofun⟩ (.inl once)
  | gone argv' code caller => rw [at'] at caller; cases caller

theorem wake_kept (kept : Kept s q) {argv : List String} {w : Wake}
    (at' : s.caller p = .waiting argv) (moved : s.wake p argv w = some t) :
    Kept t q ∧ Later s t := by
  have open' := not_exited_waiting at'
  have later : ∀ code, Later s (s.exit p argv code) := fun code => exit_later open'
  cases w with
  | alarm =>
    obtain ⟨-, same⟩ := Option.ite_none_right_eq_some.mp moved
    cases same
    refine ⟨kept.still rfl ⟨rfl, rfl⟩ rfl rfl (later 1) (fun x => ?_)
        (kept.watched.frame (later 1) rfl rfl rfl rfl rfl rfl fun _ h => h), later 1⟩
    by_cases same : x = p
    · rw [same]
      exact (kept.account p).given_up at'
    · exact exit_account same open' (kept.account x)
  | user u =>
    cases u with
    | usr1 =>
      obtain ⟨signal, same⟩ := Option.ite_none_right_eq_some.mp moved
      cases same
      have later' := later 0
      have later : Later s { s.exit p argv 0 with
          printed := Function.update s.printed p (s.files p)
          files := Function.update s.files p false } :=
        ⟨later'.exited, later'.delivered, later'.handled, later'.ending⟩
      refine ⟨kept.still rfl ⟨rfl, rfl⟩ rfl rfl later (fun x => ?_)
        (kept.watched.frame later rfl rfl rfl rfl rfl rfl fun _ h => h), later⟩
      by_cases same : x = p
      · subst same
        obtain ⟨failed, named, unsent, handled, file, once⟩ :=
          (kept.account x).of_signal at' signal
        obtain rfl : failed = false := by
          cases failed with
          | false => rfl
          | true => cases named
        refine .gone argv 0 caller_exit unsent ⟨fun _ _ => ⟨handled, ?_⟩, nofun⟩ once
        exact (iff_of_eq (congrArg (· = true) (Function.update_self _ _ _))).trans (file rfl)
      · exact (kept.account x).frame later (Function.update_of_ne same _ _) (fun _ => Iff.rfl) rfl
          (Function.update_of_ne same _ _) (Function.update_of_ne same _ _) rfl
    | usr2 =>
      obtain ⟨signal, same⟩ := Option.ite_none_right_eq_some.mp moved
      cases same
      refine ⟨kept.still rfl ⟨rfl, rfl⟩ rfl rfl (later 3) (fun x => ?_)
        (kept.watched.frame (later 3) rfl rfl rfl rfl rfl rfl fun _ h => h), later 3⟩
      by_cases same : x = p
      · subst same
        obtain ⟨failed, named, unsent, handled, -, once⟩ := (kept.account x).of_signal at' signal
        obtain rfl : failed = true := by
          cases failed with
          | false => cases named
          | true => rfl
        exact .gone argv 3 caller_exit unsent ⟨nofun, fun _ => handled⟩ once
      · exact exit_account same open' (kept.account x)

end Steps

end Console

end Bayonne
