import Bayonne.Base.Run
import Bayonne.Registry

/-! The call allowance of a registration under any number of threads. `attach` and
`release` run between `Mutex::protect` and `Mutex::release` of the node; each of
their statements is a step, and the threads interleave freely between the steps. -/
namespace Bayonne.Allowance

inductive Pc where
  | idle
  | attach (r k : Nat) (limit : UInt32) (stat : Stat)
  | tested (r k : Nat) (stat : Stat) (rtn : Bool)
  | updated (r k : Nat) (rtn : Bool)
  | release (r k : Nat) (stat : Stat)
  | counted (r k : Nat)

def Pc.node : Pc → Option Nat
  | .idle => none
  | .attach _ k _ _ | .tested _ k _ _ | .updated _ k _ | .release _ k _ | .counted _ k => some k

/-- `guard k` is the thread between `Mutex::protect` and `Mutex::release` of node `k`.
`outstanding r` counts the successful attaches on `r` not yet released. -/
structure State where
  shm : Nat → Statmap
  guard : Nat → Option Nat
  pc : Nat → Pc
  outstanding : Nat → Nat

inductive Action where
  | attach (t r : Nat) (stat : Stat)
  | release (t r : Nat) (stat : Stat)
  | next (t : Nat) (now : Time)

namespace State

def grant (s : State) (r : Nat) : State :=
  { s with outstanding := Function.update s.outstanding r (s.outstanding r + 1) }

def giveBack (s : State) (r : Nat) : State :=
  { s with outstanding := Function.update s.outstanding r (s.outstanding r - 1) }

def protect (s : State) (t k : Nat) (pc : Pc) : Option State :=
  if s.guard k = none then
    some { s with guard := Function.update s.guard k (some t), pc := Function.update s.pc t pc }
  else none

def unprotect (s : State) (t k : Nat) : State :=
  { s with guard := Function.update s.guard k none, pc := Function.update s.pc t .idle }

def goto (s : State) (t : Nat) (pc : Pc) : State := { s with pc := Function.update s.pc t pc }

def store (s : State) (k : Nat) (m : Statmap) : State :=
  { s with shm := Function.update s.shm k m }

end State

/-- A thread starts `Registration::attach`, or `Registration::release` after a successful
attach; without a node both return at once. -/
def enter (server : Server) (s : State) (t r : Nat) (bare : State → State)
    (pc : Registration → Nat → Pc) : Option State :=
  match s.pc t, server.registrations[r]? with
  | .idle, some reg =>
    match reg.stats with
    | none => some (bare s)
    | some k => s.protect t k (pc reg k)
  | _, _ => none

def step (server : Server) (s : State) : Action → Option State
  | .attach t r stat => enter server s t r (·.grant r) fun reg k => .attach r k reg.limit stat
  | .release t r stat =>
    if s.outstanding r = 0 then none
    else enter server s t r (·.giveBack r) fun _ k => .release r k stat
  | .next t now =>
    match s.pc t with
    | .idle => none
    | .attach r k limit stat =>
      some (s.goto t (.tested r k stat (decide (limit = 0 ∨ (s.shm k).active < limit.toNat))))
    | .tested r k stat rtn =>
      let s := s.goto t (.updated r k rtn)
      some (if rtn then s.store k ((s.shm k).update stat) else s)
    | .updated r k rtn =>
      let s := s.unprotect t k
      some (if rtn then s.grant r else s)
    | .release r k stat =>
      some ((s.goto t (.counted r k)).store k ((s.shm k).release stat now))
    | .counted r k => some ((s.unprotect t k).giveBack r)

def start (server : Server) : State where
  shm := server.table.shm
  guard := fun _ => none
  pc := fun _ => .idle
  outstanding := fun _ => 0

/-- A thread that runs alone from an idle node computes `Registration::attach`. -/
theorem attach_alone (server : Server) (s : State) (t r : Nat) (stat : Stat) (now : Time)
    {reg : Registration} {k : Nat} (hr : server.registrations[r]? = some reg)
    (hk : reg.stats = some k) (idle : s.pc t = .idle) (free : s.guard k = none) :
    ∃ u, Run.exec (step server) s
        [.attach t r stat, .next t now, .next t now, .next t now] = some u ∧
      u.shm = (reg.attach s.shm stat).2 ∧ u.pc t = .idle ∧ u.guard k = none ∧
      u.outstanding r = s.outstanding r + if (reg.attach s.shm stat).1 then 1 else 0 := by
  by_cases room : reg.limit = 0 ∨ (s.shm k).active < reg.limit.toNat
  all_goals
    simp [Run.exec, step, enter, idle, hr, hk, State.protect, free, State.goto, room,
      Registration.attach, State.store, State.unprotect, State.grant]

def Pc.Known (server : Server) : Pc → Prop
  | .idle => True
  | .attach r k limit _ =>
    ∃ reg, server.registrations[r]? = some reg ∧ reg.stats = some k ∧ reg.limit = limit
  | .tested r k _ _ | .updated r k _ | .release r k _ | .counted r k =>
    ∃ reg, server.registrations[r]? = some reg ∧ reg.stats = some k

structure Guarded (server : Server) (s : State) : Prop where
  exclusive : ∀ t k, (s.pc t).node = some k ↔ s.guard k = some t
  known : ∀ t, (s.pc t).Known server

def holder (s : State) (k : Nat) : Pc :=
  match s.guard k with
  | none => .idle
  | some t => s.pc t

def Agree (outstanding active : Nat) : Prop := outstanding % 65536 = active % 65536

def Sound (limit outstanding active : Nat) : Pc → Prop
  | .tested _ _ _ true => Agree outstanding active ∧ outstanding < limit
  | .updated _ _ true => Agree (outstanding + 1) active ∧ outstanding + 1 ≤ limit
  | .release _ _ _ => Agree outstanding active ∧ 0 < outstanding
  | .counted _ _ => Agree outstanding (active + 1) ∧ 0 < outstanding
  | _ => Agree outstanding active

structure Counted (s : State) (r k limit : Nat) : Prop where
  sound : Sound limit (s.outstanding r) (s.shm k).active (holder s k)
  bound : s.outstanding r ≤ limit

theorem Counted.frame {s u : State} {r k limit t : Nat} (h : Counted s r k limit)
    (away : s.guard k ≠ some t) (pcs : ∀ t', t' ≠ t → u.pc t' = s.pc t')
    (guards : u.guard k = s.guard k) (nodes : u.shm k = s.shm k)
    (counts : u.outstanding r = s.outstanding r) : Counted u r k limit := by
  have same : holder u k = holder s k := by
    unfold holder
    rw [guards]
    cases hg : s.guard k with
    | none => rfl
    | some t' =>
      have other : t' ≠ t := fun e => away (hg.trans (congrArg some e))
      exact pcs t' other
  constructor
  · rw [counts, nodes, same]; exact h.sound
  · rw [counts]; exact h.bound

theorem holder_eq {s : State} {t k : Nat} (h : s.guard k = some t) : holder s k = s.pc t := by
  simp only [holder, h]

section Step
variable {server : Server} {s u : State} {t : Nat}

theorem enter_cases {r : Nat} {bare : State → State} {pc : Registration → Nat → Pc}
    (h : enter server s t r bare pc = some u) :
    ∃ reg, server.registrations[r]? = some reg ∧ s.pc t = .idle ∧
      ((reg.stats = none ∧ u = bare s) ∨
       ∃ k, reg.stats = some k ∧ s.guard k = none ∧
        u = { s with guard := Function.update s.guard k (some t)
                     pc := Function.update s.pc t (pc reg k) }) := by
  unfold enter at h
  split at h
  · rename_i reg idle hr
    refine ⟨reg, hr, idle, ?_⟩
    split at h
    · exact .inl ⟨‹_›, (Option.some.inj h).symm⟩
    · rename_i k hk
      unfold State.protect at h
      split at h
      · exact .inr ⟨k, hk, ‹_›, (Option.some.inj h).symm⟩
      · cases h
  · cases h

theorem guarded_protect (g : Guarded server s) {k : Nat} {pc : Pc} (idle : s.pc t = .idle)
    (free : s.guard k = none) (node : pc.node = some k) (known : pc.Known server)
    (pcs : u.pc = Function.update s.pc t pc)
    (guards : u.guard = Function.update s.guard k (some t)) : Guarded server u := by
  constructor
  · intro t' k'
    rw [pcs, guards]
    by_cases ht : t' = t
    · subst ht
      rw [Function.update_self, node]
      by_cases hk : k' = k
      · subst hk; simp
      · have out : s.guard k' ≠ some t' := by
          intro held
          have := (g.exclusive t' k').mpr held
          rw [idle] at this
          cases this
        simp [Function.update_of_ne hk, out, Ne.symm hk]
    · rw [Function.update_of_ne ht]
      by_cases hk : k' = k
      · subst hk
        rw [Function.update_self, g.exclusive t' k', free]
        simp [Ne.symm ht]
      · rw [Function.update_of_ne hk]
        exact g.exclusive t' k'
  · intro t'
    rw [pcs]
    by_cases ht : t' = t
    · subst ht; rwa [Function.update_self]
    · rw [Function.update_of_ne ht]; exact g.known t'

theorem guarded_goto (g : Guarded server s) (pc : Pc) (node : pc.node = (s.pc t).node)
    (known : pc.Known server) (pcs : u.pc = Function.update s.pc t pc)
    (guards : u.guard = s.guard) : Guarded server u := by
  constructor
  · intro t' k'
    rw [pcs, guards]
    by_cases ht : t' = t
    · subst ht
      rw [Function.update_self, node]
      exact g.exclusive t' k'
    · rw [Function.update_of_ne ht]
      exact g.exclusive t' k'
  · intro t'
    rw [pcs]
    by_cases ht : t' = t
    · subst ht; rwa [Function.update_self]
    · rw [Function.update_of_ne ht]; exact g.known t'

theorem guarded_unprotect (g : Guarded server s) {k : Nat} (node : (s.pc t).node = some k)
    (pcs : u.pc = Function.update s.pc t .idle)
    (guards : u.guard = Function.update s.guard k none) : Guarded server u := by
  have held := (g.exclusive t k).mp node
  constructor
  · intro t' k'
    rw [pcs, guards]
    by_cases ht : t' = t
    · subst ht
      rw [Function.update_self]
      by_cases hk : k' = k
      · subst hk; simp [Pc.node]
      · have out : s.guard k' ≠ some t' := by
          intro held'
          have := (g.exclusive t' k').mpr held'
          rw [node] at this
          exact hk (Option.some.inj this).symm
        simp [Function.update_of_ne hk, out, Pc.node]
    · rw [Function.update_of_ne ht]
      by_cases hk : k' = k
      · subst hk
        rw [Function.update_self, g.exclusive t' k', held]
        simp [Ne.symm ht]
      · rw [Function.update_of_ne hk]
        exact g.exclusive t' k'
  · intro t'
    rw [pcs]
    by_cases ht : t' = t
    · subst ht; rw [Function.update_self]; trivial
    · rw [Function.update_of_ne ht]; exact g.known t'

theorem guarded_enter {r : Nat} {bare : State → State} {pc : Registration → Nat → Pc}
    (h : enter server s t r bare pc = some u) (g : Guarded server s)
    (same : ∀ s, (bare s).pc = s.pc ∧ (bare s).guard = s.guard)
    (node : ∀ reg k, (pc reg k).node = some k)
    (known : ∀ reg k, server.registrations[r]? = some reg → reg.stats = some k →
      (pc reg k).Known server) : Guarded server u := by
  obtain ⟨reg, hr, idle, ⟨_, rfl⟩ | ⟨k, hk, free, rfl⟩⟩ := enter_cases h
  · constructor
    · intro t' k'
      rw [(same s).1, (same s).2]
      exact g.exclusive t' k'
    · intro t'
      rw [(same s).1]
      exact g.known t'
  · exact guarded_protect g idle free (node reg k) (known reg k hr hk) rfl rfl

theorem guarded_step (a : Action) (g : Guarded server s) (h : step server s a = some u) :
    Guarded server u := by
  cases a with
  | attach t r stat =>
    simp only [step] at h
    exact guarded_enter h g (fun _ => ⟨rfl, rfl⟩) (fun _ _ => rfl)
      (fun reg _ hr hk => ⟨reg, hr, hk, rfl⟩)
  | release t r stat =>
    simp only [step] at h
    split at h
    · cases h
    · exact guarded_enter h g (fun _ => ⟨rfl, rfl⟩) (fun _ _ => rfl)
        (fun reg _ hr hk => ⟨reg, hr, hk⟩)
  | next t now =>
    have known := g.known t
    cases pc : s.pc t with
    | idle => simp [step, pc] at h
    | attach r k limit stat =>
      simp only [step, pc, Option.some.injEq] at h
      rw [pc] at known
      obtain ⟨reg, hr, hk, _⟩ := known
      subst h
      exact guarded_goto g (.tested r k stat _) (by rw [pc]; rfl) ⟨reg, hr, hk⟩ rfl rfl
    | tested r k stat rtn =>
      simp only [step, pc, Option.some.injEq] at h
      rw [pc] at known
      subst h
      cases rtn <;> exact guarded_goto g (.updated r k _) (by rw [pc]; rfl) known rfl rfl
    | updated r k rtn =>
      simp only [step, pc, Option.some.injEq] at h
      subst h
      cases rtn <;> exact guarded_unprotect g (by simp only [pc, Pc.node]) rfl rfl
    | release r k stat =>
      simp only [step, pc, Option.some.injEq] at h
      rw [pc] at known
      subst h
      exact guarded_goto g (.counted r k) (by rw [pc]; rfl) known rfl rfl
    | counted r k =>
      simp only [step, pc, Option.some.injEq] at h
      subst h
      exact guarded_unprotect g (by simp only [pc, Pc.node]) rfl rfl

def Distinct (server : Server) : Prop :=
  ∀ (r r' : Nat) (reg reg' : Registration) (k : Nat), server.registrations[r]? = some reg → server.registrations[r']? = some reg' →
    reg.stats = some k → reg'.stats = some k → r = r'

section Count
variable {r k : Nat} {reg : Registration} {limit : Nat}

theorem counted_elsewhere (hr : server.registrations[r]? = some reg) (hk : reg.stats = some k)
    (g : Guarded server s) (c : Counted s r k limit) {k' : Nat}
    (node : (s.pc t).node = some k') (other : k' ≠ k) {now : Time}
    (h : step server s (.next t now) = some u) : Counted u r k limit := by
  have away : s.guard k ≠ some t := by
    intro held
    have := (g.exclusive t k).mpr held
    rw [node] at this
    exact other (Option.some.inj this)
  have elsewhere : ∀ {r'}, (∃ reg', server.registrations[r']? = some reg' ∧ reg'.stats = some k') →
      r ≠ r' := by
    rintro r' ⟨reg', hr', hk'⟩ rfl
    cases hr.symm.trans hr'
    exact other (Option.some.inj (hk'.symm.trans hk))
  have known := g.known t
  cases pc : s.pc t with
  | idle => simp [step, pc] at h
  | attach r' k' limit' stat =>
    simp only [step, pc, Option.some.injEq] at h
    subst h
    exact c.frame away (fun t' ht' => Function.update_of_ne ht' _ _) rfl rfl rfl
  | tested r' j stat rtn =>
    rw [pc] at node
    cases node
    simp only [step, pc, Option.some.injEq] at h
    subst h
    refine c.frame away (fun t' ht' => ?_) ?_ ?_ ?_ <;> cases rtn <;>
      simp [State.goto, State.store, Function.update_of_ne, Ne.symm other, *]
  | updated r' j rtn =>
    rw [pc] at node known
    cases node
    simp only [step, pc, Option.some.injEq] at h
    subst h
    have ne := elsewhere known
    refine c.frame away (fun t' ht' => ?_) ?_ ?_ ?_ <;> cases rtn <;>
      simp [State.unprotect, State.grant, Function.update_of_ne, Ne.symm other, *]
  | release r' j stat =>
    rw [pc] at node
    cases node
    simp only [step, pc, Option.some.injEq] at h
    subst h
    refine c.frame away (fun t' ht' => ?_) ?_ ?_ ?_ <;>
      simp [State.goto, State.store, Function.update_of_ne, Ne.symm other, *]
  | counted r' j =>
    rw [pc] at node known
    cases node
    simp only [step, pc, Option.some.injEq] at h
    subst h
    have ne := elsewhere known
    refine c.frame away (fun t' ht' => ?_) ?_ ?_ ?_ <;>
      simp [State.unprotect, State.giveBack, Function.update_of_ne, Ne.symm other, *]

theorem counted_enter (distinct : Distinct server) (hr : server.registrations[r]? = some reg)
    (hk : reg.stats = some k) (g : Guarded server s) (c : Counted s r k limit) {r' : Nat}
    {bare : State → State} {pc : Registration → Nat → Pc}
    (h : enter server s t r' bare pc = some u)
    (outside : r' ≠ r → Counted (bare s) r k limit)
    (inside : r' = r → Agree (s.outstanding r) (s.shm k).active →
      Sound limit (s.outstanding r) (s.shm k).active (pc reg k)) : Counted u r k limit := by
  obtain ⟨reg', hr', idle, ⟨none, rfl⟩ | ⟨k', hk', free, rfl⟩⟩ := enter_cases h
  · refine outside ?_
    rintro rfl
    cases hr.symm.trans hr'
    rw [none] at hk
    cases hk
  · by_cases same : k' = k
    · subst same
      obtain rfl := distinct r' r reg' reg k' hr' hr hk' hk
      cases hr.symm.trans hr'
      have before := c.sound
      simp only [holder, free, Sound] at before
      constructor
      · simpa [holder] using inside rfl before
      · exact c.bound
    · have away : s.guard k ≠ some t := by
        intro held
        have := (g.exclusive t k).mpr held
        rw [idle] at this
        cases this
      refine c.frame away (fun t' ht' => ?_) ?_ rfl rfl
      · exact Function.update_of_ne ht' _ _
      · exact Function.update_of_ne (Ne.symm same) _ _

theorem agree_exact {outstanding active : Nat} (agree : Agree outstanding active)
    (small : limit < 65536) (bound : outstanding ≤ limit) (room : active < limit) :
    outstanding = active := by
  unfold Agree at agree
  omega

theorem agree_update {outstanding : Nat} {m : Statmap} (stat : Stat)
    (agree : Agree outstanding m.active) : Agree (outstanding + 1) (m.update stat).active := by
  unfold Agree at agree ⊢
  rcases m.active_update stat with e | e <;> omega

theorem agree_release {outstanding : Nat} {m : Statmap} (stat : Stat) (now : Time)
    (agree : Agree outstanding m.active) :
    Agree outstanding ((m.release stat now).active + 1) := by
  unfold Agree at agree ⊢
  rcases m.active_release stat now with e | e <;> omega

theorem counted_here (distinct : Distinct server) (hr : server.registrations[r]? = some reg)
    (hk : reg.stats = some k) (hl : limit = reg.limit.toNat) (nonzero : reg.limit ≠ 0)
    (small : limit < 65536) (g : Guarded server s) (c : Counted s r k limit)
    (held : s.guard k = some t) {now : Time} (h : step server s (.next t now) = some u) :
    Counted u r k limit := by
  have sound := c.sound
  have bound := c.bound
  have known := g.known t
  have node := (g.exclusive t k).mpr held
  rw [holder_eq held] at sound
  have mine : ∀ {r'}, (∃ reg', server.registrations[r']? = some reg' ∧ reg'.stats = some k) →
      r' = r := by
    rintro r' ⟨reg', hr', hk'⟩
    exact distinct r' r reg' reg k hr' hr hk' hk
  cases pc : s.pc t with
  | idle => simp [step, pc] at h
  | attach r' j limit' stat =>
    rw [pc] at node known sound
    cases node
    obtain ⟨reg', hr', hk', rfl⟩ := known
    obtain rfl := mine ⟨reg', hr', hk'⟩
    cases hr.symm.trans hr'
    simp only [step, pc, Option.some.injEq] at h
    subst h
    refine ⟨?_, bound⟩
    simp only [holder, State.goto, held, Function.update_self]
    by_cases room : reg.limit = 0 ∨ (s.shm k).active < reg.limit.toNat
    · have exact := agree_exact sound small bound (hl ▸ room.resolve_left nonzero)
      have below : (s.shm k).active < limit := hl ▸ room.resolve_left nonzero
      rw [decide_eq_true room]
      exact ⟨sound, exact ▸ below⟩
    · rw [decide_eq_false room]
      exact sound
  | tested r' j stat rtn =>
    rw [pc] at node known sound
    cases node
    obtain rfl := mine known
    simp only [step, pc, Option.some.injEq] at h
    subst h
    cases rtn with
    | true =>
      refine ⟨?_, bound⟩
      simp only [if_true, holder, State.goto, State.store, held, Function.update_self]
      exact ⟨agree_update stat sound.1, sound.2⟩
    | false =>
      refine ⟨?_, bound⟩
      simp only [Bool.false_eq_true, if_false, holder, State.goto, held, Function.update_self]
      exact sound
  | updated r' j rtn =>
    rw [pc] at node known sound
    cases node
    obtain rfl := mine known
    simp only [step, pc, Option.some.injEq] at h
    subst h
    cases rtn with
    | true =>
      constructor
      · simpa [holder, State.unprotect, State.grant, Sound] using sound.1
      · simpa [State.unprotect, State.grant] using sound.2
    | false =>
      constructor
      · simpa [holder, State.unprotect, Sound] using sound
      · exact bound
  | release r' j stat =>
    rw [pc] at node known sound
    cases node
    obtain rfl := mine known
    simp only [step, pc, Option.some.injEq] at h
    subst h
    refine ⟨?_, bound⟩
    simp only [holder, State.goto, State.store, held, Function.update_self]
    exact ⟨agree_release stat now sound.1, sound.2⟩
  | counted r' j =>
    rw [pc] at node known sound
    cases node
    obtain rfl := mine known
    simp only [step, pc, Option.some.injEq] at h
    subst h
    obtain ⟨agree, positive⟩ := sound
    constructor
    · have back : Agree (s.outstanding r' - 1) (s.shm k).active := by
        unfold Agree at agree ⊢
        omega
      simpa [holder, State.unprotect, State.giveBack, Sound] using back
    · simp only [State.unprotect, State.giveBack, Function.update_self]
      omega

theorem counted_step (distinct : Distinct server) (hr : server.registrations[r]? = some reg)
    (hk : reg.stats = some k) (hl : limit = reg.limit.toNat) (nonzero : reg.limit ≠ 0)
    (small : limit < 65536) (a : Action) (g : Guarded server s) (c : Counted s r k limit)
    (h : step server s a = some u) : Counted u r k limit := by
  cases a with
  | attach t r' stat =>
    simp only [step] at h
    refine counted_enter distinct hr hk g c h (fun other => ?_) (fun _ agree => agree)
    constructor
    · simpa [State.grant, Function.update_of_ne (Ne.symm other), holder] using c.sound
    · simpa [State.grant, Function.update_of_ne (Ne.symm other)] using c.bound
  | release t r' stat =>
    simp only [step] at h
    split at h
    · cases h
    · rename_i some
      refine counted_enter distinct hr hk g c h (fun other => ?_) (fun same agree => ?_)
      · constructor
        · simpa [State.giveBack, Function.update_of_ne (Ne.symm other), holder] using c.sound
        · simpa [State.giveBack, Function.update_of_ne (Ne.symm other)] using c.bound
      · subst same
        exact ⟨agree, Nat.pos_of_ne_zero some⟩
  | next t now =>
    cases node : (s.pc t).node with
    | none =>
      have idle : s.pc t = .idle := by
        cases pc : s.pc t <;> simp [pc, Pc.node] at node ⊢
      simp [step, idle] at h
    | some k' =>
      by_cases same : k' = k
      · subst same
        exact counted_here distinct hr hk hl nonzero small g c ((g.exclusive t k').mp node) h
      · exact counted_elsewhere hr hk g c node same h

end Count

end Step

theorem guarded_start (server : Server) : Guarded server (start server) := by
  constructor
  · intro t k
    simp [start, Pc.node]
  · intro t
    trivial

/-- No run takes the outstanding calls of a registration past its limit, as long as it
has a node and the limit fits the 16 bits of a counter. -/
theorem within_limit {server : Server} (distinct : Distinct server)
    (fresh : ∀ k, (server.table.shm k).active = 0) {r k : Nat} {reg : Registration}
    (hr : server.registrations[r]? = some reg) (hk : reg.stats = some k)
    (nonzero : reg.limit ≠ 0) (small : reg.limit.toNat < 65536) {as : List Action} {u : State}
    (run : Run.exec (step server) (start server) as = some u) :
    u.outstanding r ≤ reg.limit.toNat := by
  have base : Counted (start server) r k reg.limit.toNat := by
    constructor
    · simp [holder, start, Sound, Agree, fresh]
    · exact Nat.zero_le _
  have inv := Run.invariant (I := fun s => Guarded server s ∧ Counted s r k reg.limit.toNat)
    (fun s a t i h =>
      ⟨guarded_step a i.1 h, counted_step distinct hr hk rfl nonzero small a i.1 i.2 h⟩)
    ⟨guarded_start server, base⟩ run
  exact inv.2.bound

theorem attaches_bare {server : Server} {r : Nat} {reg : Registration}
    (hr : server.registrations[r]? = some reg) (bare : reg.stats = none) (n : Nat) (s : State)
    (idle : s.pc 0 = .idle) :
    ∃ u, Run.exec (step server) s (List.replicate n (.attach 0 r .incoming)) = some u ∧
      u.outstanding r = s.outstanding r + n := by
  induction n generalizing s with
  | zero => exact ⟨s, rfl, rfl⟩
  | succ n ih =>
    obtain ⟨u, run, out⟩ := ih (s.grant r) idle
    refine ⟨u, ?_, ?_⟩
    · rw [List.replicate_succ]
      refine Run.exec_cons.mpr ⟨s.grant r, ?_, run⟩
      simp only [step, enter, idle, hr, bare]
    · rw [out]
      simp only [State.grant, Function.update_self]
      omega

def attaches (r : Nat) : Nat → List Action
  | 0 => []
  | n + 1 => [.attach 0 r .incoming, .next 0 0, .next 0 0, .next 0 0] ++ attaches r n

theorem attaches_wide {server : Server} {r k : Nat} {reg : Registration}
    (hr : server.registrations[r]? = some reg) (hk : reg.stats = some k)
    (wide : 65536 ≤ reg.limit.toNat) (n : Nat) (s : State) (idle : s.pc 0 = .idle)
    (free : s.guard k = none) (quiet : (s.shm k).current .outgoing = 0) :
    ∃ u, Run.exec (step server) s (attaches r n) = some u ∧
      u.outstanding r = s.outstanding r + n := by
  induction n generalizing s with
  | zero => exact ⟨s, rfl, rfl⟩
  | succ n ih =>
    have room : (s.shm k).active < reg.limit.toNat := by
      have bound := ((s.shm k).current .incoming).toNat_lt
      have sum : (s.shm k).active = ((s.shm k).current .incoming).toNat := by
        change _ + ((s.shm k).current .outgoing).toNat = _
        rw [quiet]; rfl
      omega
    obtain ⟨t, run, shm, idle, free, out⟩ := attach_alone server s 0 r .incoming 0 hr hk idle free
    simp only [Registration.attach, hk, room, or_true, if_true] at shm out
    have quiet' : (t.shm k).current .outgoing = 0 := by
      rw [shm, Function.update_self, Statmap.current_update]
      simpa using quiet
    obtain ⟨u, rest, more⟩ := ih t idle free quiet'
    refine ⟨u, ?_, by omega⟩
    rw [attaches, Run.exec_append, run]
    exact rest

def Limited (server : Server) (r : Nat) (limit : UInt32) : Prop :=
  ∀ as u, Run.exec (step server) (start server) as = some u → u.outstanding r ≤ limit.toNat

theorem distinct_of_started {registries : UInt32} {timeslots : Nat} {boards spans : List Nat}
    {keys : List RegKeys} {server : Server}
    (started : Server.start registries timeslots boards spans keys = some server) :
    Distinct server := by
  intro r r' reg reg' k hr hr' hk hk'
  have node : server.node (.registry r) = some k := by simp [Server.node, hr, hk]
  have node' : server.node (.registry r') = some k := by simp [Server.node, hr', hk']
  exact Owner.registry.inj (Server.node_distinct started node node')

/-- A configured limit is kept exactly when the table still had a node for the
registration and the limit is below 2^16. -/
theorem limited_iff {registries : UInt32} {timeslots : Nat} {boards spans : List Nat}
    {keys : List RegKeys} {server : Server}
    (started : Server.start registries timeslots boards spans keys = some server)
    {r : Nat} {k : RegKeys} (hk : keys[r]? = some k) (configured : Registration.limitOf k ≠ 0) :
    Limited server r (Registration.limitOf k) ↔
      1 + boards.length + spans.length + r < (registries + 1).toNat ∧
      (Registration.limitOf k).toNat < 65536 := by
  have hr := Server.registration_at started hk
  have fresh : ∀ k, (server.table.shm k).active = 0 := by
    intro k
    simp [Statmap.active, Server.start_stats started k]
  constructor
  · intro limited
    by_cases room : 1 + boards.length + spans.length + r < (registries + 1).toNat
    · refine ⟨room, ?_⟩
      by_contra wide
      rw [Table.place, if_pos room] at hr
      have quiet : ((start server).shm (1 + boards.length + spans.length + r)).current .outgoing = 0 := by
        simp [Statmap.current, start, Server.start_stats started]
      obtain ⟨u, run, out⟩ := attaches_wide hr rfl (Nat.le_of_not_lt wide)
        ((Registration.limitOf k).toNat + 1) (start server) rfl rfl quiet
      have := limited _ u run
      simp only [out, start] at this
      omega
    · rw [Table.place, if_neg room] at hr
      obtain ⟨u, run, out⟩ := attaches_bare hr rfl ((Registration.limitOf k).toNat + 1)
        (start server) rfl
      have := limited _ u run
      simp only [out, start] at this
      omega
  · rintro ⟨room, small⟩ as u run
    rw [Table.place, if_pos room] at hr
    exact within_limit (distinct_of_started started) fresh hr rfl configured small run

theorem limited_iff_alice :
    Limited .sample 0 1 ↔ 1 + 0 + 0 + 0 < ((2 : UInt32) + 1).toNat ∧ (1 : UInt32).toNat < 65536 :=
  limited_iff Server.sample_started (r := 0) (k := ⟨"alice", some 1⟩) rfl (by decide)

/-- Two registrations of limit 1 in a table of two nodes, one of them the system's: the
second takes a second call. -/
theorem not_limited : ¬ ∀ (registries : UInt32) (timeslots : Nat) (boards spans : List Nat)
    (keys : List RegKeys) (server : Server) (r : Nat) (k : RegKeys),
    Server.start registries timeslots boards spans keys = some server → keys[r]? = some k →
      Registration.limitOf k ≠ 0 → Limited server r (Registration.limitOf k) := by
  intro claim
  have limited := claim 1 16 [] [] [⟨"a", some 1⟩, ⟨"b", some 1⟩] _ 1 ⟨"b", some 1⟩ rfl rfl
    (by decide)
  have := limited [.attach 0 1 .incoming, .attach 0 1 .incoming] _ rfl
  revert this
  decide

end Bayonne.Allowance
