import Bayonne.Driver.Images

/-! The lock of the driver instances. An instance is used under the shared lock and
replaced under the exclusive one, so the thread that deletes it is alone with it. -/
namespace Bayonne
open Refcount (Counts)

namespace Reload

theorem Pc.reads_of_uses {p : Pc} {d : Nat} (h : p.uses = some d) : p.reads = true := by
  cases p with
  | creating via d =>
    cases via with
    | none => cases h
    | some _ => rfl
  | got d name | looked d scr => rfl
  | _ => cases h

theorem Pc.owns_of_building {p : Pc} {d : Nat} (h : p.building = some d) : p.owns = some d := by
  cases p <;> first | exact h | cases h

/-- The lock and the instances: whoever uses an instance reads under the lock and uses the
active one, and an instance that a thread owns is out of reach. -/
structure Guarded (s : Reload) : Prop where
  shared : Counts s.reader fun _ => s.shared
  writer : ∀ t, (s.pc t).writes = true → s.exclusive = true
  alone : ∀ t u, (s.pc t).writes = true → (s.pc u).writes = true → t = u
  quiet : s.exclusive = true → s.shared = 0
  uses : ∀ t d, (s.pc t).uses = some d → s.active = some d
  active : ∀ d, s.active = some d → d < s.made ∧ s.alive d = true
  owned : ∀ t d, (s.pc t).owns = some d → d < s.made ∧ s.active ≠ some d
  apart : ∀ t u d, (s.pc t).owns = some d → (s.pc u).owns = some d → t = u
  fresh : ∀ t d, (s.pc t).building = some d → s.alive d = true

theorem Guarded.safe {s : Reload} (h : s.Guarded) : s.Safe := fun t d used =>
  (h.active d (h.uses t d used)).2

section Lock
variable {s s' : Reload} {t : Nat} {p : Pc}

theorem pc_goto (s : Reload) (t : Nat) (p : Pc) (u : Nat) :
    (s.goto t p).pc u = if u = t then p else s.pc u := by
  by_cases hu : u = t
  · subst hu
    simp [goto]
  · simp [goto, hu]

theorem Guarded.same (h : s.Guarded) (active : s'.active = s.active) (made : s'.made = s.made)
    (alive : s'.alive = s.alive) (shared : s'.shared = s.shared)
    (exclusive : s'.exclusive = s.exclusive) (pc : s'.pc = s.pc) : s'.Guarded := by
  have reader : s'.reader = s.reader := by
    funext t
    simp only [Reload.reader, pc]
  refine ⟨?_, ?_, ?_, ?_, ?_, ?_, ?_, ?_, ?_⟩
  · rw [reader, shared]
    exact h.shared
  · rw [pc, exclusive]
    exact h.writer
  · rw [pc]
    exact h.alone
  · rw [exclusive, shared]
    exact h.quiet
  · rw [pc, active]
    exact h.uses
  · rw [active, made, alive]
    exact h.active
  · rw [pc, made, active]
    exact h.owned
  · rw [pc]
    exact h.apart
  · rw [pc, alive]
    exact h.fresh

theorem Guarded.move (h : s.Guarded) (owns : ∀ d, p.owns = some d → (s.pc t).owns = some d)
    (building : ∀ d, p.building = some d → (s.pc t).building = some d)
    (uses : ∀ d, p.uses = some d → s.active = some d)
    {shared : Nat} {exclusive : Bool}
    (readers : Counts (Function.update s.reader t (if p.reads then some () else none))
      fun _ => shared)
    (writer : p.writes = true → exclusive = true)
    (others : ∀ u, u ≠ t → (s.pc u).writes = true → exclusive = true ∧ p.writes = false)
    (quiet : exclusive = true → shared = 0) :
    ({ s with shared := shared, exclusive := exclusive }.goto t p).Guarded := by
  have pc : ∀ u, (({ s with shared := shared, exclusive := exclusive } : Reload).goto t p).pc u =
      if u = t then p else s.pc u := pc_goto _ t p
  refine ⟨readers.congr (fun u => ?_) fun _ => rfl, fun u => ?_, fun u v => ?_, quiet,
    fun u d => ?_, h.active, fun u d => ?_, fun u v d => ?_, fun u d => ?_⟩
  · simp only [reader, pc]
    by_cases hu : u = t
    · subst hu
      simp
    · simp [hu, reader]
  · rw [pc]
    split
    · exact writer
    · rename_i hu
      exact fun writes => (others u hu writes).1
  · rw [pc, pc]
    split <;> split <;> intro first second
    · simp_all
    · rename_i hv
      have := (others v hv second).2
      rw [first] at this
      cases this
    · rename_i hu _
      have := (others u hu first).2
      rw [second] at this
      cases this
    · exact h.alone u v first second
  · rw [pc]
    split
    · exact uses d
    · exact h.uses u d
  · rw [pc]
    split
    · exact fun own => h.owned t d (owns d own)
    · exact h.owned u d
  · rw [pc, pc]
    split <;> split <;> intro first second
    · simp_all
    · exact absurd (h.apart t v d (owns d first) second) (Ne.symm ‹_›)
    · exact absurd (h.apart u t d first (owns d second)) ‹_›
    · exact h.apart u v d first second
  · rw [pc]
    split
    · exact fun own => h.fresh t d (building d own)
    · exact h.fresh u d

theorem Guarded.goto (h : s.Guarded) (owns : ∀ d, p.owns = some d → (s.pc t).owns = some d)
    (building : ∀ d, p.building = some d → (s.pc t).building = some d)
    (uses : ∀ d, p.uses = some d → s.active = some d) (reads : p.reads = (s.pc t).reads)
    (writes : p.writes = (s.pc t).writes) : (s.goto t p).Guarded := by
  refine h.move owns building uses (h.shared.congr (fun u => ?_) fun _ => rfl)
    (fun w => h.writer t (writes ▸ w)) (fun u hu w => ⟨h.writer u w, ?_⟩) h.quiet
  · by_cases hu : u = t
    · subst hu
      simp [reader, reads]
    · simp [Function.update_of_ne hu]
  · by_contra both
    exact hu (h.alone u t w (writes ▸ by simpa using both))

theorem Guarded.enter (h : s.Guarded) (idle : s.pc t = .idle) (task : Task)
    (step : s.access.map (·.goto t (.entered task)) = some s') : s'.Guarded := by
  simp only [access] at step
  split at step
  · cases step
  · rename_i open'
    cases step
    have free : s.reader t = none := by simp [reader, idle, Pc.reads]
    have none : s.exclusive = false := by simpa using open'
    refine h.move (fun d own => by cases own) (fun d own => by cases own)
      (fun d use => by cases use) ?_ (fun w => by cases w)
      (fun u _ w => ⟨h.writer u w, rfl⟩) (fun e => by rw [none] at e; cases e)
    exact (h.shared.acquire free ()).congr (fun _ => rfl) fun _ => by simp

theorem Guarded.leave (h : s.Guarded) (owns : ∀ d, p.owns = some d → (s.pc t).owns = some d)
    (building : ∀ d, p.building = some d → (s.pc t).building = some d) (uses : p.uses = none)
    (before : (s.pc t).reads = true) (reads : p.reads = false) (writes : p.writes = false) :
    (s.unlock.goto t p).Guarded := by
  have held : s.reader t = some () := by simp [reader, before]
  refine h.move owns building (fun d use => by rw [uses] at use; cases use) ?_
    (fun w => by rw [writes] at w; cases w) (fun u _ w => ⟨h.writer u w, writes⟩) fun e => ?_
  · exact (h.shared.drop held).congr (fun _ => by rw [reads]; rfl) fun _ => by simp
  · have := h.quiet e
    omega

theorem Guarded.create (h : s.Guarded) {via : Option Nat} (uses : via = none ∨ via = s.active)
    (reads : via.isSome = (s.pc t).reads) (writes : (s.pc t).writes = false) :
    (s.create t via).Guarded := by
  have pc : ∀ u, (s.create t via).pc u = if u = t then .creating via s.made else s.pc u :=
    pc_goto _ t _
  have old : ∀ {u d}, (s.pc u).owns = some d → d ≠ s.made := fun own e => by
    have := (h.owned _ _ own).1
    omega
  refine ⟨h.shared.congr (fun u => ?_) fun _ => rfl, fun u => ?_, fun u v => ?_, h.quiet,
    fun u d => ?_, fun d active => ?_, fun u d => ?_, fun u v d => ?_, fun u d => ?_⟩
  · simp only [reader, pc]
    by_cases hu : u = t
    · subst hu
      rw [← reads]
      cases via <;> simp [Pc.reads]
    · simp [hu]
  · rw [pc]
    split
    · intro w
      cases w
    · exact h.writer u
  · rw [pc, pc]
    split <;> split <;> intro first second
    · simp_all
    · cases first
    · cases second
    · exact h.alone u v first second
  · rw [pc]
    split
    · intro used
      rcases uses with none | active
      · have used : via = some d := used
        rw [none] at used
        cases used
      · exact active ▸ used
    · exact h.uses u d
  · obtain ⟨made, alive⟩ := h.active d active
    refine ⟨Nat.lt_succ_of_lt made, ?_⟩
    simp only [Reload.create, Reload.goto]
    rw [Function.update_of_ne (Nat.ne_of_lt made)]
    exact alive
  · rw [pc]
    split
    · intro own
      cases own
      exact ⟨Nat.lt_succ_self _, fun active => Nat.lt_irrefl _ (h.active _ active).1⟩
    · intro own
      exact ⟨Nat.lt_succ_of_lt (h.owned u d own).1, (h.owned u d own).2⟩
  · rw [pc, pc]
    split <;> split <;> intro first second
    · simp_all
    · cases first
      exact absurd rfl (old second)
    · cases second
      exact absurd rfl (old first)
    · exact h.apart u v d first second
  · simp only [Reload.create, Reload.goto]
    rw [show (Function.update s.pc t (.creating via s.made)) u =
      if u = t then .creating via s.made else s.pc u from pc u]
    split
    · intro own
      cases own
      exact Function.update_self ..
    · intro own
      rw [Function.update_of_ne (old (Pc.owns_of_building own))]
      exact h.fresh u d own

theorem Guarded.modify (h : s.Guarded) {d : Nat} (at' : s.pc t = .created d) (none : s.shared = 0)
    (free : s.exclusive = false) : ({ s with exclusive := true }.goto t (.writing d)).Guarded := by
  refine h.move (fun e own => ?_) (fun e own => ?_) (fun e use => by cases use) ?_ (fun _ => rfl)
    (fun u _ w => ?_) fun _ => none
  · rw [at']
    exact own
  · rw [at']
    exact own
  · refine h.shared.congr (fun u => ?_) fun _ => rfl
    by_cases hu : u = t
    · subst hu
      simp [reader, at', Pc.reads]
    · simp [Function.update_of_ne hu]
  · have := h.writer u w
    rw [free] at this
    cases this

theorem Guarded.swap (h : s.Guarded) {d : Nat} (at' : s.pc t = .writing d) :
    ({ s with active := some d }.goto t (.swapped s.active)).Guarded := by
  have pc : ∀ u, (({ s with active := some d } : Reload).goto t (.swapped s.active)).pc u =
      if u = t then .swapped s.active else s.pc u := pc_goto _ t _
  have alone : s.exclusive = true := h.writer t (by rw [at']; rfl)
  have nobody : ∀ u e, (s.pc u).uses ≠ some e := fun u e used => by
    have here := (h.shared.zero_iff ()).mp (h.quiet alone) u
    exact here (by simp [reader, Pc.reads_of_uses used])
  have mine : (s.pc t).owns = some d := by rw [at']; rfl
  refine ⟨h.shared.congr (fun u => ?_) fun _ => rfl, fun u => ?_, fun u v => ?_, h.quiet,
    fun u e => ?_, fun e active => ?_, fun u e => ?_, fun u v e => ?_, fun u e => ?_⟩
  · simp only [reader, pc]
    by_cases hu : u = t
    · subst hu
      simp [at', Pc.reads]
    · simp [hu]
  · rw [pc]
    split
    · exact fun _ => alone
    · exact h.writer u
  · have writes : (s.pc t).writes = true := by rw [at']; rfl
    rw [pc, pc]
    split <;> split <;> intro first second
    · simp_all
    · exact absurd (h.alone t v writes second) (Ne.symm ‹_›)
    · exact absurd (h.alone u t first writes) ‹_›
    · exact h.alone u v first second
  · rw [pc]
    split
    · intro used
      cases used
    · exact fun used => absurd used (nobody u e)
  · cases active
    exact ⟨(h.owned t d mine).1, h.fresh t d (by rw [at']; rfl)⟩
  · rw [pc]
    split
    · intro own
      have own : s.active = some e := own
      refine ⟨(h.active e own).1, fun same => ?_⟩
      cases same
      exact (h.owned t d mine).2 own
    · rename_i hu
      intro own
      refine ⟨(h.owned u e own).1, fun same => ?_⟩
      cases same
      exact hu (h.apart u t d own mine)
  · rw [pc, pc]
    split <;> split <;> intro first second
    · simp_all
    · exact absurd first (h.owned v e second).2
    · exact absurd second (h.owned u e first).2
    · exact h.apart u v e first second
  · rw [pc]
    split
    · intro own
      cases own
    · exact h.fresh u e

theorem Guarded.commit (h : s.Guarded) {orig : Option Nat} (at' : s.pc t = .swapped orig)
    (owns : ∀ d, p.owns = some d → orig = some d) (building : p.building = none)
    (uses : p.uses = none) (reads : p.reads = false) (writes : p.writes = false) :
    ({ s with exclusive := false }.goto t p).Guarded := by
  have held : (s.pc t).writes = true := by rw [at']; rfl
  refine h.move (fun d own => ?_) (fun d own => by rw [building] at own; cases own)
    (fun d use => by rw [uses] at use; cases use) ?_ (fun w => by rw [writes] at w; cases w)
    (fun u hu w => absurd (h.alone u t w held) hu) (fun e => by cases e)
  · rw [at']
    exact owns d own
  · refine h.shared.congr (fun u => ?_) fun _ => rfl
    by_cases hu : u = t
    · subst hu
      have before : (Pc.swapped orig).reads = false := rfl
      simp [reader, at', reads, before]
    · simp [Function.update_of_ne hu]

theorem Guarded.delete (h : s.Guarded) {orig k : Nat} (at' : s.pc t = .sleeping orig) :
    ({ s with alive := Function.update s.alive orig false }.goto t (.deleting orig k)).Guarded := by
  have moved : (s.goto t (.deleting orig k)).Guarded :=
    h.goto (fun d own => by rw [at']; exact own) (fun d own => by cases own)
      (fun d use => by cases use) (by rw [at']; rfl) (by rw [at']; rfl)
  have mine : ((s.goto t (.deleting orig k)).pc t).owns = some orig := by simp [pc_goto, Pc.owns]
  refine ⟨moved.shared, moved.writer, moved.alone, moved.quiet, moved.uses, fun d active => ?_,
    moved.owned, moved.apart, fun u d own => ?_⟩
  · obtain ⟨made, alive⟩ := moved.active d active
    have ne : d ≠ orig := fun e => (moved.owned t orig mine).2 (e ▸ active)
    refine ⟨made, ?_⟩
    simp only [Reload.goto]
    rw [Function.update_of_ne ne]
    exact alive
  · have own : ((s.goto t (.deleting orig k)).pc u).building = some d := own
    have ne : d ≠ orig := by
      rintro rfl
      have same := moved.apart u t d (Pc.owns_of_building own) mine
      subst same
      rw [pc_goto, if_pos rfl] at own
      cases own
    have alive := moved.fresh u d own
    simp only [Reload.goto] at alive ⊢
    rw [Function.update_of_ne ne]
    exact alive

end Lock

section Steps
variable {s s' : Reload} {t : Nat}

theorem Guarded.next (h : s.Guarded) (step : s.next t = some s') : s'.Guarded := by
  cases next_cases step with
  | go p reads writes _ owns building uses =>
    exact h.goto owns building (fun d used => (uses d used).elim id (h.uses t d)) reads writes
  | leave p before reads writes uses _ owns building =>
    exact h.leave (fun d own => owns ▸ own) (fun d own => building ▸ own) uses before reads writes
  | create d at' active =>
    exact h.create (.inr active.symm) (by rw [at']; rfl) (by rw [at']; rfl)
  | found d m name img at' _ _ =>
    have retained : (s.retain m).Guarded := h.same rfl rfl rfl rfl rfl rfl
    have active := h.uses t d (by rw [at']; rfl)
    refine retained.goto (fun e own => by cases own) (fun e own => by cases own)
      (fun e used => active.trans used) ?_ ?_ <;> exact at' ▸ rfl
  | drop m at' =>
    have released : (s.release m).Guarded := h.same rfl rfl rfl rfl rfl rfl
    refine released.goto (fun d own => by cases own) (fun d own => by cases own)
      (fun e used => by cases used) ?_ ?_ <;> rcases at' with at' | at' <;> exact at' ▸ rfl
  | modify d at' none free => exact h.modify at' none free
  | swap d at' => exact h.swap at'
  | commit orig at' =>
    cases orig with
    | none => exact h.commit at' (fun d own => by cases own) rfl rfl rfl rfl
    | some orig => exact h.commit at' (fun d own => own) rfl rfl rfl rfl
  | delete orig at' => exact h.delete at'
  | clear orig k at' =>
    obtain ⟨images, count, freed, same⟩ := clear_frame s orig k
    have cleared : (s.clear orig k).Guarded := by
      rw [same]
      exact h.same rfl rfl rfl rfl rfl rfl
    have pc : (s.clear orig k).pc = s.pc := by rw [same]
    refine cleared.goto (fun d own => ?_) (fun d own => by cases own)
      (fun e used => by cases used) ?_ ?_ <;> rw [pc, at']
    · exact own
    · rfl
    · rfl

theorem Guarded.step (h : s.Guarded) {a : Move} (step : s.step a = some s') : s'.Guarded := by
  cases a with
  | take t task =>
    simp only [Reload.step] at step
    split at step
    · exact h.enter ‹_› task step
    · cases step
  | boot t =>
    simp only [Reload.step] at step
    split at step
    · rename_i idle
      cases step
      exact h.create (.inl rfl) (by rw [idle]; rfl) (by rw [idle]; rfl)
    · cases step
  | next t => exact h.next step
  | list t name =>
    simp only [Reload.step] at step
    split at step
    · cases step
      exact h.same rfl rfl rfl rfl rfl rfl
    · cases step
  | check t found =>
    simp only [Reload.step] at step
    split at step
    · rename_i m at'
      have moved : ∀ (q : Reload) (p : Pc), q.Guarded → q.pc = s.pc → p.owns = none →
          p.building = none → p.uses = none → p.reads = false → p.writes = false →
          (q.goto t p).Guarded := by
        intro q p guarded pc owns building uses reads writes
        refine guarded.goto (fun d own => ?_) (fun d own => ?_) (fun d used => ?_) ?_ ?_
        · rw [owns] at own
          cases own
        · rw [building] at own
          cases own
        · rw [uses] at used
          cases used
        · rw [reads, pc, at']
          rfl
        · rw [writes, pc, at']
          rfl
      cases step
      split
      · exact moved s _ h rfl rfl rfl rfl rfl rfl
      · exact moved (s.release m) _ (h.same rfl rfl rfl rfl rfl rfl) rfl rfl rfl rfl rfl rfl
    · cases step
  | attach t call =>
    simp only [Reload.step] at step
    split at step
    · rename_i m at' _
      cases step
      have attached : ({ s.retain m with
        attached := Function.update s.attached call (some m) } : Reload).Guarded :=
          h.same rfl rfl rfl rfl rfl rfl
      refine attached.goto (fun d own => by cases own) (fun d own => by cases own)
        (fun d used => by cases used) ?_ ?_ <;> exact at' ▸ rfl
    · cases step
  | detach call =>
    simp only [Reload.step] at step
    split at step
    · cases step
    · cases step
      exact h.same rfl rfl rfl rfl rfl rfl

end Steps

theorem start_guarded : start.Guarded := by
  refine ⟨Refcount.Counts.empty, fun t w => ?_, fun t u w => ?_, fun e => ?_, fun t d used => ?_,
    fun d active => ?_, fun t d own => ?_, fun t u d own => ?_, fun t d own => ?_⟩
  · cases w
  · cases w
  · cases e
  · cases used
  · cases active
  · cases own
  · cases own
  · cases own

end Reload

end Bayonne
