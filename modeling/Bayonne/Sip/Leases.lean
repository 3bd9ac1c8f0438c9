import Bayonne.Sip.Enrolment

/-! Runs of the registrations. Each registration is a lease of the library: whatever the threads
do, what was registered is unregistered at most once, and what was confirmed exactly once by the
time the server has stopped. -/
namespace Bayonne

namespace Enrolment
variable {μ τ α β : Type} {s t : Enrolment μ τ} {B : Lease.Book Nat} {api : Api}

/-- The registrations as leases of the library, which are ended by unregistering. -/
structure Kept (s : Enrolment μ τ) (B : Lease.Book Nat) : Prop where
  numbers : s.registrations.map (·.number) = (List.range s.registrations.length).reverse
  beyond : ∀ b, s.registrations.length ≤ b → B b = .unknown
  bare : ∀ r ∈ s.registrations, r.Bare
  stands : ∀ r ∈ s.registrations, r.Stands (B r.number)
  granted : ∀ r ∈ s.registrations, r.Holds → r.grant ∈ s.granted
  single : (s.granted.map (·.number)).Nodup
  below : ∀ g ∈ s.granted, g.number < s.registrations.length
  own : ∀ g ∈ s.unregistered, g ∈ s.granted
  once : (s.unregistered.map (·.number)).Nodup
  returned : ∀ b, b ∈ s.unregistered.map (·.number) ↔ B b = .returned

theorem Kept.number_lt (kept : Kept s B) {r : Registrant} (mem : r ∈ s.registrations) :
    r.number < s.registrations.length := by
  have listed : r.number ∈ s.registrations.map (·.number) := List.mem_map_of_mem mem
  rw [kept.numbers] at listed
  simpa using listed

theorem Kept.find_none (kept : Kept s B) {b : Nat} (none : s.find b = none) : B b = .unknown := by
  refine kept.beyond b (Nat.le_of_not_lt fun lt => ?_)
  have listed : b ∈ s.registrations.map (·.number) := by
    rw [kept.numbers]
    simpa using lt
  obtain ⟨r, mem, rfl⟩ := List.mem_map.mp listed
  have other := List.find?_eq_none.mp none r mem
  simp at other

theorem find_some {b : Nat} {r : Registrant} (found : s.find b = some r) :
    r ∈ s.registrations ∧ r.number = b := by
  have named := List.find?_some found
  exact ⟨List.mem_of_find?_eq_some found, by simpa using named⟩

theorem Kept.distinct (kept : Kept s B) : (s.registrations.map (·.number)).Nodup := by
  rw [kept.numbers]
  exact List.nodup_reverse.mpr List.nodup_range

theorem Kept.find_mem (kept : Kept s B) {r : Registrant} (mem : r ∈ s.registrations) :
    s.find r.number = some r := by
  cases found : s.find r.number with
  | none =>
    have other := List.find?_eq_none.mp found r mem
    simp at other
  | some x =>
    obtain ⟨old, number⟩ := find_some found
    rw [List.inj_on_of_nodup_map kept.distinct old mem number]

theorem mem_replace {b : Nat} {r x : Registrant} (mem : x ∈ (s.replace b r).registrations) :
    x = r ∧ (∃ y ∈ s.registrations, y.number = b) ∨ x ∈ s.registrations ∧ x.number ≠ b := by
  obtain ⟨y, old, rfl⟩ := List.mem_map.mp mem
  by_cases same : y.number = b
  · rw [if_pos same]
    exact .inl ⟨rfl, y, old, same⟩
  · rw [if_neg same]
    exact .inr ⟨old, same⟩

theorem numbers_replace {b : Nat} {r : Registrant} (number : r.number = b) :
    (s.replace b r).registrations.map (·.number) = s.registrations.map (·.number) := by
  show (s.registrations.map _).map _ = _
  rw [List.map_map]
  refine List.map_congr_left fun y _ => ?_
  by_cases same : y.number = b
  · simp [same, number]
  · simp [same]

/-- A method moves the lease of its registration, and unregisters when it gives the lease back. -/
theorem call_kept {m : Registrant → Registrant × Bool}
    {g : Lease.Phase → Lease.Phase} (kept : Kept s B) (moves : Registrant.Moves m g)
    (ans : RegistryAnswers μ) (b : Nat) :
    Kept (s.call api ans b m) (Function.update B b (g (B b))) := by
  cases found : s.find b with
  | none =>
    rw [call, found]
    have still : g (B b) = B b := by rw [kept.find_none found, moves.unknown]
    rwa [still, Function.update_eq_self]
  | some r =>
    obtain ⟨mem, rfl⟩ := find_some found
    have stood := kept.stands r mem
    have length : (s.replace r.number (m r).1).registrations.length = s.registrations.length :=
      List.length_map _
    have numbers := numbers_replace (s := s) (moves.number r)
    -- everything but what the library was told
    have base : ∀ u : List Grant, (∀ x ∈ u, x ∈ s.granted) → (u.map (·.number)).Nodup →
        (∀ b, b ∈ u.map (·.number) ↔ Function.update B r.number (g (B r.number)) b = .returned) →
        Kept { s.replace r.number (m r).1 with unregistered := u }
          (Function.update B r.number (g (B r.number))) := by
      intro u own once returned
      refine ⟨?_, ?_, ?_, ?_, ?_, kept.single, ?_, own, once, returned⟩
      · exact numbers.trans (kept.numbers.trans (by rw [← length]))
      · intro c le
        have beyond : s.registrations.length ≤ c := length ▸ le
        have other : c ≠ r.number := by
          have lt := kept.number_lt mem
          omega
        rw [Function.update_of_ne other]
        exact kept.beyond c beyond
      · intro x new
        rcases mem_replace new with ⟨rfl, -⟩ | ⟨old, -⟩
        · exact moves.bare r (kept.bare r mem)
        · exact kept.bare x old
      · intro x new
        rcases mem_replace new with ⟨rfl, -⟩ | ⟨old, other⟩
        · rw [moves.number, Function.update_self]
          exact moves.stands r _ stood
        · rw [Function.update_of_ne other]
          exact kept.stands x old
      · intro x new holds
        rcases mem_replace new with ⟨rfl, -⟩ | ⟨old, -⟩
        · obtain ⟨before, same⟩ := moves.keeps r holds
          exact same ▸ kept.granted r mem before
        · exact kept.granted x old holds
      · exact fun x own => Nat.lt_of_lt_of_eq (kept.below x own) length.symm
    rw [call, found]
    dsimp only
    split
    · rename_i told
      obtain ⟨holds, before, after⟩ := moves.told r _ stood told
      have fresh : r.number ∉ s.unregistered.map (·.number) := fun h =>
        before ((kept.returned _).mp h)
      have done := base (s.unregistered ++ [r.grant]) ?_ ?_ ?_
      · exact ⟨done.numbers, done.beyond, done.bare, done.stands, done.granted, done.single,
          done.below, done.own, done.once, done.returned⟩
      · intro x added
        rcases List.mem_append.mp added with old | new
        · exact kept.own x old
        · rw [List.mem_singleton.mp new]
          exact kept.granted r mem holds
      · rw [List.map_append, List.map_singleton]
        refine List.nodup_append.mpr ⟨kept.once, List.nodup_singleton _, fun x old y new same => ?_⟩
        have own : x = r.number := same.trans (List.mem_singleton.mp new)
        exact fresh (own ▸ old)
      · intro c
        rw [List.map_append, List.map_singleton, List.mem_append, List.mem_singleton]
        by_cases same : c = r.number
        · rw [same, Function.update_self]
          exact iff_of_true (.inr rfl) after
        · rw [Function.update_of_ne same, ← kept.returned]
          exact ⟨fun h => h.resolve_right same, .inl⟩
    · rename_i silent
      refine base s.unregistered kept.own kept.once fun c => ?_
      by_cases same : c = r.number
      · rw [same, Function.update_self,
          moves.silent r _ stood (Bool.eq_false_iff.mpr silent)]
        exact kept.returned _
      · rw [Function.update_of_ne same]
        exact kept.returned _

theorem authenticate_same (ans : RegistryAnswers μ) (b : Nat) (e : RegistryEvent) :
    (s.authenticate ans b e).registrar = s.registrar ∧
      (s.authenticate ans b e).granted = s.granted ∧
      (s.authenticate ans b e).unregistered = s.unregistered ∧
      (s.authenticate ans b e).stopping = s.stopping := by
  unfold authenticate
  split <;> exact ⟨rfl, rfl, rfl, rfl⟩

theorem authenticate_credentials (ans : RegistryAnswers μ) (e : RegistryEvent) {b : Nat}
    {r : Registrant} (found : s.find b = some r) :
    (s.authenticate ans b e).credentials = s.credentials ++ r.authenticate ans e := by
  rw [authenticate, found]

theorem call_credentials (ans : RegistryAnswers μ) (b : Nat) (m : Registrant → Registrant × Bool) :
    (s.call api ans b m).credentials = s.credentials := by
  unfold call
  split
  · rfl
  · split <;> rfl

theorem Kept.of_same (kept : Kept s B) (registrar : t.registrations = s.registrations)
    (granted : t.granted = s.granted) (unregistered : t.unregistered = s.unregistered) :
    Kept t B := by
  refine ⟨?_, ?_, ?_, ?_, ?_, ?_, ?_, ?_, ?_, ?_⟩
  · exact registrar ▸ kept.numbers
  · exact registrar ▸ kept.beyond
  · exact registrar ▸ kept.bare
  · exact registrar ▸ kept.stands
  · exact registrar ▸ granted ▸ kept.granted
  · exact granted ▸ kept.single
  · exact registrar ▸ granted ▸ kept.below
  · exact granted ▸ unregistered ▸ kept.own
  · exact unregistered ▸ kept.once
  · exact unregistered ▸ kept.returned

theorem granted_first (r : Registrant) (rs : List Registrant) :
    ∃ gs, (((r :: rs).head?.filter (·.Holds)).map (·.grant)).toList = gs ∧
      (∀ g ∈ gs, g = r.grant) ∧ (r.Holds → r.grant ∈ gs) ∧ (gs.map (·.number)).Nodup := by
  by_cases holds : r.Holds
  · exact ⟨[r.grant], by simp [holds], fun g mem => List.mem_singleton.mp mem,
      fun _ => List.mem_singleton_self _, List.nodup_singleton _⟩
  · exact ⟨[], by simp [holds], nofun, fun h => absurd h holds, List.nodup_nil⟩

theorem activate_kept (kept : Kept s B) {r : Registrant} {registrar : Registrar μ}
    (first : registrar.registrations = r :: s.registrations)
    (number : r.number = s.registrations.length) (idle : r.activated = false) (bare : r.Bare) :
    ∃ acts, Kept
      { s with
        registrar := registrar
        granted := s.granted ++
          ((registrar.registrations.head?.filter (·.Holds)).map (·.grant)).toList }
      (Lease.run B acts) := by
  have unknown : B r.number = .unknown := kept.beyond _ (Nat.le_of_eq number.symm)
  obtain ⟨acts, others, stands, open'⟩ : ∃ acts, (∀ b, b ≠ r.number → Lease.run B acts b = B b) ∧
      r.Stands (Lease.run B acts r.number) ∧ Lease.run B acts r.number ≠ .returned := by
    by_cases holds : r.Holds
    · refine ⟨[.grant r.number], fun b other => Function.update_of_ne other _ _, ?_, ?_⟩
      · rw [Registrant.stands_holds holds, idle, Lease.run_cons, Lease.run_nil, Lease.next,
          Function.update_self, unknown]
        rfl
      · rw [Lease.run_cons, Lease.run_nil, Lease.next, Function.update_self, unknown]
        rintro ⟨⟩
    · refine ⟨[], fun b _ => rfl, ?_, ?_⟩
      · rw [Lease.run_nil, unknown, Registrant.stands_lost holds]
        exact ⟨idle, by rintro ⟨⟩, by rintro ⟨⟩, fun h => absurd rfl h⟩
      · rw [Lease.run_nil, unknown]
        rintro ⟨⟩
  obtain ⟨gs, grants, own, has, nodup⟩ := granted_first r s.registrations
  have old : ∀ x ∈ s.registrations, x.number ≠ r.number := fun x mem =>
    Nat.ne_of_lt (number ▸ kept.number_lt mem)
  refine ⟨acts, ?_⟩
  rw [first, grants]
  have length : registrar.registrations.length = s.registrations.length + 1 := by
    rw [first, List.length_cons]
  refine ⟨?_, ?_, ?_, ?_, ?_, ?_, ?_, ?_, kept.once, ?_⟩
  · show registrar.registrations.map (·.number) =
      (List.range registrar.registrations.length).reverse
    rw [first, List.map_cons, kept.numbers, number, List.length_cons, List.range_succ,
      List.reverse_append]
    rfl
  · intro b le
    have le : registrar.registrations.length ≤ b := le
    rw [others b (by omega)]
    exact kept.beyond b (by omega)
  · show ∀ x ∈ registrar.registrations, x.Bare
    rw [first]
    exact List.forall_mem_cons.mpr ⟨bare, kept.bare⟩
  · show ∀ x ∈ registrar.registrations, x.Stands (Lease.run B acts x.number)
    rw [first]
    refine List.forall_mem_cons.mpr ⟨stands, fun x mem => ?_⟩
    rw [others x.number (old x mem)]
    exact kept.stands x mem
  · show ∀ x ∈ registrar.registrations, x.Holds → x.grant ∈ s.granted ++ gs
    rw [first]
    refine List.forall_mem_cons.mpr
      ⟨fun h => List.mem_append_right _ (has h), fun x mem holds => ?_⟩
    exact List.mem_append_left _ (kept.granted x mem holds)
  · show ((s.granted ++ gs).map fun g : Grant => g.number).Nodup
    rw [List.map_append]
    refine List.nodup_append.mpr ⟨kept.single, nodup, fun x old y new same => ?_⟩
    obtain ⟨g, mem, rfl⟩ := List.mem_map.mp old
    obtain ⟨g', mem', rfl⟩ := List.mem_map.mp new
    have below := kept.below g mem
    have next : g'.number = r.number := congrArg (·.number) (own g' mem')
    omega
  · intro g mem
    show g.number < registrar.registrations.length
    rw [length]
    rcases List.mem_append.mp mem with old | new
    · exact Nat.lt_succ_of_lt (kept.below g old)
    · rw [own g new]
      exact number ▸ Nat.lt_succ_self _
  · exact fun g mem => List.mem_append_left _ (kept.own g mem)
  · intro b
    rw [kept.returned]
    by_cases same : b = r.number
    · rw [same, unknown]
      exact iff_of_false (by rintro ⟨⟩) open'
    · rw [others b same]

theorem start_kept (voip : Voip Context μ) :
    Kept (start voip : Enrolment μ τ) fun _ => .unknown where
  numbers := rfl
  beyond _ _ := rfl
  bare _ h := by cases h
  stands _ h := by cases h
  granted _ h := by cases h
  single := List.nodup_nil
  below _ h := by cases h
  own _ h := by cases h
  once := List.nodup_nil
  returned _ := iff_of_false nofun nofun

theorem call_granted (ans : RegistryAnswers μ) (b : Nat) (m : Registrant → Registrant × Bool) :
    (s.call api ans b m).granted = s.granted ∧
      (s.call api ans b m).registrations.length = s.registrations.length := by
  unfold call
  split
  · exact ⟨rfl, rfl⟩
  · split <;> exact ⟨rfl, List.length_map _⟩

theorem eq_of_number {l : List Grant} (single : (l.map (·.number)).Nodup) {g g' : Grant}
    (mem : g ∈ l) (mem' : g' ∈ l) (same : g.number = g'.number) : g = g' :=
  List.inj_on_of_nodup_map single mem mem' same

theorem filter_number {l : List Grant} (single : (l.map (·.number)).Nodup) {g : Grant}
    (mem : g ∈ l) : l.filter (·.number = g.number) = [g] := by
  have all : ∀ x ∈ l, decide (x.number = g.number) = (x == g) := by
    intro x hx
    refine (Bool.eq_iff_iff.mpr ?_)
    rw [decide_eq_true_iff, beq_iff_eq]
    exact ⟨fun same => eq_of_number single hx mem same, fun same => congrArg Grant.number same⟩
  rw [List.filter_congr all, List.filter_beq,
    List.count_eq_one_of_mem (List.Nodup.of_map _ single) mem]
  rfl

/-- What the loop of `driver::stop` has passed is released, and nothing is activated any more. -/
def Stopping (s : Enrolment μ τ) : Prop :=
  ∀ rest, s.stopping = some rest → ∀ r ∈ s.registrations, r.Holds → r.number ∈ rest

theorem call_holds {m : Registrant → Registrant × Bool} {g : Lease.Phase → Lease.Phase}
    (moves : Registrant.Moves m g) (ans : RegistryAnswers μ) (b : Nat) {x : Registrant}
    (mem : x ∈ (s.call api ans b m).registrations) (holds : x.Holds) :
    ∃ r ∈ s.registrations, r.Holds ∧ r.number = x.number ∧ (r.number = b → x = (m r).1) := by
  cases found : s.find b with
  | none =>
    rw [call, found] at mem
    refine ⟨x, mem, holds, rfl, fun same => ?_⟩
    have other := List.find?_eq_none.mp found x mem
    simp [same] at other
  | some r =>
    obtain ⟨old, number⟩ := find_some found
    have new : x ∈ (s.replace b (m r).1).registrations := by
      rw [call, found] at mem
      dsimp only at mem
      split at mem <;> exact mem
    rcases mem_replace new with ⟨rfl, -⟩ | ⟨mem, other⟩
    · exact ⟨r, old, (moves.keeps r holds).1, (moves.number r).symm, fun _ => rfl⟩
    · exact ⟨x, mem, holds, rfl, fun same => absurd same other⟩

theorem call_stopping (ans : RegistryAnswers μ) (b : Nat) (m : Registrant → Registrant × Bool) :
    (s.call api ans b m).stopping = s.stopping := by
  unfold call
  split
  · rfl
  · split <;> rfl

theorem not_holds_release (r : Registrant) : ¬ r.release.1.Holds := by
  by_cases known : r.Holds
  · have guard : ¬ (r.rid = -1 ∨ r.context = none) := fun h => (r.lost_iff).mpr h known
    simp [Registrant.release, Registrant.lift, Registered.release, guard, Registrant.Holds]
  · have guard := (r.lost_iff).mp known
    simpa [Registrant.release, Registrant.lift, Registered.release, guard] using known

theorem call_still_stopping {m : Registrant → Registrant × Bool}
    {g : Lease.Phase → Lease.Phase} (stopping : Stopping s) (moves : Registrant.Moves m g)
    (ans : RegistryAnswers μ) (b : Nat) : Stopping (s.call api ans b m) := by
  intro rest left x mem holds
  rw [call_stopping] at left
  obtain ⟨r, old, held, number, -⟩ := call_holds moves ans b mem holds
  exact number ▸ stopping rest left r old held

theorem Kept.exists_number (kept : Kept s B) {b : Nat} (lt : b < s.registrations.length) :
    ∃ r ∈ s.registrations, r.number = b := by
  have listed : b ∈ s.registrations.map (·.number) := by
    rw [kept.numbers]
    simpa using lt
  exact List.mem_map.mp listed

theorem Kept.unregistered_of_returned (kept : Kept s B) {g : Grant} (granted : g ∈ s.granted)
    (returned : B g.number = .returned) : s.unregistered.filter (·.number = g.number) = [g] := by
  obtain ⟨g', told, same⟩ := List.mem_map.mp ((kept.returned g.number).mpr returned)
  cases eq_of_number kept.single (kept.own g' told) granted same
  exact filter_number kept.once told

theorem start_stopping (voip : Voip Context μ) : Stopping (start voip : Enrolment μ τ) := by
  intro rest left
  cases left

theorem handle_lost {r : Registrant} (rid : r.rid = -1) (e : RegistryEvent) :
    r.handle e = (r, false) := by
  have lost : ¬ r.Holds := fun h => h.1 rid
  cases e with
  | failure response =>
    simp only [Registrant.handle]
    split
    · rfl
    · simp [Registrant.failed, Registrant.lift, Registered.failed, rid, lost]
  | terminated =>
    simp [Registrant.handle, Registrant.cancel, Registrant.lift, Registered.cancel, rid]
  | refreshed =>
    simp [Registrant.handle, Registrant.confirm, Registrant.lift, Registered.confirm, rid]
  | success =>
    simp [Registrant.handle, Registrant.confirm, Registrant.lift, Registered.confirm, rid]

theorem call_same (api : Api) (kept : Kept s B) (ans : RegistryAnswers μ) {r : Registrant}
    {m : Registrant → Registrant × Bool} (mem : r ∈ s.registrations) (same : m r = (r, false)) :
    s.call api ans r.number m = s := by
  have unchanged : s.registrations.map (fun y => if y.number = r.number then r else y) =
      s.registrations := by
    refine (List.map_congr_left fun y hy => ?_).trans (List.map_id _)
    by_cases own : y.number = r.number
    · rw [if_pos own]
      exact (List.inj_on_of_nodup_map kept.distinct hy mem own).symm
    · rw [if_neg own]
      rfl
  rw [call, kept.find_mem mem]
  simp only [same, replace, unchanged]
  rfl

theorem found_holds {rid : Int} {r : Registrant} (kept : Kept s B) (some' : rid ≠ -1)
    (positive : rid ≠ 0) (looked : s.registrations.find? (·.rid = rid) = some r) :
    r ∈ s.registrations ∧ r.rid = rid ∧ r.Holds := by
  have mem := List.mem_of_find?_eq_some looked
  have named : r.rid = rid := by simpa using List.find?_some looked
  refine ⟨mem, named, fun none => some' (named ▸ none), fun none => ?_⟩
  rcases kept.bare r mem none with lost | zero
  · exact some' (named ▸ lost)
  · exact positive (named ▸ zero)

theorem stale_unchanged {r : Registrant} (kept : Kept s B) (mem : r ∈ s.registrations)
    (gone : r.rid = -1) (ans : RegistryAnswers μ) (e : RegistryEvent) :
    let t := call api ans (s.authenticate ans r.number e) r.number fun r => r.handle e
    t.registrar = s.registrar ∧ t.unregistered = s.unregistered := by
  obtain ⟨registrar, granted, told, -⟩ := @authenticate_same μ τ s ans r.number e
  have same : Kept (s.authenticate ans r.number e) B :=
    kept.of_same (congrArg (·.registrations) registrar) granted told
  have mem' : r ∈ (s.authenticate ans r.number e).registrations := by
    rw [registrations, registrar]
    exact mem
  have unchanged := call_same api same ans mem' (m := fun r => r.handle e) (handle_lost gone e)
  dsimp only
  rw [unchanged]
  exact ⟨registrar, told⟩

variable [DecidableEq τ]

/-- Every step is some acts of the leases. -/
theorem step_kept {a : EnrolmentAction μ τ α β} (kept : Kept s B) (moved : s.step api a = some t) :
    ∃ acts, Kept t (Lease.run B acts) := by
  cases a with
  | activate lib site keys =>
    simp only [step] at moved
    split at moved
    · cases moved
    obtain ⟨out, activated, rfl⟩ := Option.map_eq_some_iff.mp moved
    obtain ⟨r, first, number, idle, bare, -⟩ := Registrar.activate_first activated
    exact activate_kept kept first number idle bare
  | receive t' rid e =>
    simp only [step] at moved
    split at moved
    · cases moved
    split at moved
    · cases moved
      exact ⟨[], kept⟩
    · cases moved
      exact ⟨[], kept.of_same rfl rfl rfl⟩
  | handle t' ans =>
    obtain ⟨⟨b, e⟩, -, rfl⟩ := Option.map_eq_some_iff.mp moved
    obtain ⟨g, moves, acted⟩ := Registrant.handle_moves e
    obtain ⟨acts, run⟩ := acted b
    obtain ⟨registrar, granted, unregistered, -⟩ := @authenticate_same μ τ s ans b e
    have same : Kept (s.authenticate ans b e) B :=
      kept.of_same (congrArg (·.registrations) registrar) granted unregistered
    refine ⟨acts, ?_⟩
    rw [run]
    exact (call_kept same moves ans b).of_same rfl rfl rfl
  | dispatch id ans =>
    simp only [step] at moved
    split at moved
    · cases moved
    split at moved
    · cases moved
      exact ⟨[], kept⟩
    · rename_i r _
      cases moved
      exact ⟨[.surrender r.number], call_kept kept Registrant.release_moves ans r.number⟩
  | stop =>
    simp only [step] at moved
    split at moved
    · cases moved
    · cases moved
      exact ⟨[], kept.of_same rfl rfl rfl⟩
  | stopNext ans =>
    simp only [step] at moved
    split at moved
    · rename_i b rest _
      cases moved
      exact ⟨[.surrender b], (call_kept kept Registrant.release_moves ans b).of_same rfl rfl rfl⟩
    · cases moved

theorem exec_kept {as : List (EnrolmentAction μ τ α β)} (kept : Kept s B)
    (run : Run.exec (step api) s as = some t) : ∃ acts, Kept t (Lease.run B acts) := by
  induction as generalizing s B with
  | nil =>
    cases run
    exact ⟨[], kept⟩
  | cons a as ih =>
    obtain ⟨u, first, rest⟩ := Run.exec_cons.mp run
    obtain ⟨acts, kept⟩ := step_kept kept first
    obtain ⟨more, kept⟩ := ih kept rest
    exact ⟨acts ++ more, by rwa [Lease.run_append]⟩

theorem step_granted {a : EnrolmentAction μ τ α β} (moved : s.step api a = some t) :
    ∀ g ∈ s.granted, g ∈ t.granted := by
  intro g mem
  cases a with
  | activate lib site keys =>
    simp only [step] at moved
    split at moved
    · cases moved
    obtain ⟨out, -, rfl⟩ := Option.map_eq_some_iff.mp moved
    exact List.mem_append_left _ mem
  | receive t' rid e =>
    simp only [step] at moved
    split at moved
    · cases moved
    split at moved <;> cases moved <;> exact mem
  | handle t' ans =>
    obtain ⟨⟨b, e⟩, -, rfl⟩ := Option.map_eq_some_iff.mp moved
    show g ∈ ((s.authenticate ans b e).call api ans b (·.handle e)).granted
    rw [(call_granted ans b _).1, (authenticate_same ans b e).2.1]
    exact mem
  | dispatch id ans =>
    simp only [step] at moved
    split at moved
    · cases moved
    split at moved <;> cases moved
    · exact mem
    · rw [(call_granted ans _ _).1]
      exact mem
  | stop =>
    simp only [step] at moved
    split at moved <;> cases moved
    exact mem
  | stopNext ans =>
    simp only [step] at moved
    split at moved <;> cases moved
    show g ∈ (s.call api ans _ _).granted
    rw [(call_granted ans _ _).1]
    exact mem

theorem exec_granted {as : List (EnrolmentAction μ τ α β)}
    (run : Run.exec (step api) s as = some t) : ∀ g ∈ s.granted, g ∈ t.granted := by
  intro g mem
  exact Run.invariant (I := fun s => g ∈ s.granted)
    (fun s a t mem moved => step_granted moved g mem)
    mem run

theorem step_stopping {a : EnrolmentAction μ τ α β} (stopping : Stopping s)
    (moved : s.step api a = some t) : Stopping t := by
  cases a with
  | activate lib site keys =>
    simp only [step] at moved
    split at moved
    · cases moved
    rename_i going
    obtain ⟨out, -, rfl⟩ := Option.map_eq_some_iff.mp moved
    intro rest left
    have left : s.stopping = some rest := left
    rw [left] at going
    exact absurd rfl going
  | receive t' rid e =>
    simp only [step] at moved
    split at moved
    · cases moved
    split at moved <;> cases moved <;> exact stopping
  | handle t' ans =>
    obtain ⟨⟨b, e⟩, -, rfl⟩ := Option.map_eq_some_iff.mp moved
    obtain ⟨g, moves, -⟩ := Registrant.handle_moves e
    obtain ⟨registrar, -, -, loop⟩ := @authenticate_same μ τ s ans b e
    have same : Stopping (s.authenticate ans b e) := by
      intro rest left r mem
      rw [registrations, registrar] at mem
      exact stopping rest (loop ▸ left) r mem
    exact call_still_stopping same moves ans b
  | dispatch id ans =>
    simp only [step] at moved
    split at moved
    · cases moved
    split at moved <;> cases moved
    · exact stopping
    · exact call_still_stopping stopping Registrant.release_moves ans _
  | stop =>
    simp only [step] at moved
    split at moved <;> cases moved
    intro rest left r mem _
    cases left
    exact List.mem_map_of_mem mem
  | stopNext ans =>
    simp only [step] at moved
    split at moved
    · rename_i b rest loop
      cases moved
      intro rest' left x mem holds
      cases left
      obtain ⟨r, old, held, number, own⟩ := call_holds Registrant.release_moves ans b mem holds
      rcases List.mem_cons.mp (stopping _ loop r old held) with same | later
      · rw [own same] at holds
        exact absurd holds (not_holds_release r)
      · exact number ▸ later
    · cases moved

/-- In every run the library is told to unregister a registration once at most, with the id
and the context that it was registered with, and never while the registration goes on. If no
two registrations were given the same id, no id is unregistered twice. -/
theorem unregistered_once (api : Api) (voip : Voip Context μ)
    (as : List (EnrolmentAction μ τ α β)) (u : Enrolment μ τ)
    (run : Run.exec (step api) (start voip) as = some u) :
    (u.unregistered.map (·.number)).Nodup ∧
    (∀ g ∈ u.unregistered, g ∈ u.granted ∧ ∀ r ∈ u.registrations, r.number = g.number → ¬ r.Holds) ∧
    (∀ r ∈ u.registrations, r.Holds → r.grant ∈ u.granted) ∧
    ((u.granted.map fun g => (g.ctx, g.rid)).Nodup →
      (u.unregistered.map fun g => (g.ctx, g.rid)).Nodup) := by
  obtain ⟨acts, kept⟩ := exec_kept (start_kept voip) run
  refine ⟨kept.once, fun g mem => ⟨kept.own g mem, ?_⟩, kept.granted, fun distinct => ?_⟩
  · intro r old number holds
    have stands := kept.stands r old
    rw [Registrant.stands_holds holds, number,
      (kept.returned g.number).mp (List.mem_map_of_mem mem)] at stands
    split at stands <;> cases stands
  · refine List.Nodup.map_on ?_ (List.Nodup.of_map _ kept.once)
    intro g mem g' mem' same
    exact List.inj_on_of_nodup_map distinct (kept.own g mem) (kept.own g' mem') same

theorem exec_stopping {as : List (EnrolmentAction μ τ α β)} (stopping : Stopping s)
    (run : Run.exec (step api) s as = some t) : Stopping t :=
  Run.invariant (fun _ _ _ => step_stopping) stopping run

theorem receive_found {t : τ} {rid : Int} {b : Nat} {e e' : RegistryEvent} {v : Enrolment μ τ}
    (received : s.step api (.receive t rid e : EnrolmentAction μ τ α β) = some v)
    (found : v.found t = some (b, e')) :
    rid ≠ -1 ∧ ∃ r, s.registrations.find? (·.rid = rid) = some r ∧ r.number = b := by
  simp only [step] at received
  split at received
  · cases received
  rename_i free
  refine ⟨fun none => free (by simp [none]), ?_⟩
  split at received
  · cases received
    rw [found] at free
    exact absurd (by simp) free
  · cases received
    simp only [Function.update_self] at found
    obtain ⟨r, looked, pair⟩ := Option.map_eq_some_iff.mp found
    exact ⟨r, looked, congrArg Prod.fst pair⟩

/-- An event takes effect on the registration that its id was granted to, and only as long as
that registration has the id: whatever other threads do to it between the lookup and the event,
a stale event changes no registration and unregisters nothing. A challenge is answered also
then, with what the registration has left. -/
theorem event_own (api : Api) (voip : Voip Context μ) (as bs : List (EnrolmentAction μ τ α β))
    (s v w x : Enrolment μ τ) (t : τ) (rid : Int) (b : Nat) (e e' : RegistryEvent)
    (ans : RegistryAnswers μ) (run : Run.exec (step api) (start voip) as = some s)
    (positive : rid ≠ 0)
    (received : s.step api (.receive t rid e : EnrolmentAction μ τ α β) = some v)
    (found : v.found t = some (b, e')) (more : Run.exec (step api) v bs = some w)
    (still : w.found t = some (b, e'))
    (handled : w.step api (.handle t ans : EnrolmentAction μ τ α β) = some x) :
    ∃ g ∈ s.granted, g.rid = rid ∧ g.number = b ∧ ∃ r ∈ w.registrations, r.number = b ∧
      (r.Holds ∧ r.grant = g ∨
        r.rid = -1 ∧ x.registrar = w.registrar ∧ x.unregistered = w.unregistered) ∧
      x.credentials = w.credentials ++ r.authenticate ans e' := by
  obtain ⟨before, kept⟩ := exec_kept (start_kept voip) run
  generalize Lease.run _ before = B at kept
  obtain ⟨some', r, looked, number⟩ := receive_found received found
  obtain ⟨mem, named, holds⟩ := found_holds kept some' positive looked
  have granted := kept.granted r mem holds
  refine ⟨r.grant, granted, named, number, ?_⟩
  have both : Run.exec (step api) s ((.receive t rid e : EnrolmentAction μ τ α β) :: bs) = some w :=
    Run.exec_cons.mpr ⟨v, received, more⟩
  obtain ⟨acts, after⟩ := exec_kept kept both
  have granted' := exec_granted both _ granted
  obtain ⟨r', mem', own⟩ := after.exists_number (after.below _ granted')
  have own : r'.number = r.number := own
  obtain ⟨pair, here, rfl⟩ := Option.map_eq_some_iff.mp handled
  rw [still] at here
  cases here
  subst number
  refine ⟨r', mem', own, ?_, ?_⟩
  · by_cases held : r'.Holds
    · exact .inl ⟨held, eq_of_number after.single (after.granted r' mem' held) granted' own⟩
    · -- the lease has ended in between, and has left no id to act on
      have known : Lease.run B acts r'.number ≠ .unknown := by
        rw [own]
        refine Lease.run_known acts ?_
        rw [(Registrant.stands_holds holds).mp (kept.stands r mem)]
        split <;> simp
      have gone : r'.rid = -1 :=
        ((Registrant.stands_lost held).mp (after.stands r' mem')).rid known
      exact .inr ⟨gone, own ▸ stale_unchanged after mem' gone ans e'⟩
  · show (call api ans (w.authenticate ans r.number e') r.number _).credentials = _
    rw [call_credentials, authenticate_credentials ans e' (own ▸ after.find_mem mem')]

def online : Surroundings Unit Unit where
  contexts := ⟨some 0, none, none, some 0⟩
  router := ⟨fun _ => false, fun _ => some (), fun _ => false,
    fun _ => some "10.0.0.1".toList, fun _ => 5060⟩
  interfaces := ⟨fun _ => none, fun _ => none, fun _ _ => []⟩
  pointer := 8
  expires := 300
  port := 5060
  uuid := "5f0c"

def alice : RegistrationKeys :=
  ⟨"provider", fun key => if key = "identity" then some "sip:alice@example.com" else none⟩

def giving : Library Context Unit := ⟨fun _ => ⟨7, some ()⟩, fun _ _ => -1, fun _ _ msg => msg⟩

def plainAnswers : RegistryAnswers Unit := ⟨fun _ _ _ => some (), id⟩

def challenge : RegistryEvent := .failure (some ⟨401, none, some (some "provider")⟩)

def idle : Voip Context Unit := ⟨fun _ => 0, []⟩

theorem unregistered_once_alice : ∃ u,
    Run.exec (step .api4) (start idle : Enrolment Unit Unit)
      [.activate giving online alice, .receive () 7 .success, .handle () plainAnswers, .stop,
        .stopNext plainAnswers] = some u ∧
    (u.unregistered.map (·.number)).Nodup := by
  refine ⟨_, rfl, ?_⟩
  exact (unregistered_once .api4 idle
    [.activate giving online alice, .receive () 7 .success, .handle () plainAnswers, .stop,
      .stopNext plainAnswers] _ rfl).1

/-- The registration is released before the event thread comes to its event, a challenge. -/
theorem event_own_late : ∃ s v w x,
    Run.exec (step .api4) (start idle : Enrolment Unit Unit) [.activate giving online alice] =
      some s ∧
    s.step (α := Unit) (β := Unit) .api4 (.receive () 7 challenge) = some v ∧
    Run.exec (step (α := Unit) (β := Unit) .api4) v [.stop, .stopNext plainAnswers] = some w ∧
    w.step (α := Unit) (β := Unit) .api4 (.handle () plainAnswers) = some x ∧
    ∃ g ∈ s.granted, g.rid = 7 ∧ g.number = 0 ∧ ∃ r ∈ w.registrations, r.number = 0 ∧
      (r.Holds ∧ r.grant = g ∨
        r.rid = -1 ∧ x.registrar = w.registrar ∧ x.unregistered = w.unregistered) ∧
      x.credentials = w.credentials ++ r.authenticate plainAnswers challenge := by
  refine ⟨_, _, _, _, rfl, rfl, rfl, rfl, ?_⟩
  exact event_own .api4 idle [.activate giving online alice] [.stop, .stopNext plainAnswers]
    _ _ _ _ () 7 0 challenge challenge plainAnswers rfl (by decide) rfl rfl rfl rfl rfl

end Enrolment

end Bayonne
