import Bayonne.Sip.Leases

/-! What the library is sent of a registration. Its REGISTERs carry the id that the library gave
it: one when it is activated, and one that expires at once when it is released. -/
namespace Bayonne

namespace Enrolment
variable {μ τ α β : Type} {s t : Enrolment μ τ} {B : Lease.Book Nat} {api : Api}

/-- The REGISTERs that the library was handed under the id of a registration. -/
def registers (api : Api) (s : Enrolment μ τ) (g : Grant) : List μ :=
  s.registrar.voip.calls.filterMap fun
    | .registerSendRegister k rid msg => if (k, rid) = g.id api then some msg else none
    | _ => none

def expiring (api : Api) (g : Grant) (ans : RegistryAnswers μ) : List μ :=
  (ans.rebuild (api.pass g.ctx) g.rid 0).toList

def sends (api : Api) (g : Grant) (msgs : List μ) : List (Call Context μ) :=
  msgs.map (.registerSendRegister (api.pass g.ctx) g.rid)

/-- What a step sends: nothing, the first REGISTER of a registration, or its last. -/
inductive Sends (api : Api) (s t : Enrolment μ τ) (answers : Option (RegistryAnswers μ)) : Prop
  | silent : t.unregistered = s.unregistered → t.registrar.voip.calls = s.registrar.voip.calls →
      Sends api s t answers
  | opening (g : Grant) (msgs : List μ) : t.unregistered = s.unregistered →
      t.granted = s.granted ++ [g] →
      t.registrar.voip.calls = s.registrar.voip.calls ++ sends api g msgs → Sends api s t answers
  | closing (g : Grant) (ans : RegistryAnswers μ) : answers = some ans → g ∈ s.granted →
      t.unregistered = s.unregistered ++ [g] →
      t.registrar.voip.calls = s.registrar.voip.calls ++ sends api g (expiring api g ans) →
      Sends api s t answers

theorem registers_append {g g' : Grant} {msgs : List μ}
    (calls : t.registrar.voip.calls = s.registrar.voip.calls ++ sends api g' msgs) :
    t.registers api g =
      s.registers api g ++ if g'.id api = g.id api then msgs else [] := by
  rw [registers, calls, List.filterMap_append, sends, List.filterMap_map]
  congr 1
  by_cases same : g'.id api = g.id api
  · rw [if_pos same]
    have all : ∀ msg : μ, (if (api.pass g'.ctx, g'.rid) = g.id api then some msg else none) =
        some msg := fun msg => if_pos same
    simp [all]
  · rw [if_neg same, List.filterMap_eq_nil_iff]
    exact fun msg _ => if_neg same

variable (api) in
theorem call_sends {m : Registrant → Registrant × Bool} {g : Lease.Phase → Lease.Phase}
    (kept : Kept s B) (moves : Registrant.Moves m g) (ans : RegistryAnswers μ) (b : Nat) :
    Sends api s (s.call api ans b m) (some ans) := by
  cases found : s.find b with
  | none =>
    rw [call, found]
    exact .silent rfl rfl
  | some r =>
    obtain ⟨mem, rfl⟩ := find_some found
    rw [call, found]
    dsimp only
    split
    · rename_i told
      have holds := (moves.told r _ (kept.stands r mem) told).1
      exact .closing r.grant ans rfl (kept.granted r mem holds) rfl
        (Voip.releaseRegistry_calls api ans.rebuild r.context s.registrar.voip r.rid)
    · exact .silent rfl rfl

theorem Kept.running (kept : Kept s B) {r : Registrant} (mem : r ∈ s.registrations)
    (active : r.activated = true) :
    r.Holds ∧ B r.number = .running := by
  have holds : r.Holds := by
    by_contra lost
    have idle := ((Registrant.stands_lost lost).mp (kept.stands r mem)).idle
    rw [active] at idle
    cases idle
  refine ⟨holds, ?_⟩
  rw [(Registrant.stands_holds holds).mp (kept.stands r mem), if_pos active]

/-- No two registrations were given one id. -/
def Distinct (api : Api) (s : Enrolment μ τ) : Prop :=
  ∀ g ∈ s.granted, ∀ g' ∈ s.granted, g.id api = g'.id api → g = g'

/-- What is sent under the id of a registration, and how often it is unregistered, between two
states of a run. -/
def Ends (api : Api) (s t : Enrolment μ τ) (g : Grant) (answers : List (RegistryAnswers μ)) :
    Prop :=
  t.unregistered.filter (·.number = g.number) =
      s.unregistered.filter (·.number = g.number) ++ List.replicate answers.length g ∧
    t.registers api g = s.registers api g ++ answers.flatMap (expiring api g)

theorem Ends.refl (s : Enrolment μ τ) (g : Grant) : Ends api s s g [] :=
  ⟨(List.append_nil _).symm, (List.append_nil _).symm⟩

theorem Ends.trans {u : Enrolment μ τ} {g : Grant} {as bs : List (RegistryAnswers μ)}
    (h : Ends api s t g as) (h' : Ends api t u g bs) : Ends api s u g (as ++ bs) := by
  obtain ⟨told, sent⟩ := h
  obtain ⟨told', sent'⟩ := h'
  constructor
  · rw [told', told, List.append_assoc, List.replicate_append_replicate, List.length_append]
  · rw [sent', sent, List.append_assoc, List.flatMap_append]

variable [DecidableEq τ]

theorem step_sends {a : EnrolmentAction μ τ α β} (kept : Kept s B)
    (moved : s.step api a = some t) : Sends api s t a.answers := by
  cases a with
  | activate lib site keys =>
    simp only [step] at moved
    split at moved
    · cases moved
    obtain ⟨out, activated, rfl⟩ := Option.map_eq_some_iff.mp moved
    obtain ⟨r, first, -, -, -, msgs, none, calls⟩ := Registrar.activate_first activated
    by_cases holds : r.Holds
    · refine .opening r.grant msgs rfl ?_ calls
      simp [first, holds]
    · rw [none holds] at calls
      exact .silent rfl (calls.trans (List.append_nil _))
  | receive t' rid e =>
    simp only [step] at moved
    split at moved
    · cases moved
    split at moved <;> cases moved <;> exact .silent rfl rfl
  | handle t' ans =>
    obtain ⟨⟨b, e⟩, -, rfl⟩ := Option.map_eq_some_iff.mp moved
    obtain ⟨g, moves, -⟩ := Registrant.handle_moves e
    obtain ⟨registrar, granted, unregistered, -⟩ := @authenticate_same μ τ s ans b e
    have same : Kept (s.authenticate ans b e) B :=
      kept.of_same (congrArg (·.registrations) registrar) granted unregistered
    rcases call_sends api same moves ans b with
      ⟨told, calls⟩ | ⟨g, msgs, told, new, calls⟩ | ⟨g, ans', own, old, told, calls⟩
    · exact .silent (told.trans unregistered) (calls.trans (by rw [registrar]))
    · exact .opening g msgs (told.trans unregistered) (new.trans (by rw [granted]))
        (calls.trans (by rw [registrar]))
    · exact .closing g ans' own (granted ▸ old) (told.trans (by rw [unregistered]))
        (calls.trans (by rw [registrar]))
  | dispatch id ans =>
    simp only [step] at moved
    split at moved
    · cases moved
    split at moved <;> cases moved
    · exact .silent rfl rfl
    · exact call_sends api kept Registrant.release_moves ans _
  | stop =>
    simp only [step] at moved
    split at moved <;> cases moved
    exact .silent rfl rfl
  | stopNext ans =>
    simp only [step] at moved
    split at moved <;> cases moved
    rcases call_sends api kept Registrant.release_moves ans _ with
      ⟨told, calls⟩ | ⟨g, msgs, told, new, calls⟩ | ⟨g, ans', own, old, told, calls⟩
    · exact .silent told calls
    · exact .opening g msgs told new calls
    · exact .closing g ans' own old told calls

theorem step_ends {a : EnrolmentAction μ τ α β} (kept : Kept s B) (moved : s.step api a = some t)
    (distinct : Distinct api t) {g : Grant} (granted : g ∈ s.granted) :
    Ends api s t g [] ∨ ∃ ans, a.answers = some ans ∧ Ends api s t g [ans] := by
  have still := step_granted moved
  rcases step_sends kept moved with
    ⟨told, calls⟩ | ⟨g', msgs, told, new, calls⟩ | ⟨g', ans, own, old, told, calls⟩
  · refine .inl ⟨by rw [told]; exact (List.append_nil _).symm, ?_⟩
    rw [registers, calls]
    exact (List.append_nil _).symm
  · refine .inl ⟨by rw [told]; exact (List.append_nil _).symm, ?_⟩
    have other : g'.id api ≠ g.id api := by
      intro same
      have mem : g' ∈ t.granted := new ▸ List.mem_append_right _ (List.mem_singleton_self g')
      cases distinct g' mem g (still g granted) same
      obtain ⟨acts, after⟩ := step_kept kept moved
      have once := after.single
      rw [new, List.map_append] at once
      exact (List.nodup_append.mp once).2.2 _ (List.mem_map_of_mem granted) _
        (List.mem_singleton_self _) rfl
    rw [registers_append calls, if_neg other]
    rfl
  · by_cases same : g'.number = g.number
    · cases eq_of_number kept.single old granted same
      refine .inr ⟨ans, own, ?_, ?_⟩
      · rw [told, List.filter_append]
        simp
      · rw [registers_append calls, if_pos rfl]
        simp
    · have other : g'.id api ≠ g.id api := fun equal =>
        same (congrArg _ (distinct g' (still g' old) g (still g granted) equal))
      refine .inl ⟨?_, ?_⟩
      · rw [told, List.filter_append]
        simp [same]
      · rw [registers_append calls, if_neg other]
        rfl

/-- Along a run the library is sent what the builders of its releases left, and nothing else. -/
theorem exec_ends {as : List (EnrolmentAction μ τ α β)} (kept : Kept s B)
    (run : Run.exec (step api) s as = some t) (distinct : Distinct api t) {g : Grant}
    (granted : g ∈ s.granted) :
    ∃ answers, (∀ ans ∈ answers, ∃ a ∈ as, a.answers = some ans) ∧ Ends api s t g answers := by
  induction as generalizing s B with
  | nil =>
    cases run
    exact ⟨[], fun _ mem => (List.not_mem_nil mem).elim, .refl _ g⟩
  | cons a as ih =>
    obtain ⟨u, first, rest⟩ := Run.exec_cons.mp run
    have part : Distinct api u := fun g old g' old' =>
      distinct g (exec_granted rest g old) g' (exec_granted rest g' old')
    obtain ⟨acts, after⟩ := step_kept kept first
    obtain ⟨answers, given, later⟩ := ih after rest (step_granted first g granted)
    have further : ∀ ans ∈ answers, ∃ a' ∈ a :: as, a'.answers = some ans := fun ans mem => by
      obtain ⟨a', on, own⟩ := given ans mem
      exact ⟨a', List.mem_cons_of_mem _ on, own⟩
    rcases step_ends kept first part granted with still | ⟨ans, own, closed⟩
    · exact ⟨answers, further, still.trans later⟩
    · exact ⟨ans :: answers, List.forall_mem_cons.mpr ⟨⟨a, List.mem_cons_self, own⟩, further⟩,
        closed.trans later⟩

section Confirmed
variable {as : List (EnrolmentAction μ τ α β)} {r : Registrant}

theorem confirmed_kept (kept : Kept s B) (mem : r ∈ s.registrations) (active : r.activated = true)
    (run : Run.exec (step api) s as = some t) :
    ∃ r' ∈ t.registrations, r'.number = r.number ∧
      (r'.Holds ∧ r'.activated = true ∧ r'.grant = r.grant ∧
          r.number ∉ t.unregistered.map (·.number) ∨
        ¬ r'.Holds ∧ t.unregistered.filter (·.number = r.number) = [r.grant]) := by
  obtain ⟨holds, running⟩ := kept.running mem active
  have granted := exec_granted run _ (kept.granted r mem holds)
  obtain ⟨acts, after⟩ := exec_kept kept run
  obtain ⟨r', mem', number⟩ := after.exists_number (after.below _ granted)
  have own : r'.number = r.number := number
  have stands := after.stands r' mem'
  rw [own] at stands
  refine ⟨r', mem', own, ?_⟩
  rcases Lease.run_running acts running with still | returned
  · have held : r'.Holds := by
      by_contra lost
      exact ((Registrant.stands_lost lost).mp stands).running still
    have on : r'.activated = true := by
      have phase := (Registrant.stands_holds held).mp stands
      rw [still] at phase
      by_contra idle
      rw [if_neg idle] at phase
      cases phase
    refine .inl ⟨held, on, eq_of_number after.single (after.granted r' mem' held) granted own, ?_⟩
    rw [after.returned, still]
    rintro ⟨⟩
  · refine .inr ⟨fun held => ?_, after.unregistered_of_returned granted returned⟩
    rw [Registrant.stands_holds held, returned] at stands
    split at stands <;> cases stands

theorem confirmed_sent (kept : Kept s B) (mem : r ∈ s.registrations) (active : r.activated = true)
    (run : Run.exec (step api) s as = some t) (distinct : Distinct api t) :
    ∃ sent, t.registers api r.grant = s.registers api r.grant ++ sent ∧
      (r.number ∉ t.unregistered.map (·.number) ∧ sent = [] ∨
        t.unregistered.filter (·.number = r.number) = [r.grant] ∧
          ∃ a ∈ as, ∃ ans, a.answers = some ans ∧ sent = expiring api r.grant ans) := by
  obtain ⟨holds, running⟩ := kept.running mem active
  obtain ⟨answers, given, told, sent⟩ := exec_ends kept run distinct (kept.granted r mem holds)
  have before : s.unregistered.filter (·.number = r.grant.number) = [] := by
    refine List.filter_eq_nil_iff.mpr fun g old same => ?_
    have returned := (kept.returned g.number).mp (List.mem_map_of_mem old)
    have same : g.number = r.grant.number := by simpa using same
    have open' : B g.number = .running := same ▸ running
    rw [open'] at returned
    cases returned
  rw [before, List.nil_append] at told
  refine ⟨_, sent, ?_⟩
  obtain ⟨-, -, -, ⟨-, -, -, none⟩ | ⟨-, once⟩⟩ := confirmed_kept kept mem active run
  · refine .inl ⟨none, ?_⟩
    cases answers with
    | nil => rfl
    | cons ans answers =>
      have here : r.grant ∈ t.unregistered.filter (·.number = r.grant.number) := by
        rw [told]
        exact List.mem_cons_self
      exact absurd (List.mem_map_of_mem (List.mem_filter.mp here).1) none
  · have one : answers.length = 1 := by
      have length := congrArg List.length (once.symm.trans told)
      rw [List.length_replicate] at length
      exact length.symm
    obtain ⟨ans, rfl⟩ := List.length_eq_one_iff.mp one
    obtain ⟨a, on, own⟩ := given ans (List.mem_singleton_self ans)
    exact .inr ⟨once, a, on, ans, own, by simp⟩

end Confirmed

/-- A registration that has been confirmed is still registered, or `voip::release_registry` was
called for it, once; and after the loop of `driver::stop` none is registered any more. If no two
were given one id, nothing is sent under its id as long as it is registered, and after that
what the one builder has left. -/
theorem confirmed_unregistered (api : Api) (voip : Voip Context μ)
    (as bs : List (EnrolmentAction μ τ α β)) (s u : Enrolment μ τ) (r : Registrant)
    (run : Run.exec (step api) (start voip) as = some s) (mem : r ∈ s.registrations)
    (active : r.activated = true) (more : Run.exec (step api) s bs = some u) :
    (∃ r' ∈ u.registrations, r'.number = r.number ∧
      (r'.Holds ∧ r'.activated = true ∧ r'.grant = r.grant ∧
          r.number ∉ u.unregistered.map (·.number) ∨
        ¬ r'.Holds ∧ u.unregistered.filter (·.number = r.number) = [r.grant])) ∧
    (u.stopping = some [] → (∀ r' ∈ u.registrations, ¬ r'.Holds) ∧
      u.unregistered.filter (·.number = r.number) = [r.grant]) ∧
    (Distinct api u → ∃ sent, u.registers api r.grant = s.registers api r.grant ++ sent ∧
      (r.number ∉ u.unregistered.map (·.number) ∧ sent = [] ∨
        u.unregistered.filter (·.number = r.number) = [r.grant] ∧
          ∃ a ∈ bs, ∃ ans, a.answers = some ans ∧ sent = expiring api r.grant ans)) := by
  obtain ⟨before, kept⟩ := exec_kept (start_kept voip) run
  have ends := confirmed_kept kept mem active more
  refine ⟨ends, fun through => ?_, confirmed_sent kept mem active more⟩
  have stopped : ∀ r' ∈ u.registrations, ¬ r'.Holds := fun x old held => by
    have left := exec_stopping (exec_stopping (start_stopping voip) run) more [] through x old held
    cases left
  obtain ⟨r', mem', -, ⟨held, -⟩ | ⟨-, once⟩⟩ := ends
  · exact absurd held (stopped r' mem')
  · exact ⟨stopped, once⟩

/-- One REGISTER for the activation, and one for the release at the end. -/
theorem confirmed_unregistered_alice : ∃ s u r,
    Run.exec (step .api4) (start idle : Enrolment Unit Unit)
      [.activate giving online alice, .receive () 7 .success, .handle () plainAnswers] = some s ∧
    r ∈ s.registrations ∧ r.activated = true ∧
    Run.exec (step (α := Unit) (β := Unit) .api4) s [.stop, .stopNext plainAnswers] = some u ∧
    u.unregistered.filter (·.number = r.number) = [r.grant] ∧
    s.registers .api4 r.grant = [()] ∧ u.registers .api4 r.grant = [(), ()] := by
  refine ⟨_, _, _, rfl, List.mem_singleton_self _, rfl, rfl, ?_⟩
  have ends := (confirmed_unregistered .api4 idle
    [.activate giving online alice, .receive () 7 .success, .handle () plainAnswers]
    [.stop, .stopNext plainAnswers] _ _ _ rfl (List.mem_singleton_self _) rfl rfl).2
  refine ⟨(ends.1 rfl).2, rfl, ?_⟩
  obtain ⟨sent, registers, ⟨-, rfl⟩ | ⟨-, a, mem, ans, own, rfl⟩⟩ := ends.2 (by
    intro g mem g' mem' _
    rw [List.mem_singleton.mp mem, List.mem_singleton.mp mem'])
  · cases registers
  · rw [registers]
    rcases List.mem_cons.mp mem with rfl | last
    · cases own
    · rw [List.mem_singleton.mp last] at own
      cases own
      rfl

end Enrolment

end Bayonne
