import Bayonne.Base.Lease
import Bayonne.Base.Run
import Bayonne.Sip.Activation

/-! The registrations over the life of the server: the main thread activates them and releases
them at the end, the event threads tell them what the library hears of them, and the control
thread may release one by its name. The library is told to unregister what it has registered. -/
namespace Bayonne

abbrev Rebuild (κ μ : Type) := Option κ → Int → Nat → Option μ

def Api.pass {κ : Type} (ctx : Option κ) : Api → Option κ
  | .api4 => ctx
  | .older => none

namespace Voip
variable {κ μ : Type} [DecidableEq κ]

/-- `voip::release_registry`, a REGISTER that expires at once. -/
def releaseRegistry (api : Api) (rebuild : Rebuild κ μ) (ctx : Option κ) (s : Voip κ μ)
    (rid : Int) : Bool × Voip κ μ :=
  let k := api.pass ctx
  let s := s.lock k
  match rebuild k rid 0 with
  | none => (false, s.unlock k)
  | some msg => (true, (s.call (.registerSendRegister k rid msg)).unlock k)

theorem releaseRegistry_depth (api : Api) (rebuild : Rebuild κ μ) (ctx : Option κ)
    (s : Voip κ μ) (rid : Int) : (s.releaseRegistry api rebuild ctx rid).2.depth = s.depth := by
  unfold releaseRegistry
  dsimp only
  split
  · rw [unlock_lock]
  · simp [unlock, lock]

/-- What the builder leaves is sent. -/
theorem releaseRegistry_calls (api : Api) (rebuild : Rebuild κ μ) (ctx : Option κ)
    (s : Voip κ μ) (rid : Int) : (s.releaseRegistry api rebuild ctx rid).2.calls = s.calls ++
      (rebuild (api.pass ctx) rid 0).toList.map (.registerSendRegister (api.pass ctx) rid) := by
  unfold releaseRegistry
  dsimp only
  split
  · rename_i failed
    rw [failed, unlock_lock]
    exact (List.append_nil _).symm
  · rename_i msg built
    rw [built]
    rfl

end Voip

/-- The answer that a failure carries: its status, and the realms of its two challenges. -/
structure Refusal where
  status : Int
  proxy : Option (Option String)
  www : Option (Option String)

/-- An event about a registration, with what `thread::run` reads of it. -/
inductive RegistryEvent where
  | failure (response : Option Refusal)
  | terminated | refreshed | success

namespace RegistryEvent

def challenged : RegistryEvent → Option Refusal
  | .failure (some r) => if r.status = 401 then some r else none
  | _ => none

def plain : RegistryEvent → RegistrationEvent
  | .failure response => .failure (RegistryEvent.failure response).challenged.isSome
  | .terminated => .terminated
  | .refreshed => .refreshed
  | .success => .success

/-- The library has no such event any more. -/
def unheard (api : Api) (e : RegistryEvent) : Bool :=
  match api, e with
  | .api4, .terminated | .api4, .refreshed => true
  | _, _ => false

end RegistryEvent

/-- An id of the library, with the number of the registration it is for. -/
structure Grant where
  number : Nat
  ctx : Option Context
  rid : Int
  deriving DecidableEq

def Grant.id (api : Api) (g : Grant) : Option Context × Int := (api.pass g.ctx, g.rid)

namespace Registrant
variable (r : Registrant)

abbrev number : Nat := r.reg.base

def grant : Grant := ⟨r.number, r.context, r.rid⟩

def Holds : Prop := r.rid ≠ -1 ∧ r.context ≠ none

instance : Decidable r.Holds := inferInstanceAs (Decidable (_ ∧ _))

def lift (f : Registered → Registered) : Registrant := { r with toRegistered := f r.toRegistered }

/-- A method leaves the registration as it is then, and may have called
`voip::release_registry` for the id it had. -/
def confirm : Registrant × Bool := (r.lift .confirm, false)

def release : Registrant × Bool := (r.lift .release, r.Holds)

def failed : Registrant × Bool := (r.lift .failed, r.Holds && r.activated)

def cancel : Registrant × Bool := (r.lift .cancel, r.rid ≠ -1 && r.activated)

def handle (e : RegistryEvent) : Registrant × Bool :=
  match e with
  | .failure _ => if e.challenged.isSome then (r, false) else r.failed
  | .terminated => r.cancel
  | .refreshed | .success => r.confirm

theorem handle_plain (e : RegistryEvent) :
    (r.handle e).1.toRegistered = r.toRegistered.handle e.plain := by
  cases e with
  | failure response =>
    simp only [handle, RegistryEvent.plain, Registered.handle]
    split <;> rfl
  | _ => rfl

end Registrant

structure RegistryAnswers (μ : Type) where
  rebuild : Rebuild Context μ
  unquote : Option String → Option String

/-- What `add_authentication` is given: the context, the user, the secret and the realm. -/
abbrev Credential := Option Context × Option String × Option String × Option String

/-- The registrations of a running server. `found` is the registration that an event thread
has located for its event, `stopping` what the loop of `driver::stop` has before it; `granted`
are the ids that the library gave, `unregistered` those that `voip::release_registry` was called
for, and `credentials` what the library was given for the challenges. -/
structure Enrolment (μ τ : Type) where
  registrar : Registrar μ
  found : τ → Option (Nat × RegistryEvent)
  stopping : Option (List Nat)
  granted : List Grant
  unregistered : List Grant
  credentials : List Credential

/-- `registration::authenticate`: the challenge of a 401 is answered with the secret. -/
def Registrant.authenticate {μ : Type} (r : Registrant) (ans : RegistryAnswers μ)
    (e : RegistryEvent) : List Credential :=
  (e.challenged.map fun c =>
    (r.context, r.userid, r.secret, ans.unquote ((c.proxy.or c.www).getD none))).toList

inductive EnrolmentAction (μ τ α β : Type) where
  | activate (lib : Library Context μ) (site : Surroundings α β) (keys : RegistrationKeys)
  | receive (t : τ) (rid : Int) (e : RegistryEvent)
  | handle (t : τ) (ans : RegistryAnswers μ)
  | dispatch (id : String) (ans : RegistryAnswers μ)
  | stop
  | stopNext (ans : RegistryAnswers μ)

def EnrolmentAction.answers {μ τ α β : Type} :
    EnrolmentAction μ τ α β → Option (RegistryAnswers μ)
  | .handle _ ans | .dispatch _ ans | .stopNext ans => some ans
  | .activate .. | .receive .. | .stop => none

namespace Enrolment
variable {μ τ α β : Type}

abbrev registrations (s : Enrolment μ τ) : List Registrant := s.registrar.registrations

def start (voip : Voip Context μ) : Enrolment μ τ := ⟨⟨[], voip⟩, fun _ => none, none, [], [], []⟩

def find (s : Enrolment μ τ) (b : Nat) : Option Registrant :=
  s.registrations.find? (·.number = b)

def replace (s : Enrolment μ τ) (b : Nat) (r : Registrant) : Enrolment μ τ :=
  { s with
    registrar :=
      { s.registrar with
        registrations := s.registrations.map fun r' => if r'.number = b then r else r' } }

variable (api : Api) [DecidableEq τ]

def unregister (ans : RegistryAnswers μ) (s : Enrolment μ τ) (g : Grant) : Enrolment μ τ :=
  { s with
    registrar :=
      { s.registrar with
        voip := (s.registrar.voip.releaseRegistry api ans.rebuild g.ctx g.rid).2 }
    unregistered := s.unregistered ++ [g] }

def call (ans : RegistryAnswers μ) (s : Enrolment μ τ) (b : Nat)
    (m : Registrant → Registrant × Bool) : Enrolment μ τ :=
  match s.find b with
  | none => s
  | some r =>
    if (m r).2 then (s.replace b (m r).1).unregister api ans r.grant else s.replace b (m r).1

def authenticate (ans : RegistryAnswers μ) (s : Enrolment μ τ) (b : Nat) (e : RegistryEvent) :
    Enrolment μ τ :=
  match s.find b with
  | none => s
  | some r => { s with credentials := s.credentials ++ r.authenticate ans e }

def step (s : Enrolment μ τ) : EnrolmentAction μ τ α β → Option (Enrolment μ τ)
  | .activate lib site keys =>
    if s.stopping.isSome then none
    else
      (s.registrar.activate api lib site keys).map fun out =>
        { s with
          registrar := out.2
          granted := s.granted ++
            ((out.2.registrations.head?.filter (·.Holds)).map (·.grant)).toList }
  | .receive t rid e =>
    if (s.found t).isSome || rid = -1 then none
    else if e.unheard api then some s
    else
      some { s with
        found := Function.update s.found t
          ((s.registrations.find? (·.rid = rid)).map fun r => (r.number, e)) }
  | .handle t ans =>
    (s.found t).map fun at' =>
      let s := (s.authenticate ans at'.1 at'.2).call api ans at'.1 (·.handle at'.2)
      { s with found := Function.update s.found t none }
  | .dispatch id ans =>
    if s.stopping.isSome then none
    else
      match s.registrations.find? (·.id = id) with
      | none => some s
      | some r => some (s.call api ans r.number (·.release))
  | .stop =>
    if s.stopping.isSome then none
    else some { s with stopping := some (s.registrations.map (·.number)) }
  | .stopNext ans =>
    match s.stopping with
    | some (b :: rest) => some { s.call api ans b (·.release) with stopping := some rest }
    | _ => none

end Enrolment

namespace Registrant
variable {r : Registrant} {p : Lease.Phase}

/-- A registration that the library does not know has never had an id, or has none any more. -/
structure Lost (r : Registrant) (p : Lease.Phase) : Prop where
  idle : r.activated = false
  waiting : p ≠ .waiting
  running : p ≠ .running
  rid : p ≠ .unknown → r.rid = -1

def Stands (r : Registrant) (p : Lease.Phase) : Prop :=
  if r.Holds then p = if r.activated then .running else .waiting else r.Lost p

def Bare (r : Registrant) : Prop := r.context = none → r.rid = -1 ∨ r.rid = 0

theorem stands_holds (holds : r.Holds) :
    r.Stands p ↔ p = if r.activated then .running else .waiting := by
  rw [Stands, if_pos holds]

theorem stands_lost (lost : ¬ r.Holds) : r.Stands p ↔ r.Lost p := by
  rw [Stands, if_neg lost]

/-- What a method does to the lease of the registration that it is called on. -/
structure Moves (m : Registrant → Registrant × Bool) (g : Lease.Phase → Lease.Phase) : Prop where
  unknown : g .unknown = .unknown
  number : ∀ r, (m r).1.number = r.number
  keeps : ∀ r, (m r).1.Holds → r.Holds ∧ (m r).1.grant = r.grant
  bare : ∀ r, r.Bare → (m r).1.Bare
  stands : ∀ r p, r.Stands p → (m r).1.Stands (g p)
  told : ∀ r p, r.Stands p → (m r).2 = true → r.Holds ∧ p ≠ .returned ∧ g p = .returned
  silent : ∀ r p, r.Stands p → (m r).2 = false → (g p = .returned ↔ p = .returned)

theorem still_moves : Moves (fun r => (r, false)) fun p => p where
  unknown := rfl
  number _ := rfl
  keeps _ holds := ⟨holds, rfl⟩
  bare _ h := h
  stands _ _ h := h
  told _ _ _ h := by cases h
  silent _ _ _ _ := Iff.rfl

def ended (r : Registrant) (ctx : Option Context) : Registrant :=
  r.lift fun r => { r with activated := false, rid := -1, context := ctx }

theorem not_holds_ended (r : Registrant) (ctx : Option Context) : ¬ (r.ended ctx).Holds :=
  fun h => h.1 rfl

theorem Moves.ending {m : Registrant → Registrant × Bool} {g : Lease.Phase → Lease.Phase}
    (flag : Registrant → Bool)
    (shape : ∀ r, ¬ r.Holds ∧ m r = (r, false) ∨ ∃ ctx, m r = (r.ended ctx, flag r))
    (quiet : ∀ r, ¬ r.Holds → r.activated = false → flag r = false)
    (asks : ∀ r, r.Holds → (flag r ↔ g (if r.activated then .running else .waiting) = .returned))
    (past : ∀ p, g p ≠ .waiting ∧ g p ≠ .running)
    (still : ∀ p, p ≠ .waiting → p ≠ .running → g p = p) : Moves m g where
  unknown := still _ nofun nofun
  number r := by
    rcases shape r with ⟨-, same⟩ | ⟨ctx, out⟩
    · rw [same]
    · rw [out]
      rfl
  keeps r h := by
    rcases shape r with ⟨lost, same⟩ | ⟨ctx, out⟩
    · rw [same] at h
      exact absurd h lost
    · rw [out] at h
      exact absurd h (not_holds_ended r ctx)
  bare r h := by
    rcases shape r with ⟨-, same⟩ | ⟨ctx, out⟩
    · rwa [same]
    · rw [out]
      exact fun _ => .inl rfl
  stands r p h := by
    rcases shape r with ⟨lost, same⟩ | ⟨ctx, out⟩
    · have was := (stands_lost lost).mp h
      rwa [same, still p was.waiting was.running]
    · rw [out, stands_lost (not_holds_ended r ctx)]
      exact ⟨rfl, (past p).1, (past p).2, fun _ => rfl⟩
  told r p h told := by
    by_cases known : r.Holds
    · rw [stands_holds known] at h
      rcases shape r with ⟨lost, -⟩ | ⟨ctx, out⟩
      · exact absurd known lost
      rw [out] at told
      rw [h]
      refine ⟨known, ?_, (asks r known).mp told⟩
      split <;> nofun
    · rcases shape r with ⟨-, same⟩ | ⟨ctx, out⟩
      · rw [same] at told
        cases told
      · rw [out, quiet r known ((stands_lost known).mp h).idle] at told
        cases told
  silent r p h silent := by
    by_cases known : r.Holds
    · rw [stands_holds known] at h
      rcases shape r with ⟨lost, -⟩ | ⟨ctx, out⟩
      · exact absurd known lost
      rw [out] at silent
      rw [h]
      refine iff_of_false (fun returned => ?_) (by split <;> nofun)
      rw [(asks r known).mpr returned] at silent
      cases silent
    · have was := (stands_lost known).mp h
      rw [still p was.waiting was.running]

theorem lost_iff (r : Registrant) : ¬ r.Holds ↔ r.rid = -1 ∨ r.context = none := by
  rw [Holds, not_and_or, not_ne_iff, not_ne_iff]

theorem release_moves : Moves release .surrender := by
  refine .ending (fun r => r.Holds) ?_ ?_ ?_ ?_ ?_
  · intro r
    by_cases known : r.Holds
    · refine .inr ⟨none, ?_⟩
      have guard : ¬ (r.rid = -1 ∨ r.context = none) := fun h => (lost_iff r).mpr h known
      simp [release, ended, lift, Registered.release, guard]
    · have guard := (lost_iff r).mp known
      exact .inl ⟨known, by simp [release, lift, Registered.release, guard, known]⟩
  · intro r lost _
    exact decide_eq_false lost
  · intro r known
    cases r.activated <;> simp [known, Lease.Phase.surrender]
  · intro p
    cases p <;> decide
  · intro p waiting running
    cases p <;> first | rfl | contradiction

/-- A lease that is lost is told of to the library only if it was confirmed. -/
theorem Moves.losing {m : Registrant → Registrant × Bool}
    (shape : ∀ r, ¬ r.Holds ∧ m r = (r, false) ∨ m r = (r.ended r.context, r.activated)) :
    Moves m .lose := by
  refine .ending (fun r => r.activated) (fun r => (shape r).imp_right fun h => ⟨_, h⟩)
    (fun r _ idle => idle) ?_ ?_ ?_
  · intro r _
    cases r.activated <;> simp [Lease.Phase.lose]
  · intro p
    cases p <;> decide
  · intro p waiting running
    cases p <;> first | rfl | contradiction

theorem failed_moves : Moves failed .lose := by
  refine .losing fun r => ?_
  by_cases known : r.Holds
  · have guard : ¬ (r.rid = -1 ∨ r.context = none) := fun h => (lost_iff r).mpr h known
    exact .inr (by simp [failed, ended, lift, Registered.failed, guard, known])
  · have guard := (lost_iff r).mp known
    exact .inl ⟨known, by simp [failed, lift, Registered.failed, guard, known]⟩

/-- Unlike the others `cancel` does not look at the context. -/
theorem cancel_moves : Moves cancel .lose := by
  refine .losing fun r => ?_
  by_cases none : r.rid = -1
  · exact .inl ⟨fun h => h.1 none, by simp [cancel, lift, Registered.cancel, none]⟩
  · exact .inr (by simp [cancel, ended, lift, Registered.cancel, none])

theorem confirm_moves : Moves confirm .confirm where
  unknown := rfl
  number r := by
    simp only [confirm, lift, Registered.confirm]
    split <;> rfl
  keeps r h := by
    simp only [confirm, lift, Registered.confirm] at h ⊢
    split at h <;> split <;> exact ⟨h, rfl⟩
  bare r h := by
    simp only [confirm, lift, Registered.confirm]
    split <;> exact h
  stands r p h := by
    have holds : r.confirm.1.Holds ↔ r.Holds := by
      simp only [confirm, lift, Registered.confirm]
      split <;> exact Iff.rfl
    by_cases known : r.Holds
    · rw [stands_holds (holds.mpr known)]
      rw [stands_holds known] at h
      rw [h]
      have guard : ¬ (r.rid = -1 ∨ r.context = none) := fun h => (lost_iff r).mpr h known
      cases active : r.activated <;>
        simp [confirm, lift, Registered.confirm, Lease.Phase.confirm, not_or.mp guard, active]
    · have was := (stands_lost known).mp h
      have same : r.confirm.1 = r := by
        rcases (lost_iff r).mp known with guard | guard <;>
          simp [confirm, lift, Registered.confirm, guard]
      have still : p.confirm = p := by
        cases p with
        | waiting => exact absurd rfl was.waiting
        | _ => rfl
      rwa [same, still]
  told _ _ _ h := by cases h
  silent r p h _ := by
    cases p <;> simp [Lease.Phase.confirm]

def Acted (g : Lease.Phase → Lease.Phase) : Prop :=
  ∀ b : Nat, ∃ acts, ∀ B : Lease.Book Nat, Lease.run B acts = Function.update B b (g (B b))

theorem handle_moves (e : RegistryEvent) : ∃ g, Moves (·.handle e) g ∧ Acted g := by
  cases e with
  | failure response =>
    by_cases challenged : (RegistryEvent.failure response).challenged.isSome
    · refine ⟨fun p => p, ?_, fun b => ⟨[], fun B => (Function.update_eq_self b B).symm⟩⟩
      simpa only [handle, challenged, if_true] using still_moves
    · refine ⟨.lose, ?_, fun b => ⟨[.lose b], fun _ => rfl⟩⟩
      simpa only [handle, challenged, if_false, Bool.false_eq_true] using failed_moves
  | terminated => exact ⟨.lose, cancel_moves, fun b => ⟨[.lose b], fun _ => rfl⟩⟩
  | refreshed => exact ⟨.confirm, confirm_moves, fun b => ⟨[.confirm b], fun _ => rfl⟩⟩
  | success => exact ⟨.confirm, confirm_moves, fun b => ⟨[.confirm b], fun _ => rfl⟩⟩

end Registrant

namespace Registrar
variable {μ α β : Type} {api : Api} {lib : Library Context μ} {site : Surroundings α β}

theorem registers_map (lib : Library Context μ) (k : Option Context) (built : Built μ) :
    ∃ msgs : List μ, (built.code = -1 → msgs = []) ∧
      registers lib k built = msgs.map (.registerSendRegister k built.code) := by
  by_cases refused : built.code = -1
  · exact ⟨[], fun _ => rfl, by rw [registers, if_pos refused]; rfl⟩
  · refine ⟨built.msg.toList.map (Registrant.headers lib), fun h => absurd h refused, ?_⟩
    rw [registers, if_neg refused, List.map_map]
    rfl

/-- A new registration is the first of the list, with the next number, and not yet active. What
is sent for it has its id. -/
theorem activate_first {keys : RegistrationKeys} {s t : Registrar μ} {ret : Option String}
    (activated : s.activate api lib site keys = some (ret, t)) :
    ∃ r, t.registrations = r :: s.registrations ∧ r.number = s.registrations.length ∧
      r.activated = false ∧ r.Bare ∧ ∃ msgs : List μ, (¬ r.Holds → msgs = []) ∧
        t.voip.calls = s.voip.calls ++
          msgs.map (.registerSendRegister (api.pass r.context) r.rid) := by
  by_cases unresolved : Unresolved site keys
  · rw [activate_unresolved unresolved] at activated
    cases activated
    exact ⟨_, rfl, rfl, rfl, fun _ => .inr rfl, [], fun _ => rfl, (List.append_nil _).symm⟩
  · obtain ⟨identity, named, reached⟩ : ∃ identity, keys.identity = some identity ∧
        (route site.contexts site.router 256 (keys.server identity).toList).1 ≠ none := by
      simpa [Unresolved] using unresolved
    obtain ⟨ctx, routed⟩ := Option.ne_none_iff_exists'.mp reached
    obtain ⟨v, out, calls⟩ := @activate_resolved α β μ api lib site keys s identity ctx _ named
      (Prod.ext routed rfl) _ rfl
    rw [out] at activated
    cases activated
    refine ⟨_, rfl, rfl, rfl, by rintro ⟨⟩, ?_⟩
    have passed : api.pass (some ctx) = api.context ctx := by cases api <;> rfl
    obtain ⟨msgs, refused, sent⟩ := registers_map lib (api.context ctx) (lib.build
      ((s.asking site keys identity ctx _).request (api.context ctx)))
    refine ⟨msgs, fun lost => refused (not_ne_iff.mp fun given => lost ⟨given, by rintro ⟨⟩⟩), ?_⟩
    rw [calls, sent, ← passed]
    rfl

end Registrar

end Bayonne
