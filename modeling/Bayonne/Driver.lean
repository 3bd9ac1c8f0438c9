import Bayonne.Base.Run
import Bayonne.Sip

/-! The SIP server as it runs. A driver instance holds one configuration and is replaced
by a reload; the contexts, the settings, the registrations and the timeslots are static
members that all instances share. -/
namespace Bayonne

abbrev Keydata := List (String × String)

/-- A driver instance. `activations` are the registrations its destructor releases. -/
structure Instance where
  keys : String → Option Keydata
  activations : List Nat

structure ScriptSettings where
  stacking : Int
  decimals : Int
  stepping : Int
  paging : Int
  sizing : Int
  indexing : Int

structure Settings where
  sipRealm : Option String
  slice : UInt64
  stepping : UInt64
  script : ScriptSettings

/-- `Driver::getStepping`. -/
def Settings.getStepping (g : Settings) : Timeout :=
  if g.stepping.toNat = UInt64.size - 1 then .inf else .after g.stepping.toNat

def ScriptSettings.set (g : ScriptSettings) (kv : String × String) : ScriptSettings :=
  if kv.1 = "stacking" then { g with stacking := atoi kv.2 }
  else if kv.1 = "decimals" then { g with decimals := atoi kv.2 }
  else if kv.1 = "stepping" then { g with stepping := atoi kv.2 }
  else if kv.1 = "paging" then { g with paging := atol kv.2 }
  else if kv.1 = "symbols" then { g with sizing := atoi kv.2 }
  else if kv.1 = "indexing" then { g with indexing := atoi kv.2 }
  else g

def Settings.set (g : Settings × Option String) (kv : String × String) :
    Settings × Option String :=
  if kv.1 = "timing" then ({ g.1 with slice := UInt64.ofInt (atol kv.2) }, g.2)
  else if kv.1 = "stepping" then ({ g.1 with stepping := UInt64.ofInt (atol kv.2) }, g.2)
  else if kv.1 = "realm" then (g.1, some kv.2)
  else g

def Instance.update (d : Instance) (g : Settings) : Settings :=
  let keys := (d.keys "sip").or (d.keys "sips")
  let (g, realm) := (keys.getD []).foldl Settings.set (g, none)
  { g with
    sipRealm := realm
    script := ((d.keys "script").getD []).foldl ScriptSettings.set g.script }

structure Contexts where
  udp : Option Context
  tcp : Option Context
  tls : Option Context
  out : Option Context
  deriving DecidableEq

def Contexts.closed : Contexts := ⟨none, none, none, none⟩

/-- A registration while the server runs. Its `fwd` is never set. -/
structure Registered where
  reg : SipRegistration
  context : Option Context
  rid : Int
  activated : Bool

namespace Registered
variable (r : Registered)

def confirm : Registered :=
  if r.rid = -1 ∨ r.context = none ∨ r.activated then r else { r with activated := true }

def release : Registered :=
  if r.rid = -1 ∨ r.context = none then r
  else { r with activated := false, rid := -1, context := none }

def failed : Registered :=
  if r.rid = -1 ∨ r.context = none then r else { r with activated := false, rid := -1 }

def cancel : Registered :=
  if r.rid = -1 then r else { r with activated := false, rid := -1 }

end Registered

inductive RegistrationEvent where
  | failure (challenged : Bool)
  | terminated | refreshed | success
  deriving DecidableEq, Repr

def Registered.handle (r : Registered) : RegistrationEvent → Registered
  | .failure challenged => if challenged then r else r.failed
  | .terminated => r.cancel
  | .refreshed | .success => r.confirm

/-- The running server. `realmopt` is the realm given on the command line. -/
structure Live (n : Nat) where
  realmopt : Option String
  active : Option Instance
  settings : Settings
  contexts : Contexts
  registrations : List Registered
  server : Server
  sip : Sip n

/-- What the outside gives a server that starts: the options, the settings of the script
library, the contexts that could be created, and the registrations and the table that
`start` builds. -/
structure Boot where
  realmopt : Option String
  tcpopt : Bool
  script : ScriptSettings
  udp : Option Context
  tcp : Option Context
  tls : Option Context
  registrations : List Registered
  server : Server

namespace Live
variable {n : Nat}

def construct (s : Live n) (keys : String → Option Keydata) : Instance × Live n :=
  (⟨keys, []⟩, { s with contexts := .closed })

def releaseAt (s : Live n) (k : Nat) : Live n :=
  { s with registrations := s.registrations.modify k Registered.release }

def delete (s : Live n) (d : Instance) : Live n := d.activations.foldl releaseAt s

/-- `Driver::commit`, without plugins. -/
def commit (s : Live n) (d : Instance) : Live n :=
  let s := { s with settings := d.update s.settings }
  let orig := s.active
  let s := { s with active := some d }
  match orig with
  | none => s
  | some orig => s.delete orig

def reload (s : Live n) (keys : String → Option Keydata) : Option (Live n) :=
  s.active.map fun _ =>
    let (d, s) := s.construct keys
    s.commit d

def overTcp (keys : Keydata) (tcpopt : Bool) : Bool :=
  tcpopt || keys.any fun kv => (kv.1 = "protocol" || kv.1 = "transport") && kv.2 = "tcp"

/-- The server after `commit` of its first instance and `driver::start`. -/
def start (boot : Boot) (keys : String → Option Keydata) (raw : Fin n → Raw)
    (leg : Fin n → Leg) : Live n :=
  let sip := (keys "sip").getD []
  let out := if overTcp sip boot.tcpopt then boot.tcp else boot.udp
  let s : Live n :=
    { realmopt := boot.realmopt
      active := none
      settings := ⟨none, 500, 50, boot.script⟩
      contexts := .closed
      registrations := boot.registrations
      server := boot.server
      sip := .start ⟨boot.server, boot.registrations.map (·.reg), out⟩ raw leg }
  let (d, s) := s.construct keys
  let s := s.commit d
  { s with
    contexts := ⟨boot.udp, boot.tcp, boot.tls, out⟩
    settings :=
      { s.settings with
        sipRealm := (sip.findRev? (·.1 = "realm")).elim s.settings.sipRealm (some ·.2) } }

def realm (s : Live n) : Option String :=
  match s.realmopt with
  | some realm => some realm
  | none => s.settings.sipRealm.filter (· ≠ "")

def driver (s : Live n) : SipDriver :=
  ⟨s.server, s.registrations.map (·.reg), s.contexts.out⟩

def contextFor (s : Live n) (m : Message) : Option Context :=
  let uuid := (m.reqUri.bind (·.username)).getD ""
  (s.registrations.find? (·.reg.uuid = uuid)).bind (·.context)

def paced (s : Live n) (ans : Answers) : Answers :=
  { ans with stepping := s.settings.getStepping }

def within (s : Live n) : SipAction n → SipAction n
  | .event ctx (.callInvite (some m) tid did cid) out =>
    .event ctx (.callInvite (some m) tid did cid)
      { out with realm := s.realm, context := s.contextFor m, ans := s.paced out.ans }
  | .event ctx e out => .event ctx e { out with ans := s.paced out.ans }
  | .expire i read ans => .expire i read (s.paced ans)
  | .post i event ans => .post i event (s.paced ans)

/-- `driver::locate` of a registry id, whose assertion ends the program. -/
def locate (s : Live n) (rid : Int) (f : Registered → Registered) : Option (Live n) :=
  if rid = -1 then none
  else
    match s.registrations.findIdx? (·.rid = rid) with
    | none => some s
    | some k => some { s with registrations := s.registrations.modify k f }

end Live

/-- A reload, an action of the SIP driver, an event for a registration, or a control line
that releases one. -/
inductive LiveAction (n : Nat) where
  | reload (keys : String → Option Keydata)
  | sip (a : SipAction n)
  | registration (rid : Int) (e : RegistrationEvent)
  | release (k : Nat)

namespace Live
variable {n : Nat}

def step (s : Live n) : LiveAction n → Option (Live n)
  | .reload keys => s.reload keys
  | .sip a => (s.sip.step s.driver (s.within a)).map fun sip => { s with sip := sip }
  | .registration rid e => s.locate rid (·.handle e)
  | .release k => some (s.releaseAt k)

/-- What a reload must leave alone. -/
structure Frame (s s' : Live n) : Prop where
  contexts : s'.contexts = s.contexts
  registrations : s'.registrations = s.registrations
  server : s'.server = s.server
  sip : s'.sip = s.sip
  realmopt : s'.realmopt = s.realmopt

def Bare (s : Live n) : Prop := ∀ d, s.active = some d → d.activations = []

theorem reload_eq {s : Live n} (bare : s.Bare) {keys : String → Option Keydata} {s' : Live n}
    (reloaded : s.reload keys = some s') :
    s' = { s with
      active := some ⟨keys, []⟩
      settings := Instance.update ⟨keys, []⟩ s.settings
      contexts := .closed } := by
  obtain ⟨orig, active, rfl⟩ := Option.map_eq_some_iff.mp reloaded
  simp only [construct, commit, active, delete, bare orig active, List.foldl_nil]

theorem reload_sip {s s' : Live n} {keys : String → Option Keydata}
    (reloaded : s.reload keys = some s') : s'.sip = s.sip := by
  have released : ∀ (ks : List Nat) (t : Live n), (ks.foldl releaseAt t).sip = t.sip := by
    intro ks
    induction ks with
    | nil => exact fun _ => rfl
    | cons k ks ih => exact fun t => ih (t.releaseAt k)
  obtain ⟨orig, active, rfl⟩ := Option.map_eq_some_iff.mp reloaded
  simp only [construct, commit, active, delete]
  exact released _ _

theorem reload_frame_iff {s : Live n} (bare : s.Bare) {keys : String → Option Keydata}
    {s' : Live n} (reloaded : s.reload keys = some s') :
    s.Frame s' ↔ s.contexts = .closed := by
  rw [reload_eq bare reloaded]
  constructor
  · intro frame
    exact frame.contexts.symm
  · intro closed
    exact ⟨closed.symm, rfl, rfl, rfl, rfl⟩

theorem start_bare (boot : Boot) (keys : String → Option Keydata) (raw : Fin n → Raw)
    (leg : Fin n → Leg) : (start boot keys raw leg).Bare := by
  rintro d active
  cases active
  rfl

theorem step_bare {s s' : Live n} {a : LiveAction n} (bare : s.Bare) (step : s.step a = some s') :
    s'.Bare := by
  cases a with
  | reload keys =>
    rw [reload_eq bare step]
    rintro d active
    cases active
    rfl
  | sip a =>
    obtain ⟨sip, _, rfl⟩ := Option.map_eq_some_iff.mp step
    exact bare
  | registration rid e =>
    simp only [Live.step, locate] at step
    split at step
    · cases step
    · split at step <;> cases step <;> exact bare
  | release k =>
    cases step
    exact bare

theorem step_contexts {s s' : Live n} {a : LiveAction n} (other : ∀ keys, a ≠ .reload keys)
    (step : s.step a = some s') : s'.contexts = s.contexts := by
  cases a with
  | reload keys => exact absurd rfl (other keys)
  | sip a =>
    obtain ⟨sip, _, rfl⟩ := Option.map_eq_some_iff.mp step
    rfl
  | registration rid e =>
    simp only [Live.step, locate] at step
    split at step
    · cases step
    · split at step <;> cases step <;> rfl
  | release k =>
    cases step
    rfl

def Closed (s : Live n) (a : LiveAction n) : Prop :=
  ∀ keys, a = .reload keys → s.contexts = .closed

/-- In every run, each reload changes the active instance and the settings alone and the
contexts stay those opened at the start, if and only if no reload finds an open context. -/
theorem frame_iff_along (boot : Boot) (keys : String → Option Keydata) (raw : Fin n → Raw)
    (leg : Fin n → Leg) (as : List (LiveAction n)) (u : Live n)
    (run : Run.exec step (start boot keys raw leg) as = some u) :
    (Run.Along step (fun s a => ∀ keys, a = .reload keys → ∀ s', s.step a = some s' → s.Frame s')
        (start boot keys raw leg) as ∧
      Run.Always step (fun s => s.contexts = (start boot keys raw leg).contexts)
        (start boot keys raw leg) as) ↔
    Run.Along step Closed (start boot keys raw leg) as := by
  have bare := start_bare boot keys raw leg
  generalize start boot keys raw leg = s₀ at run bare ⊢
  constructor
  · rintro ⟨frames, -⟩
    induction as generalizing s₀ with
    | nil => trivial
    | cons a as ih =>
      obtain ⟨t, moved, run⟩ := Run.exec_cons.mp run
      refine ⟨?_, fun t' moved' => ?_⟩
      · rintro keys rfl
        exact (reload_frame_iff bare moved).mp (frames.1 keys rfl t moved)
      · cases moved.symm.trans moved'
        exact ih t run (step_bare bare moved) (frames.2 t moved)
  · intro closed
    constructor
    · refine closed.strengthen (I := Bare) (fun s a t bare _ => step_bare bare) ?_ bare
      rintro s a bare ok keys rfl s' moved
      exact (reload_frame_iff bare moved).mpr (ok keys rfl)
    · refine Run.Always.of_invariant (I := fun s => s.Bare ∧ s.contexts = s₀.contexts) ?_
        (fun s h => h.2) ⟨bare, rfl⟩ closed
      rintro s a t ⟨bare, same⟩ ok moved
      refine ⟨step_bare bare moved, ?_⟩
      cases a with
      | reload keys => rw [reload_eq bare moved, ← same, ok keys rfl]
      | _ => exact (step_contexts (fun keys => by simp) moved).trans same

def overUdp : Boot where
  realmopt := none
  tcpopt := false
  script := ⟨0, 0, 0, 0, 0, 0⟩
  udp := some 1
  tcp := some 2
  tls := none
  registrations := []
  server := .sample

theorem frame_iff_along_closed :
    let s : Live 1 := start { overUdp with udp := none, tcp := none } (fun _ => none)
      (fun _ => ⟨0, .incoming, none, none, none, none⟩) fun _ => ⟨none, 0, 0⟩
    Run.Along step (fun s a => ∀ keys, a = .reload keys → ∀ s', s.step a = some s' → s.Frame s')
        s [.reload fun _ => none] ∧
      Run.Always step (fun t => t.contexts = s.contexts) s [.reload fun _ => none] :=
  (frame_iff_along _ _ _ _ _ _ rfl).mpr ⟨fun _ _ => rfl, fun _ _ => trivial⟩

/-- The first reload closes the contexts under the event threads. -/
theorem not_frame :
    let s : Live 1 := start overUdp (fun _ => none)
      (fun _ => ⟨0, .incoming, none, none, none, none⟩) fun _ => ⟨none, 0, 0⟩
    ¬ (Run.Along step (fun s a => ∀ keys, a = .reload keys → ∀ s', s.step a = some s' → s.Frame s')
        s [.reload fun _ => none] ∧
      Run.Always step (fun t => t.contexts = s.contexts) s [.reload fun _ => none]) := by
  rintro s ⟨_, always⟩
  have lost := always.last rfl
  revert lost
  decide

end Live

end Bayonne
