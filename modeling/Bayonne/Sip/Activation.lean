import Bayonne.Sip.Voip
import Bayonne.Uri.Interface

/-! How a registration comes about: its constructor in `driver::activate`, which takes the
registry id for the outcome, and what `locate` then finds. -/
namespace Bayonne

structure RegistrationKeys where
  id : String
  get : String → Option String

structure Registrant extends Registered where
  id : String
  expires : UInt32
  userid : Option String
  secret : Option String
  server : Option String
  uri : Option String
  contact : Option String

/-- What the constructor finds: the contexts and the two resolvers, the size of a pointer, the
defaults of the driver, and the result of `Random::uuid`. -/
structure Surroundings (α β : Type) where
  contexts : Contexts
  router : Router α
  interfaces : Interfaces β
  pointer : Nat
  expires : UInt32
  port : UInt32
  uuid : String

namespace RegistrationKeys
variable (keys : RegistrationKeys)

def identity : Option String := (keys.get "identity").or (keys.get "uri")

def server (identity : String) : String := ((keys.get "server").or (keys.get "srv")).getD identity

end RegistrationKeys

namespace Registrant

/-- The zeros of `memget` once the base class has put the registration into the list. -/
def enlisted (base : Nat) (keys : RegistrationKeys) (expires : UInt32) : Registrant where
  reg := ⟨base, "", none, none, none⟩
  context := none
  rid := 0
  activated := false
  id := keys.id
  expires := expires
  userid := none
  secret := none
  server := none
  uri := none
  contact := none

/-- `"%s%s@%s"` -/
def address (user host : List Char) : String :=
  String.ofList (Uri.snprintf 256 ("sip:".toList ++ user ++ '@' :: host))

def contactAddress (uuid : String) (iface : List Char) (port : UInt32) : String :=
  let host := if iface.contains ':' then '[' :: iface ++ [']'] else iface
  address uuid.toList (host ++ ':' :: (toString port.toNat).toList)

variable {α β : Type}

def filled (r : Registrant) (site : Surroundings α β) (keys : RegistrationKeys) (identity : String)
    (ctx : Context) (server : List Char) : Registrant :=
  let user := (Uri.userid 80 (some identity.toList)).2
  let host := (Uri.hostid 256 identity.toList).2
  let own := String.ofList (Uri.userid 256 (some identity.toList)).2
  let iface := Registration.getInterface (some "sip:") site.pointer site.interfaces server 180
  { r with
    reg :=
      { r.reg with
        uuid := site.uuid
        script := some ((keys.get "script").getD r.id)
        targets := keys.get "targets"
        localnames := some ((keys.get "localnames").getD (String.ofList host)) }
    context := some ctx
    server := some (String.ofList server)
    userid := some (((keys.get "userid").or (keys.get "user")).getD own)
    secret := keys.get "secret"
    uri := some (address user host)
    contact := some (contactAddress site.uuid iface site.port)
    rid := -1 }

def request (r : Registrant) (k : Option Context) : Build Context :=
  .initialRegister k r.uri r.server r.contact r.expires.toNat

def numbered (r : Registrant) (rid : Int) : Registrant := { r with rid := rid }

def headers {μ : Type} (lib : Library Context μ) (msg : μ) : μ :=
  lib.setHeader .allowEvents "presence" <| lib.setHeader .event "Registration" <|
    lib.setHeader .supported "100rel" msg

end Registrant

structure Registrar (μ : Type) where
  registrations : List Registrant
  voip : Voip Context μ

namespace Registrar
variable {α β μ : Type} (api : Api) (lib : Library Context μ) (site : Surroundings α β)

def fresh (keys : RegistrationKeys) (s : Registrar μ) : Registrant :=
  .enlisted s.registrations.length keys
    ((keys.get "expires").elim site.expires fun cp => UInt32.ofInt (atoi cp))

/-- The end of the constructor. The builder's code becomes the registry id. -/
def register (r : Registrant) (ctx : Context) (voip : Voip Context μ) :
    Option (Registrant × Voip Context μ) :=
  (voip.makeRegistryRequest api lib ctx r.uri r.server r.contact r.expires.toNat true).map
    fun made =>
      (r.numbered made.ret,
        if -1 ≠ made.ret then
          made.voip.sendRegistryRequest api ctx made.ret (made.msg.map (Registrant.headers lib))
        else made.voip)

/-- `registration::registration`. It returns early where a key is missing, and where there is no
context for the server. -/
def construct (keys : RegistrationKeys) (s : Registrar μ) :
    Option (Registrant × Voip Context μ) :=
  let r := s.fresh site keys
  match keys.identity with
  | none => some (r, s.voip)
  | some identity =>
    match route site.contexts site.router 256 (keys.server identity).toList with
    | (none, _) => some (r, s.voip)
    | (some ctx, server) => register api lib (r.filled site keys identity ctx server) ctx s.voip

/-- `driver::activate`: null, or an error. The new registration is the first of the list. -/
def activate (keys : RegistrationKeys) (s : Registrar μ) : Option (Option String × Registrar μ) :=
  (construct api lib site keys s).map fun (r, voip) =>
    (if r.rid ≠ -1 then none else some "failed registration", ⟨r :: s.registrations, voip⟩)

def locate (s : Registrar μ) (rid : Int) : Option Nat := s.registrations.findIdx? (·.rid = rid)

variable {api lib site} {keys : RegistrationKeys} {s : Registrar μ}

/-- What the constructor does with the library is what the wrappers were shown to do. -/
theorem register_voip (r : Registrant) (ctx : Context) (voip : Voip Context μ) :
    (register api lib r ctx voip).map (·.2) =
      voip.registration api lib (some ctx) r.uri r.server r.contact r.expires.toNat := by
  rw [register, Option.map_map]
  rfl

def Unresolved (site : Surroundings α β) (keys : RegistrationKeys) : Prop :=
  ∀ identity, keys.identity = some identity →
    (route site.contexts site.router 256 (keys.server identity).toList).1 = none

/-- An early return leaves the registry id at the zero of the memory. -/
theorem activate_unresolved (unresolved : Unresolved site keys) :
    s.activate api lib site keys =
      some (none, { s with registrations := s.fresh site keys :: s.registrations }) := by
  have early : s.construct api lib site keys = some (s.fresh site keys, s.voip) := by
    cases named : keys.identity with
    | none => simp only [construct, named]
    | some identity =>
      have lost := unresolved identity named
      simp only [construct, named]
      split
      · rfl
      · rename_i found
        rw [found] at lost
        cases lost
  rw [activate, early, Option.map_some]
  rfl

def registers (lib : Library Context μ) (k : Option Context) (built : Built μ) :
    List (Call Context μ) :=
  if built.code = -1 then []
  else built.msg.toList.map fun msg =>
    .registerSendRegister k built.code (Registrant.headers lib msg)

theorem send_calls (v : Voip Context μ) (ctx : Context) (rid : Int) (msg : Option μ) (f : μ → μ) :
    (v.sendRegistryRequest api ctx rid (msg.map f)).calls =
      v.calls ++ msg.toList.map fun m => .registerSendRegister (api.context ctx) rid (f m) := by
  cases msg with
  | none => exact (List.append_nil _).symm
  | some m => rfl

theorem register_eq {r : Registrant} {ctx : Context} (voip : Voip Context μ) {built : Built μ}
    (outcome : lib.build (r.request (api.context ctx)) = built) :
    ∃ v, register api lib r ctx voip = some (r.numbered built.code, v) ∧
      v.calls = voip.calls ++ registers lib (api.context ctx) built := by
  have made := Voip.registry_eq (s := voip) outcome
  have kept : (if api = .older ∨ built.msg.isSome then voip.lock (api.context ctx)
      else voip).calls = voip.calls := by
    split <;> rfl
  refine ⟨_, by rw [register, made]; rfl, ?_⟩
  by_cases refused : built.code = -1
  · rw [if_neg (fun sends => sends refused.symm), kept, registers, if_pos refused]
    exact (List.append_nil _).symm
  · rw [if_pos (Ne.symm refused), send_calls, kept, registers, if_neg refused]

section Activated
variable {identity : String} {ctx : Context} {server : List Char}

def asking (site : Surroundings α β) (keys : RegistrationKeys) (s : Registrar μ) (identity : String)
    (ctx : Context) (server : List Char) : Registrant :=
  (s.fresh site keys).filled site keys identity ctx server

theorem activate_resolved (named : keys.identity = some identity)
    (found : route site.contexts site.router 256 (keys.server identity).toList = (some ctx, server))
    {built : Built μ} (outcome :
      lib.build ((s.asking site keys identity ctx server).request (api.context ctx)) = built) :
    ∃ v, s.activate api lib site keys =
        some (if built.code ≠ -1 then none else some "failed registration",
          ⟨(s.asking site keys identity ctx server).numbered built.code :: s.registrations, v⟩) ∧
      v.calls = s.voip.calls ++ registers lib (api.context ctx) built := by
  obtain ⟨v, registered, calls⟩ := register_eq s.voip outcome
  have constructed : s.construct api lib site keys =
      some ((s.asking site keys identity ctx server).numbered built.code, v) := by
    rw [construct, named]
    simp only [found]
    exact registered
  exact ⟨v, by rw [activate, constructed]; rfl, calls⟩

def Hands (s t : Registrar μ) (k : Option Context) : Prop :=
  ∃ rid msg, t.voip.calls = s.voip.calls ++ [.registerSendRegister k rid msg]

/-- Success means a REGISTER with the id of the library. In every other case there is an error,
and no id finds the registration, which is the first of the list. -/
structure Activated (lib : Library Context μ) (s t : Registrar μ) (r : Registrant)
    (ret : Option String) : Prop where
  handed : ∀ k, Hands s t k → ret = none ∧ r.rid = (lib.build (r.request k)).code
  other : (∀ k, ¬ Hands s t k) → ret ≠ none ∧ ∀ rid, rid ≠ -1 → t.locate rid ≠ some 0

/-- The library has answered for the registration: it refuses by the one code that is looked at, or
there is a message to send. -/
def Answered (api : Api) (lib : Library Context μ) (site : Surroundings α β)
    (keys : RegistrationKeys) (s : Registrar μ) : Prop :=
  ∃ identity ctx server, keys.identity = some identity ∧
    route site.contexts site.router 256 (keys.server identity).toList = (some ctx, server) ∧
    let built := lib.build ((s.asking site keys identity ctx server).request (api.context ctx))
    built.code = -1 ∨ built.msg ≠ none

theorem locate_first (r : Registrant) (rs : List Registrant) (voip : Voip Context μ) (rid : Int) :
    (Registrar.mk (r :: rs) voip).locate rid = some 0 ↔ r.rid = rid := by
  simp [locate, List.findIdx?_cons]

theorem not_hands {t : Registrar μ} (same : t.voip.calls = s.voip.calls) (k : Option Context) :
    ¬ Hands s t k := by
  rintro ⟨rid, msg, more⟩
  rw [same] at more
  exact List.cons_ne_nil _ _ (List.self_eq_append_right.mp more)

theorem activated_silent {t : Registrar μ} {r : Registrant} {ret : Option String}
    (same : t.voip.calls = s.voip.calls) (first : ∃ rs voip, t = ⟨r :: rs, voip⟩)
    (told : ret = none ↔ r.rid ≠ -1) : Activated lib s t r ret ↔ r.rid = -1 := by
  obtain ⟨rs, voip, rfl⟩ := first
  constructor
  · intro activated
    by_contra given
    exact (activated.other (not_hands same)).1 (told.mpr given)
  · intro none
    refine ⟨fun k hands => absurd hands (not_hands same k), fun _ => ⟨?_, ?_⟩⟩
    · exact fun success => told.mp success none
    · intro rid other here
      exact other ((locate_first _ _ _ _).mp here ▸ none)

theorem activated_sent {t : Registrar μ} {r : Registrant} {k : Option Context} {rid : Int} {msg : μ}
    (sent : t.voip.calls = s.voip.calls ++ [.registerSendRegister k rid msg])
    (own : r.rid = (lib.build (r.request k)).code) : Activated lib s t r none := by
  refine ⟨?_, fun silent => absurd ⟨rid, msg, sent⟩ (silent k)⟩
  rintro k' ⟨rid', msg', again⟩
  rw [sent] at again
  cases List.append_cancel_left again
  exact ⟨rfl, own⟩

theorem answered_iff (named : keys.identity = some identity)
    (found : route site.contexts site.router 256 (keys.server identity).toList = (some ctx, server))
    {built : Built μ} (outcome :
      lib.build ((s.asking site keys identity ctx server).request (api.context ctx)) = built) :
    Answered api lib site keys s ↔ built.code = -1 ∨ built.msg ≠ none := by
  constructor
  · rintro ⟨identity', ctx', server', named', found', answer⟩
    rw [named] at named'
    cases named'
    rw [found] at found'
    cases found'
    exact outcome ▸ answer
  · intro answer
    exact ⟨identity, ctx, server, named, found, outcome.symm ▸ answer⟩

theorem activated_resolved (named : keys.identity = some identity)
    (found : route site.contexts site.router 256 (keys.server identity).toList = (some ctx, server))
    {built : Built μ} (outcome :
      lib.build ((s.asking site keys identity ctx server).request (api.context ctx)) = built) :
    ∃ ret r t, s.activate api lib site keys = some (ret, t) ∧
      t.registrations = r :: s.registrations ∧
      (Activated lib s t r ret ↔ built.code = -1 ∨ built.msg ≠ none) := by
  obtain ⟨v, activated, calls⟩ := activate_resolved named found outcome
  refine ⟨_, _, _, activated, rfl, ?_⟩
  by_cases refused : built.code = -1
  · rw [registers, if_pos refused, List.append_nil] at calls
    refine (activated_silent calls ⟨_, _, rfl⟩ ?_).trans (iff_of_true refused (.inl refused))
    exact iff_of_false (by simp [refused]) fun given => given refused
  · rw [registers, if_neg refused] at calls
    cases produced : built.msg with
    | none =>
      rw [produced] at calls
      refine (activated_silent (calls.trans (List.append_nil _)) ⟨_, _, rfl⟩ ?_).trans ?_
      · exact iff_of_true (if_pos refused) refused
      · exact iff_of_false refused (by simp [refused])
    | some m =>
      rw [produced] at calls
      rw [if_pos refused]
      exact iff_of_true (activated_sent calls (congrArg Built.code outcome).symm) (.inr nofun)

/-- For all keys and every answer of the resolver and the library, the activation is right exactly
if the registration has a name and a context, and the builder fails by the code that is looked at
or gives a message. -/
theorem activated_iff_answered (api : Api) (lib : Library Context μ) (site : Surroundings α β)
    (keys : RegistrationKeys) (s : Registrar μ) :
    ∃ ret r t, s.activate api lib site keys = some (ret, t) ∧
      t.registrations = r :: s.registrations ∧
      (Activated lib s t r ret ↔ Answered api lib site keys s) := by
  by_cases unresolved : Unresolved site keys
  · refine ⟨_, _, _, activate_unresolved unresolved, rfl, ?_⟩
    have silent : Activated lib s ⟨s.fresh site keys :: s.registrations, s.voip⟩
        (s.fresh site keys) none ↔ (0 : Int) = -1 :=
      activated_silent rfl ⟨_, _, rfl⟩ (iff_of_true rfl (by decide : (0 : Int) ≠ -1))
    refine silent.trans (iff_of_false (by decide) ?_)
    rintro ⟨identity, ctx, server, named, found, -⟩
    have lost := unresolved identity named
    rw [found] at lost
    cases lost
  · obtain ⟨identity, named, reached⟩ : ∃ identity, keys.identity = some identity ∧
        (route site.contexts site.router 256 (keys.server identity).toList).1 ≠ none := by
      simpa [Unresolved] using unresolved
    obtain ⟨ctx, routed⟩ := Option.ne_none_iff_exists'.mp reached
    have found : route site.contexts site.router 256 (keys.server identity).toList =
        (some ctx, (route site.contexts site.router 256 (keys.server identity).toList).2) :=
      Prod.ext routed rfl
    rw [answered_iff named found rfl]
    exact activated_resolved named found rfl

def offline : Surroundings Unit Unit where
  contexts := .closed
  router := ⟨fun _ => false, fun _ => none, fun _ => false, fun _ => none, fun _ => 0⟩
  interfaces := ⟨fun _ => none, fun _ => none, fun _ _ => []⟩
  pointer := 8
  expires := 300
  port := 5060
  uuid := "5f0c"

def nameless : RegistrationKeys := ⟨"provider", fun _ => none⟩

/-- Without `identity` and `uri` a registration succeeds that the library never hears of. -/
theorem not_activated : ¬ ∀ (lib : Library Context Unit) (keys : RegistrationKeys)
    (s t : Registrar Unit) (r : Registrant) (ret : Option String),
    s.activate .api4 lib offline keys = some (ret, t) → t.registrations = r :: s.registrations →
      Activated lib s t r ret := by
  intro all
  let empty : Registrar Unit := ⟨[], ⟨fun _ => 0, []⟩⟩
  have activated := all Voip.refusing nameless empty
    ⟨[empty.fresh offline nameless], ⟨fun _ => 0, []⟩⟩ (empty.fresh offline nameless) none rfl rfl
  exact (activated.other (not_hands rfl)).1 rfl

end Activated

end Registrar

end Bayonne
