import Bayonne.Sip

/-! The wrappers of the user agent library. A `make_` function takes the lock of the library
and keeps it for the message it returns, and the `send_` function gives it back; the wrappers
are written once for each generation of the library. -/
namespace Bayonne

/-- `EXOSIP_API4`, or the library before it, which has one lock and no contexts. -/
inductive Api where
  | api4 | older
  deriving DecidableEq, Repr

def Api.context {κ : Type} (ctx : κ) : Api → Option κ
  | .api4 => some ctx
  | .older => none

inductive Build (κ : Type) where
  | messageRequest (ctx : Option κ) (method to' from' route : Option String)
  | messageAnswer (ctx : Option κ) (tid status : Int)
  | callAck (ctx : Option κ) (did : Int)
  | callPrack (ctx : Option κ) (tid : Int)
  | optionsAnswer (ctx : Option κ) (tid status : Int)
  | callAnswer (ctx : Option κ) (tid status : Int)
  | callRequest (ctx : Option κ) (did : Int) (method : Option String)
  | callNotify (ctx : Option κ) (did status : Int)
  | callUpdate (ctx : Option κ) (did : Int)
  | callRefer (ctx : Option κ) (did : Int) (to' : Option String)
  | callInfo (ctx : Option κ) (did : Int)
  | callOptions (ctx : Option κ) (did : Int)
  | initialInvite (ctx : Option κ) (to' from' route subject : Option String)
  | initialRegister (ctx : Option κ) (uri s c : Option String) (exp : Nat)

/-- The calls that hand something to the library. -/
inductive Call (κ μ : Type) where
  | messageSendAnswer (ctx : Option κ) (tid status : Int) (msg : Option μ)
  | callSendAck (ctx : Option κ) (did : Int) (msg : Option μ)
  | callSendPrack (ctx : Option κ) (tid : Int) (msg : Option μ)
  | optionsSendAnswer (ctx : Option κ) (tid status : Int) (msg : Option μ)
  | callSendAnswer (ctx : Option κ) (tid status : Int) (msg : Option μ)
  | messageSendRequest (ctx : Option κ) (msg : μ)
  | callTerminate (ctx : Option κ) (cid did : Int)
  | callSendRequest (ctx : Option κ) (did : Int) (msg : μ)
  | callSendInitialInvite (ctx : Option κ) (msg : μ)
  | registerSendRegister (ctx : Option κ) (rid : Int) (msg : μ)

inductive Header where
  | accept | allow | allowEvents | wwwAuthenticate | supported | event
  deriving DecidableEq, Repr

/-- What a builder returns, and the message it leaves if it produces one. -/
structure Built (μ : Type) where
  code : Int
  msg : Option μ

/-- The library: its builders, the call id of an initial INVITE and the headers of messages. -/
structure Library (κ μ : Type) where
  build : Build κ → Built μ
  invited : Option κ → μ → Int
  setHeader : Header → String → μ → μ

/-- How deep each lock is held, and what was handed to the library. -/
structure Voip (κ μ : Type) where
  depth : Option κ → Int
  calls : List (Call κ μ)

structure Made (ρ κ μ : Type) where
  ret : ρ
  msg : Option μ
  voip : Voip κ μ

namespace Voip
variable {κ μ : Type}

def call (s : Voip κ μ) (c : Call κ μ) : Voip κ μ := { s with calls := s.calls ++ [c] }

@[simp] theorem call_depth (s : Voip κ μ) (c : Call κ μ) : (s.call c).depth = s.depth := rfl

variable [DecidableEq κ]

def lock (s : Voip κ μ) (k : Option κ) : Voip κ μ :=
  { s with depth := Function.update s.depth k (s.depth k + 1) }

def unlock (s : Voip κ μ) (k : Option κ) : Voip κ μ :=
  { s with depth := Function.update s.depth k (s.depth k - 1) }

@[simp] theorem unlock_lock (s : Voip κ μ) (k : Option κ) : (s.lock k).unlock k = s := by
  simp [lock, unlock]

section Wrappers
variable (api : Api) (lib : Library κ μ) (ctx : κ) (s : Voip κ μ)

/-- The body that the `make_` functions share: without a message the lock is given back. -/
def keep (b : Option κ → Build κ) : Made Bool κ μ :=
  let k := api.context ctx
  let s := s.lock k
  match (lib.build (b k)).msg with
  | none => ⟨false, none, s.unlock k⟩
  | some m => ⟨true, some m, s⟩

/-- All but two of them look whether there is a place for the message. -/
def make (place : Bool) (b : Option κ → Build κ) : Option (Made Bool κ μ) :=
  if place then some (keep api lib ctx s b) else some ⟨false, none, s⟩

/-- A `send_` function that can answer by status alone takes the lock for that. -/
def answer (c : Option κ → Call κ μ) (msg : Option μ) : Voip κ μ :=
  let k := api.context ctx
  let s := if msg.isNone then s.lock k else s
  (s.call (c k)).unlock k

/-- The others do nothing without a message. -/
def deliver (c : Option κ → μ → Call κ μ) : Option μ → Voip κ μ
  | none => s
  | some m => (s.call (c (api.context ctx) m)).unlock (api.context ctx)

def makeRequestMessage (method to' from' : Option String) (place : Bool) (route : Option String) :=
  make api lib ctx s place (.messageRequest · method to' from' route)

def makeResponseMessage (tid status : Int) (place : Bool) :=
  make api lib ctx s place (.messageAnswer · tid status)

def sendResponseMessage (tid status : Int) (msg : Option μ) :=
  answer api ctx s (.messageSendAnswer · tid status msg) msg

def makeAckMessage (did : Int) (place : Bool) := make api lib ctx s place (.callAck · did)

def sendAckMessage (tid : Int) (msg : Option μ) :=
  answer api ctx s (.callSendAck · tid msg) msg

def makePrackMessage (tid : Int) (place : Bool) := make api lib ctx s place (.callPrack · tid)

def sendPrackMessage (tid : Int) (msg : Option μ) :=
  answer api ctx s (.callSendPrack · tid msg) msg

def makeOptionsResponse (tid status : Int) (place : Bool) :=
  make api lib ctx s place (.optionsAnswer · tid status)

def sendOptionsResponse (tid status : Int) (msg : Option μ) :=
  answer api ctx s (.optionsSendAnswer · tid status msg) msg

def makeAnswerResponse (tid status : Int) (place : Bool) :=
  make api lib ctx s place (.callAnswer · tid status)

def sendAnswerResponse (tid status : Int) (msg : Option μ) :=
  answer api ctx s (.callSendAnswer · tid status msg) msg

def sendRequestMessage (msg : Option μ) := deliver api ctx s .messageSendRequest msg

def releaseCall (cid did : Int) : Voip κ μ :=
  let k := api.context ctx
  ((s.lock k).call (.callTerminate k cid did)).unlock k

def makeDialogRequest (did : Int) (method : Option String) (place : Bool) :=
  make api lib ctx s place (.callRequest · did method)

def makeDialogNotify (did status : Int) (place : Bool) :=
  make api lib ctx s place (.callNotify · did status)

def makeDialogUpdate (did : Int) (place : Bool) := make api lib ctx s place (.callUpdate · did)

def makeDialogRefer (did : Int) (to' : Option String) (place : Bool) :=
  make api lib ctx s place (.callRefer · did to')

def makeDialogInfo (did : Int) (place : Bool) := make api lib ctx s place (.callInfo · did)

def makeDialogOptions (did : Int) (place : Bool) := make api lib ctx s place (.callOptions · did)

def sendDialogMessage (did : Int) (msg : Option μ) :=
  deliver api ctx s (.callSendRequest · did) msg

def makeInviteRequest (to' from' subject : Option String) (place : Bool) (route : Option String) :
    Option (Made Bool κ μ) :=
  if place then some (keep api lib ctx s (.initialInvite · to' from' route subject)) else none

def sendInviteRequest (msg : Option μ) : Int × Voip κ μ :=
  match msg with
  | none => (-1, s)
  | some m => (lib.invited (api.context ctx) m,
      (s.call (.callSendInitialInvite (api.context ctx) m)).unlock (api.context ctx))

/-- The older body tests the place where the message would be, which is there, and keeps the
lock also without a message. -/
def makeRegistryRequest (uri server contact : Option String) (exp : Nat) (place : Bool) :
    Option (Made Int κ μ) :=
  let k := api.context ctx
  let built := lib.build (.initialRegister k uri server contact exp)
  let t := s.lock k
  match api with
  | .api4 =>
    if place then
      some ⟨built.code, built.msg, if built.msg.isNone then t.unlock k else t⟩
    else none
  | .older =>
    if !place then some ⟨-1, none, s⟩
    else some ⟨built.code, built.msg, if !place then t.unlock k else t⟩

def sendRegistryRequest (rid : Int) (msg : Option μ) :=
  deliver api ctx s (.registerSendRegister · rid) msg

end Wrappers

def serverAccepts (lib : Library κ μ) (msg : μ) : μ :=
  lib.setHeader .accept "application/sdp, text/plain" msg

def serverAllows (lib : Library κ μ) (msg : μ) : μ :=
  lib.setHeader .allowEvents "talk, hold, refer" (lib.setHeader .allow
    "INVITE,ACK,CANCEL,OPTIONS,INFO,REFER,MESSAGE,SUBSCRIBE,NOTIFY,REGISTER,PRACK" msg)

/-- Where `thread::invite` leaves: at `reply` with the error, if there is one, or at
`challenge` with the text of the header. -/
inductive Exit where
  | reply (error : Option Status)
  | challenge (buffer : String)

section Callers
variable (api : Api) (lib : Library κ μ) (ctx : κ) (s : Voip κ μ)

def options (tid : Int) : Option (Voip κ μ) :=
  (s.makeOptionsResponse api lib ctx tid Status.ok.code true).map fun made =>
    if made.ret then
      made.voip.sendOptionsResponse api ctx tid Status.ok.code
        (made.msg.map fun reply => serverAllows lib (serverAccepts lib reply))
    else made.voip.sendOptionsResponse api ctx tid Status.badRequest.code none

def invite (tid : Int) : Exit → Option (Voip κ μ)
  | .reply none => some s
  | .reply (some error) => some (s.sendAnswerResponse api ctx tid error.code none)
  | .challenge buffer =>
    (s.makeAnswerResponse api lib ctx tid Status.unauthorized.code true).map fun made =>
      if made.ret then
        made.voip.sendAnswerResponse api ctx tid Status.unauthorized.code
          (made.msg.map fun reply =>
            lib.setHeader .wwwAuthenticate buffer <|
              lib.setHeader .allowEvents "talk, hold, refer" <|
                lib.setHeader .allow ("INVITE, ACK, CANCEL, BYE, REFER, OPTIONS, NOTIFY, " ++
                  "SUBSCRIBE, PRACK, MESSAGE, INFO") reply)
      else made.voip

def drop (connected : Bool) (cid did tid : Int) : Voip κ μ :=
  if connected then s.releaseCall api ctx cid did
  else if tid ≠ -1 then s.sendResponseMessage api ctx tid Status.decline.code none
  else s

/-- The end of the registration constructor: nothing without a context. -/
def registration (ctx : Option κ) (uri server contact : Option String) (expires : Nat) :
    Option (Voip κ μ) :=
  match ctx with
  | none => some s
  | some ctx =>
    (s.makeRegistryRequest api lib ctx uri server contact expires true).map fun made =>
      if -1 ≠ made.ret then
        made.voip.sendRegistryRequest api ctx made.ret
          (made.msg.map fun msg =>
            lib.setHeader .allowEvents "presence" <| lib.setHeader .event "Registration" <|
              lib.setHeader .supported "100rel" msg)
      else made.voip

end Callers

/-- A `make_` function and the `send_` function for its messages, with their arguments. -/
inductive Pair where
  | request (method to' from' route : Option String)
  | response (tid status : Int)
  | options (tid status : Int)
  | answer (tid status : Int)
  | ack (did : Int)
  | prack (tid : Int)
  | dialog (did : Int) (method : Option String)
  | notify (did status : Int)
  | update (did : Int)
  | refer (did : Int) (to' : Option String)
  | info (did : Int)
  | dialogOptions (did : Int)
  | invite (to' from' subject route : Option String)
  | registry (uri server contact : Option String) (exp : Nat) (rid : Int)

namespace Pair
variable (api : Api) (lib : Library κ μ) (ctx : κ) (s : Voip κ μ)

def made {ρ : Type} (made : Option (Made ρ κ μ)) : Option (Option μ × Voip κ μ) :=
  made.map fun made => (made.msg, made.voip)

def make : Pair → Option (Option μ × Voip κ μ)
  | .request method to' from' route =>
    made (s.makeRequestMessage api lib ctx method to' from' true route)
  | .response tid status => made (s.makeResponseMessage api lib ctx tid status true)
  | .options tid status => made (s.makeOptionsResponse api lib ctx tid status true)
  | .answer tid status => made (s.makeAnswerResponse api lib ctx tid status true)
  | .ack did => made (s.makeAckMessage api lib ctx did true)
  | .prack tid => made (s.makePrackMessage api lib ctx tid true)
  | .dialog did method => made (s.makeDialogRequest api lib ctx did method true)
  | .notify did status => made (s.makeDialogNotify api lib ctx did status true)
  | .update did => made (s.makeDialogUpdate api lib ctx did true)
  | .refer did to' => made (s.makeDialogRefer api lib ctx did to' true)
  | .info did => made (s.makeDialogInfo api lib ctx did true)
  | .dialogOptions did => made (s.makeDialogOptions api lib ctx did true)
  | .invite to' from' subject route =>
    made (s.makeInviteRequest api lib ctx to' from' subject true route)
  | .registry uri server contact exp _ =>
    made (s.makeRegistryRequest api lib ctx uri server contact exp true)

def send (msg : Option μ) : Pair → Voip κ μ
  | .request _ _ _ _ => s.sendRequestMessage api ctx msg
  | .response tid status => s.sendResponseMessage api ctx tid status msg
  | .options tid status => s.sendOptionsResponse api ctx tid status msg
  | .answer tid status => s.sendAnswerResponse api ctx tid status msg
  | .ack did => s.sendAckMessage api ctx did msg
  | .prack tid => s.sendPrackMessage api ctx tid msg
  | .dialog did _ | .notify did _ | .update did | .refer did _ | .info did
  | .dialogOptions did => s.sendDialogMessage api ctx did msg
  | .invite _ _ _ _ => (s.sendInviteRequest api lib ctx msg).2
  | .registry _ _ _ _ rid => s.sendRegistryRequest api ctx rid msg

def Answers : Pair → Prop
  | .response _ _ | .options _ _ | .answer _ _ | .ack _ | .prack _ => True
  | _ => False

/-- A message is returned with the lock held once more, and gives it back when it is sent. -/
structure Level (p : Pair) : Prop where
  made : ∀ s : Voip κ μ, ∃ msg t, p.make api lib ctx s = some (msg, t) ∧
    t.depth = if msg.isSome then (s.lock (api.context ctx)).depth else s.depth
  sent : ∀ (s t : Voip κ μ) (m m' : μ), p.make api lib ctx s = some (some m, t) →
    (p.send api lib ctx t (some m')).depth = s.depth
  answered : p.Answers → ∀ s : Voip κ μ, (p.send api lib ctx s none).depth = s.depth

end Pair

section Depth
variable {api : Api} {lib : Library κ μ} {ctx : κ} {s t : Voip κ μ}

theorem lock_ne (k : Option κ) : (s.lock k).depth ≠ s.depth := by
  intro same
  have here := congrFun same k
  simp only [lock, Function.update_self] at here
  omega

theorem unlock_depth {k : Option κ} (held : t.depth = (s.lock k).depth) :
    (t.unlock k).depth = s.depth := by
  have back : (t.unlock k).depth = ((s.lock k).unlock k).depth := by simp only [unlock, held]
  rw [back, unlock_lock]

theorem keep_eq (b : Option κ → Build κ) {msg : Option μ}
    (built : (lib.build (b (api.context ctx))).msg = msg) :
    keep api lib ctx s b =
      ⟨msg.isSome, msg, if msg.isSome then s.lock (api.context ctx) else s⟩ := by
  cases msg <;> simp [keep, built]

theorem registry_eq {uri server contact : Option String} {exp : Nat} {built : Built μ}
    (outcome : lib.build (.initialRegister (api.context ctx) uri server contact exp) = built) :
    s.makeRegistryRequest api lib ctx uri server contact exp true =
      some ⟨built.code, built.msg,
        if api = .older ∨ built.msg.isSome then s.lock (api.context ctx) else s⟩ := by
  cases api <;> cases msg : built.msg <;> simp [makeRegistryRequest, outcome, msg]

theorem answer_none (c : Option κ → Call κ μ) : (answer api ctx s c none).depth = s.depth :=
  unlock_depth rfl

end Depth

namespace Pair
variable {api : Api} {lib : Library κ μ} {ctx : κ} {p : Pair}

theorem send_depth (t : Voip κ μ) (m : μ) :
    (p.send api lib ctx t (some m)).depth = (t.unlock (api.context ctx)).depth := by
  cases p <;> rfl

def Registry : Pair → Prop
  | .registry _ _ _ _ _ => True
  | _ => False

theorem make_keep (other : ¬ p.Registry) (s : Voip κ μ) : ∃ b, p.make api lib ctx s =
    some ((keep api lib ctx s b).msg, (keep api lib ctx s b).voip) := by
  cases p with
  | registry => exact absurd trivial other
  | _ => exact ⟨_, rfl⟩

theorem send_none (answers : p.Answers) (s : Voip κ μ) :
    (p.send api lib ctx s none).depth = s.depth := by
  cases p with
  | response | options | answer | ack | prack => exact answer_none _
  | _ => cases answers

/-- What the make says about the lock decides what the pair does. -/
theorem level_of_made (made : ∀ s : Voip κ μ, ∃ msg t, p.make api lib ctx s = some (msg, t) ∧
    t.depth = if msg.isSome then (s.lock (api.context ctx)).depth else s.depth) :
    p.Level api lib ctx where
  made := made
  sent s t m m' returned := by
    obtain ⟨msg, t', same, depth⟩ := made s
    cases returned.symm.trans same
    rw [send_depth]
    exact unlock_depth depth
  answered := send_none

theorem level_of_other (other : ¬ p.Registry) : p.Level api lib ctx := by
  refine level_of_made fun s => ?_
  obtain ⟨b, made⟩ := make_keep other s
  refine ⟨_, _, made, ?_⟩
  rw [keep_eq b rfl]
  split <;> rfl

def Produced (api : Api) (lib : Library κ μ) (ctx : κ) : Pair → Prop
  | .registry uri server contact exp _ => api = .older →
      (lib.build (.initialRegister (api.context ctx) uri server contact exp)).msg ≠ none
  | _ => True

theorem level_iff : p.Level api lib ctx ↔ p.Produced api lib ctx := by
  cases p with
  | registry uri server contact exp rid =>
    simp only [Produced]
    constructor
    · rintro ⟨made, -, -⟩ rfl none
      obtain ⟨msg, t, returned, depth⟩ := made ⟨fun _ => 0, []⟩
      simp only [make, Pair.made, registry_eq rfl, none] at returned
      cases returned
      exact lock_ne _ depth
    · intro produced
      refine level_of_made fun s => ?_
      simp only [make, Pair.made, registry_eq rfl]
      refine ⟨_, _, rfl, ?_⟩
      cases api with
      | api4 => simp only [reduceCtorEq, false_or]; split <;> rfl
      | older => simp [produced rfl]
  | _ => exact iff_of_true (level_of_other id) trivial

end Pair

inductive Use (κ : Type) where
  | pair (ctx : κ) (p : Pair)
  | options (ctx : κ) (tid : Int)
  | invite (ctx : κ) (tid : Int) (exit : Exit)
  | drop (ctx : κ) (connected : Bool) (cid did tid : Int)
  | registration (ctx : Option κ) (uri server contact : Option String) (expires : Nat)

/-- The function returns, and leaves every lock as deep as it was. -/
def Steady (f : Voip κ μ → Option (Voip κ μ)) : Prop :=
  ∀ s, ∃ t, f s = some t ∧ t.depth = s.depth

namespace Use
variable (api : Api) (lib : Library κ μ)

def Level : Use κ → Prop
  | .pair ctx p => p.Level api lib ctx
  | .options ctx tid => Steady fun s => s.options api lib ctx tid
  | .invite ctx tid exit => Steady fun s => s.invite api lib ctx tid exit
  | .drop ctx connected cid did tid =>
    Steady fun s : Voip κ μ => some (s.drop api ctx connected cid did tid)
  | .registration ctx uri server contact expires =>
    Steady fun s => s.registration api lib ctx uri server contact expires

/-- What the code needs of the outcome of `eXosip_register_build_initial_register`. -/
def Fits : Use κ → Prop
  | .pair ctx p => p.Produced api lib ctx
  | .registration (some ctx) uri server contact expires =>
    let built := lib.build (.initialRegister (api.context ctx) uri server contact expires)
    (api = .older ∨ built.msg ≠ none) → built.msg ≠ none ∧ built.code ≠ -1
  | _ => True

end Use

section Callers
variable {api : Api} {lib : Library κ μ} {ctx : κ}

theorem options_steady (tid : Int) : Steady fun s => s.options api lib ctx tid := by
  intro s
  simp only [options, makeOptionsResponse, make, if_true, Option.map_some, keep_eq _ rfl]
  refine ⟨_, rfl, ?_⟩
  cases (lib.build (.optionsAnswer (api.context ctx) tid Status.ok.code)).msg with
  | none => exact unlock_depth rfl
  | some m => exact unlock_depth rfl

theorem invite_steady (tid : Int) (exit : Exit) : Steady fun s => s.invite api lib ctx tid exit := by
  intro s
  cases exit with
  | reply error =>
    cases error with
    | none => exact ⟨s, rfl, rfl⟩
    | some error => exact ⟨_, rfl, unlock_depth rfl⟩
  | challenge buffer =>
    simp only [invite, makeAnswerResponse, make, if_true, Option.map_some, keep_eq _ rfl]
    refine ⟨_, rfl, ?_⟩
    cases (lib.build (.callAnswer (api.context ctx) tid Status.unauthorized.code)).msg with
    | none => rfl
    | some m => exact unlock_depth rfl

theorem drop_depth (s : Voip κ μ) (connected : Bool) (cid did tid : Int) :
    (s.drop api ctx connected cid did tid).depth = s.depth := by
  simp only [drop]
  split
  · exact unlock_depth rfl
  · split
    · exact unlock_depth rfl
    · rfl

/-- The constructor gives the lock back only for a message and an id. -/
theorem registration_steady {uri server contact : Option String} {expires : Nat} {built : Built μ}
    (outcome : lib.build (.initialRegister (api.context ctx) uri server contact expires) = built) :
    (Steady fun s => s.registration api lib (some ctx) uri server contact expires) ↔
      ((api = .older ∨ built.msg ≠ none) → built.msg ≠ none ∧ built.code ≠ -1) := by
  simp only [Steady, registration, registry_eq outcome, Option.map_some, Option.some.injEq,
    exists_eq_left']
  have locked : ¬ ∀ s : Voip κ μ, (s.lock (api.context ctx)).depth = s.depth :=
    fun all => lock_ne _ (all ⟨fun _ => 0, []⟩)
  cases built.msg with
  | none =>
    by_cases older : api = .older
    · subst older
      simpa [sendRegistryRequest, deliver] using not_forall.mp locked
    · simp [sendRegistryRequest, deliver, older]
  | some m =>
    by_cases refused : built.code = -1
    · simpa [refused] using not_forall.mp locked
    · have back : ∀ (s : Voip κ μ) (m : μ), ((s.lock (api.context ctx)).sendRegistryRequest api ctx
          built.code (some m)).depth = s.depth := fun s m => unlock_depth rfl
      simp [refused, Ne.symm refused, back]

end Callers

/-- Exactly the outcomes of the REGISTER builder decide whether the locks are left as they were
found. -/
theorem steady_iff_fits (api : Api) (lib : Library κ μ) (u : Use κ) :
    u.Level api lib ↔ u.Fits api lib := by
  cases u with
  | pair ctx p => exact Pair.level_iff
  | options ctx tid => exact iff_of_true (options_steady tid) trivial
  | invite ctx tid exit => exact iff_of_true (invite_steady tid exit) trivial
  | drop ctx connected cid did tid =>
    exact iff_of_true (fun s => ⟨_, rfl, drop_depth s connected cid did tid⟩) trivial
  | registration ctx uri server contact expires =>
    cases ctx with
    | none => exact iff_of_true (fun s => ⟨s, rfl, rfl⟩) trivial
    | some ctx => exact registration_steady rfl

def refusing : Library Context Unit where
  build := fun _ => ⟨-1, none⟩
  invited := fun _ _ => -1
  setHeader := fun _ _ msg => msg

/-- A REGISTER that the older library refuses leaves its lock held. -/
theorem not_level : ¬ ∀ (api : Api) (lib : Library Context Unit) (u : Use Context),
    u.Level api lib := by
  intro whole
  obtain ⟨t, ran, depth⟩ :=
    whole .older refusing (.registration (some 0) none none none 0) ⟨fun _ => 0, []⟩
  cases ran
  exact lock_ne _ depth

section Sent
variable {n : Nat} {api : Api} {lib : Library κ μ}

/-- The function of the driver that answers by a call of the library, the transaction and the
status. -/
def response : Call κ μ → Option (Sender × Int × Int)
  | .messageSendAnswer _ tid status _ => some (.message, tid, status)
  | .optionsSendAnswer _ tid status _ => some (.options, tid, status)
  | .callSendAnswer _ tid status _ => some (.answer, tid, status)
  | _ => none

def told (v : Voip κ μ) : List (Sender × Int × Int) := v.calls.filterMap response

@[simp] theorem told_lock (v : Voip κ μ) (k : Option κ) : (v.lock k).told = v.told := rfl

@[simp] theorem told_unlock (v : Voip κ μ) (k : Option κ) : (v.unlock k).told = v.told := rfl

omit [DecidableEq κ] in
@[simp] theorem told_call (v : Voip κ μ) (c : Call κ μ) :
    (v.call c).told = v.told ++ (response c).toList := by
  cases answers : response c <;> simp [told, call, answers]

/-- The driver sends the responses that the wrappers hand to the library. -/
def Sends (s t : Sip n) (f : Voip κ μ → Option (Voip κ μ)) : Prop :=
  ∃ new, t.sent = s.sent ++ new ∧ ∀ v, ∃ v', f v = some v' ∧
    v'.told = v.told ++ new.map fun r => (r.sender, r.tid, (r.status.code : Int))

theorem options_sends (s : Sip n) (ctx : Context) (tid : Int) {made : Bool}
    {lib : Library Context μ} (built : made =
      (lib.build (.optionsAnswer (api.context ctx) tid Status.ok.code)).msg.isSome) :
    Sends s (s.send ⟨.options, some ctx, tid, if made then .ok else .badRequest⟩)
      fun v => v.options api lib ctx tid := by
  simp only [options, makeOptionsResponse, make, if_true, Option.map_some, keep_eq _ rfl]
  refine ⟨[_], rfl, fun v => ⟨_, rfl, ?_⟩⟩
  cases outcome : (lib.build (.optionsAnswer (api.context ctx) tid Status.ok.code)).msg with
  | none =>
    rw [outcome] at built
    simp [built, sendOptionsResponse, answer, response]
  | some reply =>
    rw [outcome] at built
    simp [built, sendOptionsResponse, answer, response]

theorem drop_sends (s : Sip n) (i : Fin n) :
    Sends s (s.drop i) fun v : Voip (Option Context) μ =>
      some (v.drop api (s.leg i).ctx (s.pool.slot i).connected (s.pool.slot i).cid (s.leg i).did
        (s.leg i).tid) := by
  simp only [Sip.drop, drop]
  cases (s.pool.slot i).connected with
  | true =>
    refine ⟨[], (List.append_nil _).symm, fun v => ⟨_, rfl, ?_⟩⟩
    simp [releaseCall, response]
  | false =>
    by_cases pending : (s.leg i).tid = -1
    · refine ⟨[], ?_, fun v => ⟨_, rfl, ?_⟩⟩ <;> simp [pending, Sip.setLeg, Sip.lift]
    · refine ⟨[⟨.message, (s.leg i).ctx, (s.leg i).tid, .decline⟩], ?_, fun v => ⟨_, rfl, ?_⟩⟩
      · simp [pending, Sip.send, Sip.setLeg, Sip.lift]
      · simp [pending, sendResponseMessage, answer, response]

section Invite
variable {s t q : Sip n} {ctx : Context} {m : Message} {tid did : Int} {cid : Nat} {out : Outside}
  {lib : Library Context μ}

theorem reply_sends (status : Status) (same : q.sent = s.sent) :
    Sends s (q.send ⟨.answer, some ctx, tid, status⟩)
      fun v => v.invite api lib ctx tid (.reply (some status)) := by
  refine ⟨[⟨.answer, some ctx, tid, status⟩], by simp [Sip.send, same], fun v => ⟨_, rfl, ?_⟩⟩
  simp [sendAnswerResponse, answer, response]

theorem silent_sends (same : q.sent = s.sent) :
    Sends s q fun v => v.invite api lib ctx tid (.reply none) :=
  ⟨[], by simp [same], fun v => ⟨v, rfl, by simp⟩⟩

theorem challenge_sends (buffer : String) (same : q.sent = s.sent)
    (built : out.made =
      (lib.build (.callAnswer (api.context ctx) tid Status.unauthorized.code)).msg.isSome) :
    Sends s (if out.made then q.send ⟨.answer, some ctx, tid, .unauthorized⟩ else q)
      fun v => v.invite api lib ctx tid (.challenge buffer) := by
  simp only [invite, makeAnswerResponse, make, if_true, Option.map_some, keep_eq _ rfl]
  cases outcome : (lib.build (.callAnswer (api.context ctx) tid Status.unauthorized.code)).msg with
  | none =>
    rw [outcome] at built
    exact ⟨[], by simp [built, same], fun v => ⟨v, rfl, by simp⟩⟩
  | some reply =>
    rw [outcome] at built
    refine ⟨[⟨.answer, some ctx, tid, .unauthorized⟩], by simp [built, Sip.send, same],
      fun v => ⟨_, rfl, ?_⟩⟩
    simp [sendAnswerResponse, answer, response]

theorem admitTo_sends {i : Fin n} {reg : SipRegistration} (same : q.sent = s.sent)
    (built : out.made =
      (lib.build (.callAnswer (api.context ctx) tid Status.unauthorized.code)).msg.isSome)
    (run : q.admitTo i reg ctx m tid did out = some t) :
    ∃ exit, Sends s t fun v => v.invite api lib ctx tid exit := by
  obtain ⟨check, _, run⟩ := Option.map_eq_some_iff.mp run
  cases check with
  | challenge =>
    cases run
    exact ⟨_, challenge_sends "" same built⟩
  | forbidden =>
    cases run
    exact ⟨_, reply_sends .forbidden same⟩
  | passed =>
    obtain ⟨f, eq, -⟩ := q.incoming_spec i reg m tid did out
    have sent : (q.incoming i reg m tid did out).2.sent = s.sent := by
      rw [eq]
      exact same
    simp only at run
    cases refused : q.incoming i reg m tid did out with
    | mk status q' =>
      rw [refused] at sent run
      cases status with
      | none =>
        cases run
        exact ⟨_, silent_sends sent⟩
      | some status =>
        cases run
        exact ⟨_, reply_sends status sent⟩

theorem invite_sends {driver : SipDriver} (built : out.made =
      (lib.build (.callAnswer (api.context ctx) tid Status.unauthorized.code)).msg.isSome)
    (run : s.invite driver ctx m tid did cid out = some t) :
    ∃ exit, Sends s t fun v => v.invite api lib ctx tid exit := by
  simp only [Sip.invite] at run
  split at run
  · split at run
    · cases run
      exact ⟨_, reply_sends .addressIncomplete rfl⟩
    · split at run
      · cases run
        exact ⟨_, reply_sends .notFound rfl⟩
      · split at run
        · cases run
        · split at run
          · cases run
            exact ⟨_, reply_sends .temporarilyUnavailable rfl⟩
          · refine admitTo_sends ?_ built run
            rfl
  · cases run
    exact ⟨_, reply_sends .undecipherable rfl⟩

end Invite

end Sent

end Voip
end Bayonne
