import Bayonne.Base.Refcount
import Bayonne.Base.Run

/-! Reloads, lookups and calls. A driver instance is shared under a reader and writer lock
and deleted by the thread that replaced it; a script image is counted by the instances
that list it, the lookups that found it and the calls that run it. Every statement on the
lock, the active instance and the counts is a step, of any number of threads. -/
namespace Bayonne
open Refcount (Counts)

/-- `Driver::image`; `ptr` is null once the destructor has passed. -/
structure Image where
  id : String
  ptr : Option Nat

/-- What a thread takes the lock for: `Driver::get`, `getIncoming` or `getOutgoing`, and
`reload`. -/
inductive Task where
  | look
  | script (name : String)
  | reload

namespace Reload

inductive Pc where
  | idle
  /-- after `locking.access()` -/
  | entered (task : Task)
  /-- after `driver = active` -/
  | got (d : Nat) (name : Option String)
  /-- the list has been searched -/
  | looked (d : Nat) (scr : Option Nat)
  /-- after `release(driver)`, before `Script::find` -/
  | checking (scr : Nat)
  /-- the caller has the script -/
  | scripted (scr : Nat)
  /-- after `attach` -/
  | attached (scr : Nat)
  /-- in the constructor, which `reload` runs under the lock -/
  | creating (via : Option Nat) (d : Nat)
  | created (d : Nat)
  /-- after `locking.modify()` -/
  | writing (d : Nat)
  /-- after `active = driver` -/
  | swapped (orig : Option Nat)
  /-- after `locking.commit()` -/
  | sleeping (orig : Nat)
  /-- in the destructor, with `k` images left -/
  | deleting (orig k : Nat)

namespace Pc

def reads : Pc → Bool
  | .entered _ | .got .. | .looked .. | .creating (some _) _ => true
  | _ => false

def writes : Pc → Bool
  | .writing _ | .swapped _ => true
  | _ => false

def uses : Pc → Option Nat
  | .got d _ | .looked d _ => some d
  | .creating via _ => via
  | _ => none

def building : Pc → Option Nat
  | .creating _ d | .created d | .writing d => some d
  | _ => none

/-- The instance that no other thread can reach: not yet active, or not any more. -/
def owns : Pc → Option Nat
  | .creating _ d | .created d | .writing d => some d
  | .swapped orig => orig
  | .sleeping orig | .deleting orig _ => some orig
  | _ => none

def held : Pc → Option Nat
  | .looked _ scr => scr
  | .checking scr | .scripted scr | .attached scr => some scr
  | _ => none

/-- The images that a destructor has still to pass. -/
def left : Pc → Nat
  | .deleting _ k => k
  | _ => 0

end Pc

end Reload

/-- The instances and images made so far are numbered; `attached` is the image each call
runs, `shared` and `exclusive` are the state of the lock. -/
structure Reload where
  active : Option Nat
  made : Nat
  images : Nat → List Image
  alive : Nat → Bool
  compiled : Nat
  count : Nat → Nat
  freed : Nat → Bool
  attached : Nat → Option Nat
  shared : Nat
  exclusive : Bool
  pc : Nat → Reload.Pc

namespace Reload

inductive Move where
  | take (t : Nat) (task : Task)
  | boot (t : Nat)
  | next (t : Nat)
  | list (t : Nat) (name : String)
  | check (t : Nat) (found : Bool)
  | attach (t call : Nat)
  | detach (call : Nat)

def start : Reload where
  active := none
  made := 0
  images := fun _ => []
  alive := fun _ => false
  compiled := 0
  count := fun _ => 0
  freed := fun _ => false
  attached := fun _ => none
  shared := 0
  exclusive := false
  pc := fun _ => .idle

def goto (s : Reload) (t : Nat) (pc : Pc) : Reload := { s with pc := Function.update s.pc t pc }

def retain (s : Reload) (m : Nat) : Reload :=
  { s with count := Function.update s.count m (s.count m + 1) }

/-- `CountedObject::release`: the last reference frees the image. -/
def release (s : Reload) (m : Nat) : Reload :=
  { s with
    count := Function.update s.count m (s.count m - 1)
    freed := if 1 < s.count m then s.freed else Function.update s.freed m true }

def access (s : Reload) : Option Reload :=
  if s.exclusive then none else some { s with shared := s.shared + 1 }

def unlock (s : Reload) : Reload := { s with shared := s.shared - 1 }

def create (s : Reload) (t : Nat) (via : Option Nat) : Reload :=
  { s with made := s.made + 1, alive := Function.update s.alive s.made true }.goto t
    (.creating via s.made)

/-- The service of a name: the chain starts at the image made last. -/
def find (s : Reload) (d : Nat) (name : String) : Option Image :=
  (s.images d).reverse.find? (·.id = name)

def clear (s : Reload) (d k : Nat) : Reload :=
  match (s.images d)[k]? with
  | none => s
  | some img =>
    let s := { s with
      images := Function.update s.images d ((s.images d).set k { img with ptr := none }) }
    match img.ptr with
    | none => s
    | some m => s.release m

def next (s : Reload) (t : Nat) : Option Reload :=
  match s.pc t with
  | .idle => none
  | .entered task =>
    match s.active, task with
    | none, .reload => none
    | none, _ => some (s.unlock.goto t .idle)
    | some d, .look => some (s.goto t (.got d none))
    | some d, .script name => some (s.goto t (.got d (some name)))
    | some d, .reload => some (s.create t (some d))
  | .got _ none => some (s.unlock.goto t .idle)
  | .got d (some name) =>
    match s.find d name with
    | none => some (s.goto t (.looked d none))
    | some img => img.ptr.map fun m => (s.retain m).goto t (.looked d (some m))
  | .looked _ none => some (s.unlock.goto t .idle)
  | .looked _ (some m) => some (s.unlock.goto t (.checking m))
  | .checking _ => none
  | .scripted m | .attached m => some ((s.release m).goto t .idle)
  | .creating none d => some (s.goto t (.created d))
  | .creating (some _) d => some (s.unlock.goto t (.created d))
  | .created d =>
    if s.shared = 0 ∧ ¬ s.exclusive then some ({ s with exclusive := true }.goto t (.writing d))
    else none
  | .writing d => some ({ s with active := some d }.goto t (.swapped s.active))
  | .swapped none => some ({ s with exclusive := false }.goto t .idle)
  | .swapped (some orig) => some ({ s with exclusive := false }.goto t (.sleeping orig))
  | .sleeping orig =>
    some ({ s with alive := Function.update s.alive orig false }.goto t
      (.deleting orig (s.images orig).length))
  | .deleting _ 0 => some (s.goto t .idle)
  | .deleting orig (k + 1) => some ((s.clear orig k).goto t (.deleting orig k))

def addImage (s : Reload) (d : Nat) (name : String) : Reload :=
  { s with
    images := Function.update s.images d (s.images d ++ [⟨name, some s.compiled⟩])
    compiled := s.compiled + 1
    count := Function.update s.count s.compiled 1 }

def step (s : Reload) : Move → Option Reload
  | .take t task =>
    match s.pc t with
    | .idle => s.access.map (·.goto t (.entered task))
    | _ => none
  | .boot t =>
    match s.pc t with
    | .idle => some (s.create t none)
    | _ => none
  | .next t => s.next t
  | .list t name =>
    match s.pc t with
    | .creating _ d => some (s.addImage d name)
    | _ => none
  | .check t found =>
    match s.pc t with
    | .checking m => some (if found then s.goto t (.scripted m) else (s.release m).goto t .idle)
    | _ => none
  | .attach t call =>
    match s.pc t, s.attached call with
    | .scripted m, none =>
      some ({ s.retain m with attached := Function.update s.attached call (some m) }.goto t
        (.attached m))
    | _, _ => none
  | .detach call =>
    match s.attached call with
    | none => none
    | some m => some ({ s with attached := Function.update s.attached call none }.release m)

/-- Who can refer to an image: an instance by its list, a call, or a lookup of a thread. -/
inductive Holder where
  | listed (d j : Nat)
  | call (i : Nat)
  | lookup (t : Nat)
  deriving DecidableEq

def ref (s : Reload) : Holder → Option Nat
  | .listed d j => (s.images d)[j]?.bind (·.ptr)
  | .call i => s.attached i
  | .lookup t => (s.pc t).held

/-- No thread uses an instance that has been deleted. -/
def Safe (s : Reload) : Prop := ∀ t d, (s.pc t).uses = some d → s.alive d = true

/-- Who is there to refer to anything. An instance is there while it is alive, and in its
destructor as far as its list has not been passed yet. -/
def there (s : Reload) : Holder → Prop
  | .listed d j => s.alive d = true ∨ ∃ t k, s.pc t = .deleting d k ∧ j < k
  | .call _ | .lookup _ => True

/-- An image has been freed exactly when nothing that is there refers to it any more. -/
def Exact (s : Reload) : Prop :=
  ∀ m, s.freed m = true ↔ m < s.compiled ∧ ∀ h, s.there h → s.ref h ≠ some m

def reader (s : Reload) (t : Nat) : Option Unit := if (s.pc t).reads then some () else none

inductive Next (s : Reload) (t : Nat) : Reload → Prop where
  /-- no shared state is touched -/
  | go (p : Pc) : p.reads = (s.pc t).reads → p.writes = (s.pc t).writes →
      p.held = (s.pc t).held → (∀ d, p.owns = some d → (s.pc t).owns = some d) →
      (∀ d, p.building = some d → (s.pc t).building = some d) →
      (∀ d, p.uses = some d → s.active = some d ∨ (s.pc t).uses = some d) →
      (s.pc t).left = 0 → Next s t (s.goto t p)
  /-- `locking.release()` -/
  | leave (p : Pc) : (s.pc t).reads = true → p.reads = false → p.writes = false →
      p.uses = none → p.held = (s.pc t).held → p.owns = (s.pc t).owns →
      p.building = (s.pc t).building → Next s t (s.unlock.goto t p)
  | create (d : Nat) : s.pc t = .entered .reload → s.active = some d →
      Next s t (s.create t (some d))
  | found (d m : Nat) (name : String) (img : Image) : s.pc t = .got d (some name) →
      s.find d name = some img → img.ptr = some m →
      Next s t ((s.retain m).goto t (.looked d (some m)))
  | drop (m : Nat) : s.pc t = .scripted m ∨ s.pc t = .attached m →
      Next s t ((s.release m).goto t .idle)
  | modify (d : Nat) : s.pc t = .created d → s.shared = 0 → s.exclusive = false →
      Next s t ({ s with exclusive := true }.goto t (.writing d))
  | swap (d : Nat) : s.pc t = .writing d →
      Next s t ({ s with active := some d }.goto t (.swapped s.active))
  | commit (orig : Option Nat) : s.pc t = .swapped orig →
      Next s t ({ s with exclusive := false }.goto t (orig.elim .idle .sleeping))
  | delete (orig : Nat) : s.pc t = .sleeping orig →
      Next s t ({ s with alive := Function.update s.alive orig false }.goto t
        (.deleting orig (s.images orig).length))
  | clear (orig k : Nat) : s.pc t = .deleting orig (k + 1) →
      Next s t ((s.clear orig k).goto t (.deleting orig k))

theorem next_cases {s s' : Reload} {t : Nat} (step : s.next t = some s') : Next s t s' := by
  have stay : ∀ {p}, s.pc t = p → ∀ {q : Pc}, q.reads = p.reads → q.writes = p.writes →
      q.held = p.held → (∀ d, q.owns = some d → p.owns = some d) →
      (∀ d, q.building = some d → p.building = some d) →
      (∀ d, q.uses = some d → s.active = some d ∨ p.uses = some d) →
      p.left = 0 → Next s t (s.goto t q) := by
    rintro p rfl q
    exact .go q
  have leave : ∀ {p}, s.pc t = p → ∀ {q : Pc}, p.reads = true → q.reads = false →
      q.writes = false → q.uses = none → q.held = p.held → q.owns = p.owns →
      q.building = p.building → Next s t (s.unlock.goto t q) := by
    rintro p rfl q
    exact .leave q
  simp only [Reload.next] at step
  cases at' : s.pc t with
  | idle | checking m =>
    rw [at'] at step
    cases step
  | entered task =>
    rw [at'] at step
    cases active : s.active with
    | none =>
      cases task <;> rw [active] at step <;> cases step <;>
        exact leave at' rfl rfl rfl rfl rfl rfl rfl
    | some d =>
      cases task <;> rw [active] at step <;> cases step
      · exact stay at' rfl rfl rfl (fun _ own => own) (fun _ own => own)
          (fun _ used => .inl (active.trans used)) rfl
      · exact stay at' rfl rfl rfl (fun _ own => own) (fun _ own => own)
          (fun _ used => .inl (active.trans used)) rfl
      · exact .create d at' active
  | got d name =>
    rw [at'] at step
    cases name with
    | none =>
      cases step
      exact leave at' rfl rfl rfl rfl rfl rfl rfl
    | some name =>
      cases found : s.find d name with
      | none =>
        simp only [found] at step
        cases step
        exact stay at' rfl rfl rfl (fun _ own => own) (fun _ own => own)
          (fun _ used => .inr used) rfl
      | some img =>
        simp only [found] at step
        obtain ⟨m, ptr, rfl⟩ := Option.map_eq_some_iff.mp step
        exact .found d m name img at' found ptr
  | looked d scr =>
    rw [at'] at step
    cases scr <;> cases step <;> exact leave at' rfl rfl rfl rfl rfl rfl rfl
  | scripted m =>
    rw [at'] at step
    cases step
    exact .drop m (.inl at')
  | attached m =>
    rw [at'] at step
    cases step
    exact .drop m (.inr at')
  | creating via d =>
    rw [at'] at step
    cases via <;> cases step
    · exact stay at' rfl rfl rfl (fun _ own => own) (fun _ own => own)
        (fun _ used => .inr used) rfl
    · exact leave at' rfl rfl rfl rfl rfl rfl rfl
  | created d =>
    rw [at'] at step
    simp only at step
    split at step
    · rename_i free
      cases step
      exact .modify d at' free.1 (by simpa using free.2)
    · cases step
  | writing d =>
    rw [at'] at step
    cases step
    exact .swap d at'
  | swapped orig =>
    rw [at'] at step
    cases orig <;> cases step <;> exact .commit _ at'
  | sleeping orig =>
    rw [at'] at step
    cases step
    exact .delete orig at'
  | deleting orig k =>
    rw [at'] at step
    cases k <;> cases step
    · exact stay at' rfl rfl rfl (fun _ own => by cases own) (fun _ own => own)
        (fun _ used => .inr used) rfl
    · exact .clear orig _ at'

theorem clear_frame (s : Reload) (d k : Nat) :
    ∃ images count freed,
      s.clear d k = { s with images := images, count := count, freed := freed } := by
  unfold Reload.clear
  split
  · exact ⟨_, _, _, rfl⟩
  · simp only
    split <;> exact ⟨_, _, _, rfl⟩

end Reload

end Bayonne
