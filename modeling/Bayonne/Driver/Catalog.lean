import Bayonne.Base.Refine
import Bayonne.Driver.Counting
import Bayonne.Uri

/-! The scripts that calls are given by name. Threads construct, replace and delete driver
instances while others search them; what the searches find is what one shelf of files holds,
which every reload replaces in one step. -/
namespace Bayonne

namespace Uri
variable {c : Char} {s p : List Char}

theorem strrchr_some (found : strrchr c s = some p) :
    ∃ r, p = c :: r ∧ c ∉ r ∧ s = cut s p ++ p := by
  induction s with
  | nil => cases found
  | cons x s ih =>
    rw [strrchr] at found
    cases later : strrchr c s with
    | some q =>
      rw [later] at found
      cases found
      obtain ⟨r, hp, out, split⟩ := ih later
      refine ⟨r, hp, out, ?_⟩
      have whole : x :: s = (x :: cut s p) ++ p := by rw [List.cons_append, ← split]
      conv_rhs => rw [whole, cut_append]
      exact whole
    | none =>
      rw [later] at found
      obtain ⟨rfl, same⟩ := Option.ite_none_right_eq_some.mp found
      cases same
      exact ⟨s, rfl, strrchr_none.mp later, by simp [cut]⟩

theorem strrchr_last (out : c ∉ p) (s : List Char) : strrchr c (s ++ c :: p) = some (c :: p) := by
  induction s with
  | nil => simp [strrchr, strrchr_none.mpr out]
  | cons x s ih => rw [List.cons_append, strrchr, ih]

end Uri

/-- A file of the directory of scripts: its name as `dir.read` has left it in the buffer, and
the errors of the image that `Script::compile` makes of it, if it makes one. -/
structure ScriptFile where
  name : String
  errors : Option Nat
  deriving DecidableEq

def ScriptFile.service (f : ScriptFile) : Option String :=
  match Uri.strrchr '.' f.name.toList with
  | none => none
  | some ep =>
    if ep = ".bcs".toList ∧ f.errors = some 0 then
      some (String.ofList (Uri.cut f.name.toList ep))
    else none

def ScriptFile.Defines (f : ScriptFile) (id : String) : Prop :=
  f.name = id ++ ".bcs" ∧ f.errors = some 0

instance (f : ScriptFile) (id : String) : Decidable (f.Defines id) :=
  inferInstanceAs (Decidable (_ ∧ _))

theorem ScriptFile.service_iff {f : ScriptFile} {id : String} :
    f.service = some id ↔ f.Defines id := by
  unfold service Defines
  constructor
  · intro listed
    cases last : Uri.strrchr '.' f.name.toList with
    | none =>
      rw [last] at listed
      cases listed
    | some ep =>
      simp only [last] at listed
      obtain ⟨⟨rfl, sound⟩, same⟩ := Option.ite_none_right_eq_some.mp listed
      cases same
      obtain ⟨_, _, _, split⟩ := Uri.strrchr_some last
      refine ⟨String.toList_inj.mp ?_, sound⟩
      rw [String.toList_append, String.toList_ofList]
      exact split
  · rintro ⟨name, sound⟩
    have text : f.name.toList = id.toList ++ ".bcs".toList := by
      rw [name, String.toList_append]
    have last : Uri.strrchr '.' f.name.toList = some ".bcs".toList := by
      rw [text]
      exact Uri.strrchr_last (by decide) id.toList
    simp only [last, sound, and_self, if_true]
    rw [text, Uri.cut_append, String.ofList_toList]

/-- What the calls are given their scripts from: the files of the directory as it was read for
the instance in use, those read so far for the instances under construction, and how many images
there have been. -/
structure Catalog where
  current : List (ScriptFile × Nat)
  drafts : Nat → List (ScriptFile × Nat)
  compiled : Nat

namespace Catalog

inductive Request where
  /-- a thread starts to construct an instance -/
  | fresh (t : Nat)
  | file (t : Nat) (f : ScriptFile)
  | publish (t : Nat)
  | ask (id : String)
  | other

def start : Catalog := ⟨[], fun _ => [], 0⟩

def serve (c : Catalog) : Request → Catalog
  | .fresh t => { c with drafts := Function.update c.drafts t [] }
  | .file t f =>
    if ".bcs".toList <:+ f.name.toList ∧ f.errors = some 0 then
      { c with
        drafts := Function.update c.drafts t (c.drafts t ++ [(f, c.compiled)])
        compiled := c.compiled + 1 }
    else c
  | .publish t => { c with current := c.drafts t }
  | .ask _ | .other => c

def find (c : Catalog) (id : String) : Option Nat :=
  (c.current.reverse.find? fun e => e.1.Defines id).map (·.2)

def reply (c : Catalog) : Request → Option (Option Nat)
  | .ask id => some (c.find id)
  | _ => none

end Catalog

namespace Reload

inductive Loading where
  | move (a : Move)
  | read (t : Nat) (f : ScriptFile)

/-- A file that is no script, or one with errors, is passed over. -/
def load (s : Reload) : Loading → Option Reload
  | .move (.list ..) => none
  | .move a => s.step a
  | .read t f =>
    match f.service with
    | some name => s.step (.list t name)
    | none =>
      match s.pc t with
      | .creating _ _ => some s
      | _ => none

def request (s : Reload) : Loading → Catalog.Request
  | .move (.boot t) => .fresh t
  | .move (.next t) =>
    match s.pc t with
    | .entered .reload => .fresh t
    | .entered (.script name) => if s.active.isNone then .ask name else .other
    | .got _ (some name) => .ask name
    | .writing _ => .publish t
    | _ => .other
  | .move _ => .other
  | .read t f => .file t f

def found (s : Reload) : Loading → Option (Option Nat)
  | .move (.next t) =>
    match s.pc t with
    | .entered (.script _) => if s.active.isNone then some none else none
    | .got d (some name) => some ((s.find d name).bind (·.ptr))
    | _ => none
  | _ => none

def Lists (imgs : List Image) (files : List (ScriptFile × Nat)) : Prop :=
  List.Forall₂ (fun img e => e.1.Defines img.id ∧ img.ptr = some e.2) imgs files

structure Shelved (s : Reload) (c : Catalog) : Prop where
  guarded : s.Guarded
  counted : s.Counted
  compiled : s.compiled = c.compiled
  current : Lists (s.active.elim [] s.images) c.current
  drafts : ∀ t d, (s.pc t).building = some d → Lists (s.images d) (c.drafts t)

section Lists
variable {imgs : List Image} {files : List (ScriptFile × Nat)}

theorem defines_unique {f : ScriptFile} {a b : String} (ha : f.Defines a) (hb : f.Defines b) :
    a = b :=
  Option.some.inj ((ScriptFile.service_iff.mpr ha).symm.trans (ScriptFile.service_iff.mpr hb))

theorem Lists.find (h : Lists imgs files) (id : String) :
    (imgs.find? (·.id = id)).bind (·.ptr) = (files.find? fun e => e.1.Defines id).map (·.2) := by
  induction h with
  | nil => rfl
  | @cons img e imgs files here _ ih =>
    by_cases named : img.id = id
    · have defines : e.1.Defines id := named ▸ here.1
      rw [List.find?_cons_of_pos (by simpa using named),
        List.find?_cons_of_pos (by simpa using defines)]
      exact here.2
    · have apart : ¬ e.1.Defines id := fun defines => named (defines_unique here.1 defines)
      rw [List.find?_cons_of_neg (by simpa using named),
        List.find?_cons_of_neg (by simpa using apart)]
      exact ih

theorem Lists.concat (h : Lists imgs files) {f : ScriptFile} {id : String} (defines : f.Defines id)
    (m : Nat) : Lists (imgs ++ [⟨id, some m⟩]) (files ++ [(f, m)]) :=
  List.rel_append h (.cons ⟨defines, rfl⟩ .nil)

end Lists

section Steps
variable {s s' : Reload} {c : Catalog} {t : Nat}

theorem clear_images {d e : Nat} (k : Nat) (other : e ≠ d) :
    (s.clear d k).images e = s.images e := by
  unfold Reload.clear
  split
  · rfl
  · simp only
    split <;> exact Function.update_of_ne other _ _

theorem Shelved.quiet (h : s.Shelved c) (guarded : s'.Guarded) (counted : s'.Counted)
    (compiled : s'.compiled = s.compiled) (active : s'.active = s.active)
    (used : ∀ d, s.active = some d → s'.images d = s.images d)
    (building : ∀ u d, (s'.pc u).building = some d →
      (s.pc u).building = some d ∧ s'.images d = s.images d) : s'.Shelved c := by
  refine ⟨guarded, counted, compiled.trans h.compiled, ?_, fun u d built => ?_⟩
  · rw [active]
    have current := h.current
    cases at' : s.active with
    | none =>
      rw [at'] at current
      exact current
    | some d =>
      rw [at'] at current
      simp only [Option.elim_some, used d at']
      exact current
  · obtain ⟨before, same⟩ := building u d built
    rw [same]
    exact h.drafts u d before

theorem building_goto {q : Reload} {p : Pc} {u d : Nat} (pc : q.pc = s.pc)
    (building : ∀ d, p.building = some d → (s.pc t).building = some d)
    (built : ((q.goto t p).pc u).building = some d) : (s.pc u).building = some d := by
  rw [pc_goto, pc] at built
  split at built
  · rename_i here
    rw [here]
    exact building d built
  · exact built

theorem Shelved.next_quiet (h : s.Shelved c) (step : s.next t = some s')
    (reload : s.pc t ≠ .entered .reload) (writing : ∀ d, s.pc t ≠ .writing d) :
    s'.Shelved c := by
  have guarded := h.guarded.next step
  have counted := h.counted.next step
  cases next_cases step with
  | go p _ _ _ _ building =>
    exact h.quiet guarded counted rfl rfl (fun _ _ => rfl) fun u d built =>
      ⟨building_goto rfl building built, rfl⟩
  | leave p _ _ _ _ _ _ building =>
    refine h.quiet guarded counted rfl rfl (fun _ _ => rfl) fun u d built => ⟨?_, rfl⟩
    refine building_goto (q := s.unlock) rfl (fun d own => ?_) built
    rw [← building]
    exact own
  | create d at' => exact absurd at' reload
  | found d m name img =>
    refine h.quiet guarded counted rfl rfl (fun _ _ => rfl) fun u e built => ⟨?_, rfl⟩
    exact building_goto (q := s.retain m) rfl (fun _ own => by cases own) built
  | drop m =>
    refine h.quiet guarded counted rfl rfl (fun _ _ => rfl) fun u e built => ⟨?_, rfl⟩
    exact building_goto (q := s.release m) rfl (fun _ own => by cases own) built
  | modify d at' =>
    refine h.quiet guarded counted rfl rfl (fun _ _ => rfl) fun u e built => ⟨?_, rfl⟩
    refine building_goto (q := { s with exclusive := true }) rfl (fun e own => ?_) built
    rw [at']
    exact own
  | swap d at' => exact absurd at' (writing d)
  | commit orig at' =>
    refine h.quiet guarded counted rfl rfl (fun _ _ => rfl) fun u e built => ⟨?_, rfl⟩
    refine building_goto (q := { s with exclusive := false }) rfl (fun _ own => ?_) built
    cases orig <;> cases own
  | delete orig =>
    refine h.quiet guarded counted rfl rfl (fun _ _ => rfl) fun u e built => ⟨?_, rfl⟩
    exact building_goto (q := { s with alive := Function.update s.alive orig false }) rfl
      (fun _ own => by cases own) built
  | clear orig k at' =>
    -- nobody else can reach the instance that is being deleted
    have mine : (s.pc t).owns = some orig := by rw [at']; rfl
    obtain ⟨_, _, _, same⟩ := clear_frame s orig k
    have pc : (s.clear orig k).pc = s.pc := by rw [same]
    have active : (s.clear orig k).active = s.active := by rw [same]
    have compiled : (s.clear orig k).compiled = s.compiled := by rw [same]
    refine h.quiet guarded counted compiled active (fun d used => ?_) fun u d built => ?_
    · exact clear_images k fun gone => (h.guarded.owned t orig mine).2 (gone ▸ used)
    · have before := building_goto pc (fun _ own => by cases own) built
      refine ⟨before, clear_images k fun gone => ?_⟩
      have same := h.guarded.apart u t d (Pc.owns_of_building before) (gone ▸ mine)
      rw [same, at'] at before
      cases before

theorem Shelved.create (h : s.Shelved c) {via : Option Nat} (guarded : (s.create t via).Guarded)
    (counted : (s.create t via).Counted) :
    (s.create t via).Shelved { c with drafts := Function.update c.drafts t [] } := by
  refine ⟨guarded, counted, h.compiled, h.current, fun u d built => ?_⟩
  by_cases hu : u = t
  · subst hu
    have made : s.made = d := by
      have here : ((s.create u via).pc u) = .creating via s.made := Function.update_self ..
      rw [here] at built
      exact Option.some.inj built
    have none : s.images d = [] := h.counted.unmade d (Nat.le_of_eq made)
    show Lists (s.images d) _
    rw [none]
    simp only [Function.update_self]
    exact .nil
  · have before : ((s.create t via).pc u) = s.pc u := Function.update_of_ne hu _ _
    rw [before] at built
    simp only [Function.update_of_ne hu]
    exact h.drafts u d built

theorem Shelved.publish (h : s.Shelved c) {d : Nat} (at' : s.pc t = .writing d)
    (step : s.next t = some s') : s'.Shelved { c with current := c.drafts t } := by
  have guarded := h.guarded.next step
  have counted := h.counted.next step
  simp only [Reload.next, at'] at step
  cases step
  refine ⟨guarded, counted, h.compiled, ?_, fun u e built => ?_⟩
  · exact h.drafts t d (by rw [at']; rfl)
  · exact h.drafts u e (building_goto (q := { s with active := some d }) rfl
      (fun _ own => by cases own) built)

theorem Shelved.list (h : s.Shelved c) {f : ScriptFile} {name : String} (defines : f.Defines name)
    (step : s.step (.list t name) = some s') :
    s'.Shelved { c with
      drafts := Function.update c.drafts t (c.drafts t ++ [(f, c.compiled)])
      compiled := c.compiled + 1 } := by
  have guarded := h.guarded.step step
  have counted := h.counted.step h.guarded step
  simp only [Reload.step] at step
  split at step
  · rename_i via d at'
    cases step
    have building : (s.pc t).building = some d := by rw [at']; rfl
    refine ⟨guarded, counted, congrArg (· + 1) h.compiled, ?_, fun u e built => ?_⟩
    · have current := h.current
      show Lists (s.active.elim [] (Function.update s.images d _)) _
      cases active : s.active with
      | none =>
        rw [active] at current
        exact current
      | some e =>
        have other : e ≠ d := fun same =>
          (h.guarded.owned t d (Pc.owns_of_building building)).2 (same ▸ active)
        rw [active] at current
        simp only [Option.elim_some, Function.update_of_ne other]
        exact current
    · have built : (s.pc u).building = some e := built
      show Lists (Function.update s.images d _ e) _
      by_cases hu : u = t
      · subst hu
        cases building.symm.trans built
        simp only [Function.update_self, h.compiled]
        exact (h.drafts u d built).concat defines c.compiled
      · have other : e ≠ d := fun same => hu (h.guarded.apart u t d
          (Pc.owns_of_building (same ▸ built)) (Pc.owns_of_building building))
        simp only [Function.update_of_ne other, Function.update_of_ne hu]
        exact h.drafts u e built
  · cases step

theorem Shelved.step_quiet (h : s.Shelved c) {a : Move} (step : s.step a = some s')
    (boot : ∀ t, a ≠ .boot t) (next : ∀ t, a ≠ .next t) (list : ∀ t name, a ≠ .list t name) :
    s'.Shelved c := by
  have guarded := h.guarded.step step
  have counted := h.counted.step h.guarded step
  have moved : ∀ {q : Reload} {t : Nat} {p : Pc}, q.pc = s.pc → p.building = none →
      ∀ u d, ((q.goto t p).pc u).building = some d → (s.pc u).building = some d := by
    intro q t p pc none u d built
    refine building_goto pc (fun d own => ?_) built
    rw [none] at own
    cases own
  cases a with
  | take t task =>
    simp only [Reload.step] at step
    split at step
    · obtain ⟨q, entered, rfl⟩ := Option.map_eq_some_iff.mp step
      simp only [access] at entered
      split at entered
      · cases entered
      · cases entered
        exact h.quiet guarded counted rfl rfl (fun _ _ => rfl) fun u d built =>
          ⟨moved (q := { s with shared := s.shared + 1 }) rfl rfl u d built, rfl⟩
    · cases step
  | boot t => exact absurd rfl (boot t)
  | next t => exact absurd rfl (next t)
  | list t name => exact absurd rfl (list t name)
  | check t found =>
    simp only [Reload.step] at step
    split at step
    · cases step
      split
      · rw [if_pos ‹_›] at guarded counted
        exact h.quiet guarded counted rfl rfl (fun _ _ => rfl) fun u d built =>
          ⟨moved rfl rfl u d built, rfl⟩
      · rename_i m _ _
        rw [if_neg ‹_›] at guarded counted
        exact h.quiet guarded counted rfl rfl (fun _ _ => rfl) fun u d built =>
          ⟨moved (q := s.release m) rfl rfl u d built, rfl⟩
    · cases step
  | attach t call =>
    simp only [Reload.step] at step
    split at step
    · rename_i m _ _
      cases step
      exact h.quiet guarded counted rfl rfl (fun _ _ => rfl) fun u d built =>
        ⟨moved (q := { s.retain m with
          attached := Function.update s.attached call (some m) }) rfl rfl u d built, rfl⟩
    · cases step
  | detach call =>
    simp only [Reload.step] at step
    split at step
    · cases step
    · cases step
      exact h.quiet guarded counted rfl rfl (fun _ _ => rfl) fun u d built => ⟨built, rfl⟩

theorem next_shelved (h : s.Shelved c) (step : s.next t = some s') :
    s'.Shelved (c.serve (s.request (.move (.next t)))) := by
  by_cases reload : s.pc t = .entered .reload
  · simp only [request, reload, Catalog.serve]
    have guarded := h.guarded.next step
    have counted := h.counted.next step
    simp only [Reload.next, reload] at step
    cases active : s.active with
    | none =>
      rw [active] at step
      cases step
    | some d =>
      rw [active] at step
      cases step
      exact h.create guarded counted
  · by_cases writing : ∃ d, s.pc t = .writing d
    · obtain ⟨d, at'⟩ := writing
      simp only [request, at', Catalog.serve]
      exact h.publish at' step
    · have still := h.next_quiet step reload fun d at' => writing ⟨d, at'⟩
      have same : c.serve (s.request (.move (.next t))) = c := by
        simp only [request]
        split
        · exact absurd ‹_› reload
        · split <;> rfl
        · rfl
        · exact absurd ⟨_, ‹_›⟩ writing
        · rfl
      rw [same]
      exact still

theorem read_shelved (h : s.Shelved c) {f : ScriptFile} (step : s.load (.read t f) = some s') :
    s'.Shelved (c.serve (.file t f)) := by
  simp only [load] at step
  cases listed : f.service with
  | none =>
    have passed : ¬ (".bcs".toList <:+ f.name.toList ∧ f.errors = some 0) := by
      rintro ⟨⟨id, split⟩, sound⟩
      have defines : f.Defines (String.ofList id) := by
        refine ⟨String.toList_inj.mp ?_, sound⟩
        rw [String.toList_append, String.toList_ofList, split]
      rw [ScriptFile.service_iff.mpr defines] at listed
      cases listed
    simp only [Catalog.serve, if_neg passed]
    simp only [listed] at step
    split at step
    · cases step
      exact h
    · cases step
  | some name =>
    have defines := ScriptFile.service_iff.mp listed
    have taken : ".bcs".toList <:+ f.name.toList ∧ f.errors = some 0 := by
      refine ⟨⟨name.toList, ?_⟩, defines.2⟩
      rw [defines.1, String.toList_append]
    simp only [listed] at step
    simp only [Catalog.serve, if_pos taken]
    exact h.list defines step

theorem Lists.reverse {imgs : List Image} {files : List (ScriptFile × Nat)}
    (h : Lists imgs files) : Lists imgs.reverse files.reverse := List.rel_reverse h

theorem found_reply (h : s.Shelved c) (a : Loading) : s.found a = c.reply (s.request a) := by
  cases a with
  | read t f => rfl
  | move a =>
    cases a with
    | next t =>
      simp only [found, request]
      cases at' : s.pc t with
      | entered task =>
        cases task with
        | script name =>
          cases active : s.active with
          | none =>
            have current := h.current
            rw [active] at current
            have empty : c.current = [] := List.forall₂_nil_left_iff.mp current
            simp [Catalog.reply, Catalog.find, empty]
          | some d => rfl
        | _ => rfl
      | got d name =>
        cases name with
        | none => rfl
        | some name =>
          have active := h.guarded.uses t d (by rw [at']; rfl)
          have current := h.current
          rw [active] at current
          exact congrArg some (current.reverse.find name)
      | _ => rfl
    | _ => rfl

theorem load_shelved (h : s.Shelved c) {a : Loading} (step : s.load a = some s') :
    s'.Shelved (c.serve (s.request a)) := by
  cases a with
  | read t f => exact read_shelved h step
  | move a =>
    cases a with
    | next t => exact next_shelved h step
    | boot t =>
      have step : s.step (.boot t) = some s' := step
      have guarded := h.guarded.step step
      have counted := h.counted.step h.guarded step
      simp only [Reload.step] at step
      split at step
      · cases step
        exact h.create guarded counted
      · cases step
    | list t name => cases step
    | take t task =>
      exact h.step_quiet (a := .take t task) step (fun _ same => by cases same)
        (fun _ same => by cases same) fun _ _ same => by cases same
    | check t found =>
      exact h.step_quiet (a := .check t found) step (fun _ same => by cases same)
        (fun _ same => by cases same) fun _ _ same => by cases same
    | attach t call =>
      exact h.step_quiet (a := .attach t call) step (fun _ same => by cases same)
        (fun _ same => by cases same) fun _ _ same => by cases same
    | detach call =>
      exact h.step_quiet (a := .detach call) step (fun _ same => by cases same)
        (fun _ same => by cases same) fun _ _ same => by cases same

end Steps

theorem start_shelved : start.Shelved .start :=
  ⟨start_guarded, start_counted, rfl, .nil, fun _ _ built => by cases built⟩

/-- The lookups are atomic: in every interleaving of reloads, which read any directories, with
lookups, calls and deletions, each search for a script comes to the file NAME.bcs that was read
last for the instance that was in use at that moment, if it has compiled without an error. -/
theorem catalog (as : List Loading) {s : Reload} (run : Run.exec load start as = some s) :
    let asked := Refine.observe load request start as
    Refine.observe load found start as =
      Refine.answers Catalog.serve Catalog.reply .start asked := by
  have simulates : Refine.Simulates load found Catalog.serve Catalog.reply request
      (fun _ _ => True) Shelved := fun s c a t h _ step => ⟨load_shelved h step, found_reply h a⟩
  have all : Run.Along load (fun _ _ => True) start as :=
    @Run.Along.of_all Reload Loading load (fun _ => True) as start fun _ _ => trivial
  exact (simulates.run start_shelved all run).2

def reloaded : List Loading :=
  [.move (.boot 0), .read 0 ⟨"menu.bcs", some 0⟩, .move (.next 0), .move (.next 0),
    .move (.next 0), .move (.next 0), .move (.take 0 .reload), .move (.next 0),
    .read 0 ⟨"menu.bcs", some 0⟩, .read 0 ⟨"menu.txt", none⟩,
    .move (.take 1 (.script "menu")), .move (.next 1), .move (.next 0), .move (.next 1),
    .move (.next 1), .move (.check 1 true), .move (.next 0), .move (.next 0), .move (.next 1),
    .move (.next 0), .move (.take 1 (.script "menu")), .move (.next 1), .move (.next 1)]

theorem catalog_reloaded :
    (Refine.observe load found start reloaded).filterMap id = [some 0, some 1] ∧
      Refine.observe load found start reloaded =
        Refine.answers Catalog.serve Catalog.reply .start
          (Refine.observe load request start reloaded) := by
  have runs : ∃ s, Run.exec load start reloaded = some s := ⟨_, rfl⟩
  obtain ⟨s, run⟩ := runs
  exact ⟨rfl, catalog reloaded run⟩

end Reload

end Bayonne
