import Bayonne.Driver.Locking

/-! The references to the script images. Each statement that takes or gives up a reference
moves the count of its image by one. -/
namespace Bayonne
open Refcount (Counts)

namespace Reload

structure Counted (s : Reload) : Prop where
  counts : Counts s.ref s.count
  freed : ∀ m, s.freed m = true ↔ m < s.compiled ∧ s.count m = 0
  unused : ∀ m, s.compiled ≤ m → s.count m = 0
  unmade : ∀ d, s.made ≤ d → s.images d = []

/-- An instance that is gone lists nothing, nor does the part of a list that a destructor
has passed. -/
def Dropped (s : Reload) : Prop :=
  ∀ d j, ¬ s.there (.listed d j) → s.ref (.listed d j) = none

theorem Counted.exact {s : Reload} (h : s.Counted) (dropped : s.Dropped) : s.Exact := fun m => by
  rw [h.freed, h.counts.zero_iff]
  refine and_congr_right fun _ => ⟨fun none h _ => none h, fun none h held => ?_⟩
  cases h with
  | listed d j =>
    by_cases there : s.there (.listed d j)
    · exact none _ there held
    · rw [dropped d j there] at held
      cases held
  | call i => exact none (.call i) trivial held
  | lookup t => exact none (.lookup t) trivial held

section References
variable {s s' : Reload} {t : Nat} {p : Pc}

theorem ref_goto (s : Reload) (t : Nat) (p : Pc) :
    (s.goto t p).ref = Function.update s.ref (.lookup t) p.held := by
  funext h
  cases h with
  | lookup u =>
    by_cases hu : u = t
    · subst hu
      simp [ref, pc_goto]
    · have ne : Holder.lookup u ≠ .lookup t := fun e => hu (Holder.lookup.inj e)
      rw [Function.update_of_ne ne]
      simp [ref, pc_goto, hu]
  | listed d j => rfl
  | call i => rfl

theorem Counted.quiet (h : s.Counted) (ref : s'.ref = s.ref) (count : s'.count = s.count)
    (freed : s'.freed = s.freed) (compiled : s'.compiled = s.compiled)
    (images : s'.images = s.images) (made : s.made ≤ s'.made) : s'.Counted := by
  refine ⟨?_, ?_, ?_, fun d later => ?_⟩
  · rw [ref, count]
    exact h.counts
  · rw [freed, compiled, count]
    exact h.freed
  · rw [compiled, count]
    exact h.unused
  · rw [images]
    exact h.unmade d (Nat.le_trans made later)

theorem Counted.goto (h : s.Counted) (held : p.held = (s.pc t).held) : (s.goto t p).Counted := by
  refine h.quiet ?_ rfl rfl rfl rfl (Nat.le_refl _)
  rw [ref_goto, held]
  exact Function.update_eq_self (Holder.lookup t) s.ref

theorem Counted.retain (h : s.Counted) {k : Holder} {m : Nat} (free : s.ref k = none)
    (there : 0 < s.count m) (ref : s'.ref = Function.update s.ref k (some m))
    (count : s'.count = (s.retain m).count) (freed : s'.freed = s.freed)
    (compiled : s'.compiled = s.compiled) (images : s'.images = s.images)
    (made : s'.made = s.made) : s'.Counted := by
  have value : ∀ j, s'.count j = if j = m then s.count m + 1 else s.count j := fun j => by
    rw [count]
    by_cases hj : j = m
    · subst hj
      simp [Reload.retain]
    · simp [Reload.retain, hj]
  have old : m < s.compiled := by
    by_contra late
    have := h.unused m (by omega)
    omega
  refine ⟨?_, fun j => ?_, fun j unused => ?_, fun d later => ?_⟩
  · rw [ref, count]
    exact h.counts.acquire free m
  · rw [freed, compiled, value, h.freed]
    split
    · rename_i hj
      subst hj
      omega
    · rfl
  · rw [compiled] at unused
    rw [value, if_neg (by omega)]
    exact h.unused j unused
  · rw [images]
    exact h.unmade d (made ▸ later)

theorem Counted.release (h : s.Counted) {k : Holder} {m : Nat} (held : s.ref k = some m)
    (ref : s'.ref = Function.update s.ref k none) (count : s'.count = (s.release m).count)
    (freed : s'.freed = (s.release m).freed) (compiled : s'.compiled = s.compiled)
    (unmade : ∀ d, s'.made ≤ d → s'.images d = []) : s'.Counted := by
  have there := h.counts.pos held
  have old : m < s.compiled := by
    by_contra late
    have := h.unused m (by omega)
    omega
  have value : ∀ j, s'.count j = if j = m then s.count m - 1 else s.count j := fun j => by
    rw [count]
    by_cases hj : j = m
    · subst hj
      simp [Reload.release]
    · simp [Reload.release, hj]
  refine ⟨?_, fun j => ?_, fun j unused => ?_, unmade⟩
  · rw [ref, count]
    exact h.counts.drop held
  · rw [freed, compiled, value]
    simp only [Reload.release]
    by_cases last : 1 < s.count m
    · rw [if_pos last, h.freed]
      split
      · rename_i hj
        subst hj
        omega
      · rfl
    · rw [if_neg last]
      by_cases hj : j = m
      · subst hj
        rw [Function.update_self, if_pos rfl]
        exact ⟨fun _ => ⟨old, by omega⟩, fun _ => rfl⟩
      · rw [Function.update_of_ne hj, if_neg hj, h.freed]
  · rw [compiled] at unused
    rw [value, if_neg (by omega)]
    exact h.unused j unused

theorem Counted.clear (h : s.Counted) (d k : Nat) : (s.clear d k).Counted := by
  unfold Reload.clear
  split
  · exact h
  · rename_i img here
    have inside : k < (s.images d).length := (List.getElem?_eq_some_iff.mp here).1
    have made : d < s.made := by
      by_contra late
      rw [h.unmade d (by omega)] at inside
      cases inside
    let q : Reload := { s with
      images := Function.update s.images d ((s.images d).set k { img with ptr := none }) }
    have ref : q.ref = Function.update s.ref (.listed d k) none := by
      funext holder
      cases holder with
      | listed e j =>
        by_cases he : e = d
        · subst he
          by_cases hj : j = k
          · subst hj
            simp [q, Reload.ref, inside]
          · have ne : Holder.listed e j ≠ .listed e k := fun same => hj (Holder.listed.inj same).2
            rw [Function.update_of_ne ne]
            simp [q, Reload.ref, List.getElem?_set_ne (Ne.symm hj)]
        · have ne : Holder.listed e j ≠ .listed d k := fun same => he (Holder.listed.inj same).1
          rw [Function.update_of_ne ne]
          simp [q, Reload.ref, he]
      | call i => rfl
      | lookup u => rfl
    have unmade : ∀ e, s.made ≤ e → q.images e = [] := fun e later => by
      have ne : e ≠ d := by omega
      simp only [q, Function.update_of_ne ne]
      exact h.unmade e later
    have before : s.ref (.listed d k) = img.ptr := by simp [Reload.ref, here]
    cases ptr : img.ptr with
    | none =>
      have same : q.ref = s.ref := by
        rw [ref, ← ptr, ← before]
        exact Function.update_eq_self (Holder.listed d k) s.ref
      exact ⟨same ▸ h.counts, h.freed, h.unused, unmade⟩
    | some m => exact h.release (before.trans ptr) ref rfl rfl rfl unmade

theorem Counted.addImage (h : s.Counted) {d : Nat} (made : d < s.made) (name : String) :
    (s.addImage d name).Counted := by
  have zero := h.unused s.compiled (Nat.le_refl _)
  have ref : (s.addImage d name).ref =
      Function.update s.ref (.listed d (s.images d).length) (some s.compiled) := by
    funext holder
    cases holder with
    | listed e j =>
      by_cases he : e = d
      · subst he
        by_cases hj : j = (s.images e).length
        · subst hj
          simp [Reload.addImage, Reload.ref]
        · have ne : Holder.listed e j ≠ .listed e (s.images e).length := fun same =>
            hj (Holder.listed.inj same).2
          rw [Function.update_of_ne ne]
          rcases Nat.lt_or_gt_of_ne hj with before | after
          · simp [Reload.addImage, Reload.ref, List.getElem?_append_left before]
          · have beyond : (s.images e ++ [⟨name, some s.compiled⟩])[j]? = none := by
              rw [List.getElem?_eq_none_iff, List.length_append, List.length_singleton]
              omega
            have none : (s.images e)[j]? = none := List.getElem?_eq_none (Nat.le_of_lt after)
            simp [Reload.addImage, Reload.ref, beyond, none]
      · have ne : Holder.listed e j ≠ .listed d (s.images d).length := fun same =>
          he (Holder.listed.inj same).1
        rw [Function.update_of_ne ne]
        simp [Reload.addImage, Reload.ref, he]
    | call i => rfl
    | lookup u => rfl
  have free : s.ref (.listed d (s.images d).length) = none := by simp [Reload.ref]
  have value : ∀ j, (s.addImage d name).count j = if j = s.compiled then 1 else s.count j :=
    fun j => by
      by_cases hj : j = s.compiled
      · subst hj
        simp [Reload.addImage]
      · simp [Reload.addImage, hj]
  refine ⟨?_, fun m => ?_, fun m unused => ?_, fun e later => ?_⟩
  · rw [ref]
    refine (h.counts.acquire free s.compiled).congr (fun _ => rfl) fun m => ?_
    rw [value, zero]
    by_cases hm : m = s.compiled
    · subst hm
      simp
    · simp [hm]
  · rw [value]
    have freed : (s.addImage d name).freed = s.freed := rfl
    have compiled : (s.addImage d name).compiled = s.compiled + 1 := rfl
    rw [freed, compiled, h.freed]
    split
    · omega
    · omega
  · have unused : s.compiled + 1 ≤ m := unused
    rw [value, if_neg (by omega)]
    exact h.unused m (by omega)
  · have later : s.made ≤ e := later
    have ne : e ≠ d := by omega
    simp only [Reload.addImage, Function.update_of_ne ne]
    exact h.unmade e later

end References

section Steps
variable {s s' : Reload} {t : Nat}

theorem find_listed {d : Nat} {name : String} {img : Image} (found : s.find d name = some img) :
    ∃ j, s.ref (.listed d j) = img.ptr := by
  have on := List.mem_reverse.mp (List.mem_of_find?_eq_some found)
  obtain ⟨j, here⟩ := List.mem_iff_getElem?.mp on
  exact ⟨j, by simp [ref, here]⟩

theorem Counted.next (h : s.Counted) (step : s.next t = some s') : s'.Counted := by
  cases next_cases step with
  | go p _ _ held => exact h.goto held
  | leave p _ _ _ _ held =>
    have unlocked : s.unlock.Counted := h.quiet rfl rfl rfl rfl rfl (Nat.le_refl _)
    exact unlocked.goto held
  | create d at' =>
    have made : ({ s with
      made := s.made + 1, alive := Function.update s.alive s.made true } : Reload).Counted :=
        h.quiet rfl rfl rfl rfl rfl (Nat.le_succ _)
    exact made.goto (at' ▸ rfl)
  | found d m name img at' found ptr =>
    obtain ⟨j, listed⟩ := find_listed found
    have free : s.ref (.lookup t) = none := by simp [ref, at', Pc.held]
    exact h.retain free (h.counts.pos (listed.trans ptr)) (ref_goto (s.retain m) t _) rfl rfl
      rfl rfl rfl
  | drop m at' =>
    have held : s.ref (.lookup t) = some m := by
      rcases at' with at' | at' <;> simp [ref, at', Pc.held]
    exact h.release held (ref_goto (s.release m) t .idle) rfl rfl rfl h.unmade
  | modify d at' =>
    have locked : ({ s with exclusive := true } : Reload).Counted :=
      h.quiet rfl rfl rfl rfl rfl (Nat.le_refl _)
    exact locked.goto (at' ▸ rfl)
  | swap d at' =>
    have changed : ({ s with active := some d } : Reload).Counted :=
      h.quiet rfl rfl rfl rfl rfl (Nat.le_refl _)
    exact changed.goto (at' ▸ rfl)
  | commit orig at' =>
    have opened : ({ s with exclusive := false } : Reload).Counted :=
      h.quiet rfl rfl rfl rfl rfl (Nat.le_refl _)
    cases orig <;> exact opened.goto (at' ▸ rfl)
  | delete orig at' =>
    have deleted : ({ s with alive := Function.update s.alive orig false } : Reload).Counted :=
      h.quiet rfl rfl rfl rfl rfl (Nat.le_refl _)
    exact deleted.goto (at' ▸ rfl)
  | clear orig k at' =>
    obtain ⟨_, _, _, same⟩ := clear_frame s orig k
    have pc : (s.clear orig k).pc = s.pc := by rw [same]
    exact (h.clear orig k).goto (by rw [pc, at']; rfl)

theorem Counted.step (guarded : s.Guarded) (h : s.Counted) {a : Move}
    (step : s.step a = some s') : s'.Counted := by
  cases a with
  | take t task =>
    simp only [Reload.step] at step
    split at step
    · rename_i idle
      simp only [access] at step
      split at step
      · cases step
      · cases step
        have entered : ({ s with shared := s.shared + 1 } : Reload).Counted :=
          h.quiet rfl rfl rfl rfl rfl (Nat.le_refl _)
        exact entered.goto (idle ▸ rfl)
    · cases step
  | boot t =>
    simp only [Reload.step] at step
    split at step
    · rename_i idle
      cases step
      have made : ({ s with
        made := s.made + 1, alive := Function.update s.alive s.made true } : Reload).Counted :=
          h.quiet rfl rfl rfl rfl rfl (Nat.le_succ _)
      exact made.goto (idle ▸ rfl)
    · cases step
  | next t => exact h.next step
  | list t name =>
    simp only [Reload.step] at step
    split at step
    · rename_i via d at'
      cases step
      exact h.addImage (guarded.owned t d (by rw [at']; rfl)).1 name
    · cases step
  | check t found =>
    simp only [Reload.step] at step
    split at step
    · rename_i m at'
      cases step
      split
      · exact h.goto (by rw [at']; rfl)
      · have held : s.ref (.lookup t) = some m := by simp [ref, at', Pc.held]
        exact h.release held (ref_goto (s.release m) t .idle) rfl rfl rfl h.unmade
    · cases step
  | attach t call =>
    simp only [Reload.step] at step
    split at step
    · rename_i m at' free
      cases step
      have held : s.ref (.lookup t) = some m := by simp [ref, at', Pc.held]
      have attached : ({ s.retain m with
          attached := Function.update s.attached call (some m) } : Reload).Counted := by
        refine h.retain (k := .call call) free (h.counts.pos held) ?_ rfl rfl rfl rfl rfl
        funext holder
        cases holder with
        | call i =>
          by_cases hi : i = call
          · subst hi
            simp [ref]
          · have ne : Holder.call i ≠ .call call := fun e => hi (Holder.call.inj e)
            rw [Function.update_of_ne ne]
            simp [ref, hi]
        | listed d j => rfl
        | lookup u => rfl
      exact attached.goto (at' ▸ rfl)
    · cases step
  | detach call =>
    simp only [Reload.step] at step
    split at step
    · cases step
    · rename_i m held
      cases step
      refine h.release (k := .call call) held ?_ rfl rfl rfl h.unmade
      funext holder
      cases holder with
      | call i =>
        by_cases hi : i = call
        · subst hi
          simp [ref, Reload.release]
        · have ne : Holder.call i ≠ .call call := fun e => hi (Holder.call.inj e)
          rw [Function.update_of_ne ne]
          simp [ref, Reload.release, hi]
      | listed d j => rfl
      | lookup u => rfl

end Steps

section Destructor
variable {s s' : Reload} {t : Nat}

theorem Dropped.mono (h : s.Dropped) (images : s'.images = s.images)
    (there : ∀ d j, s.there (.listed d j) → s'.there (.listed d j)) : s'.Dropped := by
  intro d j gone
  have before := h d j fun here => gone (there d j here)
  simp only [ref] at before ⊢
  rw [images]
  exact before

theorem Dropped.goto {q : Reload} {p : Pc} (h : s.Dropped) (images : q.images = s.images)
    (alive : ∀ d, s.alive d = true → q.alive d = true) (pc : q.pc = s.pc)
    (left : (s.pc t).left = 0) : (q.goto t p).Dropped := by
  refine h.mono images fun d j here => ?_
  rcases here with living | ⟨u, k, at', ahead⟩
  · exact .inl (alive d living)
  · refine .inr ⟨u, k, ?_, ahead⟩
    have ne : u ≠ t := by
      rintro rfl
      rw [at'] at left
      exact Nat.not_lt_zero j (left ▸ ahead)
    rw [pc_goto, if_neg ne, pc]
    exact at'

theorem Dropped.create (h : s.Dropped) {via : Option Nat} (left : (s.pc t).left = 0) :
    (s.create t via).Dropped := by
  refine h.goto rfl (fun d living => ?_) rfl left
  by_cases hd : d = s.made
  · rw [hd]
    exact Function.update_self ..
  · simp only [Function.update_of_ne hd]
    exact living

theorem Dropped.delete (h : s.Dropped) {orig : Nat} (at' : s.pc t = .sleeping orig) :
    ({ s with alive := Function.update s.alive orig false }.goto t
      (.deleting orig (s.images orig).length)).Dropped := by
  intro d j gone
  by_cases hd : d = orig
  · subst hd
    have past : (s.images d).length ≤ j := by
      by_contra inside
      exact gone (.inr ⟨t, _, by rw [pc_goto, if_pos rfl], Nat.lt_of_not_le inside⟩)
    have outside : (s.images d)[j]? = none := List.getElem?_eq_none past
    simp only [ref, Reload.goto, outside, Option.bind_none]
  · refine h d j fun here => gone ?_
    rcases here with living | ⟨u, k, dying, ahead⟩
    · refine .inl ?_
      simp only [Reload.goto, Function.update_of_ne hd]
      exact living
    · refine .inr ⟨u, k, ?_, ahead⟩
      have ne : u ≠ t := by
        rintro rfl
        rw [at'] at dying
        cases dying
      rw [pc_goto, if_neg ne]
      exact dying

theorem ref_clear (s : Reload) (d k e j : Nat) : (s.clear d k).ref (.listed e j) =
    if e = d ∧ j = k then none else s.ref (.listed e j) := by
  unfold Reload.clear
  split
  · rename_i outside
    split
    · rename_i same
      simp only [ref, same.1, same.2, outside, Option.bind_none]
    · rfl
  · rename_i img here
    have inside : k < (s.images d).length := (List.getElem?_eq_some_iff.mp here).1
    have cleared : ((Function.update s.images d
        ((s.images d).set k { img with ptr := none }) e)[j]?.bind fun img => img.ptr) =
          if e = d ∧ j = k then none else s.ref (.listed e j) := by
      by_cases he : e = d
      · subst he
        by_cases hj : j = k
        · subst hj
          simp [inside]
        · simp [ref, hj, List.getElem?_set_ne (Ne.symm hj)]
      · simp [ref, he]
    rw [← cleared]
    simp only
    split <;> rfl

theorem Dropped.clear (h : s.Dropped) {orig k : Nat} (at' : s.pc t = .deleting orig (k + 1)) :
    ((s.clear orig k).goto t (.deleting orig k)).Dropped := by
  intro d j gone
  have listed : ((s.clear orig k).goto t (.deleting orig k)).ref (.listed d j) =
      (s.clear orig k).ref (.listed d j) := rfl
  rw [listed, ref_clear]
  split
  · rfl
  · rename_i other
    refine h d j fun here => gone ?_
    obtain ⟨_, _, _, same⟩ := clear_frame s orig k
    rcases here with living | ⟨u, n, dying, ahead⟩
    · refine .inl ?_
      rw [same]
      exact living
    · by_cases hu : u = t
      · subst hu
        rw [at'] at dying
        cases dying
        exact .inr ⟨u, k, by rw [pc_goto, if_pos rfl], by omega⟩
      · refine .inr ⟨u, n, ?_, ahead⟩
        rw [pc_goto, if_neg hu, same]
        exact dying

theorem Dropped.next (h : s.Dropped) (step : s.next t = some s') : s'.Dropped := by
  cases next_cases step with
  | go p _ _ _ _ _ _ left => exact h.goto rfl (fun _ living => living) rfl left
  | leave p before =>
    refine h.goto (q := s.unlock) rfl (fun _ living => living) rfl ?_
    cases at' : s.pc t with
    | deleting d k =>
      rw [at'] at before
      cases before
    | _ => rfl
  | create d at' => exact h.create (by rw [at']; rfl)
  | found d m name img at' =>
    exact h.goto (q := s.retain m) rfl (fun _ living => living) rfl (by rw [at']; rfl)
  | drop m at' =>
    refine h.goto (q := s.release m) rfl (fun _ living => living) rfl ?_
    rcases at' with at' | at' <;> rw [at'] <;> rfl
  | modify d at' =>
    exact h.goto (q := { s with exclusive := true }) rfl (fun _ living => living) rfl
      (by rw [at']; rfl)
  | swap d at' =>
    exact h.goto (q := { s with active := some d }) rfl (fun _ living => living) rfl
      (by rw [at']; rfl)
  | commit orig at' =>
    exact h.goto (q := { s with exclusive := false }) rfl (fun _ living => living) rfl
      (by rw [at']; rfl)
  | delete orig at' => exact h.delete at'
  | clear orig k at' => exact h.clear at'

theorem Dropped.addImage (guarded : s.Guarded) (h : s.Dropped) {d : Nat}
    (at' : (s.pc t).building = some d) (name : String) : (s.addImage d name).Dropped := by
  intro e j gone
  have ne : e ≠ d := by
    rintro rfl
    exact gone (.inl (guarded.fresh t e at'))
  have before := h e j gone
  simp only [ref] at before ⊢
  simp only [Reload.addImage, Function.update_of_ne ne]
  exact before

theorem Dropped.step (guarded : s.Guarded) (h : s.Dropped) {a : Move}
    (step : s.step a = some s') : s'.Dropped := by
  cases a with
  | take t task =>
    simp only [Reload.step] at step
    split at step
    · rename_i idle
      obtain ⟨q, entered, rfl⟩ := Option.map_eq_some_iff.mp step
      simp only [access] at entered
      split at entered
      · cases entered
      · cases entered
        exact h.goto (q := { s with shared := s.shared + 1 }) rfl (fun _ living => living) rfl
          (by rw [idle]; rfl)
    · cases step
  | boot t =>
    simp only [Reload.step] at step
    split at step
    · rename_i idle
      cases step
      exact h.create (by rw [idle]; rfl)
    · cases step
  | next t => exact h.next step
  | list t name =>
    simp only [Reload.step] at step
    split at step
    · rename_i via d at'
      cases step
      exact h.addImage guarded (by rw [at']; rfl) name
    · cases step
  | check t found =>
    simp only [Reload.step] at step
    split at step
    · rename_i m at'
      have left : (s.pc t).left = 0 := by
        rw [at']
        rfl
      cases step
      split
      · exact h.goto rfl (fun _ living => living) rfl left
      · exact h.goto (q := s.release m) rfl (fun _ living => living) rfl left
    · cases step
  | attach t call =>
    simp only [Reload.step] at step
    split at step
    · rename_i m at' _
      cases step
      exact h.goto (q := { s.retain m with
        attached := Function.update s.attached call (some m) }) rfl (fun _ living => living) rfl
          (by rw [at']; rfl)
    · cases step
  | detach call =>
    simp only [Reload.step] at step
    split at step
    · cases step
    · cases step
      exact h.mono rfl fun _ _ here => here

end Destructor

theorem start_dropped : start.Dropped := fun _ _ _ => rfl

theorem start_counted : start.Counted := by
  have none : start.ref = fun _ => none := by
    funext h
    cases h <;> rfl
  refine ⟨none ▸ Refcount.Counts.empty, fun m => ⟨fun freed => ?_, fun made => ?_⟩,
    fun _ _ => rfl, fun _ _ => rfl⟩
  · cases freed
  · exact absurd made.1 (Nat.not_lt_zero m)

theorem step_attached {s s' : Reload} {a : Move} (step : s.step a = some s') {i m : Nat}
    (running : s.attached i = some m) (stays : a ≠ .detach i) : s'.attached i = some m := by
  have next : ∀ {t}, s.next t = some s' → s'.attached = s.attached := by
    intro t step
    cases next_cases step with
    | clear orig k =>
      obtain ⟨_, _, _, same⟩ := clear_frame s orig k
      rw [same]
      rfl
    | _ => rfl
  cases a with
  | take t task =>
    simp only [Reload.step] at step
    split at step
    · obtain ⟨q, entered, rfl⟩ := Option.map_eq_some_iff.mp step
      simp only [access] at entered
      split at entered <;> cases entered
      exact running
    · cases step
  | boot t =>
    simp only [Reload.step] at step
    split at step <;> cases step
    exact running
  | next t => rw [next step, running]
  | list t name =>
    simp only [Reload.step] at step
    split at step <;> cases step
    exact running
  | check t found =>
    simp only [Reload.step] at step
    split at step <;> cases step
    split <;> exact running
  | attach t call =>
    simp only [Reload.step] at step
    split at step
    · rename_i free
      cases step
      have ne : i ≠ call := fun e => by rw [e, free] at running; cases running
      simp only [goto, retain, Function.update_of_ne ne]
      exact running
    · cases step
  | detach call =>
    simp only [Reload.step] at step
    split at step
    · cases step
    · cases step
      have ne : i ≠ call := fun e => stays (e ▸ rfl)
      simp only [release, Function.update_of_ne ne]
      exact running

/-- In every run of any number of threads: no thread uses a deleted instance; an image
has been freed exactly when no instance that is alive or still in its destructor lists it,
no call runs it and no lookup holds it; and a call keeps its image, which is not freed,
until it detaches. -/
theorem images_safe (as : List Move) :
    Run.Always step (fun s => s.Safe ∧ s.Exact) start as ∧
      Run.Along step (fun s a => ∀ i m, s.attached i = some m → a ≠ .detach i →
        ∀ s', s.step a = some s' → s'.attached i = some m ∧ s'.freed m = false) start as := by
  have keep : ∀ (s : Reload) (a : Move) (s' : Reload), s.Guarded ∧ s.Counted ∧ s.Dropped →
      True → s.step a = some s' → s'.Guarded ∧ s'.Counted ∧ s'.Dropped :=
    fun s a s' h _ step => ⟨h.1.step step, h.2.1.step h.1 step, h.2.2.step h.1 step⟩
  have all : Run.Along step (fun _ _ => True) start as :=
    @Run.Along.of_all Reload Move step (fun _ => True) as start fun _ _ => trivial
  have sound : start.Guarded ∧ start.Counted ∧ start.Dropped :=
    ⟨start_guarded, start_counted, start_dropped⟩
  constructor
  · exact Run.Always.of_invariant keep (fun s h => ⟨h.1.safe, h.2.1.exact h.2.2⟩) sound all
  · refine all.strengthen keep ?_ sound
    intro s a h _ i m running stays s' step
    have attached := step_attached step running stays
    have after := (keep s a s' h trivial step).2
    have exact' := after.1.exact after.2 m
    refine ⟨attached, ?_⟩
    have held : s'.ref (.call i) = some m := attached
    cases freed : s'.freed m with
    | false => rfl
    | true => exact absurd held ((exact'.mp freed).2 _ trivial)

end Reload

end Bayonne
