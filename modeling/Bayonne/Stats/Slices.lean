import Bayonne.Control
import Bayonne.Stats.Report

/-! Collecting the statistics once in every slice of time. -/
namespace Bayonne

namespace Slice

/-- A boundary, a multiple of `q`, lies after `prev` and not after `now`. -/
def Passed (q prev now : Int) : Prop := ∃ k, prev < k * q ∧ k * q ≤ now

def boundary (q now : Int) : Int := now / q * q

variable {q prev now : Int}

theorem boundary_le (pos : 0 < q) : boundary q now ≤ now :=
  Int.ediv_mul_le now (Int.ne_of_gt pos)

theorem le_boundary (pos : 0 < q) {k : Int} (le : k * q ≤ now) : k * q ≤ boundary q now :=
  Int.mul_le_mul_of_nonneg_right ((Int.le_ediv_iff_mul_le pos).mpr le) (Int.le_of_lt pos)

theorem passed_iff (pos : 0 < q) : Passed q prev now ↔ prev < boundary q now := by
  constructor
  · rintro ⟨k, after, le⟩
    exact Int.lt_of_lt_of_le after (le_boundary pos le)
  · exact fun after => ⟨now / q, after, boundary_le pos⟩

theorem passed_iff_next (pos : 0 < q) : Passed q prev now ↔ (prev / q + 1) * q ≤ now := by
  constructor
  · rintro ⟨k, after, le⟩
    have next : prev / q + 1 ≤ k := (Int.ediv_lt_iff_lt_mul pos).mpr after
    exact Int.le_trans (Int.mul_le_mul_of_nonneg_right next (Int.le_of_lt pos)) le
  · exact fun le => ⟨prev / q + 1, Int.lt_ediv_add_one_mul_self prev pos, le⟩

theorem Passed.mono {later : Int} (h : Passed q prev now) (le : now ≤ later) :
    Passed q prev later := by
  obtain ⟨k, after, before⟩ := h
  exact ⟨k, after, Int.le_trans before le⟩

end Slice

/-- The static `periodic`, the table, and what the statistics log holds: for each
collection the length of its interval and the lines about the nodes. -/
structure Statistics where
  periodic : Time
  table : Table
  log : List (Int × List LogLine)

/-- One call of `server::period`: what the table has seen since the last one, the time,
and whether the log can be opened. -/
structure Collection where
  before : List TableOp
  now : Time
  opens : Bool

namespace Statistics

def start (now : Time) (t : Table) : Statistics := ⟨now, t, []⟩

/-- `server::period` from its assertion on, with nothing for the death of the process. It
compares with `periodic` and logs from it, but never sets it. The label of the line in the log
comes from an array that nothing was printed to, and is left out. -/
def period (s : Statistics) (slice : Int) (now : Time) (opens : Bool) :
    Option (Bool × Statistics) :=
  if slice ≤ 0 then none
  else
    let slice := (slice * 60).bmod 18446744073709551616
    if slice = 0 then none
    else
      let next := (s.periodic.tdiv slice + 1) * slice
      if now < next then some (false, s)
      else
        let next := now.tdiv slice * slice
        let rotated := s.table.period opens
        some (true,
          { s with
            table := rotated.2
            log := if opens then s.log ++ [(next - s.periodic, rotated.1)] else s.log })

theorem period_none (s : Statistics) (slice : Int) (now : Time) (opens : Bool) :
    s.period slice now opens = none ↔ Control.badPeriod slice = true := by
  unfold period Control.badPeriod
  by_cases low : slice ≤ 0
  · simp [low]
  by_cases zero : (slice * 60).bmod 18446744073709551616 = 0
  · simp [low, zero]
  simp only [low, zero, if_false]
  split <;> simp

def reach (s : Statistics) (c : Collection) : Statistics :=
  { s with table := s.table.run c.before }

def logged (s : Statistics) : Int := s.log.foldl (fun sum entry => sum + entry.1) 0

/-- The time from startup to the last slice boundary passed. -/
def elapsed (q startup now : Int) : Int :=
  if startup < Slice.boundary q now then Slice.boundary q now - startup else 0

/-- Every call collects exactly when a boundary has been passed since the previous
collection, which was at `prev`, and the intervals logged add up. -/
def Lawful (m startup : Int) : Statistics → Time → List Collection → Prop
  | _, _, [] => True
  | s, prev, c :: cs =>
    ∃ collects t, (s.reach c).period m c.now c.opens = some (collects, t) ∧
      (collects = true ↔ Slice.Passed (m * 60) prev c.now) ∧
      t.table = (if collects then ((s.reach c).table.period c.opens).2 else (s.reach c).table) ∧
      t.logged = elapsed (m * 60) startup c.now ∧
      Lawful m startup t (if collects then c.now else prev) cs

section Law
variable {m : Int} {s : Statistics} {now : Time} {opens : Bool}

theorem seconds (pos : 0 < m) (fits : m * 60 < 9223372036854775808) :
    (m * 60).bmod 18446744073709551616 = m * 60 := by
  apply Int.bmod_eq_of_le <;> omega

theorem period_quiet (pos : 0 < m) (fits : m * 60 < 9223372036854775808)
    (epoch : 0 ≤ s.periodic) (quiet : ¬ Slice.Passed (m * 60) s.periodic now) :
    s.period m now opens = some (false, s) := by
  have nonzero : m * 60 ≠ 0 := by omega
  have before : now < (s.periodic / (m * 60) + 1) * (m * 60) :=
    Int.not_le.mp fun le => quiet ((Slice.passed_iff_next (by omega)).mpr le)
  unfold period
  rw [if_neg (Int.not_le.mpr pos)]
  simp only [seconds pos fits]
  rw [if_neg nonzero, Int.tdiv_eq_ediv_of_nonneg epoch, if_pos before]

def rotated (s : Statistics) (q : Int) (now : Time) (opens : Bool) : Statistics :=
  { s with
    table := (s.table.period opens).2
    log := if opens then
        s.log ++ [(Slice.boundary q now - s.periodic, (s.table.period opens).1)] else s.log }

theorem period_due (pos : 0 < m) (fits : m * 60 < 9223372036854775808)
    (epoch : 0 ≤ s.periodic) (after : s.periodic ≤ now)
    (due : Slice.Passed (m * 60) s.periodic now) :
    s.period m now opens = some (true, s.rotated (m * 60) now opens) := by
  have nonzero : m * 60 ≠ 0 := by omega
  have reached : (s.periodic / (m * 60) + 1) * (m * 60) ≤ now :=
    (Slice.passed_iff_next (by omega)).mp due
  unfold period
  rw [if_neg (Int.not_le.mpr pos)]
  simp only [seconds pos fits]
  rw [if_neg nonzero, Int.tdiv_eq_ediv_of_nonneg epoch, if_neg (Int.not_lt.mpr reached),
    Int.tdiv_eq_ediv_of_nonneg (Int.le_trans epoch after)]
  rfl

theorem logged_rotated (s : Statistics) (q : Int) (now : Time) (opens : Bool) :
    (s.rotated q now opens).logged =
      s.logged + if opens then Slice.boundary q now - s.periodic else 0 := by
  cases opens <;> simp [logged, rotated]

theorem elapsed_quiet {q startup : Int} (pos : 0 < q) (quiet : ¬ Slice.Passed q startup now) :
    elapsed q startup now = 0 := by
  rw [Slice.passed_iff pos] at quiet
  exact if_neg quiet

theorem elapsed_due {q startup : Int} (pos : 0 < q) (due : Slice.Passed q startup now) :
    elapsed q startup now = Slice.boundary q now - startup ∧
      startup < Slice.boundary q now := by
  rw [Slice.passed_iff pos] at due
  exact ⟨if_pos due, due⟩

variable {prev : Time} {c : Collection} {cs : List Collection}

theorem lawful_quiet (pos : 0 < m) (fits : m * 60 < 9223372036854775808)
    (epoch : 0 ≤ s.periodic) (empty : s.logged = 0)
    (quiet : ¬ Slice.Passed (m * 60) s.periodic c.now) :
    Lawful m s.periodic s s.periodic (c :: cs) ↔
      Lawful m s.periodic (s.reach c) s.periodic cs := by
  have same : (s.reach c).period m c.now c.opens = some (false, s.reach c) :=
    period_quiet pos fits epoch quiet
  constructor
  · rintro ⟨collects, t, found, -, -, -, rest⟩
    cases same.symm.trans found
    exact rest
  · intro rest
    exact ⟨false, s.reach c, same, by simpa using quiet, rfl,
      empty.trans (elapsed_quiet (by omega) quiet).symm, rest⟩

theorem lawful_due (pos : 0 < m) (fits : m * 60 < 9223372036854775808)
    (epoch : 0 ≤ s.periodic) (after : s.periodic ≤ c.now)
    (due : Slice.Passed (m * 60) s.periodic c.now) :
    Lawful m s.periodic s prev (c :: cs) ↔ Slice.Passed (m * 60) prev c.now ∧
      s.logged + (if c.opens then Slice.boundary (m * 60) c.now - s.periodic else 0) =
        Slice.boundary (m * 60) c.now - s.periodic ∧
      Lawful m s.periodic ((s.reach c).rotated (m * 60) c.now c.opens) c.now cs := by
  have collects : (s.reach c).period m c.now c.opens =
      some (true, (s.reach c).rotated (m * 60) c.now c.opens) := period_due pos fits epoch after due
  have sum := logged_rotated (s.reach c) (m * 60) c.now c.opens
  have all := (elapsed_due (by omega) due).1
  constructor
  · rintro ⟨collects', t, found, again, -, added, rest⟩
    cases collects.symm.trans found
    exact ⟨by simpa using again, sum.symm.trans (added.trans all), rest⟩
  · rintro ⟨again, added, rest⟩
    exact ⟨true, _, collects, by simpa using again, rfl, sum.trans (added.trans all.symm), rest⟩

theorem not_lawful_again (pos : 0 < m) (fits : m * 60 < 9223372036854775808)
    (epoch : 0 ≤ s.periodic) (after : s.periodic ≤ prev)
    (due : Slice.Passed (m * 60) s.periodic prev) (later : prev ≤ c.now)
    (sum : s.logged = Slice.boundary (m * 60) prev - s.periodic) :
    ¬ Lawful m s.periodic s prev (c :: cs) := by
  intro lawful
  have far := (elapsed_due (by omega) due).2
  have again := due.mono later
  obtain ⟨next, total, -⟩ :=
    (lawful_due pos fits epoch (Int.le_trans after later) again).mp lawful
  have between : prev < Slice.boundary (m * 60) c.now := (Slice.passed_iff (by omega)).mp next
  have old : Slice.boundary (m * 60) prev ≤ prev := Slice.boundary_le (by omega)
  cases opens : c.opens
  · have same : s.logged = Slice.boundary (m * 60) c.now - s.periodic := by
      simpa [opens] using total
    have equal : Slice.boundary (m * 60) prev = Slice.boundary (m * 60) c.now := by omega
    rw [equal] at old
    exact absurd between (Int.not_lt.mpr old)
  · rw [opens, if_pos rfl] at total
    omega

/-- The sequence is lawful exactly if at most one of its calls is made after the end of
the slice of startup, and finds the log. -/
theorem lawful_iff (pos : 0 < m) (fits : m * 60 < 9223372036854775808)
    (epoch : 0 ≤ s.periodic) (empty : s.logged = 0)
    (ordered : cs.Pairwise fun a b => a.now ≤ b.now) (after : ∀ c ∈ cs, s.periodic ≤ c.now) :
    Lawful m s.periodic s s.periodic cs ↔
      (cs.Pairwise fun a b => ¬ (Slice.Passed (m * 60) s.periodic a.now ∧
        Slice.Passed (m * 60) s.periodic b.now)) ∧
      ∀ c ∈ cs, Slice.Passed (m * 60) s.periodic c.now → c.opens = true := by
  induction cs generalizing s with
  | nil => exact ⟨fun _ => ⟨.nil, nofun⟩, fun _ => trivial⟩
  | cons c cs ih =>
    obtain ⟨later, ordered⟩ := List.pairwise_cons.mp ordered
    have here := after c List.mem_cons_self
    by_cases due : Slice.Passed (m * 60) s.periodic c.now
    · have far := (elapsed_due (by omega) due).2
      rw [lawful_due pos fits epoch here due, empty]
      cases cs with
      | nil =>
        have some : (if c.opens then Slice.boundary (m * 60) c.now - s.periodic else 0) =
            Slice.boundary (m * 60) c.now - s.periodic ↔ c.opens = true := by
          cases c.opens
          · simpa using Int.ne_of_gt (Int.sub_pos_of_lt far) |>.symm
          · simp
        rw [Int.zero_add, some]
        simp [Lawful, due]
      | cons c' cs =>
        have due' : Slice.Passed (m * 60) s.periodic c'.now :=
          due.mono (later c' List.mem_cons_self)
        constructor
        · rintro ⟨-, sum, rest⟩
          have total : ((s.reach c).rotated (m * 60) c.now c.opens).logged =
              Slice.boundary (m * 60) c.now - s.periodic := by
            rw [logged_rotated, ← sum, ← empty]
            rfl
          exact absurd rest (not_lawful_again pos fits epoch here due
            (later c' List.mem_cons_self) total)
        · rintro ⟨single, -⟩
          exact absurd ⟨due, due'⟩ ((List.pairwise_cons.mp single).1 c' List.mem_cons_self)
    · rw [lawful_quiet pos fits epoch empty due]
      have rest := ih (s := s.reach c) epoch empty ordered fun c' hc' =>
        after c' (List.mem_cons_of_mem c hc')
      refine rest.trans ?_
      simp [List.pairwise_cons, due, reach]

end Law

/-- A server collects once in every slice, and its intervals add up, exactly as long as at
most one call comes after the end of the slice of startup, and can write the log:
`periodic` stays at startup, so every later call collects again, and logs from there. -/
theorem lawful_of_start (m : Int) (startup : Time) {calls : List Collection} (t : Table)
    (pos : 0 < m) (fits : m * 60 < 9223372036854775808) (epoch : 0 ≤ startup)
    (ordered : calls.Pairwise fun a b => a.now ≤ b.now)
    (after : ∀ c ∈ calls, startup ≤ c.now) :
    Lawful m startup (start startup t) startup calls ↔
      (calls.Pairwise fun a b => ¬ (Slice.Passed (m * 60) startup a.now ∧
        Slice.Passed (m * 60) startup b.now)) ∧
      ∀ c ∈ calls, Slice.Passed (m * 60) startup c.now → c.opens = true :=
  lawful_iff (s := start startup t) pos fits epoch rfl ordered after

theorem lawful_of_start_five :
    Lawful 5 1000 (start 1000 Server.sample.table) 1000
      [⟨[], 1100, true⟩, ⟨[.update 1 .incoming], 1250, true⟩] := by
  have early : ¬ Slice.Passed (5 * 60) 1000 1100 := by
    rw [Slice.passed_iff (by decide)]
    decide
  refine (lawful_of_start 5 1000 Server.sample.table (by decide) (by decide) (by decide)
    (by decide) (by decide)).mpr ⟨?_, fun c hc _ => ?_⟩
  · exact List.pairwise_pair.mpr fun both => early both.1
  · simp only [List.mem_cons, List.not_mem_nil, or_false] at hc
    rcases hc with rfl | rfl <;> rfl

/-- A minute later the same slice is collected again. -/
theorem not_lawful : ¬ ∀ (m : Int) (startup : Time) (calls : List Collection),
    0 < m → m * 60 < 9223372036854775808 → 0 ≤ startup →
    calls.Pairwise (fun a b => a.now ≤ b.now) → (∀ c ∈ calls, startup ≤ c.now) →
    Lawful m startup (start startup Server.sample.table) startup calls := by
  intro whole
  have lawful := whole 5 1000 [⟨[], 1200, true⟩, ⟨[], 1260, true⟩] (by decide) (by decide)
    (by decide) (by decide) (by decide)
  obtain ⟨single, -⟩ := (lawful_iff (s := start 1000 Server.sample.table) (by decide) (by decide)
    (by decide) rfl (by decide) (by decide)).mp lawful
  refine (List.pairwise_cons.mp single).1 _ List.mem_cons_self ⟨?_, ?_⟩ <;>
    · rw [Slice.passed_iff (by decide)]
      decide

end Statistics
end Bayonne
