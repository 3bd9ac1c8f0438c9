import Bayonne.Timeslot.Classes

/-! The call records of each timeslot: START and STOP in turn, in pairs, with sequence
numbers that go up by one from call to call. -/
namespace Bayonne

def Line.inCall (l : Line) : Nat := if l.phase = .busy then 1 else 0

/-- The marks of a line with index `i` that has ended `c` calls. The `k`th mark is about
call `k / 2`, and its type alternates. -/
structure Log (l : Line) (i c : Nat) (ms : List Mark) : Prop where
  inst : l.inst = UInt32.ofNat i
  sequence : l.sequence = UInt32.ofNat (c + l.inCall)
  length : ms.length = 2 * c + l.inCall
  entry : ∀ k m, ms[k]? = some m → m.type = (if k % 2 = 0 then .start else .stop) ∧
    m.timeslot = UInt32.ofNat i ∧ m.sequence = UInt32.ofNat (k / 2 + 1)
  matched : ∀ k m m', ms[2 * k]? = some m → ms[2 * k + 1]? = some m' → m'.starting = m.starting
  last : l.phase = .busy → ∃ m, ms[2 * c]? = some m ∧ m.starting = l.started

namespace Log
variable {l : Line} {i c : Nat} {ms : List Mark}

theorem concat_some {m m' : Mark} {k : Nat} :
    (ms ++ [m])[k]? = some m' ↔ ms[k]? = some m' ∨ k = ms.length ∧ m' = m := by
  rw [List.getElem?_append]
  split
  · constructor
    · exact .inl
    · rintro (h | ⟨rfl, -⟩)
      · exact h
      · omega
  · have past : ms[k]? = none := List.getElem?_eq_none (by omega)
    rw [past, List.getElem?_singleton]
    grind

theorem start (h : Log l i c ms) (free : l.phase ≠ .busy) (cid : Nat) (stat : Stat)
    (reg : Option Nat) (now : Now) :
    Log (l.start cid stat reg now) i c (ms ++ [(l.start cid stat reg now).mark .start]) := by
  have closed : l.inCall = 0 := by simp [Line.inCall, free]
  have opened : (l.start cid stat reg now).inCall = 1 := by simp [Line.inCall, Line.start]
  have length := h.length
  have sequence := h.sequence
  rw [closed, Nat.add_zero] at length sequence
  have next : (l.start cid stat reg now).sequence = UInt32.ofNat (c + 1) := by
    simp [Line.start, sequence, UInt32.ofNat_add]
  constructor
  · exact h.inst
  · rw [next, opened]
  · rw [List.length_append, length, opened]; rfl
  · intro k m hm
    rcases concat_some.mp hm with old | ⟨rfl, rfl⟩
    · exact h.entry k m old
    · have even : ms.length % 2 = 0 := by omega
      have half : ms.length / 2 = c := by omega
      rw [even, half]
      exact ⟨rfl, h.inst, next⟩
  · intro k m m' hm hm'
    rcases concat_some.mp hm' with old' | ⟨last, rfl⟩
    · rcases concat_some.mp hm with old | ⟨last, _⟩
      · exact h.matched k m m' old old'
      · have := (List.getElem?_eq_some_iff.mp old').1
        omega
    · omega
  · intro _
    refine ⟨_, concat_some.mpr (.inr ⟨length.symm, rfl⟩), rfl⟩

theorem finish (h : Log l i c ms) (busy : l.phase = .busy) :
    Log l.finish i (c + 1) (ms ++ [l.mark .stop]) := by
  have opened : l.inCall = 1 := by simp [Line.inCall, busy]
  have closed : l.finish.inCall = 0 := by simp [Line.inCall, Line.finish]
  have length := h.length
  have sequence := h.sequence
  rw [opened] at length sequence
  constructor
  · exact h.inst
  · rw [closed]; exact sequence
  · rw [List.length_append, length, closed, List.length_singleton]; omega
  · intro k m hm
    rcases concat_some.mp hm with old | ⟨rfl, rfl⟩
    · exact h.entry k m old
    · have odd : ms.length % 2 = 1 := by omega
      have half : ms.length / 2 = c := by omega
      rw [odd, half]
      exact ⟨rfl, h.inst, sequence⟩
  · intro k m m' hm hm'
    rcases concat_some.mp hm with old | ⟨last, _⟩
    · rcases concat_some.mp hm' with old' | ⟨last, rfl⟩
      · exact h.matched k m m' old old'
      · obtain ⟨m₀, hm₀, started⟩ := h.last busy
        have : k = c := by omega
        rw [this] at old
        cases hm₀.symm.trans old
        exact started.symm
    · omega
  · intro busy'
    cases busy'

theorem idle {l' : Line} (h : Log l i c ms) (free : l.phase ≠ .busy) (free' : l'.phase ≠ .busy)
    (inst : l'.inst = l.inst) (sequence : l'.sequence = l.sequence) : Log l' i c ms := by
  have same : l'.inCall = l.inCall := by simp [Line.inCall, free, free']
  exact ⟨inst.trans h.inst, by rw [sequence, h.sequence, same], by rw [h.length, same], h.entry,
    h.matched, fun busy => absurd busy free'⟩

end Log

namespace Exchange
variable {n : Nat} {server : Server}

def marks (x : Exchange n) (i : Fin n) : List Mark :=
  x.calls.filterMap fun call => if call.1 = i then some call.2 else none

def Logged (x : Exchange n) : Prop := ∀ i, ∃ c, Log (x.line i) i c (x.marks i)

theorem Logged.change {x y : Exchange n} (h : x.Logged) (i : Fin n)
    (lines : ∀ j, j ≠ i → y.line j = x.line j) (marks : ∀ j, j ≠ i → y.marks j = x.marks j)
    (here : ∀ c, Log (x.line i) i c (x.marks i) → ∃ c, Log (y.line i) i c (y.marks i)) :
    y.Logged := by
  intro j
  obtain ⟨c, log⟩ := h j
  by_cases hj : j = i
  · subst hj; exact here c log
  · exact ⟨c, by rw [lines j hj, marks j hj]; exact log⟩

theorem marks_concat {x : Exchange n} {i : Fin n} {m : Mark} {l links counters} (j : Fin n) :
    marks ⟨l, links, counters, x.calls ++ [(i, m)]⟩ j =
      if i = j then x.marks j ++ [m] else x.marks j := by
  simp only [marks, List.filterMap_append, List.filterMap_cons, List.filterMap_nil]
  by_cases hj : i = j <;> simp [hj]

theorem Logged.start {x : Exchange n} (h : x.Logged) {i : Fin n}
    (free : (x.line i).phase = .free) (cid : Nat) (stat : Stat) (reg : Option Nat) (now : Now) :
    (x.start server i cid stat reg now).Logged := by
  refine h.change i (fun j hj => line_start_of_ne x hj _ _ _ _) (fun j hj => ?_)
    fun c log => ⟨c, ?_⟩
  · rw [Exchange.start, marks_concat, if_neg (Ne.symm hj)]
  · rw [line_start, Exchange.start, marks_concat, if_pos rfl]
    exact log.start (by simp [free]) cid stat reg now

theorem Logged.finish {x : Exchange n} (h : x.Logged) {i : Fin n}
    (busy : (x.line i).phase = .busy) (lastcall : Owner → Time) :
    (x.finish server i lastcall).Logged := by
  refine h.change i (fun j hj => line_finish_of_ne x hj _) (fun j hj => ?_)
    fun c log => ⟨c + 1, ?_⟩
  · rw [Exchange.finish, marks_concat, if_neg (Ne.symm hj)]
  · rw [line_finish, Exchange.finish, marks_concat, if_pos rfl]
    exact log.finish busy

theorem Logged.off {x : Exchange n} (h : x.Logged) {i : Fin n}
    (free : (x.line i).phase = .free) (now : Now) : (x.off i now).Logged := by
  refine h.change i (fun j hj => line_off_of_ne x hj _) (fun j hj => rfl) fun c log => ⟨c, ?_⟩
  rw [line_off]
  exact log.idle (by simp [free]) (by simp) rfl rfl

theorem Logged.on {x : Exchange n} (h : x.Logged) {i : Fin n}
    (offline : (x.line i).phase = .offline) : (x.on i).Logged := by
  refine h.change i (fun j hj => line_on_of_ne x hj) (fun j hj => rfl) fun c log => ⟨c, ?_⟩
  rw [line_on]
  exact log.idle (by simp [offline]) (by simp) rfl rfl

theorem Logged.response {x y : Exchange n} (h : x.Logged) {i : Fin n} {ans : Answers}
    (r : x.Response server i ans y) : y.Logged := by
  cases r with
  | quiet => exact h
  | finish busy => exact h.finish busy _
  | off free => exact h.off free _
  | finishOff busy =>
    have free : ((x.finish server i ans.lastcall).line i).phase = .free := by
      rw [line_finish]; rfl
    exact (h.finish busy _).off free _
  | on offline => exact h.on offline

theorem Logged.outcome {x y : Exchange n} (h : x.Logged) {a : Action n}
    (o : x.Outcome server a y) : y.Logged := by
  cases o with
  | full | refused | scripted | returned => exact h
  | assigned i _ free => exact h.start free _ _ _ _
  | admitted reg i _ _ _ free =>
    have attached : (x.attach reg).Logged := h
    exact attached.start free _ _ _ _
  | posted response => exact h.response response
  | expired response => exact h.response response

end Exchange

namespace Pool
variable {n : Nat}

def records (p : Pool n) (i : Fin n) : List Dbi :=
  p.calls.filterMap fun call => if call.1 = i then some call.2 else none

theorem marks_exchange (p : Pool n) (i : Fin n) :
    p.exchange.marks i = (p.records i).map Dbi.mark := by
  simp only [Exchange.marks, exchange, records, List.filterMap_map, List.map_filterMap]
  congr 1
  funext call
  by_cases hc : call.1 = i <;> simp [hc]

/-- The records of a slot tell its calls apart and say when each began and ended. -/
structure CallLog (p : Pool n) (i : Fin n) : Prop where
  alternate : ∀ k r, (p.records i)[k]? = some r → r.type = if k % 2 = 0 then .start else .stop
  matched : ∀ k r r', (p.records i)[2 * k]? = some r → (p.records i)[2 * k + 1]? = some r' →
    r'.timeslot = r.timeslot ∧ r'.sequence = r.sequence ∧ r'.starting = r.starting
  successive : ∀ k r r', (p.records i)[2 * k]? = some r →
    (p.records i)[2 * (k + 1)]? = some r' → r'.sequence = r.sequence + 1
  inCall : classOf (p.slot i).handler = .inCall ↔
    ∃ r, (p.records i).getLast? = some r ∧ r.type = .start
  distinct : ∀ k k' r r', (p.records i)[2 * k]? = some r → (p.records i)[2 * k']? = some r' →
    k < k' → k' - k < UInt32.size → r'.sequence ≠ r.sequence

theorem inCall_iff (p : Pool n) (i : Fin n) :
    classOf (p.slot i).handler = .inCall ↔ (p.exchange.line i).phase = .busy := by
  have phase : (p.exchange.line i).phase = (p.slot i).handler.phase := rfl
  rw [phase]
  cases (p.slot i).handler <;> simp [classOf, Handler.phase]

theorem CallLog.of_log {p : Pool n} {i : Fin n} {c : Nat}
    (log : Log (p.exchange.line i) i c (p.exchange.marks i)) : p.CallLog i := by
  rw [marks_exchange] at log
  have entry : ∀ k r, (p.records i)[k]? = some r →
      r.type = (if k % 2 = 0 then .start else .stop) ∧ r.timeslot = UInt32.ofNat i ∧
        r.sequence = UInt32.ofNat (k / 2 + 1) := fun k r hr =>
    log.entry k r.mark (by simp [hr])
  have even : ∀ k r, (p.records i)[2 * k]? = some r → r.sequence = UInt32.ofNat (k + 1) := by
    intro k r hr
    have := (entry _ r hr).2.2
    rwa [Nat.mul_div_cancel_left k (by decide)] at this
  have length := log.length
  rw [List.length_map] at length
  refine ⟨fun k r hr => (entry k r hr).1, ?_, ?_, ?_, ?_⟩
  · intro k r r' hr hr'
    have one := entry _ r hr
    have two := entry _ r' hr'
    have half : (2 * k + 1) / 2 = k := by omega
    have half' : 2 * k / 2 = k := by omega
    rw [half] at two
    rw [half'] at one
    exact ⟨two.2.1.trans one.2.1.symm, two.2.2.trans one.2.2.symm,
      log.matched k r.mark r'.mark (by simp [hr]) (by simp [hr'])⟩
  · intro k r r' hr hr'
    rw [even k r hr, even (k + 1) r' hr', UInt32.ofNat_add (k + 1) 1]
    rfl
  · rw [inCall_iff, List.getLast?_eq_getElem?, length]
    unfold Line.inCall
    constructor
    · intro busy
      obtain ⟨m, hm, _⟩ := log.last busy
      rw [if_pos busy, Nat.add_sub_cancel]
      rw [List.getElem?_map] at hm
      obtain ⟨r, hr, _⟩ := Option.map_eq_some_iff.mp hm
      exact ⟨r, hr, by simpa using (entry _ r hr).1⟩
    · rintro ⟨r, hr, start⟩
      by_contra idle
      rw [if_neg idle, Nat.add_zero] at hr
      have type := (entry _ r hr).1
      have inside := (List.getElem?_eq_some_iff.mp hr).1
      rw [length, Line.inCall, if_neg idle] at inside
      have odd : ¬ (2 * c - 1) % 2 = 0 := by omega
      rw [if_neg odd, start] at type
      cases type
  · intro k k' r r' hr hr' less near same
    have near : k' - k < 4294967296 := near
    rw [even k r hr, even k' r' hr', ← UInt32.toNat_inj, UInt32.toNat_ofNat', UInt32.toNat_ofNat']
      at same
    omega

/-- The records of every slot in every state that a run of whole operations reaches. -/
theorem call_log (server : Server) (raw : Fin n → Raw) (as : List (Action n)) (p : Pool n)
    (ordinary : ∀ a ∈ as, a.Ordinary)
    (run : Run.exec (step server) (construct server raw) as = some p) (i : Fin n) :
    p.CallLog i := by
  have logged : p.Valid ∧ p.exchange.Logged := by
    refine Run.preserved_of_all (I := fun p => p.Valid ∧ p.exchange.Logged)
      (fun p a q inv ok h => ?_) ⟨construct_valid raw, fun i => ⟨0, ?_⟩⟩ ordinary run
    · exact ⟨inv.1.step ok h, inv.2.outcome (inv.1.outcome ok h)⟩
    · constructor <;>
        simp [exchange, construct, Timeslot.construct, Timeslot.line, Line.inCall, Handler.phase,
          Exchange.marks]
  obtain ⟨c, log⟩ := logged.2 i
  exact .of_log log

theorem call_log_two :
    ∃ p, Run.exec (step .sample)
        (construct .sample fun _ => ⟨0, .incoming, none, none, none, none⟩) twoCalls = some p ∧
      p.CallLog 0 :=
  ⟨_, rfl, call_log .sample (fun _ => ⟨0, .incoming, none, none, none, none⟩) twoCalls _
    (by decide) rfl 0⟩

end Pool

end Bayonne
