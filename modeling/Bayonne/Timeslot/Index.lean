import Bayonne.Timeslot.Calls

/-! The call index. `Timeslot::get` walks a chain of the index; while the calls in progress
have distinct ids it computes a partial map from call ids to timeslots. -/
namespace Bayonne

namespace Exchange
variable {n : Nat} {server : Server}

def Distinct (x : Exchange n) : Prop :=
  ∀ i j, (x.line i).phase = .busy → (x.line j).phase = .busy → (x.line i).cid = (x.line j).cid →
    i = j

def Serves (x : Exchange n) (m : Nat → Option (Fin n)) : Prop :=
  ∀ c i, m c = some i ↔ (x.line i).phase = .busy ∧ (x.line i).cid = c

def stops (x : Exchange n) (i : Fin n) : Nat := (x.marks i).countP (·.type = .stop)

theorem stops_finish (x : Exchange n) (i : Fin n) (lastcall : Owner → Time) :
    (x.finish server i lastcall).stops i = x.stops i + 1 := by
  rw [stops, stops, finish, marks_concat, if_pos rfl, List.countP_append]
  simp [Line.mark]

theorem Serves.start {x : Exchange n} {m : Nat → Option (Fin n)} (h : x.Serves m) {i : Fin n}
    (free : (x.line i).phase = .free) {cid : Nat} {stat : Stat} {reg : Option Nat} {now : Now}
    (distinct : (x.start server i cid stat reg now).Distinct) :
    (x.start server i cid stat reg now).Serves (Function.update m cid (some i)) := by
  intro c j
  have busy : ((x.start server i cid stat reg now).line i).phase = .busy := by
    rw [line_start]; rfl
  have id : ((x.start server i cid stat reg now).line i).cid = cid := by rw [line_start]; rfl
  by_cases hj : j = i
  · subst hj
    rw [id]
    by_cases hc : c = cid
    · subst hc; simp [Line.start]
    · have other : m c ≠ some j := fun e => by
        have phase := ((h c j).mp e).1
        rw [free] at phase
        cases phase
      simp [Function.update_of_ne hc, other, Ne.symm hc]
  · by_cases hc : c = cid
    · subst hc
      have apart : ((x.start server i c stat reg now).line j).phase = .busy →
          ((x.start server i c stat reg now).line j).cid ≠ c := fun hb he =>
        hj (distinct j i hb busy (he.trans id.symm))
      simp only [Function.update_self, Option.some.injEq, Ne.symm hj, false_iff, not_and]
      exact apart
    · rw [Function.update_of_ne hc, line_start_of_ne x hj]
      exact h c j

theorem Serves.finish {x : Exchange n} {m : Nat → Option (Fin n)} (h : x.Serves m) (i : Fin n)
    (lastcall : Owner → Time) :
    (x.finish server i lastcall).Serves fun c => if m c = some i then none else m c := by
  intro c j
  by_cases hj : j = i
  · subst hj
    rw [line_finish]
    by_cases hm : m c = some j <;> simp [hm, Line.finish]
  · rw [line_finish_of_ne x hj, ← h c j]
    by_cases hm : m c = some i
    · simp [hm, Ne.symm hj]
    · simp [hm]

theorem Serves.idle {x y : Exchange n} {m : Nat → Option (Fin n)} (h : x.Serves m) {i : Fin n}
    (others : ∀ j, j ≠ i → y.line j = x.line j) (free : (x.line i).phase ≠ .busy)
    (free' : (y.line i).phase ≠ .busy) : y.Serves m := by
  intro c j
  by_cases hj : j = i
  · subst hj
    have absent : m c ≠ some j := fun e => free ((h c j).mp e).1
    simp [absent, free']
  · rw [others j hj]
    exact h c j

/-- What one event does to the map: it forgets the line if its call has ended. -/
theorem Serves.response {x y : Exchange n} {m : Nat → Option (Fin n)} (h : x.Serves m) {i : Fin n}
    {ans : Answers} (r : x.Response server i ans y) :
    y.Serves (if y.stops i = x.stops i then m else fun c => if m c = some i then none else m c) := by
  cases r with
  | quiet => simpa using h
  | finish busy =>
    rw [if_neg (by rw [stops_finish]; omega)]
    exact h.finish i _
  | off free =>
    have same : (x.off i ans.now).stops i = x.stops i := rfl
    rw [if_pos same]
    exact h.idle (fun j hj => line_off_of_ne x hj _) (by simp [free]) (by simp)
  | finishOff busy =>
    have ended : ((x.finish server i ans.lastcall).off i ans.now).stops i = x.stops i + 1 :=
      @stops_finish n server x i ans.lastcall
    rw [if_neg (by rw [ended]; omega)]
    exact (@Serves.finish n server x m h i ans.lastcall).idle (fun j hj => line_off_of_ne _ hj _)
      (by simp [Line.finish]) (by simp)
  | on offline =>
    have same : (x.on i).stops i = x.stops i := rfl
    rw [if_pos same]
    exact h.idle (fun j hj => line_on_of_ne x hj) (by simp [offline]) (by simp)

end Exchange

namespace Pool
variable {n : Nat} (server : Server)

def stops (p : Pool n) (i : Fin n) : Nat := (p.records i).countP (·.type = .stop)

/-- Who serves which call, kept by an observer of the operations: a slot that is handed out
serves the call id it was asked for until it posts a STOP record. -/
def ledger (p : Pool n) (m : Nat → Option (Fin n)) (a : Action n) (q : Pool n) :
    Nat → Option (Fin n) :=
  match a with
  | .assign reg stat cid now =>
    match (p.assign server reg stat cid now).1 with
    | some i => Function.update m cid (some i)
    | none => m
  | .invite r cid now ending =>
    match (server.registrations[r]?).bind fun reg => (p.invite server reg r cid now ending).1 with
    | some i => Function.update m cid (some i)
    | none => m
  | .setScripting .. => m
  | .post i _ _ | .expire i _ _ =>
    if q.stops i = p.stops i then m else fun c => if m c = some i then none else m c

def track (s : Pool n × (Nat → Option (Fin n))) (a : Action n) :
    Option (Pool n × (Nat → Option (Fin n))) :=
  (s.1.step server a).map fun q => (q, s.1.ledger server s.2 a q)

def DistinctCids (p : Pool n) : Prop :=
  ∀ i j, classOf (p.slot i).handler = .inCall → classOf (p.slot j).handler = .inCall →
    (p.slot i).cid = (p.slot j).cid → i = j

variable {server}

theorem DistinctCids.distinct {p : Pool n} (h : p.DistinctCids) : p.exchange.Distinct :=
  fun i j hi hj => h i j ((inCall_iff p i).mpr hi) ((inCall_iff p j).mpr hj)

theorem stops_exchange (p : Pool n) (i : Fin n) : p.exchange.stops i = p.stops i := by
  rw [Exchange.stops, marks_exchange, List.countP_map]
  rfl

theorem ledger_serves {p q : Pool n} {m : Nat → Option (Fin n)} {a : Action n} (valid : p.Valid)
    (ordinary : a.Ordinary) (serves : p.exchange.Serves m) (distinct : q.exchange.Distinct)
    (h : p.step server a = some q) : q.exchange.Serves (p.ledger server m a q) := by
  have outcome := valid.outcome ordinary h
  have stops : ∀ i, (q.stops i = p.stops i) = (q.exchange.stops i = p.exchange.stops i) :=
    fun i => by rw [stops_exchange, stops_exchange]
  cases a with
  | assign reg stat cid now =>
    generalize q.exchange = y at outcome distinct
    cases outcome with
    | full head =>
      simp only [ledger, assign_full p reg stat cid now head]
      exact serves
    | assigned i head free =>
      simp only [ledger, assign_head p reg stat cid now head]
      exact serves.start free distinct
  | invite r cid now ending =>
    generalize q.exchange = y at outcome distinct
    cases outcome with
    | refused reg hr attached =>
      simp only [ledger, hr, Option.bind_some, invite_refused p reg r cid now ending attached]
      exact serves
    | returned reg hr attached head =>
      simp only [ledger, hr, Option.bind_some, invite_full p reg r cid now ending attached head]
      exact serves
    | admitted reg i hr attached head free =>
      simp only [ledger, hr, Option.bind_some, invite_head p reg r cid now ending attached head]
      have attached : (p.exchange.attach reg).Serves m := serves
      exact attached.start free distinct
  | setScripting i stepping =>
    generalize q.exchange = y at outcome
    cases outcome
    exact serves
  | post i event ans =>
    simp only [ledger, stops]
    generalize q.exchange = y at outcome
    cases outcome with
    | posted r => exact serves.response r
  | expire i read ans =>
    simp only [ledger, stops]
    generalize q.exchange = y at outcome
    cases outcome with
    | expired r => exact serves.response r

theorem get_eq {p : Pool n} {m : Nat → Option (Fin n)} (valid : p.Valid)
    (serves : p.exchange.Serves m) (cid : Nat) : p.get cid = m cid := by
  obtain ⟨lists, v⟩ := valid
  have bound : (lists (.assigned (path cid))).length ≤ n := by
    simpa using (v.holds.nodup (.assigned (path cid))).length_le_card
  have found := Linked.find_chain (fun i => decide ((p.slot i).cid = cid))
    (v.holds.chain (.assigned (path cid))) n bound
  have walk : Linked.find p.links.next (fun i => decide ((p.slot i).cid = cid)) n
      (p.links.root (.assigned (path cid))) =
      (lists (.assigned (path cid))).find? fun i => decide ((p.slot i).cid = cid) := found
  have started : ∀ i, (p.exchange.line i).phase = .busy → (p.slot i).mapped.started ≠ 0 := by
    intro i busy zero
    have free := (v.timed i).mpr zero
    rw [busy] at free
    cases free
  unfold get
  rw [walk]
  cases h : (lists (.assigned (path cid))).find? fun i => decide ((p.slot i).cid = cid) with
  | none =>
    symm
    rw [Option.eq_none_iff_forall_ne_some]
    intro i hi
    obtain ⟨busy, id⟩ := (serves cid i).mp hi
    have member := (v.busy i (path cid)).mpr ⟨busy, by rw [id]⟩
    exact List.find?_eq_none.mp h i member (decide_eq_true id)
  | some i =>
    have member := List.mem_of_find?_eq_some h
    have id : (p.slot i).cid = cid := by simpa using List.find?_some h
    have busy := ((v.busy i _).mp member).1
    simp only [started i busy, if_false]
    exact ((serves cid i).mpr ⟨busy, id⟩).symm

/-- After any run in which the calls in progress had distinct ids, `Timeslot::get` finds the
slot last handed out for a call id whose call has not been released, and nothing for the
other ids. -/
theorem get_ledger (server : Server) (raw : Fin n → Raw) (as : List (Action n)) (p : Pool n)
    (m : Nat → Option (Fin n)) (ordinary : ∀ a ∈ as, a.Ordinary)
    (distinct : Run.Always (track server) (fun s => s.1.DistinctCids)
      (construct server raw, fun _ => none) as)
    (run : Run.exec (track server) (construct server raw, fun _ => none) as = some (p, m))
    (cid : Nat) : p.get cid = m cid := by
  have along : Run.Along (track server) (fun _ a => a.Ordinary)
      (construct server raw, fun _ => none) as := .of_all ordinary
  have inv : p.Valid ∧ p.exchange.Serves m := by
    refine Run.preserved (I := fun s => s.1.Valid ∧ s.1.exchange.Serves s.2)
      (fun s a t inv ok h => ?_) ⟨construct_valid raw, fun c i => ?_⟩
      (along.and distinct.along) run
    · obtain ⟨q, hq, rfl⟩ := Option.map_eq_some_iff.mp h
      exact ⟨inv.1.step ok.1 hq, ledger_serves inv.1 ok.1 inv.2 (ok.2 _ h).distinct hq⟩
    · simp [exchange, construct, Timeslot.construct, Timeslot.line, Handler.phase]
  exact get_eq inv.1 inv.2 cid

def callAfterCall : List (Action 1) :=
  [.assign none .incoming 5 (tick 0), .post 0 .release (.at (tick 1) true),
    .assign none .incoming 182 (tick 2)]

theorem get_ledger_one :
    ∃ p m, Run.exec (track .sample)
        (construct .sample fun _ => ⟨0, .incoming, none, none, none, none⟩, fun _ => none)
        callAfterCall = some (p, m) ∧ p.get 182 = m 182 :=
  ⟨_, _, rfl, get_ledger .sample (fun _ => ⟨0, .incoming, none, none, none, none⟩) callAfterCall _ _
    (by decide) (.of_forall fun _ i j _ _ _ => Subsingleton.elim i j) rfl 182⟩

end Pool

end Bayonne
