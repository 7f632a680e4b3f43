import Oems.Lifecycle
import Oems.TwapRun

namespace Oems

open Lib OrderManager

/-- An order manager on which later calls have been made. -/
structure Later (m m' : OrderManager) : Prop where
  agrees : Agrees m'
  below : Below m'
  kept : TermsKept m.orders m'.orders
  nextOrderId : m.nextOrderId ≤ m'.nextOrderId

namespace Later

variable {m m' m'' : OrderManager}

theorem refl (h : Agrees m) (hb : Below m) : Later m m :=
  ⟨h, hb, TermsKept.refl m.orders, le_rfl⟩

theorem trans (h : Later m m') (h' : Later m' m'') : Later m m'' :=
  ⟨h'.agrees, h'.below, h.kept.trans h'.kept, h.nextOrderId.trans h'.nextOrderId⟩

theorem submitOrder (h : Agrees m) (hb : Below m) (check : RiskCheck) (req : NewOrderRequest) :
    Later m (m.submitOrder check req).2 where
  agrees := h.submitOrder check req
  below := hb.submitOrder check req
  kept := (submitOrder_stored hb check req).kept
  nextOrderId := (placing_submitOrder check m req).next

theorem cancelOrder (h : Agrees m) (hb : Below m) (req : CancelOrderRequest) :
    Later m (m.cancelOrder req).2 where
  agrees := h.cancelOrder req
  below := hb.cancelOrder req
  kept := by
    intro id o ho
    obtain ⟨o', ho', hsame⟩ := (h.turns (.cancel req)).evolves id o ho
    refine ⟨o', ho', ?_⟩
    obtain rfl | hmove := hsame
    · exact SameTerms.refl _
    · exact hmove.terms
  nextOrderId := by
    have hstep := h.cancelStep req
    generalize m.cancelOrder req = r at hstep ⊢
    cases hstep <;> exact le_rfl

end Later

def filledById (orders : OrderMap) (id : ℕ) : ℤ := ((orders.lookup id).map Order.filledQty).getD 0

def AlgoRun.filledQty (run : AlgoRun) (m : OrderManager) : ℤ :=
  (run.childOrderIds.map (filledById m.orders)).sum

structure Recorded (m : OrderManager) (run : AlgoRun) : Prop where
  increasing : run.childOrderIds.Pairwise (· < ·)
  submitted : run.childOrderIds.length = run.submitted
  counted : ((run.submitted + run.rejected : ℕ) : ℤ) = run.params.numSlices
  children : ∀ id ∈ run.childOrderIds, ∃ o, m.orders.lookup id = some o ∧
    ChildOf run.params.parent id o
  twap : run.type = .twap → run.placedQty m ≤ run.params.parent.quantity

namespace Recorded

variable {m m' : OrderManager} {run : AlgoRun}

theorem handed (h : Recorded m run) (hb : Below m) {id : ℕ} (hid : id ∈ run.childOrderIds) :
    id < m.nextOrderId := by
  obtain ⟨o, ho, -⟩ := h.children id hid
  exact hb.known id (Finmap.mem_of_lookup_eq_some ho)

theorem placedQty_later (h : Recorded m run) (hlater : Later m m') :
    run.placedQty m' = run.placedQty m := by
  apply congrArg List.sum
  apply List.map_congr_left
  intro id hid
  obtain ⟨o, ho, -⟩ := h.children id hid
  obtain ⟨o', ho', hterms⟩ := hlater.kept id o ho
  rw [qtyOf, qtyOf, ho, ho']
  exact hterms.orderQty

theorem later (h : Recorded m run) (hlater : Later m m') : Recorded m' run where
  increasing := h.increasing
  submitted := h.submitted
  counted := h.counted
  children := by
    intro id hid
    obtain ⟨o, ho, hchild⟩ := h.children id hid
    obtain ⟨o', ho', hterms⟩ := hlater.kept id o ho
    exact ⟨o', ho', hchild.sameTerms hterms⟩
  twap := by
    intro htype
    rw [h.placedQty_later hlater]
    exact h.twap htype

theorem filledQty_le (h : Recorded m run) (ha : Agrees m) :
    0 ≤ run.filledQty m ∧ run.filledQty m ≤ run.placedQty m := by
  have hfilled : ∀ id ∈ run.childOrderIds,
      0 ≤ filledById m.orders id ∧ filledById m.orders id ≤ qtyOf m.orders id := by
    intro id hid
    obtain ⟨o, ho, -⟩ := h.children id hid
    have hkept := ha.kept id o ho
    have hledger := hkept.ledger
    have hremaining := hkept.remaining_nonneg
    rw [filledById, qtyOf, ho]
    refine ⟨hkept.filled_nonneg, ?_⟩
    change o.filledQty ≤ o.orderQty
    omega
  constructor
  · apply List.sum_nonneg
    intro q hq
    obtain ⟨id, hid, rfl⟩ := List.mem_map.mp hq
    exact (hfilled id hid).1
  · exact List.sum_le_sum fun id hid => (hfilled id hid).2

end Recorded

theorem length_vwapSlices (params : AlgoParams) (start : ℤ) (profile : List ℚ) (i : ℕ)
    (allocated : ℤ) : (vwapSlices params start i allocated profile).length = profile.length := by
  induction profile generalizing i allocated with
  | nil => rfl
  | cons w profile ih =>
    rw [vwapSlices]
    split_ifs
    · rw [List.length_cons, ih, List.length_cons]
    · rw [List.length_cons, ih, List.length_cons]

theorem AlgoRequest.length_slices {req : AlgoRequest} {start : ℤ} (hne : req.slices start ≠ []) :
    ((req.slices start).length : ℤ) = req.params.numSlices := by
  rw [slices] at hne ⊢
  cases htype : req.type with
  | twap =>
    rw [htype] at hne
    dsimp only at hne ⊢
    rw [generateTwapSlices] at hne ⊢
    split_ifs at hne ⊢ with hopen
    · exact absurd rfl hne
    · rw [List.length_map, List.length_range]
      omega
  | vwap =>
    rw [htype] at hne
    dsimp only at hne ⊢
    rw [generateVwapSlices] at hne ⊢
    dsimp only at hne ⊢
    split_ifs at hne ⊢ with hopen hempty hlen hsum hlen hsum
    all_goals first
      | exact absurd rfl hne
      | rw [length_vwapSlices, List.length_map]
        exact not_not.mp hlen

namespace AlgoEngine

variable {m : OrderManager} {parent : NewOrderRequest} {s : AlgoRun × OrderManager}

/-- A run under way, which started on the manager `m`. -/
structure Underway (m : OrderManager) (parent : NewOrderRequest) (s : AlgoRun × OrderManager) :
    Prop where
  later : Later m s.2
  increasing : s.1.childOrderIds.Pairwise (· < ·)
  above : ∀ id ∈ s.1.childOrderIds, m.nextOrderId ≤ id
  submitted : s.1.childOrderIds.length = s.1.submitted
  children : ∀ id ∈ s.1.childOrderIds, ∃ o, s.2.orders.lookup id = some o ∧ ChildOf parent id o

theorem Underway.submitSlice (h : Underway m parent s) (check : RiskCheck) {slice : ChildSlice}
    (hrequest : slice.request = { parent with quantity := slice.request.quantity }) :
    Underway m parent (submitSlice check s slice) ∧
      (submitSlice check s slice).1.submitted + (submitSlice check s slice).1.rejected =
        s.1.submitted + s.1.rejected + 1 ∧
      (submitSlice check s slice).1.type = s.1.type ∧
      (submitSlice check s slice).1.params = s.1.params := by
  have hlater := h.later.trans
    (Later.submitOrder h.later.agrees h.later.below check slice.request)
  have hstored := submitOrder_stored h.later.below check slice.request
  have hchildren : ∀ id ∈ s.1.childOrderIds, ∃ o,
      (s.2.submitOrder check slice.request).2.orders.lookup id = some o ∧ ChildOf parent id o := by
    intro id hid
    obtain ⟨o, ho, hchild⟩ := h.children id hid
    obtain ⟨o', ho', hterms⟩ := hstored.kept id o ho
    exact ⟨o', ho', hchild.sameTerms hterms⟩
  have hnew : ∀ order, (s.2.submitOrder check slice.request).1 = .ok order →
      (s.2.submitOrder check slice.request).2.orders.lookup s.2.nextOrderId = some order := by
    intro order horder
    cases hv : validate slice.request with
    | error err =>
      rw [submitOrder_invalid hv] at horder
      cases horder
    | ok u =>
      obtain ⟨-, order', m', hsubmit, hrec⟩ | ⟨-, err, m', _, _, hsubmit, -⟩ :=
        submitOrder_records check s.2 hv
      · rw [hsubmit] at horder ⊢
        cases horder
        exact hrec.lookup
      · rw [hsubmit] at horder
        cases horder
  rw [AlgoEngine.submitSlice]
  generalize s.2.submitOrder check slice.request = r at hlater hstored hchildren hnew
  obtain ⟨err | order, m'⟩ := r
  · refine ⟨⟨hlater, h.increasing, h.above, h.submitted, hchildren⟩, ?_, rfl, rfl⟩
    exact (add_assoc _ _ _).symm
  · have hterms := hstored.terms order rfl
    have hid : order.internalId = s.2.nextOrderId := hterms.internalId
    refine ⟨⟨hlater, ?_, fun id hmem => ?_, ?_, fun id hmem => ?_⟩, ?_, rfl, rfl⟩
    · apply List.pairwise_append.mpr
      refine ⟨h.increasing, List.pairwise_singleton _ _, fun a ha b hb => ?_⟩
      rw [List.mem_singleton.mp hb, hid]
      obtain ⟨o, ho, -⟩ := h.children a ha
      exact h.later.below.known a (Finmap.mem_of_lookup_eq_some ho)
    · obtain hmem | hmem := List.mem_append.mp hmem
      · exact h.above id hmem
      · rw [List.mem_singleton.mp hmem, hid]
        exact h.later.nextOrderId
    · rw [List.length_append, h.submitted]
      rfl
    · obtain hmem | hmem := List.mem_append.mp hmem
      · exact hchildren id hmem
      · rw [List.mem_singleton.mp hmem, hid]
        refine ⟨order, hnew order rfl, ChildOf.sameTerms ?_ hterms⟩
        rw [hrequest]
        exact ⟨rfl, rfl, rfl, rfl, rfl, rfl⟩
    · change s.1.submitted + 1 + s.1.rejected = _
      omega

theorem Underway.submitSlices {slices : List ChildSlice} (h : Underway m parent s)
    (checks : ℕ → RiskCheck)
    (hrequest : ∀ x ∈ slices, x.request = { parent with quantity := x.request.quantity }) :
    Underway m parent (submitSlices checks s slices) ∧
      (submitSlices checks s slices).1.submitted + (submitSlices checks s slices).1.rejected =
        s.1.submitted + s.1.rejected + slices.length ∧
      (submitSlices checks s slices).1.type = s.1.type ∧
      (submitSlices checks s slices).1.params = s.1.params := by
  induction slices generalizing s checks with
  | nil => exact ⟨h, rfl, rfl, rfl⟩
  | cons slice slices ih =>
    obtain ⟨hnext, hcount, htype, hparams⟩ :=
      h.submitSlice (checks 0) (hrequest slice List.mem_cons_self)
    obtain ⟨hend, hcounts, htypes, hparams'⟩ := ih hnext (fun k => checks (k + 1))
      fun x hx => hrequest x (List.mem_cons_of_mem _ hx)
    refine ⟨hend, ?_, htypes.trans htype, hparams'.trans hparams⟩
    rw [submitSlices, hcounts, hcount, List.length_cons]
    omega

theorem twap_admissibleQty_le {req : AlgoRequest} (htype : req.type = .twap)
    (hq : 0 < req.params.parent.quantity) (start : ℤ) :
    ((req.slices start).map admissibleQty).sum ≤ req.params.parent.quantity := by
  have happortioned :
      Apportioned req.params.parent.quantity (generateTwapSlices req.params start) :=
    (@AlgoRequest.apportioned_iff ⟨.twap, req.params, []⟩ (by simp) start).mpr fun h => by cases h
  have hslices : req.slices start = generateTwapSlices req.params start := by
    rw [AlgoRequest.slices, htype]
  cases hv : validate req.params.parent with
  | error err =>
    rw [AlgoRequest.sum_admissibleQty_error hv hq]
    exact hq.le
  | ok u =>
    have hnonneg : (req.slices start).map (fun x => max x.request.quantity 0) =
        (req.slices start).map fun x => x.request.quantity := by
      apply List.map_congr_left
      intro x hx
      rw [hslices] at hx
      exact max_eq_left (happortioned.nonneg x hx)
    rw [AlgoRequest.sum_admissibleQty hv, hnonneg, hslices]
    by_cases hne : generateTwapSlices req.params start = []
    · rw [hne]
      exact hq.le
    · rw [happortioned.sum hne]

/-- What `StartAlgo` can do. -/
inductive StartStep (e : AlgoEngine) (m : OrderManager) (req : AlgoRequest) :
    Result ℕ × AlgoEngine × OrderManager → Prop where
  | refused : StartStep e m req (.error .invalidQuantity, e, m)
  | started (run : AlgoRun) (m' : OrderManager) (later : Later m m') (recorded : Recorded m' run)
    (above : ∀ id ∈ run.childOrderIds, m.nextOrderId ≤ id) (type : run.type = req.type)
    (params : run.params = req.params) : StartStep e m req (.ok e.nextRunId, e.emplace run, m')

theorem startStep (h : Agrees m) (hb : Below m) (checks : ℕ → RiskCheck) (start : ℤ)
    (e : AlgoEngine) (req : AlgoRequest) : StartStep e m req (startAlgo checks start e m req) := by
  by_cases hopen : req.params.numSlices ≤ 0 ∨ req.params.parent.quantity ≤ 0
  · rw [startAlgo, if_pos hopen]
    exact StartStep.refused
  · by_cases hne : req.slices start = []
    · rw [startAlgo, if_neg hopen, if_pos hne]
      exact StartStep.refused
    · obtain ⟨hn, hq⟩ := not_or.mp hopen
      rw [startAlgo_eq hne (not_le.mp hn) (not_le.mp hq)]
      have hstart : Underway m req.params.parent (⟨req.type, req.params, [], 0, 0⟩, m) :=
        ⟨Later.refl h hb, List.Pairwise.nil, fun _ hid => absurd hid List.not_mem_nil, rfl,
          fun _ hid => absurd hid List.not_mem_nil⟩
      obtain ⟨hend, hcount, htype, hparams⟩ := hstart.submitSlices checks
        fun x hx => AlgoRequest.request_of_mem_slices hx
      have hplaced := placedQty_submitSlices_le (req.slices start) checks
        (s := (⟨req.type, req.params, [], 0, 0⟩, m)) fun _ hid => absurd hid List.not_mem_nil
      refine StartStep.started _ _ hend.later ⟨hend.increasing, hend.submitted, ?_, ?_, ?_⟩
        hend.above htype hparams
      · rw [hcount, hparams, zero_add, zero_add]
        exact AlgoRequest.length_slices hne
      · rw [hparams]
        exact hend.children
      · intro htwap
        rw [hparams]
        rw [htype] at htwap
        have hadmissible := twap_admissibleQty_le htwap (not_le.mp hq) start
        have hzero : AlgoRun.placedQty ⟨req.type, req.params, [], 0, 0⟩ m = 0 := rfl
        rw [hzero, zero_add] at hplaced
        exact hplaced.trans hadmissible

theorem getRun_eq_ok {e : AlgoEngine} {id : ℕ} {run : AlgoRun} :
    e.getRun id = .ok run ↔ e.runs.lookup id = some run := by
  rw [getRun]
  cases e.runs.lookup id with
  | none => exact iff_of_false (fun h => by cases h) fun h => by cases h
  | some found =>
    constructor
    · intro h
      exact congrArg some (Except.ok.inj h)
    · intro h
      exact congrArg Except.ok (Option.some.inj h)

end AlgoEngine

structure AlgoDesk where
  algos : AlgoEngine
  manager : OrderManager

namespace AlgoDesk

open AlgoEngine

inductive Event where
  | startAlgo (checks : ℕ → RiskCheck) (start : ℤ) (req : AlgoRequest)
  | call (op : OrderManager.Op)

def new (risk : RiskManager) (db : Option Database) (clock : ℕ → ℤ) : AlgoDesk :=
  ⟨AlgoEngine.new, OrderManager.new risk MatchingEngine.new db clock⟩

/-- The output is the answer of `StartAlgo`, if it was called. -/
def step (d : AlgoDesk) : Event → Option (Result ℕ) × AlgoDesk
  | .startAlgo checks start req =>
    (some (startAlgo checks start d.algos d.manager req).1,
      ⟨(startAlgo checks start d.algos d.manager req).2.1,
        (startAlgo checks start d.algos d.manager req).2.2⟩)
  | .call op => (none, { d with manager := (d.manager.step op).2 })

def after (d : AlgoDesk) (events : List Event) : AlgoDesk := (Machine.run step d events).2

def issued (answers : List (Option (Result ℕ))) : List ℕ :=
  answers.filterMap fun answer => answer.bind Except.toOption

structure Registered (d : AlgoDesk) : Prop where
  agrees : Agrees d.manager
  below : Below d.manager
  positive : 1 ≤ d.algos.nextRunId
  known : ∀ id, id ∈ d.algos.runs ↔ 1 ≤ id ∧ id < d.algos.nextRunId
  recorded : ∀ id run, d.algos.runs.lookup id = some run → Recorded d.manager run
  ordered : ∀ id id' run run', d.algos.runs.lookup id = some run →
    d.algos.runs.lookup id' = some run' → id < id' →
      ∀ c ∈ run.childOrderIds, ∀ c' ∈ run'.childOrderIds, c < c'

theorem Registered.new (risk : RiskManager) (db : Option Database) (clock : ℕ → ℤ) :
    Registered (new risk db clock) where
  agrees := Agrees.new risk db clock
  below := Below.new risk db clock
  positive := le_rfl
  known := fun id => iff_of_false Finmap.notMem_empty fun h => absurd h.2 (not_lt.mpr h.1)
  recorded := fun id run h => by cases h
  ordered := fun id id' run run' h => by cases h

/-- One event: the id it gives out is the next one, and the runs before it are as they were. -/
structure Steps (d : AlgoDesk) (r : Option (Result ℕ) × AlgoDesk) : Prop where
  registered : Registered r.2
  issued : ∃ n, r.2.algos.nextRunId = d.algos.nextRunId + n ∧
    issued [r.1] = List.range' d.algos.nextRunId n
  kept : ∀ id run, d.algos.runs.lookup id = some run → r.2.algos.runs.lookup id = some run

theorem Registered.call {d : AlgoDesk} (h : Registered d) (op : OrderManager.Op) :
    Steps d (d.step (.call op)) := by
  have hlater : Later d.manager (d.manager.step op).2 := by
    cases op with
    | submit check req => exact Later.submitOrder h.agrees h.below check req
    | cancel req => exact Later.cancelOrder h.agrees h.below req
  refine ⟨⟨hlater.agrees, hlater.below, h.positive, h.known, ?_, h.ordered⟩, ⟨0, rfl, rfl⟩,
    fun _ _ hrun => hrun⟩
  exact fun id run hrun => (h.recorded id run hrun).later hlater

theorem Registered.emplace {d : AlgoDesk} (h : Registered d) {run : AlgoRun} {m' : OrderManager}
    (hlater : Later d.manager m') (hrecorded : Recorded m' run)
    (habove : ∀ id ∈ run.childOrderIds, d.manager.nextOrderId ≤ id) :
    Registered ⟨d.algos.emplace run, m'⟩ := by
  have hlookup : ∀ {id x}, (d.algos.emplace run).runs.lookup id = some x →
      (id = d.algos.nextRunId ∧ x = run) ∨ d.algos.runs.lookup id = some x := by
    intro id x hx
    by_cases he : id = d.algos.nextRunId
    · rw [he, AlgoEngine.emplace, Finmap.lookup_insert] at hx
      exact Or.inl ⟨he, (Option.some.inj hx).symm⟩
    · rw [AlgoEngine.emplace, Finmap.lookup_insert_of_ne _ he] at hx
      exact Or.inr hx
  refine ⟨hlater.agrees, hlater.below, Nat.le_add_left 1 _, fun id => ?_, fun id x hx => ?_, ?_⟩
  · rw [AlgoEngine.emplace, Finmap.mem_insert, h.known]
    have hpos := h.positive
    change _ ↔ 1 ≤ id ∧ id < d.algos.nextRunId + 1
    omega
  · obtain ⟨-, rfl⟩ | hold := hlookup hx
    · exact hrecorded
    · exact (h.recorded id x hold).later hlater
  · intro id id' x x' hx hx' hlt c hc c' hc'
    obtain ⟨he, -⟩ | hold := hlookup hx
    · -- no run is younger than the new one
      obtain ⟨he', -⟩ | hold' := hlookup hx'
      · omega
      · have := d.algos.fresh id' (Finmap.mem_of_lookup_eq_some hold')
        omega
    · obtain ⟨-, rfl⟩ | hold' := hlookup hx'
      · exact ((h.recorded id x hold).handed h.below hc).trans_le (habove c' hc')
      · exact h.ordered id id' x x' hold hold' hlt c hc c' hc'

theorem Registered.startAlgo {d : AlgoDesk} (h : Registered d) (checks : ℕ → RiskCheck)
    (start : ℤ) (req : AlgoRequest) :
    Steps d (d.step (.startAlgo checks start req)) ∧
      ∀ id, (d.step (.startAlgo checks start req)).1 = some (.ok id) →
        ∃ run, (d.step (.startAlgo checks start req)).2.algos.runs.lookup id = some run ∧
          run.type = req.type ∧ run.params = req.params := by
  have hstart := startStep h.agrees h.below checks start d.algos req
  rw [step]
  generalize AlgoEngine.startAlgo checks start d.algos d.manager req = r at hstart
  cases hstart with
  | refused =>
    exact ⟨⟨h, ⟨0, rfl, rfl⟩, fun _ _ hrun => hrun⟩, fun id hid => by cases hid⟩
  | started run m' hlater hrecorded habove htype hparams =>
    refine ⟨⟨h.emplace hlater hrecorded habove, ⟨1, rfl, rfl⟩, fun id x hx => ?_⟩, fun id hid => ?_⟩
    · have hlt := d.algos.fresh id (Finmap.mem_of_lookup_eq_some hx)
      change (d.algos.runs.insert d.algos.nextRunId run).lookup id = some x
      rw [Finmap.lookup_insert_of_ne _ hlt.ne, hx]
    · cases hid
      exact ⟨run, Finmap.lookup_insert _, htype, hparams⟩

theorem Registered.step {d : AlgoDesk} (h : Registered d) (e : Event) : Steps d (d.step e) := by
  cases e with
  | startAlgo checks start req => exact (h.startAlgo checks start req).1
  | call op => exact h.call op

theorem issued_cons (answer : Option (Result ℕ)) (answers : List (Option (Result ℕ))) :
    issued (answer :: answers) = issued [answer] ++ issued answers := by
  rw [issued, issued, issued, ← List.filterMap_append, List.singleton_append]

theorem Registered.run {d : AlgoDesk} (h : Registered d) (events : List Event) :
    Registered (d.after events) ∧
      (∃ n, (d.after events).algos.nextRunId = d.algos.nextRunId + n ∧
        issued (Machine.run AlgoDesk.step d events).1 = List.range' d.algos.nextRunId n) ∧
      ∀ id run, d.algos.runs.lookup id = some run →
        (d.after events).algos.runs.lookup id = some run := by
  induction events generalizing d with
  | nil => exact ⟨h, ⟨0, rfl, rfl⟩, fun _ _ hrun => hrun⟩
  | cons e events ih =>
    have hstep := h.step e
    obtain ⟨n, hnext, hfirst⟩ := hstep.issued
    obtain ⟨hend, ⟨k, hlast, hrest⟩, hkept⟩ := ih hstep.registered
    refine ⟨hend, ⟨n + k, ?_, ?_⟩, fun id run hrun => hkept id run (hstep.kept id run hrun)⟩
    · change ((d.step e).2.after events).algos.nextRunId = _
      rw [hlast, hnext, add_assoc]
    · rw [Machine.run, issued_cons, hfirst, hrest, hnext, List.range'_append_1]

/-- What a history of starts and calls has left in the registry. -/
structure RunsRecorded (start : AlgoDesk) (events : List Event) : Prop where
  /-- The ids count up from 1. -/
  sequential : ∃ n, issued (Machine.run AlgoDesk.step start events).1 = List.range' 1 n
  known : ∀ id, (∃ run, (start.after events).algos.getRun id = .ok run) ↔
    id ∈ issued (Machine.run AlgoDesk.step start events).1
  /-- A run is found under the id that its start gave out, and stays as it was then. -/
  asked : ∀ pre checks time req id, pre ++ [.startAlgo checks time req] <+: events →
    ((start.after pre).step (.startAlgo checks time req)).1 = some (.ok id) →
      ∃ run, (start.after events).algos.getRun id = .ok run ∧
        run.type = req.type ∧ run.params = req.params ∧
        ((start.after pre).step (.startAlgo checks time req)).2.algos.getRun id = .ok run
  recorded : ∀ id run, (start.after events).algos.getRun id = .ok run →
    Recorded (start.after events).manager run ∧ 0 ≤ run.filledQty (start.after events).manager ∧
      run.filledQty (start.after events).manager ≤ run.placedQty (start.after events).manager
  /-- The orders of an earlier run come before those of a later one. -/
  ordered : ∀ id id' run run', (start.after events).algos.getRun id = .ok run →
    (start.after events).algos.getRun id' = .ok run' → id < id' →
      ∀ c ∈ run.childOrderIds, ∀ c' ∈ run'.childOrderIds, c < c'

theorem after_append (d : AlgoDesk) (events later : List Event) :
    d.after (events ++ later) = (d.after events).after later := by
  rw [after, Machine.run_append]
  rfl

end AlgoDesk

/-- At any time of any run, in which algos are started between other calls, the registry tells
the truth: the issued ids are the found ones, each run lists orders that it placed and no other
run did, and no TWAP run has placed or filled more than its parent quantity. -/
theorem algo_runs_recorded (risk : RiskManager) (db : Option Database) (clock : ℕ → ℤ)
    (events : List AlgoDesk.Event) : AlgoDesk.RunsRecorded (AlgoDesk.new risk db clock) events := by
  have hstart := AlgoDesk.Registered.new risk db clock
  obtain ⟨h, ⟨n, hnext, hissued⟩, -⟩ := hstart.run events
  have hone : (AlgoDesk.new risk db clock).algos.nextRunId = 1 := rfl
  rw [hone] at hnext hissued
  constructor
  · exact ⟨n, hissued⟩
  · intro id
    rw [hissued, List.mem_range'_1]
    simp only [AlgoEngine.getRun_eq_ok]
    rw [← hnext, ← h.known, Finmap.mem_iff]
  · intro pre checks time req id hpre hid
    obtain ⟨post, rfl⟩ := hpre
    obtain ⟨hbefore, -, -⟩ := hstart.run pre
    obtain ⟨hsteps, hfound⟩ := hbefore.startAlgo checks time req
    obtain ⟨run, hrun, htype, hparams⟩ := hfound id hid
    obtain ⟨-, -, hkept⟩ := hsteps.registered.run post
    refine ⟨run, ?_, htype, hparams, AlgoEngine.getRun_eq_ok.mpr hrun⟩
    rw [AlgoDesk.after_append, AlgoDesk.after_append, AlgoEngine.getRun_eq_ok]
    exact hkept id run hrun
  · intro id run hrun
    have hrecorded := h.recorded id run (AlgoEngine.getRun_eq_ok.mp hrun)
    exact ⟨hrecorded, hrecorded.filledQty_le h.agrees⟩
  · intro id id' run run' hrun hrun' hlt
    rw [AlgoEngine.getRun_eq_ok] at hrun hrun'
    exact h.ordered id id' run run' hrun hrun' hlt

end Oems
