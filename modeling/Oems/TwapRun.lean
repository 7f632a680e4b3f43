import Oems.AlgoExecution
import Oems.FairTrades
import Oems.RiskSpec
import Oems.SubmitFootprint

namespace Oems

open Lib OrderManager

theorem TermsKept.trans {orders orders' orders'' : OrderMap} (h : TermsKept orders orders')
    (h' : TermsKept orders' orders'') : TermsKept orders orders'' := by
  intro id o ho
  obtain ⟨o', ho', ht⟩ := h id o ho
  obtain ⟨o'', ho'', ht'⟩ := h' id o' ho'
  exact ⟨o'', ho'', ht.trans ht'⟩

theorem termsKept_fillPassive (m : OrderManager) (fill : Fill) :
    TermsKept m.orders (m.fillPassive fill).orders := by
  rw [fillPassive_orders]
  cases hl : m.orders.lookup fill.passiveOrderId with
  | none => exact TermsKept.refl m.orders
  | some passive => exact TermsKept.insert hl (sameTerms_passiveAfter passive fill m.now)

theorem termsKept_applyFills (m : OrderManager) (order : Order) (fills : List Fill) :
    TermsKept m.orders (m.applyFills order fills).1.orders := by
  induction fills generalizing m order with
  | nil => exact TermsKept.refl m.orders
  | cons fill fills ih =>
    have hfirst : TermsKept m.orders (m.applyFill order fill).1.orders := termsKept_fillPassive
      ({ m with executions := m.executions ++ [fill] }.write (.saveExecution fill)) fill
    exact hfirst.trans (ih (m.applyFill order fill).1 (m.applyFill order fill).2)

theorem TermsKept.then_insert {orders orders' : OrderMap} (h : TermsKept orders orders') {id : ℕ}
    (hid : id ∉ orders') (o : Order) : TermsKept orders (orders'.insert id o) :=
  h.trans (TermsKept.insert_new o (Finmap.lookup_eq_none.mpr hid))

/-- What a submit stores: the earlier orders on their terms, and a new one on those of
the request. -/
structure Stored (m : OrderManager) (req : NewOrderRequest) (r : Result Order × OrderManager) :
    Prop where
  kept : TermsKept m.orders r.2.orders
  terms : ∀ order, r.1 = .ok order → SameTerms (newOrder req m.nextOrderId .pendingNew m.now m.now) order

theorem place_stored {m : OrderManager} (hfree : m.nextOrderId ∉ m.orders) (req : NewOrderRequest) :
    Stored m req (m.place req) := by
  refine ⟨?_, fun order h => place_terms m req h⟩
  unfold OrderManager.place
  dsimp only
  cases (m.request req).2.engine.addOrder req.symbol (m.request req).1.internalId req.side req.type
      req.price req.quantity (m.request req).2.now with
  | mk res engine =>
    cases res with
    | error err => exact (TermsKept.refl m.orders).then_insert hfree _
    | ok result =>
      have hframe := applyFills_frame ((m.request req).2.accept engine (m.request req).1).2
        ((m.request req).2.accept engine (m.request req).1).1 result.fills
      have hkept := termsKept_applyFills ((m.request req).2.accept engine (m.request req).1).2
        ((m.request req).2.accept engine (m.request req).1).1 result.fills
      have hid : _ ∉ _ := fun hmem => hfree ((hframe.known m.nextOrderId).mp hmem)
      rw [settle_orders, hframe.terms.internalId]
      exact hkept.then_insert hid _

theorem submitOrder_stored {m : OrderManager} (h : Below m) (check : RiskCheck)
    (req : NewOrderRequest) : Stored m req (m.submitOrder check req) := by
  have hfree : m.nextOrderId ∉ m.orders := fun hid => (h.known _ hid).false
  have hstep := submitStep check m req
  generalize m.submitOrder check req = r at hstep
  cases hstep with
  | invalid err _ => exact ⟨TermsKept.refl m.orders, fun _ h => by cases h⟩
  | refused risk err _ _ =>
    refine ⟨?_, fun _ h => by cases h⟩
    rw [rejectByRisk_orders]
    exact (TermsKept.refl m.orders).then_insert hfree _
  | placed risk _ _ =>
    have hplace := place_stored (m := { m with risk }) hfree req
    exact ⟨hplace.kept, hplace.terms⟩

structure ChildOf (parent : NewOrderRequest) (id : ℕ) (o : Order) : Prop where
  internalId : o.internalId = id
  clientOrderId : o.clientOrderId = parent.clientOrderId
  symbol : o.symbol = parent.symbol
  side : o.side = parent.side
  type : o.type = parent.type
  price : o.price = parent.price

theorem ChildOf.sameTerms {parent : NewOrderRequest} {id : ℕ} {o o' : Order}
    (h : ChildOf parent id o) (ht : SameTerms o o') : ChildOf parent id o' :=
  ⟨ht.internalId.trans h.internalId, ht.clientOrderId.trans h.clientOrderId,
    ht.symbol.trans h.symbol, ht.side.trans h.side, ht.type.trans h.type, ht.price.trans h.price⟩

namespace AlgoEngine

def EachSubmit (P : RiskCheck → OrderManager → NewOrderRequest → Prop) :
    (ℕ → RiskCheck) → AlgoRun × OrderManager → List ChildSlice → Prop
  | _, _, [] => True
  | checks, s, slice :: slices => P (checks 0) s.2 slice.request ∧
    EachSubmit P (fun k => checks (k + 1)) (submitSlice (checks 0) s slice) slices

/-- The risk check lets a request of a positive quantity through. -/
def Admits (check : RiskCheck) (m : OrderManager) (req : NewOrderRequest) : Prop :=
  0 < req.quantity → (check m.risk (riskRequest req)).1 = .ok ()

/-- A request of a positive quantity is accepted. One of quantity 0 is rejected and leaves
the manager as it is. -/
def RejectsEmpty (check : RiskCheck) (m : OrderManager) (req : NewOrderRequest) : Prop :=
  (0 < req.quantity ∧ ∃ order m', m.submitOrder check req = (.ok order, m')) ∨
    (req.quantity = 0 ∧ m.submitOrder check req = (.error .invalidQuantity, m))

/-- What a run has placed so far. -/
structure Placements (parent : NewOrderRequest) (s : AlgoRun × OrderManager) : Prop where
  below : Below s.2
  nodup : s.1.childOrderIds.Nodup
  length : s.1.childOrderIds.length = s.1.submitted
  children : ∀ id ∈ s.1.childOrderIds, ∃ o, s.2.orders.lookup id = some o ∧ ChildOf parent id o

variable {parent : NewOrderRequest} {check : RiskCheck} {checks : ℕ → RiskCheck}
  {s : AlgoRun × OrderManager} {slice : ChildSlice}

theorem Placements.handed (h : Placements parent s) : Handed s := by
  intro id hid
  obtain ⟨o, ho, _⟩ := h.children id hid
  exact h.below.known id (Finmap.mem_of_lookup_eq_some ho)

theorem submitSlice_empty (check : RiskCheck) (s : AlgoRun × OrderManager)
    (hq : slice.request.quantity = 0) :
    s.2.submitOrder check slice.request = (.error .invalidQuantity, s.2) ∧
      submitSlice check s slice = ({ s.1 with rejected := s.1.rejected + 1 }, s.2) := by
  have hv : validate slice.request = .error .invalidQuantity := if_pos hq.le
  have hsubmit := submitOrder_invalid hv check (m := s.2)
  refine ⟨hsubmit, ?_⟩
  rw [submitSlice, hsubmit]

theorem Placements.submitSlice_valid (h : Placements parent s)
    (hrequest : slice.request = { parent with quantity := slice.request.quantity })
    (hv : validate slice.request = .ok ())
    (hadmits : (check s.2.risk (riskRequest slice.request)).1 = .ok ()) :
    ∃ order m', s.2.submitOrder check slice.request = (.ok order, m') ∧
      submitSlice check s slice = ({ s.1 with
        childOrderIds := s.1.childOrderIds ++ [s.2.nextOrderId]
        submitted := s.1.submitted + 1 }, m') ∧
      Placements parent (submitSlice check s slice) := by
  have hstored := submitOrder_stored h.below check slice.request
  have hbelow := h.below.submitOrder check slice.request
  have hunopposed : Unopposed check s.2 slice.request :=
    ⟨hadmits, fun hid => (h.below.indexed _ ⟨_, hid⟩).false⟩
  obtain ⟨-, order, m', hsubmit, hrec⟩ | ⟨hnot, -⟩ := submitOrder_records check s.2 hv
  · have hslice : submitSlice check s slice = ({ s.1 with
        childOrderIds := s.1.childOrderIds ++ [s.2.nextOrderId]
        submitted := s.1.submitted + 1 }, m') := by
      rw [submitSlice, hsubmit, ← hrec.internalId]
    rw [hsubmit] at hstored hbelow
    refine ⟨order, m', hsubmit, hslice, ?_⟩
    rw [hslice]
    refine ⟨hbelow, ?_, ?_, fun id hid => ?_⟩
    · rw [List.nodup_append]
      refine ⟨h.nodup, List.nodup_singleton _, fun a ha b hb hab => ?_⟩
      rw [hab, List.mem_singleton.mp hb] at ha
      exact (h.handed _ ha).false
    · rw [List.length_append, h.length]
      rfl
    · obtain hid | hid := List.mem_append.mp hid
      · obtain ⟨o, ho, hchild⟩ := h.children id hid
        obtain ⟨o', ho', hterms⟩ := hstored.kept id o ho
        exact ⟨o', ho', hchild.sameTerms hterms⟩
      · rw [List.mem_singleton.mp hid]
        refine ⟨order, hrec.lookup, ChildOf.sameTerms ?_ (hstored.terms order rfl)⟩
        rw [hrequest]
        exact ⟨rfl, rfl, rfl, rfl, rfl, rfl⟩
  · exact absurd hunopposed hnot

/-- The counts of a run after slices that are placed where they are not empty. -/
structure Counted (s s' : AlgoRun × OrderManager) (slices : List ChildSlice) : Prop where
  total : s'.1.submitted + s'.1.rejected = s.1.submitted + s.1.rejected + slices.length
  empty : s'.1.rejected = s.1.rejected + slices.countP fun x => x.request.quantity = 0
  placed : s'.1.placedQty s'.2 = s.1.placedQty s.2 + (slices.map fun x => x.request.quantity).sum

theorem Counted.append {s s' s'' : AlgoRun × OrderManager} {slices slices' : List ChildSlice}
    (h : Counted s s' slices) (h' : Counted s' s'' slices') : Counted s s'' (slices ++ slices') where
  total := by
    rw [h'.total, h.total, List.length_append, add_assoc]
  empty := by
    rw [h'.empty, h.empty, List.countP_append, add_assoc]
  placed := by
    rw [h'.placed, h.placed, List.map_append, List.sum_append, add_assoc]

theorem Placements.submitSlices {slices : List ChildSlice} (h : Placements parent s)
    (hrequest : ∀ x ∈ slices, x.request = { parent with quantity := x.request.quantity })
    (hvalid : ∀ x ∈ slices, 0 < x.request.quantity → validate x.request = .ok ())
    (hnonneg : ∀ x ∈ slices, 0 ≤ x.request.quantity) (hadmits : EachSubmit Admits checks s slices) :
    Placements parent (submitSlices checks s slices) ∧
      EachSubmit RejectsEmpty checks s slices ∧
      Counted s (submitSlices checks s slices) slices := by
  induction slices generalizing s checks with
  | nil => exact ⟨h, trivial, rfl, rfl, (add_zero _).symm⟩
  | cons slice slices ih =>
    obtain ⟨hgate, hrest⟩ := hadmits
    have hslice := hnonneg slice List.mem_cons_self
    obtain ⟨_, hplaced⟩ := submitSlice_spec h.handed (checks 0) slice
    have hnext : Placements parent (submitSlice (checks 0) s slice) ∧
        RejectsEmpty (checks 0) s.2 slice.request ∧
        Counted s (submitSlice (checks 0) s slice) [slice] := by
      obtain hq | hq := hslice.eq_or_lt
      · obtain ⟨hsubmit, heq⟩ := submitSlice_empty (checks 0) s hq.symm
        rw [hsubmit] at hplaced
        refine ⟨?_, Or.inr ⟨hq.symm, hsubmit⟩, ?_, ?_, ?_⟩
        · rw [heq]
          exact ⟨h.below, h.nodup, h.length, h.children⟩
        · rw [heq]
          rfl
        · rw [heq]
          simp [hq.symm]
        · simpa [hq.symm] using hplaced
      · obtain ⟨order, m', hsubmit, heq, hplacements⟩ := h.submitSlice_valid
          (hrequest slice List.mem_cons_self) (hvalid slice List.mem_cons_self hq) (hgate hq)
        rw [hsubmit] at hplaced
        refine ⟨hplacements, Or.inl ⟨hq, order, m', hsubmit⟩, ?_, ?_, ?_⟩
        · rw [heq]
          simp
          omega
        · rw [heq]
          simp [hq.ne']
        · simpa using hplaced
    obtain ⟨hplacements, hrejects, hcounted⟩ := hnext
    obtain ⟨hend, hall, hsum⟩ := ih hplacements (fun x hx => hrequest x (List.mem_cons_of_mem _ hx))
      (fun x hx => hvalid x (List.mem_cons_of_mem _ hx))
      (fun x hx => hnonneg x (List.mem_cons_of_mem _ hx)) hrest
    exact ⟨hend, ⟨hrejects, hall⟩, hcounted.append hsum⟩

theorem EachSubmit.of_mem {P : RiskCheck → OrderManager → NewOrderRequest → Prop}
    {slices : List ChildSlice} (h : EachSubmit P checks s slices) {x : ChildSlice}
    (hx : x ∈ slices) : ∃ k m, P (checks k) m x.request := by
  induction slices generalizing s checks with
  | nil => exact absurd hx List.not_mem_nil
  | cons slice slices ih =>
    obtain rfl | hx := List.mem_cons.mp hx
    · exact ⟨0, s.2, h.1⟩
    · obtain ⟨k, m, hP⟩ := ih h.2 hx
      exact ⟨k + 1, m, hP⟩

theorem validate_of_check {now : ℤ} {risk : RiskManager} {req : NewOrderRequest}
    (h : (RiskCheck.at now risk (riskRequest req)).1 = .ok ()) : validate req = .ok () := by
  have hrules : risk.checkRules (riskRequest req) = .ok () := by
    rw [RiskCheck.at] at h
    obtain ⟨err, -, hcheck⟩ | ⟨-, -, hcheck⟩ | ⟨hok, -, -⟩ := risk.check_cases now (riskRequest req)
    · rw [hcheck] at h
      cases h
    · rw [hcheck] at h
      cases h
    · exact hok
  classical
  rw [RiskManager.checkRules_eq, RiskManager.firstError, Checks.firstError_eq_ok_iff] at hrules
  have hquantity : 0 < req.quantity := hrules .quantity (by decide)
  have hprice : req.type = .limit → 0 < req.price := hrules .price (by decide)
  have hsymbol : req.symbol.value ≠ [] := hrules .symbol (by decide)
  apply validate_wellFormed
  rintro (hbad | ⟨ht, hbad⟩ | hbad)
  · exact absurd hquantity (not_lt.mpr hbad)
  · exact absurd (hprice ht) (not_lt.mpr hbad)
  · exact hsymbol hbad

end AlgoEngine

section Twap

variable {params : AlgoParams}

/-- The slices of a TWAP are copies of the parent with the quotient for their quantity,
the last one with the remainder on top. -/
theorem twap_requests (hn : 0 < params.numSlices) (hq : 0 < params.parent.quantity) (start : ℤ) :
    (generateTwapSlices params start).map ChildSlice.request =
      List.replicate (params.numSlices.toNat - 1)
          { params.parent with quantity := params.parent.quantity / params.numSlices } ++
        [{ params.parent with quantity := params.parent.quantity / params.numSlices +
          params.parent.quantity % params.numSlices }] := by
  have hcopies : (generateTwapSlices params start).map ChildSlice.request =
      ((generateTwapSlices params start).map fun x => x.request.quantity).map
        fun quantity => { params.parent with quantity } := by
    rw [List.map_map]
    apply List.map_congr_left
    intro x hx
    exact @AlgoRequest.request_of_mem_slices ⟨.twap, params, []⟩ start x hx
  rw [hcopies, twap_quantities hn hq, List.map_append, List.map_replicate, List.map_singleton,
    Int.tdiv_eq_ediv_of_nonneg hq.le, Int.tmod_eq_emod_of_nonneg hq.le]

theorem twap_quotient_last (hn : 0 < params.numSlices) (hq : 0 < params.parent.quantity) :
    0 < params.parent.quantity / params.numSlices + params.parent.quantity % params.numSlices := by
  have hsplit := Int.mul_ediv_add_emod params.parent.quantity params.numSlices
  have hmod := Int.emod_nonneg params.parent.quantity hn.ne'
  obtain hdiv | hdiv := (Int.ediv_nonneg hq.le hn.le).eq_or_lt
  · rw [← hdiv, mul_zero, zero_add] at hsplit
    omega
  · omega

theorem twap_countP_empty (hn : 0 < params.numSlices) (hq : 0 < params.parent.quantity) (start : ℤ) :
    (((generateTwapSlices params start).countP fun x => x.request.quantity = 0 : ℕ) : ℤ) =
      if params.parent.quantity < params.numSlices then params.numSlices - 1 else 0 := by
  have hcount : (generateTwapSlices params start).countP (fun x => x.request.quantity = 0) =
      ((generateTwapSlices params start).map ChildSlice.request).countP fun r => r.quantity = 0 := by
    rw [List.countP_map]
    rfl
  have hlast := twap_quotient_last hn hq
  have hzero : params.parent.quantity / params.numSlices = 0 ↔
      params.parent.quantity < params.numSlices := by
    have hlt := Int.ediv_lt_iff_lt_mul (a := params.parent.quantity) (b := 1) hn
    have hdiv := Int.ediv_nonneg hq.le hn.le
    rw [one_mul] at hlt
    rw [← hlt]
    omega
  rw [hcount, twap_requests hn hq, List.countP_append, List.countP_replicate, List.countP_singleton]
  simp only [decide_eq_true_eq, hzero, hlast.ne', if_false, add_zero]
  split_ifs
  · omega
  · rfl

end Twap

/-- What a TWAP run has placed when it is over: the whole parent quantity, in one order
for each slice that is not empty. -/
structure PlacedInFull (params : AlgoParams) (m : OrderManager) (run : AlgoRun) : Prop where
  counted : ((run.submitted + run.rejected : ℕ) : ℤ) = params.numSlices
  rejected : (run.rejected : ℤ) =
    if params.parent.quantity < params.numSlices then params.numSlices - 1 else 0
  length : run.childOrderIds.length = run.submitted
  distinct : run.childOrderIds.Nodup
  stored : ∀ id ∈ run.childOrderIds, ∃ o, m.orders.lookup id = some o ∧ ChildOf params.parent id o
  sum : run.placedQty m = params.parent.quantity

open AlgoEngine

/-- Where risk admits each slice of positive quantity, a TWAP run places the parent
quantity, no more and no less, and rejects the empty slices only. -/
theorem twap_places_parent {m : OrderManager} (hm : Reachable m) (e : AlgoEngine)
    (params : AlgoParams) (profile : List ℚ) (start : ℤ) (nows : ℕ → ℤ)
    (hq : 0 < params.parent.quantity) (hn : 0 < params.numSlices)
    (hadmits : EachSubmit Admits (fun k => RiskCheck.at (nows k)) (⟨.twap, params, [], 0, 0⟩, m)
      (generateTwapSlices params start)) :
    (generateTwapSlices params start).map ChildSlice.request =
        List.replicate (params.numSlices.toNat - 1)
            { params.parent with quantity := params.parent.quantity / params.numSlices } ++
          [{ params.parent with quantity := params.parent.quantity / params.numSlices +
            params.parent.quantity % params.numSlices }] ∧
      (∃ runId e' m' run, startAlgo (fun k => RiskCheck.at (nows k)) start e m
          ⟨.twap, params, profile⟩ = (.ok runId, e', m') ∧ e'.getRun runId = .ok run ∧
        PlacedInFull params m' run) ∧
      EachSubmit RejectsEmpty (fun k => RiskCheck.at (nows k)) (⟨.twap, params, [], 0, 0⟩, m)
        (generateTwapSlices params start) := by
  have happortioned : Apportioned params.parent.quantity (generateTwapSlices params start) :=
    (@AlgoRequest.apportioned_iff ⟨.twap, params, []⟩ (by simp) start).mpr fun h => by cases h
  have hrequests := twap_requests hn hq start
  have hne : generateTwapSlices params start ≠ [] := by
    intro hnil
    rw [hnil] at hrequests
    simp at hrequests
  have hlength := congrArg List.length hrequests
  rw [List.length_map, List.length_append, List.length_replicate, List.length_singleton] at hlength
  have hcopies : ∀ x ∈ generateTwapSlices params start,
      x.request = { params.parent with quantity := x.request.quantity } := fun x hx =>
    @AlgoRequest.request_of_mem_slices ⟨.twap, params, profile⟩ start x hx
  have hvalid : ∀ x ∈ generateTwapSlices params start, 0 < x.request.quantity →
      validate x.request = .ok () := by
    intro x hx hpos
    obtain ⟨k, m', hgate⟩ := hadmits.of_mem hx
    exact validate_of_check (hgate hpos)
  have hstart : Placements params.parent (⟨.twap, params, [], 0, 0⟩, m) :=
    ⟨below_of_reachable hm, List.nodup_nil, rfl, fun id hid => absurd hid List.not_mem_nil⟩
  obtain ⟨hplacements, hrejects, hcounted⟩ :=
    hstart.submitSlices hcopies hvalid happortioned.nonneg hadmits
  refine ⟨hrequests, ⟨_, _, _, _, @startAlgo_eq start ⟨.twap, params, profile⟩ hne hn hq _ e m,
    getRun_emplace e _, ?_⟩, hrejects⟩
  have htotal := hcounted.total
  have hempty := hcounted.empty
  have hplaced := hcounted.placed
  rw [happortioned.sum hne] at hplaced
  refine ⟨?_, ?_, hplacements.length, hplacements.nodup, hplacements.children, ?_⟩
  · rw [AlgoRequest.slices, htotal, hlength]
    push_cast
    omega
  · rw [AlgoRequest.slices, hempty, zero_add, twap_countP_empty hn hq]
  · exact hplaced.trans (zero_add _)

def twoInThree : AlgoParams := ⟨⟨str "parent", ⟨str "AAPL"⟩, .buy, .limit, 100, 2⟩, 60, 3⟩

theorem twoInThree_placed : ∃ runId e' m' run, startAlgo (fun _ => RiskCheck.at 0) 0 AlgoEngine.new
    (OrderManager.new (RiskManager.new RiskLimits.default) MatchingEngine.new none fun _ => 0)
    ⟨.twap, twoInThree, []⟩ = (.ok runId, e', m') ∧ e'.getRun runId = .ok run ∧
      PlacedInFull twoInThree m' run :=
  (twap_places_parent (Reachable.new _ _ _) AlgoEngine.new twoInThree [] 0 (fun _ => 0) (by decide)
    (by decide) ⟨fun h => absurd h (by decide), fun h => absurd h (by decide), fun _ => rfl,
      trivial⟩).2.1

end Oems
