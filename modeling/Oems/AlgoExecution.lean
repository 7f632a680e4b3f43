import Oems.AlgoQuantity

namespace Oems

open Lib OrderManager

def qtyOf (orders : OrderMap) (id : ℕ) : ℤ := ((orders.lookup id).map Order.orderQty).getD 0

section QtyOf

variable {orders : OrderMap} {id : ℕ} {o : Order}

theorem qtyOf_insert (orders : OrderMap) (id : ℕ) (o : Order) :
    qtyOf (orders.insert id o) id = o.orderQty := by
  rw [qtyOf, Finmap.lookup_insert]
  rfl

theorem qtyOf_insert_of_ne {id' : ℕ} (h : id' ≠ id) :
    qtyOf (orders.insert id o) id' = qtyOf orders id' := by
  rw [qtyOf, Finmap.lookup_insert_of_ne _ h]
  rfl

theorem qtyOf_insert_same {o' : Order} (hl : orders.lookup id = some o)
    (hq : o'.orderQty = o.orderQty) : qtyOf (orders.insert id o') = qtyOf orders := by
  funext id'
  by_cases he : id' = id
  · rw [he, qtyOf_insert, qtyOf, hl]
    exact hq
  · exact qtyOf_insert_of_ne he

end QtyOf

/-- What fills leave alone in any manager, whatever its state. -/
structure SameQuantities (m m' : OrderManager) (order order' : Order) : Prop where
  qtyOf : Oems.qtyOf m'.orders = Oems.qtyOf m.orders
  nextOrderId : m'.nextOrderId = m.nextOrderId
  internalId : order'.internalId = order.internalId
  orderQty : order'.orderQty = order.orderQty

theorem sameQuantities_applyFill (m : OrderManager) (order : Order) (fill : Fill) :
    SameQuantities m (m.applyFill order fill).1 order (m.applyFill order fill).2 where
  qtyOf := by
    have horders : (m.applyFill order fill).1.orders =
        (({ m with executions := m.executions ++ [fill] }.write (.saveExecution fill)).fillPassive
          fill).orders := rfl
    rw [horders, fillPassive_orders, write_orders]
    cases hl : m.orders.lookup fill.passiveOrderId with
    | none => rfl
    | some passive => exact qtyOf_insert_same hl rfl
  nextOrderId := by
    unfold OrderManager.applyFill OrderManager.fillPassive
    dsimp only [write_orders]
    cases m.orders.lookup fill.passiveOrderId <;> rfl
  internalId := rfl
  orderQty := rfl

theorem sameQuantities_applyFills (fills : List Fill) (m : OrderManager) (order : Order) :
    SameQuantities m (m.applyFills order fills).1 order (m.applyFills order fills).2 := by
  induction fills generalizing m order with
  | nil => exact ⟨rfl, rfl, rfl, rfl⟩
  | cons fill fills ih =>
    have hfirst := sameQuantities_applyFill m order fill
    have hrest := ih (m.applyFill order fill).1 (m.applyFill order fill).2
    exact ⟨hrest.qtyOf.trans hfirst.qtyOf, hrest.nextOrderId.trans hfirst.nextOrderId,
      hrest.internalId.trans hfirst.internalId, hrest.orderQty.trans hfirst.orderQty⟩

/-- What a submit does to the stored quantities of any manager. -/
structure Placing (m : OrderManager) (qty : ℤ) (r : Result Order × OrderManager) : Prop where
  next : m.nextOrderId ≤ r.2.nextOrderId
  others : ∀ id < m.nextOrderId, qtyOf r.2.orders id = qtyOf m.orders id
  placed : ∀ order, r.1 = .ok order → order.internalId = m.nextOrderId ∧
    m.nextOrderId < r.2.nextOrderId ∧ qtyOf r.2.orders m.nextOrderId = qty

theorem placing_place (m : OrderManager) (req : NewOrderRequest) :
    Placing m req.quantity (m.place req) := by
  unfold OrderManager.place
  dsimp only
  cases (m.request req).2.engine.addOrder req.symbol (m.request req).1.internalId req.side req.type
      req.price req.quantity (m.request req).2.now with
  | mk res engine =>
    cases res with
    | error err =>
      refine ⟨Nat.le_succ _, fun id hid => ?_, fun order horder => by cases horder⟩
      exact qtyOf_insert_of_ne hid.ne
    | ok result =>
      have hflight := sameQuantities_applyFills result.fills
        ((m.request req).2.accept engine (m.request req).1).2
        ((m.request req).2.accept engine (m.request req).1).1
      dsimp only
      generalize OrderManager.applyFills _ _ result.fills = landed at hflight
      have hid : landed.2.internalId = m.nextOrderId := hflight.internalId
      have hqty : landed.2.orderQty = req.quantity := hflight.orderQty
      have hnext : landed.1.nextOrderId = m.nextOrderId + 1 := hflight.nextOrderId
      constructor
      · rw [settle_nextOrderId, hnext]
        exact Nat.le_succ _
      · intro id hlt
        rw [settle_orders, qtyOf_insert_of_ne (by omega), hflight.qtyOf]
        rfl
      · rintro order ⟨⟩
        rw [settle_nextOrderId, settle_orders, hnext, ← hid, qtyOf_insert]
        exact ⟨rfl, by omega, hqty⟩

theorem placing_submitOrder (check : RiskCheck) (m : OrderManager) (req : NewOrderRequest) :
    Placing m req.quantity (m.submitOrder check req) := by
  have hstep := submitStep check m req
  generalize m.submitOrder check req = r at hstep
  cases hstep with
  | invalid err _ => exact ⟨le_refl _, fun _ _ => rfl, fun _ h => by cases h⟩
  | refused risk err _ _ =>
    refine ⟨?_, fun id hid => ?_, fun _ h => by cases h⟩
    · rw [rejectByRisk_nextOrderId]
      exact Nat.le_succ _
    · rw [rejectByRisk_orders, qtyOf_insert_of_ne hid.ne]
  | placed risk _ _ =>
    have h := placing_place { m with risk } req
    exact ⟨h.next, h.others, h.placed⟩

/-- The quantity of the orders that a run has placed. -/
def AlgoRun.placedQty (run : AlgoRun) (m : OrderManager) : ℤ :=
  (run.childOrderIds.map (qtyOf m.orders)).sum

namespace AlgoEngine

variable {check : RiskCheck} {checks : ℕ → RiskCheck} {s : AlgoRun × OrderManager}

def Handed (s : AlgoRun × OrderManager) : Prop := ∀ id ∈ s.1.childOrderIds, id < s.2.nextOrderId

theorem submitSlice_spec (h : Handed s) (check : RiskCheck) (slice : ChildSlice) :
    Handed (submitSlice check s slice) ∧
      (submitSlice check s slice).1.placedQty (submitSlice check s slice).2 = s.1.placedQty s.2 +
        (match (s.2.submitOrder check slice.request).1 with
          | .ok _ => slice.request.quantity
          | .error _ => 0) := by
  have hp := placing_submitOrder check s.2 slice.request
  unfold submitSlice
  generalize s.2.submitOrder check slice.request = r at hp
  have hkept : s.1.childOrderIds.map (qtyOf r.2.orders) = s.1.childOrderIds.map (qtyOf s.2.orders) :=
    List.map_congr_left fun id hid => hp.others id (h id hid)
  obtain ⟨res, m⟩ := r
  cases res with
  | error err =>
    refine ⟨fun id hid => (h id hid).trans_le hp.next, ?_⟩
    unfold AlgoRun.placedQty
    rw [hkept, add_zero]
  | ok order =>
    obtain ⟨hid, hlt, hqty⟩ := hp.placed order rfl
    constructor
    · intro id hmem
      obtain hmem | hmem := List.mem_append.mp hmem
      · exact (h id hmem).trans_le hp.next
      · rw [List.mem_singleton.mp hmem, hid]
        exact hlt
    · unfold AlgoRun.placedQty
      dsimp only
      rw [List.map_append, hkept, List.map_singleton, hid, List.sum_append, List.sum_singleton, hqty]

/-- What a slice adds to a run that gets every valid slice accepted. -/
def admissibleQty (slice : ChildSlice) : ℤ :=
  match validate slice.request with
  | .ok () => slice.request.quantity
  | .error _ => 0

theorem admissibleQty_nonneg (slice : ChildSlice) : 0 ≤ admissibleQty slice := by
  unfold admissibleQty
  cases hv : validate slice.request with
  | error err => exact le_refl _
  | ok u => exact (validate_ok hv).1.le

theorem placedQty_submitSlices_le (slices : List ChildSlice) (checks : ℕ → RiskCheck) (h : Handed s) :
    (submitSlices checks s slices).1.placedQty (submitSlices checks s slices).2 ≤
      s.1.placedQty s.2 + (slices.map admissibleQty).sum := by
  induction slices generalizing s checks with
  | nil =>
    rw [List.map_nil, List.sum_nil, add_zero]
    exact le_refl _
  | cons slice slices ih =>
    obtain ⟨hnext, hplaced⟩ := submitSlice_spec h (checks 0) slice
    have hrest := ih (fun k => checks (k + 1)) hnext
    have hone : (match (s.2.submitOrder (checks 0) slice.request).1 with
        | .ok _ => slice.request.quantity
        | .error _ => 0) ≤ admissibleQty slice := by
      have hpos := admissibleQty_nonneg slice
      unfold admissibleQty at hpos ⊢
      cases hv : validate slice.request with
      | error err => rw [submitOrder_invalid hv]
      | ok u =>
        rw [hv] at hpos
        cases (s.2.submitOrder (checks 0) slice.request).1 with
        | error err => exact hpos
        | ok order => exact le_refl _
    rw [submitSlices, List.map_cons, List.sum_cons]
    omega

def admitAll : RiskCheck := fun risk _ => (.ok (), risk)

theorem submitOrder_admitted {m : OrderManager} (h : Agrees m) {req : NewOrderRequest}
    (hv : validate req = .ok ()) : ∃ order, (m.submitOrder admitAll req).1 = .ok order := by
  rw [OrderManager.submitOrder, hv]
  exact ⟨_, congrArg Prod.fst (h.takeoff hv).place⟩

theorem placedQty_submitSlices (slices : List ChildSlice) (ha : Agrees s.2) (h : Handed s) :
    (submitSlices (fun _ => admitAll) s slices).1.placedQty
        (submitSlices (fun _ => admitAll) s slices).2 =
      s.1.placedQty s.2 + (slices.map admissibleQty).sum := by
  induction slices generalizing s with
  | nil =>
    rw [List.map_nil, List.sum_nil, add_zero]
    rfl
  | cons slice slices ih =>
    obtain ⟨hnext, hplaced⟩ := submitSlice_spec h admitAll slice
    have hagrees : Agrees (submitSlice admitAll s slice).2 := by
      have hsubmit := ha.submitOrder admitAll slice.request
      unfold submitSlice
      generalize s.2.submitOrder admitAll slice.request = r at hsubmit
      obtain ⟨res, m⟩ := r
      cases res with
      | error err => exact hsubmit
      | ok order => exact hsubmit
    have hone : (match (s.2.submitOrder admitAll slice.request).1 with
        | .ok _ => slice.request.quantity
        | .error _ => 0) = admissibleQty slice := by
      unfold admissibleQty
      cases hv : validate slice.request with
      | error err => rw [submitOrder_invalid hv]
      | ok u =>
        obtain ⟨order, hok⟩ := submitOrder_admitted ha hv
        rw [hok]
    rw [submitSlices, ih hagrees hnext, hplaced, hone, List.map_cons, List.sum_cons, add_assoc]

theorem startAlgo_eq {start : ℤ} {req : AlgoRequest} (hne : req.slices start ≠ [])
    (hn : 0 < req.params.numSlices) (hq : 0 < req.params.parent.quantity)
    (checks : ℕ → RiskCheck) (e : AlgoEngine) (m : OrderManager) :
    startAlgo checks start e m req =
      (.ok e.nextRunId,
        e.emplace (submitSlices checks (⟨req.type, req.params, [], 0, 0⟩, m) (req.slices start)).1,
        (submitSlices checks (⟨req.type, req.params, [], 0, 0⟩, m) (req.slices start)).2) := by
  rw [startAlgo, if_neg (by omega), if_neg hne]

theorem getRun_emplace (e : AlgoEngine) (run : AlgoRun) :
    (e.emplace run).getRun e.nextRunId = .ok run := by
  rw [getRun, emplace, Finmap.lookup_insert]

end AlgoEngine

open AlgoEngine

def AlgoRequest.NeverExceeds (req : AlgoRequest) : Prop :=
  ∀ checks start e m runId e' m' run, startAlgo checks start e m req = (.ok runId, e', m') →
    e'.getRun runId = .ok run → run.placedQty m' ≤ req.params.parent.quantity

section Children

variable {parent : NewOrderRequest}

theorem validate_child (hv : validate parent = .ok ()) (qty : ℤ) :
    validate { parent with quantity := qty } =
      if qty ≤ 0 then .error .invalidQuantity else .ok () := by
  unfold validate at hv ⊢
  split_ifs at hv ⊢ <;> rfl

theorem validate_child_error {err : OemsError} (hv : validate parent = .error err)
    (hq : 0 < parent.quantity) (qty : ℤ) :
    ∃ err', validate { parent with quantity := qty } = .error err' := by
  unfold validate at hv ⊢
  split_ifs at hv ⊢
  all_goals first | exact ⟨_, rfl⟩ | omega

end Children

theorem request_of_mem_vwapSlices {params : AlgoParams} {start : ℤ} {profile : List ℚ} {i : ℕ}
    {allocated : ℤ} {slice : ChildSlice} (h : slice ∈ vwapSlices params start i allocated profile) :
    slice.request = { params.parent with quantity := slice.request.quantity } := by
  induction profile generalizing i allocated with
  | nil => simp [vwapSlices] at h
  | cons w profile ih =>
    rw [vwapSlices] at h
    split_ifs at h
    all_goals
      obtain rfl | h := List.mem_cons.mp h
      · rfl
      · exact ih h

theorem AlgoRequest.request_of_mem_slices {req : AlgoRequest} {start : ℤ} {slice : ChildSlice}
    (h : slice ∈ req.slices start) :
    slice.request = { req.params.parent with quantity := slice.request.quantity } := by
  unfold slices at h
  cases htype : req.type with
  | twap =>
    rw [htype] at h
    dsimp only at h
    unfold generateTwapSlices at h
    split_ifs at h
    · simp at h
    · obtain ⟨i, _, rfl⟩ := List.mem_map.mp h
      rfl
  | vwap =>
    rw [htype] at h
    dsimp only at h
    unfold generateVwapSlices at h
    dsimp only at h
    split_ifs at h
    all_goals first | exact absurd h List.not_mem_nil | exact request_of_mem_vwapSlices h

namespace AlgoRequest

variable {req : AlgoRequest}

theorem sum_admissibleQty (hv : validate req.params.parent = .ok ()) (start : ℤ) :
    ((req.slices start).map admissibleQty).sum =
      ((req.slices start).map fun x => max x.request.quantity 0).sum := by
  congr 1
  apply List.map_congr_left
  intro slice hmem
  have hrequest := request_of_mem_slices hmem
  have hchild := validate_child hv slice.request.quantity
  rw [← hrequest] at hchild
  unfold admissibleQty
  rw [hchild]
  split_ifs with hle
  · exact (max_eq_right hle).symm
  · exact (max_eq_left (not_le.mp hle).le).symm

theorem sum_admissibleQty_error {err : OemsError} (hv : validate req.params.parent = .error err)
    (hq : 0 < req.params.parent.quantity) (start : ℤ) :
    ((req.slices start).map admissibleQty).sum = 0 := by
  apply List.sum_eq_zero
  intro n hn
  obtain ⟨slice, hmem, rfl⟩ := List.mem_map.mp hn
  obtain ⟨err', hchild⟩ := validate_child_error hv hq slice.request.quantity
  rw [← request_of_mem_slices hmem] at hchild
  unfold admissibleQty
  rw [hchild]

theorem neverExceeds_of_le (h : ∀ start, 0 < req.params.parent.quantity →
    ((req.slices start).map admissibleQty).sum ≤ req.params.parent.quantity) : req.NeverExceeds := by
  intro checks start e m runId e' m' run hrun hget
  by_cases hopen : req.params.numSlices ≤ 0 ∨ req.params.parent.quantity ≤ 0
  · rw [startAlgo, if_pos hopen] at hrun
    cases hrun
  · by_cases hne : req.slices start = []
    · rw [startAlgo, if_neg hopen, if_pos hne] at hrun
      cases hrun
    · obtain ⟨hn, hq⟩ := not_or.mp hopen
      rw [not_le] at hn hq
      rw [startAlgo_eq hne hn hq] at hrun
      cases hrun
      rw [getRun_emplace] at hget
      cases hget
      have hplaced := placedQty_submitSlices_le (req.slices start) checks
        (s := (⟨req.type, req.params, [], 0, 0⟩, m)) fun id hid => by simp at hid
      have hzero : AlgoRun.placedQty ⟨req.type, req.params, [], 0, 0⟩ m = 0 := rfl
      have hbound := h start hq
      dsimp only at hplaced
      omega

/-- A request whose shares do not fit gets more than the parent quantity, once
all its valid slices are accepted. -/
theorem exceeds (hw : ∀ w ∈ req.vwapProfile, 0 ≤ w) (hfits : ¬ req.Fits)
    (hv : validate req.params.parent = .ok ()) : ¬ req.NeverExceeds := by
  unfold Fits at hfits
  push Not at hfits
  obtain ⟨htype, hne, hdrift⟩ := hfits
  obtain ⟨hn, hq, _, _⟩ := vwapShares_eq hne
  have hlt : req.params.parent.quantity < Apportion.taken req.vwapShares := by
    rw [← not_le, Apportion.taken_le_iff hne (vwapShares_nonneg hw), sum_vwapShares hne, not_le]
    exact hdrift
  have hquantities : (req.slices 0).map (fun x => x.request.quantity) =
      Apportion.apportion req.params.parent.quantity req.vwapShares := by
    unfold slices
    rw [htype]
    exact vwap_quantities req 0
  have hslices : req.slices 0 ≠ [] := by
    intro hnil
    rw [hnil, Apportion.apportion_eq hne] at hquantities
    simp at hquantities
  have hsum : ((req.slices 0).map admissibleQty).sum = Apportion.taken req.vwapShares := by
    rw [sum_admissibleQty hv, ← Apportion.sum_positive_apportion hne (vwapShares_nonneg hw) hlt,
      ← hquantities, List.map_map]
    rfl
  -- a new manager, with a risk check that lets everything through
  let m := OrderManager.new (RiskManager.new RiskLimits.default) MatchingEngine.new none fun _ => 0
  intro hnever
  have hrun := hnever (fun _ => admitAll) 0 AlgoEngine.new m _ _ _ _
    (startAlgo_eq hslices hn hq _ _ m) (getRun_emplace _ _)
  have hplaced := placedQty_submitSlices (req.slices 0)
    (s := (⟨req.type, req.params, [], 0, 0⟩, m)) (Agrees.new _ none _) fun id hid => by simp at hid
  have hzero : AlgoRun.placedQty ⟨req.type, req.params, [], 0, 0⟩ m = 0 := rfl
  dsimp only at hplaced
  omega

theorem neverExceeds_of_fits (hw : ∀ w ∈ req.vwapProfile, 0 ≤ w) (hfits : req.Fits) :
    req.NeverExceeds := by
  apply neverExceeds_of_le
  intro start hq
  have hslices := (apportioned_iff hw start).mpr hfits
  cases hv : validate req.params.parent with
  | error err =>
    rw [sum_admissibleQty_error hv hq]
    exact hq.le
  | ok u =>
    have hsame : (req.slices start).map (fun x => max x.request.quantity 0) =
        (req.slices start).map fun x => x.request.quantity :=
      List.map_congr_left fun x hx => max_eq_left (hslices.nonneg x hx)
    rw [sum_admissibleQty hv, hsame]
    by_cases hne : req.slices start = []
    · rw [hne]
      exact hq.le
    · exact (hslices.sum hne).le

end AlgoRequest

/-- For weights that are not negative: the slices are right and no run exceeds the
parent quantity exactly when the shares fit. In the range of `llround`, only a parent that is
invalid itself is never exceeded otherwise. -/
theorem algo_never_exceeds_iff (req : AlgoRequest) (hw : ∀ w ∈ req.vwapProfile, 0 ≤ w) :
    ((∀ start, Apportioned req.params.parent.quantity (req.slices start)) ∧ req.NeverExceeds ↔
      req.Fits) ∧
    (toDouble req.params.parent.quantity < 2 ^ 63 →
      (req.NeverExceeds ↔ req.Fits ∨ ∃ err, validate req.params.parent = .error err)) := by
  refine ⟨⟨fun h => (AlgoRequest.apportioned_iff hw 0).mp (h.1 0), fun hfits =>
    ⟨fun start => (AlgoRequest.apportioned_iff hw start).mpr hfits,
      AlgoRequest.neverExceeds_of_fits hw hfits⟩⟩, fun _ => ⟨fun hnever => ?_, ?_⟩⟩
  · by_cases hfits : req.Fits
    · exact Or.inl hfits
    · cases hv : validate req.params.parent with
      | error err => exact Or.inr ⟨err, rfl⟩
      | ok u => exact absurd hnever (AlgoRequest.exceeds hw hfits hv)
  · rintro (hfits | ⟨err, hv⟩)
    · exact AlgoRequest.neverExceeds_of_fits hw hfits
    · apply AlgoRequest.neverExceeds_of_le
      intro start hq
      rw [AlgoRequest.sum_admissibleQty_error hv hq]
      exact hq.le

def unnormalizedProfile : AlgoRequest :=
  ⟨.vwap, ⟨⟨str "parent", ⟨str "AAPL"⟩, .buy, .limit, 10000, 100⟩, 60, 4⟩, [4, 3, 2, 1]⟩

theorem unnormalizedProfile_never_exceeds :
    ((∀ start, Apportioned 100 (unnormalizedProfile.slices start)) ∧
      unnormalizedProfile.NeverExceeds) ∧
    (unnormalizedProfile.NeverExceeds ↔ unnormalizedProfile.Fits ∨
      ∃ err, validate unnormalizedProfile.params.parent = .error err) := by
  have hfits : unnormalizedProfile.Fits := by
    intro _
    decide +kernel
  obtain ⟨hexact, hnever⟩ := algo_never_exceeds_iff unnormalizedProfile (by decide +kernel)
  exact ⟨hexact.mpr hfits, hnever (by decide +kernel)⟩

def sevenInTen : AlgoRequest :=
  ⟨.vwap, ⟨⟨str "parent", ⟨str "AAPL"⟩, .buy, .limit, 100, 7⟩, 60, 10⟩, []⟩

/-- Nine slices of 1 are accepted, and the last one is for -2. -/
theorem sevenInTen_exceeds : ¬ sevenInTen.NeverExceeds := by
  intro h
  have hslices : sevenInTen.slices 0 ≠ [] := by decide +kernel
  have hrun := h (fun _ => RiskCheck.at 0) 0 AlgoEngine.new (OrderManager.new (RiskManager.new
    RiskLimits.default) MatchingEngine.new none fun _ => 0) _ _ _ _
      (startAlgo_eq hslices (by decide) (by decide) _ _ _) (getRun_emplace _ _)
  exact absurd hrun (by decide +kernel)

-- as a double, 2^53 + 3 is 2^53 + 4
example : (generateVwapSlices ⟨⟨str "parent", ⟨str "AAPL"⟩, .buy, .limit, 100, 2 ^ 53 + 3⟩, 60, 2⟩ 0
    [1, 0]).map (fun slice => slice.request.quantity) = [2 ^ 53 + 4, -1] := by decide +kernel

end Oems
