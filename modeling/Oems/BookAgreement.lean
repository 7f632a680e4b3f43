import Oems.Submission
import Oems.EngineRefinement

namespace Oems

open Lib OrderManager

/-- A submit at the point where its order is accepted and its fills are applied. -/
structure Flight where
  manager : OrderManager
  order : Order
  fills : List Fill

def OrderManager.flightOf (m : OrderManager) (req : NewOrderRequest) : Flight :=
  let requested := m.request req
  match requested.2.engine.addOrder req.symbol requested.1.internalId req.side req.type req.price
      req.quantity requested.2.now with
  | (.error _, _) => ⟨requested.2, requested.1, []⟩
  | (.ok result, engine) =>
    let accepted := requested.2.accept engine requested.1
    ⟨accepted.2, accepted.1, result.fills⟩

def OrderManager.submitFlight (check : RiskCheck) (m : OrderManager) (req : NewOrderRequest) :
    Option Flight :=
  match validate req with
  | .error _ => none
  | .ok () =>
    match check m.risk (riskRequest req) with
    | (.error _, _) => none
    | (.ok (), risk) => some ({ m with risk }.flightOf req)

def Flight.land (f : Flight) : OrderManager × Order := f.manager.applyFills f.order f.fills

def OrderManager.flatBook (m : OrderManager) (symbol : Symbol) : NaiveBook :=
  ⟨symbol, liveOrders m.orders m.nextOrderId symbol, m.engine.nextExecutionId⟩

/-- The order table and the books agree. -/
structure Agrees (m : OrderManager) : Prop where
  filed : Filed m.orders m.nextOrderId
  kept : ∀ id o, m.orders.lookup id = some o → Kept o
  engine : EngineRefines m.engine (liveOrders m.orders m.nextOrderId)
  next : m.engine.nextExecutionId = m.executions.length + 1

theorem validate_ok {req : NewOrderRequest} (h : validate req = .ok ()) :
    0 < req.quantity ∧ (req.type = .limit → 0 < req.price) ∧ req.symbol.value ≠ [] := by
  unfold validate at h
  split_ifs at h with hq hp hs
  refine ⟨not_le.mp hq, fun ht => ?_, hs⟩
  by_contra hc
  exact hp ⟨ht, not_lt.mp hc⟩

def restOf (t : Taker) (remaining : ℤ) : List RestingOrder :=
  if h : 0 < remaining ∧ t.type = .limit then [⟨⟨t.id, t.side, t.limit, remaining⟩, h.1⟩] else []

theorem naive_addOrder_ok {n : NaiveBook} {t : Taker} {qty : ℤ} (hq : 0 < qty)
    (hp : t.type = .limit → 0 < t.limit) (hnew : n.find t.id = none) :
    ∃ outcome, n.addOrder t.id t.side t.type t.limit qty = (.ok outcome,
        { (n.sweep t qty).2.2 with
          orders := (n.sweep t qty).2.2.orders ++ restOf t (n.sweep t qty).2.1 }) ∧
      outcome.trades = (n.sweep t qty).1 := by
  have hprice : ¬ (t.type = .limit ∧ t.limit ≤ 0) := fun hc => not_le.mpr (hp hc.1) hc.2
  have hfound : ¬ (n.find t.id).isSome = true := by simp [hnew]
  obtain ⟨id, side, type, limit⟩ := t
  unfold NaiveBook.addOrder restOf
  rw [if_neg (not_le.mpr hq), if_neg hprice, if_neg hfound]
  generalize n.sweep ⟨id, side, type, limit⟩ qty = w
  obtain ⟨trades, remaining, n'⟩ := w
  by_cases hr : 0 < remaining ∧ type = .limit
  · simp only [dif_pos hr]
    exact ⟨_, rfl, rfl⟩
  · simp only [dif_neg hr, List.append_nil]
    exact ⟨_, rfl, rfl⟩

/-- The manager when it comes to the fills of a request that the engine, now
`engine`, has taken. -/
def OrderManager.accepted (m : OrderManager) (req : NewOrderRequest) (engine : MatchingEngine) :
    OrderManager :=
  ((m.request req).2.accept engine (m.request req).1).2

section Accepted

variable (m : OrderManager) (req : NewOrderRequest) (engine : MatchingEngine)

@[simp] theorem accepted_engine : (m.accepted req engine).engine = engine := rfl

@[simp] theorem accepted_nextOrderId : (m.accepted req engine).nextOrderId = m.nextOrderId + 1 := rfl

@[simp] theorem accepted_nextEventId : (m.accepted req engine).nextEventId = m.nextEventId + 2 := rfl

@[simp] theorem accepted_orders : (m.accepted req engine).orders = m.orders := rfl

@[simp] theorem accepted_executions : (m.accepted req engine).executions = m.executions := rfl

theorem accepted_events : ∃ now now', (m.accepted req engine).events = m.events ++
    [⟨m.nextEventId, m.nextOrderId, .newRequested, now, req.clientOrderId⟩,
    ⟨m.nextEventId + 1, m.nextOrderId, .accepted, now', []⟩] :=
  ⟨_, _, List.append_assoc ..⟩

end Accepted

/-- A valid request is accepted by the engine, and its fills are the trades of
the flat book. -/
structure Takeoff (m : OrderManager) (req : NewOrderRequest) : Prop where
  place : m.place req = (.ok ((m.flightOf req).land.1.settle (m.flightOf req).land.2).1,
    ((m.flightOf req).land.1.settle (m.flightOf req).land.2).2)
  manager : ∃ engine, (m.flightOf req).manager = m.accepted req engine
  order : ∃ created updated,
    (m.flightOf req).order = newOrder req m.nextOrderId .accepted created updated
  fills : (m.flightOf req).fills.map Fill.trade = ((m.flatBook req.symbol).sweep
    ⟨m.nextOrderId, req.side, req.type, req.price⟩ req.quantity).1
  next : (m.flightOf req).manager.engine.nextExecutionId = ((m.flatBook req.symbol).sweep
    ⟨m.nextOrderId, req.side, req.type, req.price⟩ req.quantity).2.2.nextExecutionId
  engine : EngineRefines (m.flightOf req).manager.engine
    (Function.update (liveOrders m.orders m.nextOrderId) req.symbol
      (((m.flatBook req.symbol).sweep ⟨m.nextOrderId, req.side, req.type, req.price⟩
          req.quantity).2.2.orders ++
        restOf ⟨m.nextOrderId, req.side, req.type, req.price⟩ ((m.flatBook req.symbol).sweep
          ⟨m.nextOrderId, req.side, req.type, req.price⟩ req.quantity).2.1))

theorem Agrees.takeoff {m : OrderManager} (h : Agrees m) {req : NewOrderRequest}
    (hv : validate req = .ok ()) : Takeoff m req := by
  obtain ⟨hq, hp, _⟩ := validate_ok hv
  have hnew : (m.flatBook req.symbol).find m.nextOrderId = none := by
    refine (find_liveOrders h.filed _).trans ?_
    rw [h.filed.lookup_bound]
    rfl
  obtain ⟨outcome, hadd, htrades⟩ := naive_addOrder_ok
    (t := ⟨m.nextOrderId, req.side, req.type, req.price⟩) hq hp hnew
  obtain ⟨hres, hnext, hengine⟩ := h.engine.addOrder req.symbol m.nextOrderId req.side req.type
    req.price req.quantity (m.request req).2.now _ rfl
  change _ = ((m.flatBook req.symbol).addOrder m.nextOrderId req.side req.type req.price
    req.quantity).1 at hres
  change _ = ((m.flatBook req.symbol).addOrder m.nextOrderId req.side req.type req.price
    req.quantity).2.nextExecutionId at hnext
  change EngineRefines _ (Function.update _ _ ((m.flatBook req.symbol).addOrder m.nextOrderId
    req.side req.type req.price req.quantity).2.orders) at hengine
  rw [hadd] at hres hnext hengine
  cases ha : m.engine.addOrder req.symbol m.nextOrderId req.side req.type req.price req.quantity
      (m.request req).2.now with
  | mk r engine =>
    rw [ha] at hres hnext hengine
    cases r with
    | error err => simp [Except.map] at hres
    | ok result =>
      have hflight : m.flightOf req = ⟨((m.request req).2.accept engine (m.request req).1).2,
          ((m.request req).2.accept engine (m.request req).1).1, result.fills⟩ := by
        change (match m.engine.addOrder req.symbol m.nextOrderId req.side req.type req.price
          req.quantity (m.request req).2.now with | (.error _, _) => _ | (.ok _, _) => _) = _
        rw [ha]
      have hplace : m.place req = (.ok ((m.flightOf req).land.1.settle (m.flightOf req).land.2).1,
          ((m.flightOf req).land.1.settle (m.flightOf req).land.2).2) := by
        rw [hflight]
        change (match m.engine.addOrder req.symbol m.nextOrderId req.side req.type req.price
          req.quantity (m.request req).2.now with | (.error _, _) => _ | (.ok _, _) => _) = _
        rw [ha]
        rfl
      have hout : AddOrderResult.view result = outcome := Except.ok.inj hres
      refine ⟨hplace, ?_, ?_, ?_, ?_, ?_⟩
      all_goals rw [hflight]
      · exact ⟨engine, rfl⟩
      · exact ⟨_, _, rfl⟩
      · rw [← htrades, ← hout]
        rfl
      · exact hnext
      · exact hengine

namespace Takeoff

variable {m : OrderManager} {req : NewOrderRequest} (h : Takeoff m req)
include h

theorem orders : (m.flightOf req).manager.orders = m.orders := by
  obtain ⟨engine, he⟩ := h.manager
  rw [he]
  rfl

theorem executions : (m.flightOf req).manager.executions = m.executions := by
  obtain ⟨engine, he⟩ := h.manager
  rw [he]
  rfl

theorem nextOrderId : (m.flightOf req).manager.nextOrderId = m.nextOrderId + 1 := by
  obtain ⟨engine, he⟩ := h.manager
  rw [he]
  rfl

theorem taker :
    (m.flightOf req).order.taker = ⟨m.nextOrderId, req.side, req.type, req.price⟩ := by
  obtain ⟨created, updated, ho⟩ := h.order
  rw [ho]
  rfl

theorem running (hq : 0 < req.quantity) :
    Running (m.flightOf req).order (m.flightOf req).order := by
  obtain ⟨created, updated, ho⟩ := h.order
  rw [ho]
  exact ⟨SameTerms.refl _, rfl, (zero_add _).symm, le_refl _, hq.le⟩

end Takeoff

theorem Agrees.land {m : OrderManager} (h : Agrees m) {req : NewOrderRequest}
    (hv : validate req = .ok ()) :
    EachFill (fun m' order fill => ∃ passive, FillStep (m.flightOf req).order m' order fill passive)
        (m.flightOf req).manager (m.flightOf req).order (m.flightOf req).fills ∧
      InFlight (m.flightOf req).manager.engine (liveOrders m.orders m.nextOrderId)
        (m.flightOf req).order (m.flightOf req).land.1 (m.flightOf req).land.2
        ((m.flatBook req.symbol).sweep ⟨m.nextOrderId, req.side, req.type, req.price⟩
          req.quantity).2.2 ∧
      (m.flightOf req).land.2.remainingQty = ((m.flatBook req.symbol).sweep
        ⟨m.nextOrderId, req.side, req.type, req.price⟩ req.quantity).2.1 := by
  obtain ⟨hq, _, _⟩ := validate_ok hv
  have ht := h.takeoff hv
  have horder := ht.order
  obtain ⟨created, updated, horder⟩ := horder
  have hid : (m.flightOf req).order.internalId = m.nextOrderId := by
    rw [horder]
    rfl
  have hsym : (m.flightOf req).order.symbol = req.symbol := by
    rw [horder]
    rfl
  have hqty : (m.flightOf req).order.remainingQty = req.quantity := by
    rw [horder]
    rfl
  have hfly : InFlight (m.flightOf req).manager.engine (liveOrders m.orders m.nextOrderId)
      (m.flightOf req).order (m.flightOf req).manager (m.flightOf req).order
      (m.flatBook req.symbol) := by
    refine ⟨rfl, ?_, ?_, ?_, hsym.symm, ?_, ?_, ?_, ht.running hq⟩
    · rw [ht.nextOrderId, hid]
    · rw [ht.orders, hid]
      exact h.filed
    · rw [ht.orders]
      exact h.kept
    · rw [ht.orders, hid, hsym]
      rfl
    · intro s _
      rw [ht.orders, hid]
    · rw [ht.executions]
      exact h.next
  have hfills := ht.fills
  rw [← ht.taker, ← hqty] at hfills ⊢
  exact hfly.applyFills _ hfills

def settledOrder (order : Order) (now : ℤ) : Order :=
  { order with status := settledStatus order, updatedAt := now }

theorem sameTerms_settledOrder (o : Order) (now : ℤ) : SameTerms o (settledOrder o now) :=
  ⟨rfl, rfl, rfl, rfl, rfl, rfl, rfl, rfl⟩

theorem settledStatus_accepted {order : Order} (h : order.status = .accepted) :
    settledStatus order =
      if order.remainingQty = 0 then .filled
      else if 0 < order.filledQty then .partiallyFilled
      else if order.type = .market then .rejected
      else .accepted := by
  unfold settledStatus
  rw [h]
  split_ifs <;> rfl

theorem Running.settled {start order : Order} (h : Running start order)
    (hp : order.type = .limit → 0 < order.price) (now : ℤ) : Kept (settledOrder order now) := by
  have hfilled := h.filled_nonneg
  have hstatus : (settledOrder order now).status = _ := settledStatus_accepted h.status
  refine ⟨h.ledger, hfilled, h.remaining_nonneg, ?_, ?_, ?_, ?_, ?_, hp⟩
  all_goals rw [hstatus]
  · split_ifs <;> simp
  · change _ ↔ order.remainingQty = 0
    split_ifs with hz <;> simp [hz]
  · change _ → 0 < order.filledQty
    split_ifs <;> simp
    assumption
  · change _ → order.filledQty = 0
    split_ifs <;> simp
    all_goals omega
  · change _ → order.type = .limit
    split_ifs with _ _ ht <;> simp
    cases hty : order.type with
    | limit => rfl
    | market => exact absurd hty ht

theorem restingOf_settled {start order : Order} (h : Running start order) (now : ℤ) :
    (restingOf order.symbol (settledOrder order now)).toList =
      restOf order.taker order.remainingQty := by
  unfold restOf
  by_cases hr : 0 < order.remainingQty ∧ order.type = .limit
  · have hr' : 0 < order.remainingQty ∧ order.taker.type = .limit := hr
    have hlive : (settledStatus order).live := by
      rw [settledStatus_accepted h.status, if_neg hr.1.ne']
      by_cases hf : 0 < order.filledQty
      · exact Or.inr (if_pos hf)
      · rw [if_neg hf, if_neg (by simp [hr.2])]
        exact Or.inl rfl
    have hsome : restingOf order.symbol (settledOrder order now) =
        some ⟨⟨order.internalId, order.side, order.price, order.remainingQty⟩, hr.1⟩ :=
      restingOf_eq_some_iff.mpr ⟨⟨rfl, hr.2, hlive⟩, rfl⟩
    rw [dif_pos hr', hsome]
    rfl
  · have hr' : ¬ (0 < order.remainingQty ∧ order.taker.type = .limit) := hr
    have hnone : restingOf order.symbol (settledOrder order now) = none :=
      dif_neg fun hc => hr ⟨hc.2.2.2, hc.2.1⟩
    rw [dif_neg hr', hnone]
    rfl

/-- `settle` up to the storing of the order: a market order that found nobody is
reported as rejected. -/
def OrderManager.leftover (m : OrderManager) (order : Order) : OrderManager :=
  if order.remainingQty ≠ 0 ∧ order.type = .market ∧ ¬ order.filledQty > 0 then
    m.appendEvent order.internalId .rejected (str "no liquidity for market order")
  else m

theorem settle_eq (m : OrderManager) (order : Order) :
    m.settle order = (settledOrder order (m.leftover order).now,
      ((m.leftover order).tick.setOrder order.internalId
        (settledOrder order (m.leftover order).now)).saveOrder
          (settledOrder order (m.leftover order).now)) := rfl

theorem leftover_engine (m : OrderManager) (order : Order) :
    (m.leftover order).engine = m.engine := by
  unfold OrderManager.leftover
  split_ifs <;> rfl

theorem leftover_orders (m : OrderManager) (order : Order) :
    (m.leftover order).orders = m.orders := by
  unfold OrderManager.leftover
  split_ifs <;> rfl

theorem leftover_executions (m : OrderManager) (order : Order) :
    (m.leftover order).executions = m.executions := by
  unfold OrderManager.leftover
  split_ifs <;> rfl

theorem leftover_nextOrderId (m : OrderManager) (order : Order) :
    (m.leftover order).nextOrderId = m.nextOrderId := by
  unfold OrderManager.leftover
  split_ifs <;> rfl

section Settle

variable (m : OrderManager) (order : Order)

theorem settle_orders : (m.settle order).2.orders =
    m.orders.insert order.internalId (settledOrder order (m.leftover order).now) := by
  rw [settle_eq, saveOrder_orders, setOrder_orders, tick_orders, leftover_orders]

theorem settle_executions : (m.settle order).2.executions = m.executions := by
  rw [settle_eq, saveOrder_executions, setOrder_executions, tick_executions, leftover_executions]

theorem settle_engine : (m.settle order).2.engine = m.engine := by
  rw [settle_eq, saveOrder_engine, setOrder_engine, tick_engine, leftover_engine]

theorem settle_nextOrderId : (m.settle order).2.nextOrderId = m.nextOrderId := by
  rw [settle_eq, saveOrder_nextOrderId, setOrder_nextOrderId, tick_nextOrderId,
    leftover_nextOrderId]

theorem settle_events : (m.settle order).2.events = (m.leftover order).events := rfl

end Settle

theorem Agrees.place {m : OrderManager} (h : Agrees m) {req : NewOrderRequest}
    (hv : validate req = .ok ()) : Agrees (m.place req).2 := by
  obtain ⟨_, hp, _⟩ := validate_ok hv
  have ht := h.takeoff hv
  obtain ⟨created, updated, horder⟩ := ht.order
  obtain ⟨_, hfly, hleft⟩ := h.land hv
  have hengine := ht.engine
  have hnext := ht.next
  rw [horder] at hfly
  rw [ht.place]
  generalize (m.flightOf req).land = landed at hfly hleft ⊢
  obtain ⟨m', order⟩ := landed
  obtain ⟨hid, _, hsym, hside, htype, hprice, _, _⟩ := hfly.running.terms
  dsimp only [newOrder] at hid hsym hside htype hprice hleft ⊢
  have hlimit : order.type = .limit → 0 < order.price := by
    rw [htype, hprice]
    exact hp
  have hfiled : Filed m'.orders m.nextOrderId := hfly.filed
  have horders : _ = liveOrders m'.orders m.nextOrderId req.symbol := hfly.orders
  have hothers : ∀ s, s ≠ req.symbol → liveOrders m'.orders m.nextOrderId s = _ := hfly.others
  have hlast : m'.nextOrderId = m.nextOrderId + 1 := hfly.nextOrderId
  have hrest := restingOf_settled hfly.running (m'.leftover order).now
  rw [Order.taker, hid, hside, htype, hprice, hsym, hleft] at hrest
  constructor
  · rw [settle_orders, settle_nextOrderId, hlast, hid]
    exact hfiled.succ.insert hid (Nat.lt_succ_self _)
  · rw [settle_orders]
    exact forall_lookup_insert hfly.kept (hfly.running.settled hlimit _)
  · rw [settle_orders, settle_nextOrderId, settle_engine, hlast, hfly.engine, hid]
    refine Eq.subst (motive := EngineRefines _) ?_ hengine
    funext s
    rw [liveOrders_succ, liveOrders_insert_new, Finmap.lookup_insert, Option.bind_some]
    by_cases hs : s = req.symbol
    · subst hs
      rw [Function.update_self, ← horders, hrest]
    · rw [Function.update_of_ne hs, hothers s hs, restingOf_eq_none, Option.toList_none,
        List.append_nil]
      rintro ⟨hc, _⟩
      exact hs (hc.symm.trans hsym)
  · rw [settle_engine, settle_executions, hfly.engine, hnext]
    exact hfly.next

section RejectByRisk

variable (m : OrderManager) (req : NewOrderRequest) (err : OemsError)

theorem rejectByRisk_orders : (m.rejectByRisk req err).orders =
    m.orders.insert m.nextOrderId (newOrder req m.nextOrderId .rejected m.now m.tick.now) := by
  simp [OrderManager.rejectByRisk]

theorem rejectByRisk_nextOrderId : (m.rejectByRisk req err).nextOrderId = m.nextOrderId + 1 := by
  simp [OrderManager.rejectByRisk]

theorem rejectByRisk_engine : (m.rejectByRisk req err).engine = m.engine := by
  simp [OrderManager.rejectByRisk]

theorem rejectByRisk_executions : (m.rejectByRisk req err).executions = m.executions := by
  simp [OrderManager.rejectByRisk]

theorem rejectByRisk_events : ∃ now now', (m.rejectByRisk req err).events = m.events ++
    [⟨m.nextEventId, m.nextOrderId, .newRequested, now, req.clientOrderId⟩,
    ⟨m.nextEventId + 1, m.nextOrderId, .rejected, now', errorName err⟩] :=
  ⟨_, _, List.append_assoc ..⟩

end RejectByRisk

theorem Agrees.rejectByRisk {m : OrderManager} (h : Agrees m) {req : NewOrderRequest}
    (hv : validate req = .ok ()) (err : OemsError) : Agrees (m.rejectByRisk req err) := by
  obtain ⟨hq, hp, _⟩ := validate_ok hv
  have hkept : Kept (newOrder req m.nextOrderId .rejected m.now m.tick.now) := by
    refine ⟨(zero_add _).symm, le_refl _, hq.le, ?_, ?_, ?_, ?_, ?_, hp⟩
    · simp [newOrder]
    · simp [newOrder, hq.ne']
    · simp [newOrder]
    · simp [newOrder]
    · simp [newOrder]
  constructor
  · rw [rejectByRisk_orders, rejectByRisk_nextOrderId]
    exact h.filed.succ.insert rfl (Nat.lt_succ_self _)
  · rw [rejectByRisk_orders]
    exact forall_lookup_insert h.kept hkept
  · rw [rejectByRisk_orders, rejectByRisk_nextOrderId, rejectByRisk_engine]
    refine Eq.subst (motive := EngineRefines _) ?_ h.engine
    funext s
    rw [liveOrders_succ, liveOrders_insert_new, Finmap.lookup_insert, Option.bind_some,
      restingOf_eq_none, Option.toList_none, List.append_nil]
    rintro ⟨_, _, hl⟩
    simp [newOrder, OrderStatus.live] at hl
  · rw [rejectByRisk_engine, rejectByRisk_executions]
    exact h.next

def cancelledOrder (order : Order) (now : ℤ) : Order :=
  { order with status := .cancelled, updatedAt := now }

theorem sameTerms_cancelledOrder (o : Order) (now : ℤ) : SameTerms o (cancelledOrder o now) :=
  ⟨rfl, rfl, rfl, rfl, rfl, rfl, rfl, rfl⟩

/-- `CancelOrder` once the engine, now `engine`, has let go of the order. -/
def OrderManager.withdraw (m : OrderManager) (order : Order) (engine : MatchingEngine) :
    Order × OrderManager :=
  let m := m.appendEvent order.internalId .cancelRequested []
  let cancelled := cancelledOrder order m.now
  (cancelled, (({ m.tick with engine }.setOrder order.internalId cancelled).appendEvent
    order.internalId .cancelled []).saveOrder cancelled)

section Withdraw

variable (m : OrderManager) (order : Order) (engine : MatchingEngine)

theorem withdraw_orders : ∃ now, (m.withdraw order engine).2.orders =
    m.orders.insert order.internalId (cancelledOrder order now) :=
  ⟨_, rfl⟩

theorem withdraw_events : ∃ now now', (m.withdraw order engine).2.events = m.events ++
    [⟨m.nextEventId, order.internalId, .cancelRequested, now, []⟩,
    ⟨m.nextEventId + 1, order.internalId, .cancelled, now', []⟩] :=
  ⟨_, _, List.append_assoc ..⟩

theorem withdraw_nextOrderId : (m.withdraw order engine).2.nextOrderId = m.nextOrderId := rfl

theorem withdraw_executions : (m.withdraw order engine).2.executions = m.executions := rfl

end Withdraw

inductive CancelStep (m : OrderManager) (id : ℕ) : Result Order × OrderManager → Prop where
  | unknown (hl : m.orders.lookup id = none) : CancelStep m id (.error .orderNotFound, m)
  | closed (order : Order) (hl : m.orders.lookup id = some order) (hs : ¬ order.status.live) :
    CancelStep m id (.error .invalidStateTransition, m)
  | notResting (order : Order) (err : OemsError) (hl : m.orders.lookup id = some order)
    (hs : order.status.live) (ht : order.type = .market)
    (he : err = .bookNotFound ∨ err = .orderNotFound) :
    CancelStep m id (.error err, m.appendEvent id .cancelRequested [])
  | done (order : Order) (engine : MatchingEngine) (hl : m.orders.lookup id = some order)
    (hid : order.internalId = id) (hs : order.status.live) (ht : order.type = .limit)
    (hc : ∃ entry, m.engine.cancelOrder order.symbol id = (.ok entry, engine))
    (hn : engine.nextExecutionId = m.engine.nextExecutionId)
    (he : EngineRefines engine (Function.update (liveOrders m.orders m.nextOrderId) order.symbol
      (removeFrom id (liveOrders m.orders m.nextOrderId order.symbol)))) :
    CancelStep m id (.ok (m.withdraw order engine).1, (m.withdraw order engine).2)

theorem Kept.closed_iff {o : Order} (h : Kept o) :
    (o.status = .filled ∨ o.status = .cancelled ∨ o.status = .rejected) ↔ ¬ o.status.live := by
  obtain ⟨hp, hc⟩ := h.settled
  unfold OrderStatus.live
  cases hs : o.status <;> simp_all

section CancelOrder

variable {m : OrderManager} {id : ℕ} {order : Order}

theorem cancelOrder_unknown (hl : m.orders.lookup id = none) :
    m.cancelOrder ⟨id⟩ = (.error .orderNotFound, m) := by
  simp only [OrderManager.cancelOrder, hl]

variable (h : Agrees m) (hl : m.orders.lookup id = some order)
include h hl

theorem Agrees.cancelOrder_closed (hs : ¬ order.status.live) :
    m.cancelOrder ⟨id⟩ = (.error .invalidStateTransition, m) := by
  have hclosed := (h.kept _ _ hl).closed_iff.mpr hs
  simp only [OrderManager.cancelOrder, hl, if_pos hclosed]

theorem Agrees.cancelOrder_live (hs : order.status.live) : m.cancelOrder ⟨id⟩ =
    match m.engine.cancelOrder order.symbol id with
    | (.error err, engine) => (.error err, { m.appendEvent id .cancelRequested [] with engine })
    | (.ok _, engine) => (.ok (m.withdraw order engine).1, (m.withdraw order engine).2) := by
  have hopen : ¬ (order.status = .filled ∨ order.status = .cancelled ∨ order.status = .rejected) := by
    rw [(h.kept _ _ hl).closed_iff]
    exact fun hc => hc hs
  obtain rfl := (h.filed _ _ hl).1
  simp only [OrderManager.cancelOrder, hl, if_neg hopen, appendEvent_engine]
  rfl

theorem Agrees.cancelOrder_notResting (hs : order.status.live) (ht : order.type = .market) :
    ∃ err, (err = .bookNotFound ∨ err = .orderNotFound) ∧
      m.cancelOrder ⟨id⟩ = (.error err, m.appendEvent id .cancelRequested []) := by
  have hrest : restingOf order.symbol order = none :=
    restingOf_eq_none fun hc => by simp [ht] at hc
  have hengine := h.engine.cancelOrder order.symbol id
  rw [find_liveOrders h.filed, hl, Option.bind_some, hrest] at hengine
  rw [h.cancelOrder_live hl hs]
  generalize m.engine.cancelOrder order.symbol id = r at hengine
  obtain ⟨res, engine⟩ := r
  obtain ⟨herr, hsame⟩ := hengine
  dsimp only at herr hsame
  subst hsame
  obtain rfl | rfl := herr
  · exact ⟨_, Or.inl rfl, rfl⟩
  · exact ⟨_, Or.inr rfl, rfl⟩

theorem Agrees.cancelOrder_done (hs : order.status.live) (ht : order.type = .limit) :
    ∃ engine, (∃ entry, m.engine.cancelOrder order.symbol id = (.ok entry, engine)) ∧
      engine.nextExecutionId = m.engine.nextExecutionId ∧
      EngineRefines engine (Function.update (liveOrders m.orders m.nextOrderId) order.symbol
        (removeFrom id (liveOrders m.orders m.nextOrderId order.symbol))) ∧
      m.cancelOrder ⟨id⟩ = (.ok (m.withdraw order engine).1, (m.withdraw order engine).2) := by
  have hrest : restingOf order.symbol order = some ⟨⟨order.internalId, order.side, order.price,
      order.remainingQty⟩, (h.kept _ _ hl).remaining_pos hs⟩ :=
    restingOf_eq_some_iff.mpr ⟨⟨rfl, ht, hs⟩, rfl⟩
  have hengine := h.engine.cancelOrder order.symbol id
  rw [find_liveOrders h.filed, hl, Option.bind_some, hrest] at hengine
  rw [h.cancelOrder_live hl hs]
  generalize m.engine.cancelOrder order.symbol id = r at hengine
  obtain ⟨res, engine⟩ := r
  obtain ⟨⟨entry, hok, _⟩, hnext, hrefines⟩ := hengine
  dsimp only at hok hnext hrefines
  subst hok
  exact ⟨engine, ⟨entry, rfl⟩, hnext, hrefines, rfl⟩

end CancelOrder

theorem Agrees.cancelStep {m : OrderManager} (h : Agrees m) (req : CancelOrderRequest) :
    CancelStep m req.orderId (m.cancelOrder req) := by
  obtain ⟨id⟩ := req
  cases hl : m.orders.lookup id with
  | none =>
    rw [cancelOrder_unknown hl]
    exact CancelStep.unknown hl
  | some order =>
    by_cases hs : order.status.live
    · cases ht : order.type with
      | limit =>
        obtain ⟨engine, hc, hn, he, hr⟩ := h.cancelOrder_done hl hs ht
        rw [hr]
        exact CancelStep.done order engine hl (h.filed _ _ hl).1 hs ht hc hn he
      | market =>
        obtain ⟨err, he, hr⟩ := h.cancelOrder_notResting hl hs ht
        rw [hr]
        exact CancelStep.notResting order err hl hs ht he
    · rw [h.cancelOrder_closed hl hs]
      exact CancelStep.closed order hl hs

theorem Kept.cancelled {o : Order} (h : Kept o) (hs : o.status.live) (now : ℤ) :
    Kept (cancelledOrder o now) := by
  have hpos := h.remaining_pos hs
  refine ⟨h.ledger, h.filled_nonneg, h.remaining_nonneg, ?_, ?_, ?_, ?_, ?_, h.price_pos⟩
  · simp [cancelledOrder]
  · simp [cancelledOrder, hpos.ne']
  · simp [cancelledOrder]
  · simp [cancelledOrder]
  · simp [cancelledOrder]

theorem Agrees.withdraw {m : OrderManager} (h : Agrees m) {order : Order} {engine : MatchingEngine}
    (hl : m.orders.lookup order.internalId = some order) (hs : order.status.live)
    (hn : engine.nextExecutionId = m.engine.nextExecutionId)
    (he : EngineRefines engine (Function.update (liveOrders m.orders m.nextOrderId) order.symbol
      (removeFrom order.internalId (liveOrders m.orders m.nextOrderId order.symbol)))) :
    Agrees (m.withdraw order engine).2 := by
  constructor
  · exact h.filed.insert rfl (h.filed _ _ hl).2
  · exact forall_lookup_insert h.kept ((h.kept _ _ hl).cancelled hs _)
  · refine Eq.subst (motive := EngineRefines _) ?_ he
    funext s
    change _ = liveOrders (m.orders.insert order.internalId _) m.nextOrderId s
    have hgone : ∀ s', restingOf s' (cancelledOrder order (m.appendEvent order.internalId
        .cancelRequested []).now) = none := fun s' => restingOf_eq_none fun hc => by
      simp [cancelledOrder, OrderStatus.live] at hc
    by_cases hsym : s = order.symbol
    · subst hsym
      rw [Function.update_self, liveOrders_insert h.filed hl (fun _ => none)]
      rw [hgone]
      cases restingOf order.symbol order <;> rfl
    · rw [Function.update_of_ne hsym, liveOrders_insert_other hl (Ne.symm hsym)
        (sameTerms_cancelledOrder order _).symbol]
  · exact hn.trans h.next

inductive SubmitStep (check : RiskCheck) (m : OrderManager) (req : NewOrderRequest) :
    Result Order × OrderManager → Prop where
  | invalid (err : OemsError) (hv : validate req = .error err) :
    SubmitStep check m req (.error err, m)
  | refused (risk : RiskManager) (err : OemsError) (hv : validate req = .ok ())
    (hc : check m.risk (riskRequest req) = (.error err, risk)) :
    SubmitStep check m req (.error err, { m with risk }.rejectByRisk req err)
  | placed (risk : RiskManager) (hv : validate req = .ok ())
    (hc : check m.risk (riskRequest req) = (.ok (), risk)) :
    SubmitStep check m req ({ m with risk }.place req)

theorem submitOrder_invalid {m : OrderManager} {req : NewOrderRequest} {err : OemsError}
    (h : validate req = .error err) (check : RiskCheck) : m.submitOrder check req = (.error err, m) := by
  rw [OrderManager.submitOrder, h]

theorem submitStep (check : RiskCheck) (m : OrderManager) (req : NewOrderRequest) :
    SubmitStep check m req (m.submitOrder check req) := by
  unfold OrderManager.submitOrder
  cases hv : validate req with
  | error err => exact SubmitStep.invalid err hv
  | ok u =>
    cases hc : check m.risk (riskRequest req) with
    | mk res risk =>
      cases res with
      | error err => exact SubmitStep.refused risk err hv hc
      | ok u => exact SubmitStep.placed risk hv hc

theorem Agrees.withRisk {m : OrderManager} (h : Agrees m) (risk : RiskManager) :
    Agrees { m with risk } :=
  ⟨h.filed, h.kept, h.engine, h.next⟩

theorem Agrees.appendEvent {m : OrderManager} (h : Agrees m) (id : ℕ) (type : EventType)
    (detail : Str) : Agrees (m.appendEvent id type detail) :=
  ⟨h.filed, h.kept, h.engine, h.next⟩

theorem Agrees.submitOrder {m : OrderManager} (h : Agrees m) (check : RiskCheck)
    (req : NewOrderRequest) : Agrees (m.submitOrder check req).2 := by
  generalize hr : m.submitOrder check req = r
  have hstep := submitStep check m req
  rw [hr] at hstep
  cases hstep with
  | invalid err _ => exact h
  | refused risk err hv _ => exact (h.withRisk risk).rejectByRisk hv err
  | placed risk hv _ => exact (h.withRisk risk).place hv

theorem Agrees.cancelOrder {m : OrderManager} (h : Agrees m) (req : CancelOrderRequest) :
    Agrees (m.cancelOrder req).2 := by
  have hstep := h.cancelStep req
  generalize m.cancelOrder req = r at hstep
  cases hstep with
  | unknown _ => exact h
  | closed order _ _ => exact h
  | notResting order err _ _ _ _ => exact h.appendEvent ..
  | done order engine hl hid hs _ _ hn he =>
    rw [← hid] at hl he
    exact h.withdraw hl hs hn he

theorem Agrees.step {m : OrderManager} (h : Agrees m) (op : Op) : Agrees (m.step op).2 := by
  cases op with
  | submit check req => exact h.submitOrder check req
  | cancel req => exact h.cancelOrder req

theorem Agrees.new (risk : RiskManager) (db : Option Database) (clock : ℕ → ℤ) :
    Agrees (OrderManager.new risk MatchingEngine.new db clock) where
  filed := fun id o ho => by simp [OrderManager.new] at ho
  kept := fun id o ho => by simp [OrderManager.new] at ho
  engine := EngineRefines.new
  next := rfl

theorem Agrees.run {m : OrderManager} (h : Agrees m) (ops : List Op) : Agrees (m.run ops) :=
  Machine.invariant (fun _ op hm => hm.step op) h ops

theorem submitFlight_eq_some {check : RiskCheck} {m : OrderManager} {req : NewOrderRequest}
    {f : Flight} (h : m.submitFlight check req = some f) :
    validate req = .ok () ∧ ∃ risk, f = { m with risk }.flightOf req := by
  unfold OrderManager.submitFlight at h
  cases hv : validate req with
  | error err => simp [hv] at h
  | ok u =>
    rw [hv] at h
    generalize check m.risk (riskRequest req) = verdict at h
    obtain ⟨res, risk⟩ := verdict
    cases res with
    | error err => simp at h
    | ok u => exact ⟨rfl, risk, (Option.some.inj h).symm⟩

theorem Agrees.submitFlight {m : OrderManager} (h : Agrees m) {check : RiskCheck}
    {req : NewOrderRequest} {f : Flight} (hf : m.submitFlight check req = some f) :
    EachFill (fun m' order fill => ∃ passive, FillStep f.order m' order fill passive)
      f.manager f.order f.fills := by
  obtain ⟨hv, risk, rfl⟩ := submitFlight_eq_some hf
  exact ((h.withRisk risk).land hv).1

theorem Agrees.mem_quotes {m : OrderManager} (h : Agrees m) (s : Symbol) (q : Quote) :
    q ∈ (m.engine.bookOf s).quotes ↔ ∃ o, m.orders.lookup q.id = some o ∧
      (o.symbol = s ∧ o.type = .limit ∧ o.status.live) ∧
        q = ⟨o.internalId, o.side, o.price, o.remainingQty⟩ := by
  obtain ⟨k, hb⟩ := h.engine s
  rw [hb.quotes_perm.mem_iff, List.mem_map]
  constructor
  · rintro ⟨r, hr, rfl⟩
    obtain ⟨o, ho, hres⟩ := (mem_liveOrders h.filed).mp hr
    exact ⟨o, ho, restingOf_eq_some_iff.mp hres⟩
  · rintro ⟨o, ho, hlive, hq⟩
    have hpos := (h.kept _ _ ho).remaining_pos hlive.2.2
    have hqty : 0 < q.qty := by
      rw [hq]
      exact hpos
    refine ⟨⟨q, hqty⟩, (mem_liveOrders h.filed).mpr ⟨o, ho, ?_⟩, rfl⟩
    exact restingOf_eq_some_iff.mpr ⟨hlive, hq⟩

/-- In every reachable state the book of a symbol holds the accepted and
partially filled limit orders of that symbol, each with its side, price and
remaining quantity. Every passive order that the fills of a submit name is
found in the order table. -/
theorem books_agree_with_orders (risk : RiskManager) (db : Option Database) (clock : ℕ → ℤ)
    (ops : List Op) :
    let m := (OrderManager.new risk MatchingEngine.new db clock).run ops
    (∀ s, ((m.engine.bookOf s).quotes.map Quote.id).Nodup ∧
      ∀ q, q ∈ (m.engine.bookOf s).quotes ↔ ∃ o, m.orders.lookup q.id = some o ∧
        (o.symbol = s ∧ o.type = .limit ∧ (o.status = .accepted ∨ o.status = .partiallyFilled)) ∧
          q = ⟨o.internalId, o.side, o.price, o.remainingQty⟩) ∧
    ∀ check req f, m.submitFlight check req = some f →
      EachFill (fun m' _ fill => ∃ passive, m'.orders.lookup fill.passiveOrderId = some passive)
        f.manager f.order f.fills := by
  intro m
  have h := (Agrees.new risk db clock).run ops
  refine ⟨fun s => ⟨?_, h.mem_quotes s⟩, fun check req f hf => ?_⟩
  · obtain ⟨k, hb⟩ := h.engine s
    rw [(hb.quotes_perm.map _).nodup_iff, List.map_map]
    exact hb.unique
  · apply (h.submitFlight hf).imp
    rintro m' order fill ⟨passive, hstep⟩
    exact ⟨passive, hstep.lookup⟩

end Oems
