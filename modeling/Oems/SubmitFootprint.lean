import Oems.Placement
import Oems.RateLimit
import Oems.Recovery

namespace Oems

open Lib OrderManager

/-- Of all ids that are stored the next one fits 64 bits. -/
structure Tables.IdsLeft (t : Tables) : Prop where
  orders : ∀ o ∈ t.orders.values, o.internalId < 2 ^ 64 - 1
  orderEvents : ∀ event ∈ t.orderEvents.values, event.eventId < 2 ^ 64 - 1
  executions : ∀ fill ∈ t.executions.values, fill.executionId < 2 ^ 64 - 1

/-- The states of an order manager in service. It starts with an empty table, or with what
it has restored from its database: the server does not come up when that fails. From then
on it submits and cancels, with whatever verdicts the risk checks give, and others
may set up the risk manager. -/
inductive Reachable : OrderManager → Prop where
  | new (risk : RiskManager) (db : Option Database) (clock : ℕ → ℤ) :
    Reachable (OrderManager.new risk MatchingEngine.new db clock)
  | restored (risk : RiskManager) (db : Option Database) (clock : ℕ → ℤ) (m : OrderManager)
    (h : (OrderManager.new risk MatchingEngine.new db clock).restoreFromDatabase = (.ok (), m))
    (hids : ∀ d, db = some d → d.tables.IdsLeft) : Reachable m
  | step {m : OrderManager} (h : Reachable m) (op : Op) : Reachable (m.step op).2
  | withRisk {m : OrderManager} (h : Reachable m) (risk : RiskManager) : Reachable { m with risk }

/-- No order and no book knows an id that has not been handed out. -/
structure Below (m : OrderManager) : Prop where
  known : ∀ id ∈ m.orders, id < m.nextOrderId
  indexed : ∀ x, m.engine.Indexes x → x < m.nextOrderId

theorem MatchingEngine.not_indexes_new (x : ℕ) : ¬ MatchingEngine.new.Indexes x := by
  rintro ⟨symbol, hx⟩
  exact absurd hx Finmap.notMem_empty

theorem Below.new (risk : RiskManager) (db : Option Database) (clock : ℕ → ℤ) :
    Below (OrderManager.new risk MatchingEngine.new db clock) where
  known _ hid := absurd hid Finmap.notMem_empty
  indexed x hx := absurd hx (MatchingEngine.not_indexes_new x)

theorem restoreOrders_ids (m : OrderManager) (stored : List Order) :
    (∀ id ∈ (m.restoreOrders stored).2.orders,
      id ∈ m.orders ∨ id ∈ stored.map Order.internalId) ∧
    ∀ x, (m.restoreOrders stored).2.engine.Indexes x →
      m.engine.Indexes x ∨ x ∈ stored.map Order.internalId := by
  induction stored generalizing m with
  | nil => exact ⟨fun _ hid => Or.inl hid, fun _ hx => Or.inl hx⟩
  | cons order stored ih =>
    have hinsert : ∀ {id}, id ∈ (m.setOrder order.internalId order).orders →
        id ∈ m.orders ∨ id ∈ (order :: stored).map Order.internalId := by
      intro id hid
      obtain rfl | hid := Finmap.mem_insert.mp hid
      · exact Or.inr List.mem_cons_self
      · exact Or.inl hid
    have hrestored : ∀ {x}, (m.engine.restoreRestingOrder order).2.Indexes x →
        m.engine.Indexes x ∨ x ∈ (order :: stored).map Order.internalId := by
      intro x hx
      obtain rfl | hx := MatchingEngine.indexes_restoreRestingOrder hx
      · exact Or.inr List.mem_cons_self
      · exact Or.inl hx
    rw [restoreOrders]
    by_cases hrests : (order.status = .accepted ∨ order.status = .partiallyFilled) ∧
        order.type = .limit ∧ order.remainingQty > 0
    · simp only [if_pos hrests, setOrder_engine]
      generalize m.engine.restoreRestingOrder order = r at hrestored
      obtain ⟨err | u, engine⟩ := r
      · exact ⟨fun id hid => hinsert hid, fun x hx => hrestored hx⟩
      · obtain ⟨hknown, hindexed⟩ := ih { m.setOrder order.internalId order with engine }
        exact ⟨fun id hid => (hknown id hid).elim hinsert fun h => Or.inr (List.mem_cons_of_mem _ h),
          fun x hx => (hindexed x hx).elim hrestored fun h => Or.inr (List.mem_cons_of_mem _ h)⟩
    · simp only [if_neg hrests]
      obtain ⟨hknown, hindexed⟩ := ih (m.setOrder order.internalId order)
      exact ⟨fun id hid => (hknown id hid).elim hinsert fun h => Or.inr (List.mem_cons_of_mem _ h),
        fun x hx => (hindexed x hx).imp_right (List.mem_cons_of_mem _)⟩

theorem Below.restored {risk : RiskManager} {db : Option Database} {clock : ℕ → ℤ}
    {m : OrderManager}
    (h : (OrderManager.new risk MatchingEngine.new db clock).restoreFromDatabase = (.ok (), m)) :
    Below m := by
  cases db with
  | none =>
    cases h
    exact Below.new risk none clock
  | some d =>
    have hids := restoreOrders_ids
      { OrderManager.new risk MatchingEngine.new (some d) clock with
        events := d.tables.orderEvents.values
        executions := d.tables.executions.values
        engine := MatchingEngine.new.seedNextExecutionId
          (maxId (d.tables.executions.values.map Fill.executionId) + 1) } d.tables.orders.values
    obtain ⟨hknown, hindexed⟩ := hids
    unfold OrderManager.restoreFromDatabase at h
    simp only [OrderManager.new, Database.loadOrders, Database.loadAllEvents,
      Database.loadExecutions] at h hknown hindexed
    generalize OrderManager.restoreOrders _ d.tables.orders.values = r at h hknown hindexed
    obtain ⟨err | u, m'⟩ := r
    · cases h
    · cases h
      refine ⟨fun id hid => ?_, fun x hx => ?_⟩
      · obtain hid | hid := hknown id hid
        · exact absurd hid Finmap.notMem_empty
        · exact Nat.lt_succ_of_le (le_maxId hid)
      · obtain hx | hx := hindexed x hx
        · exact absurd hx (MatchingEngine.not_indexes_new x)
        · exact Nat.lt_succ_of_le (le_maxId hx)

theorem Below.records {m m' : OrderManager} {order : Order} (h : Below m)
    (hrec : Records m m' order) : Below m' := by
  have hnext := hrec.nextOrderId
  refine ⟨fun id hid => ?_, fun x hx => ?_⟩
  · obtain rfl | hid := hrec.known id hid
    · omega
    · have := h.known id hid
      omega
  · obtain rfl | hx := hrec.indexed x hx
    · omega
    · have := h.indexed x hx
      omega

theorem Below.submitOrder {m : OrderManager} (h : Below m) (check : RiskCheck)
    (req : NewOrderRequest) : Below (m.submitOrder check req).2 := by
  cases hv : validate req with
  | error err =>
    rw [submitOrder_invalid hv]
    exact h
  | ok u =>
    obtain ⟨-, order, m', hsubmit, hrec⟩ | ⟨-, err, m', created, updated, hsubmit, hrec⟩ :=
      submitOrder_records check m hv
    · rw [hsubmit]
      exact h.records hrec
    · rw [hsubmit]
      exact h.records hrec

theorem Below.cancelOrder {m : OrderManager} (h : Below m) (req : CancelOrderRequest) :
    Below (m.cancelOrder req).2 := by
  rw [OrderManager.cancelOrder]
  cases hlookup : m.orders.lookup req.orderId with
  | none => exact h
  | some order =>
    dsimp only
    split_ifs with hclosed
    · exact h
    · have hcancel : ∀ x, (m.engine.cancelOrder order.symbol order.internalId).2.Indexes x →
          x < m.nextOrderId := fun x hx => h.indexed x (MatchingEngine.indexes_cancelOrder hx)
      rw [appendEvent_engine]
      generalize m.engine.cancelOrder order.symbol order.internalId = r at hcancel
      obtain ⟨err | entry, engine⟩ := r
      · exact ⟨h.known, hcancel⟩
      · refine ⟨fun id hid => ?_, hcancel⟩
        obtain rfl | hid := Finmap.mem_insert.mp hid
        · exact h.known _ (Finmap.mem_of_lookup_eq_some hlookup)
        · exact h.known id hid

theorem below_of_reachable {m : OrderManager} (h : Reachable m) : Below m := by
  induction h with
  | new risk db clock => exact Below.new risk db clock
  | restored risk db clock m h _ => exact Below.restored h
  | step _ op ih =>
    cases op with
    | submit check req => exact ih.submitOrder check req
    | cancel req => exact ih.cancelOrder req
  | withRisk _ risk ih => exact ⟨ih.known, ih.indexed⟩

/-- What `SubmitOrder` refuses by itself. -/
def Malformed (req : NewOrderRequest) : Prop :=
  req.quantity ≤ 0 ∨ (req.type = .limit ∧ req.price ≤ 0) ∨ req.symbol.value = []

instance (req : NewOrderRequest) : Decidable (Malformed req) :=
  inferInstanceAs (Decidable (_ ∨ _ ∨ _))

theorem validate_malformed {req : NewOrderRequest} (h : Malformed req) :
    ∃ err, validate req = .error err := by
  rw [validate]
  split_ifs with hqty hprice hsymbol
  · exact ⟨_, rfl⟩
  · exact ⟨_, rfl⟩
  · exact ⟨_, rfl⟩
  · obtain h | h | h := h
    · exact absurd h hqty
    · exact absurd h hprice
    · exact absurd h hsymbol

theorem validate_wellFormed {req : NewOrderRequest} (h : ¬ Malformed req) :
    validate req = .ok () := by
  obtain ⟨hqty, hrest⟩ := not_or.mp h
  obtain ⟨hprice, hsymbol⟩ := not_or.mp hrest
  rw [validate, if_neg hqty, if_neg hprice, if_neg hsymbol]

theorem RiskManager.check_window {r : RiskManager} {now : ℤ} {req : RiskRequest} {err : OemsError}
    {r' : RiskManager} (h : r.check now req = (.error err, r')) :
    ∃ recentOrders, r' = { r with recentOrders } ∧ ∀ t, now ≤ t → r'.window t = r.window t := by
  obtain ⟨_, -, hcheck⟩ | ⟨-, -, hcheck⟩ | ⟨-, -, hcheck⟩ := r.check_cases now req
  · rw [hcheck] at h
    cases h
    exact ⟨_, rfl, fun t _ => rfl⟩
  · rw [hcheck] at h
    cases h
    exact ⟨_, rfl, fun t ht =>
      SlidingWindow.expire_expire (sub_le_sub_right ht (10 ^ 9)) r.recentOrders⟩
  · rw [hcheck] at h
    cases h

/-- What a refusal by the risk gate at time `now` leaves: one rejected order under a
fresh id and two events. The books and the executions are as before, and so is the rate
window. -/
structure Refusal (now : ℤ) (req : NewOrderRequest) (err : OemsError) (m m' : OrderManager) :
    Prop where
  engine : m'.engine = m.engine
  executions : m'.executions = m.executions
  fresh : m.nextOrderId ∉ m.orders ∧ ¬ m.engine.Indexes m.nextOrderId
  orders : ∃ created updated, m'.orders =
    m.orders.insert m.nextOrderId (newOrder req m.nextOrderId .rejected created updated)
  events : ∃ now now', m'.events = m.events ++
    [⟨m.nextEventId, m.nextOrderId, .newRequested, now, req.clientOrderId⟩,
    ⟨m.nextEventId + 1, m.nextOrderId, .rejected, now', errorName err⟩]
  nextOrderId : m'.nextOrderId = m.nextOrderId + 1
  nextEventId : m'.nextEventId = m.nextEventId + 2
  risk : ∃ recentOrders, m'.risk = { m.risk with recentOrders } ∧
    ∀ t, now ≤ t → m'.risk.window t = m.risk.window t

theorem Below.refusal {m : OrderManager} (h : Below m) {now : ℤ} {req : NewOrderRequest}
    {err : OemsError} {risk : RiskManager}
    (hcheck : m.risk.check now (riskRequest req) = (.error err, risk)) :
    Refusal now req err m ({ m with risk }.rejectByRisk req err) where
  engine := rejectByRisk_engine _ req err
  executions := rejectByRisk_executions _ req err
  fresh := ⟨fun hid => (h.known _ hid).false, fun hx => (h.indexed _ hx).false⟩
  orders := ⟨_, _, rejectByRisk_orders _ req err⟩
  events := rejectByRisk_events { m with risk } req err
  nextOrderId := rejectByRisk_nextOrderId _ req err
  nextEventId := rfl
  risk := RiskManager.check_window hcheck

/-- What each way to fail can change. -/
structure BoundedFootprint (now : ℤ) (m : OrderManager) (req : NewOrderRequest) : Prop where
  malformed : Malformed req → ∃ err, m.submitOrder (RiskCheck.at now) req = (.error err, m)
  refused : ¬ Malformed req → ∀ err risk,
    m.risk.check now (riskRequest req) = (.error err, risk) →
      ∃ m', m.submitOrder (RiskCheck.at now) req = (.error err, m') ∧ Refusal now req err m m'
  /-- The engine takes what has passed the risk check. -/
  placed : ¬ Malformed req → ∀ risk, m.risk.check now (riskRequest req) = (.ok (), risk) →
    (∀ placedAt, ∃ result, (m.engine.addOrder req.symbol m.nextOrderId req.side req.type req.price
      req.quantity placedAt).1 = .ok result) ∧
    ∃ order m', m.submitOrder (RiskCheck.at now) req = (.ok order, m')

theorem submit_boundedFootprint (now : ℤ) {m : OrderManager} (h : Reachable m)
    (req : NewOrderRequest) : BoundedFootprint now m req := by
  have hbelow := below_of_reachable h
  have hfree : m.nextOrderId ∉ (m.engine.bookOf req.symbol).idIndex := fun hid =>
    (hbelow.indexed _ ⟨_, hid⟩).false
  refine ⟨fun hbad => ?_, fun hgood err risk hcheck => ?_, fun hgood risk hcheck => ⟨fun placedAt => ?_, ?_⟩⟩
  · obtain ⟨err, hv⟩ := validate_malformed hbad
    exact ⟨err, submitOrder_invalid hv (RiskCheck.at now)⟩
  · refine ⟨_, ?_, hbelow.refusal hcheck⟩
    rw [OrderManager.submitOrder, validate_wellFormed hgood, RiskCheck.at, hcheck]
  · obtain ⟨hqty, hprice, -⟩ := validate_ok (validate_wellFormed hgood)
    obtain ⟨-, -, result, b', hok⟩ | ⟨hnot, -⟩ := (m.engine.bookOf req.symbol).addOrder_cases
      m.nextOrderId req.side req.type req.price req.quantity placedAt
    · rw [m.engine.addOrder_eq, hok]
      exact ⟨_, rfl⟩
    · exact absurd ⟨⟨hqty, hprice⟩, hfree⟩ hnot
  · have hun : Unopposed (RiskCheck.at now) m req := ⟨by rw [RiskCheck.at, hcheck], hfree⟩
    obtain ⟨-, order, m', hsubmit, -⟩ | ⟨hnot, -⟩ :=
      submitOrder_records (RiskCheck.at now) m (validate_wellFormed hgood)
    · exact ⟨order, m', hsubmit⟩
    · exact absurd hun hnot

def oversized : NewOrderRequest := ⟨str "C1", ⟨str "AAPL"⟩, .buy, .limit, 1, 10001⟩

theorem oversized_boundedFootprint : BoundedFootprint 0
    (OrderManager.new (RiskManager.new RiskLimits.default) MatchingEngine.new none fun _ => 0)
    oversized :=
  submit_boundedFootprint 0 (Reachable.new _ _ _) oversized

end Oems
