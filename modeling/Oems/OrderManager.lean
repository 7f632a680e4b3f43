import Oems.MatchingEngine
import Oems.RiskManager
import Oems.Database
import Oems.Lib.Decimal
import Oems.Lib.Machine

namespace Oems

open Lib

abbrev OrderMap := Finmap fun _ : ℕ => Order

/-- The order manager with the collaborators it refers to. `clock` holds the
readings that `Now()` has still to return. -/
structure OrderManager where
  risk : RiskManager
  engine : MatchingEngine
  db : Option Database
  nextOrderId : ℕ
  nextEventId : ℕ
  orders : OrderMap
  events : List OrderEvent
  executions : List Fill
  clock : ℕ → ℤ

/-- The call of `risk_.Check`. The verdict is left open. -/
abbrev RiskCheck := RiskManager → RiskRequest → Result Unit × RiskManager

/-- The check of the source at a reading of the clock. -/
def RiskCheck.at (now : ℤ) : RiskCheck := fun risk req => risk.check now req

/-- `std::format("exec={} qty={}", ..)`. -/
def Fill.detail (fill : Fill) : Str :=
  str "exec=" ++ Decimal.ofNat fill.executionId ++ str " qty=" ++ Decimal.ofInt fill.quantity

namespace OrderManager

def new (risk : RiskManager) (engine : MatchingEngine) (db : Option Database) (clock : ℕ → ℤ) :
    OrderManager :=
  ⟨risk, engine, db, 1, 1, ∅, [], [], clock⟩

/-- `Now()` returns this reading, and `tick` moves on to the next one. -/
def now (m : OrderManager) : ℤ := m.clock 0

def tick (m : OrderManager) : OrderManager := { m with clock := fun k => m.clock (k + 1) }

def setOrder (m : OrderManager) (id : ℕ) (order : Order) : OrderManager :=
  { m with orders := m.orders.insert id order }

def write (m : OrderManager) (st : Statement) : OrderManager :=
  { m with db := m.db.map fun d => d.exec st }

def saveOrder (m : OrderManager) (order : Order) : OrderManager := m.write (.saveOrder order)

def appendEvent (m : OrderManager) (id : ℕ) (type : EventType) (detail : Str) : OrderManager :=
  let event : OrderEvent := ⟨m.nextEventId, id, type, m.now, detail⟩
  { m.tick with nextEventId := m.nextEventId + 1, events := m.events ++ [event] }.write
    (.appendEvent event)

section Fields

variable (m : OrderManager) (id : ℕ) (order : Order) (st : Statement) (type : EventType) (detail : Str)

@[simp] theorem tick_engine : m.tick.engine = m.engine := rfl
@[simp] theorem tick_db : m.tick.db = m.db := rfl
@[simp] theorem tick_nextOrderId : m.tick.nextOrderId = m.nextOrderId := rfl
@[simp] theorem tick_nextEventId : m.tick.nextEventId = m.nextEventId := rfl
@[simp] theorem tick_orders : m.tick.orders = m.orders := rfl
@[simp] theorem tick_events : m.tick.events = m.events := rfl
@[simp] theorem tick_executions : m.tick.executions = m.executions := rfl

@[simp] theorem setOrder_engine : (m.setOrder id order).engine = m.engine := rfl
@[simp] theorem setOrder_db : (m.setOrder id order).db = m.db := rfl
@[simp] theorem setOrder_nextOrderId : (m.setOrder id order).nextOrderId = m.nextOrderId := rfl
@[simp] theorem setOrder_nextEventId : (m.setOrder id order).nextEventId = m.nextEventId := rfl
@[simp] theorem setOrder_orders : (m.setOrder id order).orders = m.orders.insert id order := rfl
@[simp] theorem setOrder_events : (m.setOrder id order).events = m.events := rfl
@[simp] theorem setOrder_executions : (m.setOrder id order).executions = m.executions := rfl

@[simp] theorem write_engine : (m.write st).engine = m.engine := rfl
@[simp] theorem write_db : (m.write st).db = m.db.map fun d => d.exec st := rfl
@[simp] theorem write_nextOrderId : (m.write st).nextOrderId = m.nextOrderId := rfl
@[simp] theorem write_nextEventId : (m.write st).nextEventId = m.nextEventId := rfl
@[simp] theorem write_orders : (m.write st).orders = m.orders := rfl
@[simp] theorem write_events : (m.write st).events = m.events := rfl
@[simp] theorem write_executions : (m.write st).executions = m.executions := rfl

@[simp] theorem saveOrder_engine : (m.saveOrder order).engine = m.engine := rfl
@[simp] theorem saveOrder_nextOrderId : (m.saveOrder order).nextOrderId = m.nextOrderId := rfl
@[simp] theorem saveOrder_nextEventId : (m.saveOrder order).nextEventId = m.nextEventId := rfl
@[simp] theorem saveOrder_orders : (m.saveOrder order).orders = m.orders := rfl
@[simp] theorem saveOrder_events : (m.saveOrder order).events = m.events := rfl
@[simp] theorem saveOrder_executions : (m.saveOrder order).executions = m.executions := rfl

@[simp] theorem appendEvent_engine : (m.appendEvent id type detail).engine = m.engine := rfl
@[simp] theorem appendEvent_nextOrderId :
    (m.appendEvent id type detail).nextOrderId = m.nextOrderId := rfl
@[simp] theorem appendEvent_nextEventId :
    (m.appendEvent id type detail).nextEventId = m.nextEventId + 1 := rfl
@[simp] theorem appendEvent_orders : (m.appendEvent id type detail).orders = m.orders := rfl
@[simp] theorem appendEvent_events : (m.appendEvent id type detail).events =
    m.events ++ [⟨m.nextEventId, id, type, m.now, detail⟩] := rfl
@[simp] theorem appendEvent_executions :
    (m.appendEvent id type detail).executions = m.executions := rfl

end Fields

def fillOrder (order : Order) (fill : Fill) : Order :=
  { order with
    filledQty := order.filledQty + fill.quantity
    remainingQty := order.remainingQty - fill.quantity }

def fillPassive (m : OrderManager) (fill : Fill) : OrderManager :=
  match m.orders.lookup fill.passiveOrderId with
  | none => m
  | some order =>
    let passive := { fillOrder order fill with
      status := if (fillOrder order fill).remainingQty = 0 then .filled else .partiallyFilled
      updatedAt := m.now }
    ((m.tick.setOrder fill.passiveOrderId passive).appendEvent passive.internalId
      (if passive.remainingQty = 0 then .fill else .partialFill) fill.detail).saveOrder passive

def applyFill (m : OrderManager) (order : Order) (fill : Fill) : OrderManager × Order :=
  let order := fillOrder order fill
  let m := { m with executions := m.executions ++ [fill] }.write (.saveExecution fill)
  ((m.fillPassive fill).appendEvent order.internalId
    (if order.remainingQty = 0 then .fill else .partialFill) fill.detail, order)

def applyFills : OrderManager → Order → List Fill → OrderManager × Order
  | m, order, [] => (m, order)
  | m, order, fill :: fills =>
    applyFills (m.applyFill order fill).1 (m.applyFill order fill).2 fills

/-- The checks that `SubmitOrder` makes itself. -/
def validate (req : NewOrderRequest) : Result Unit :=
  if req.quantity ≤ 0 then .error .invalidQuantity
  else if req.type = .limit ∧ req.price ≤ 0 then .error .invalidPrice
  else if req.symbol.value = [] then .error .invalidSymbol
  else .ok ()

def riskRequest (req : NewOrderRequest) : RiskRequest :=
  ⟨req.symbol, req.side, req.type, req.price, req.quantity⟩

def newOrder (req : NewOrderRequest) (id : ℕ) (status : OrderStatus) (createdAt updatedAt : ℤ) :
    Order where
  internalId := id
  clientOrderId := req.clientOrderId
  symbol := req.symbol
  side := req.side
  type := req.type
  price := req.price
  orderQty := req.quantity
  filledQty := 0
  remainingQty := req.quantity
  status := status
  createdAt := createdAt
  updatedAt := updatedAt

/-- Keep a rejected order for audit. -/
def rejectByRisk (m : OrderManager) (req : NewOrderRequest) (err : OemsError) : OrderManager :=
  let id := m.nextOrderId
  let rejected := newOrder req id .rejected m.now m.tick.now
  let m := { m.tick.tick with nextOrderId := id + 1 }.setOrder id rejected
  ((m.appendEvent id .newRequested req.clientOrderId).appendEvent id .rejected
    (errorName err)).saveOrder rejected

def rejectByEngine (m : OrderManager) (order : Order) (err : OemsError) : OrderManager :=
  let order := { order with status := .rejected, updatedAt := m.now }
  ((m.tick.setOrder order.internalId order).appendEvent order.internalId .rejected
    (errorName err)).saveOrder order

/-- The status an order is left with after its fills. -/
def settledStatus (order : Order) : OrderStatus :=
  if order.remainingQty = 0 then .filled
  else if order.type = .market then
    if order.filledQty > 0 then .partiallyFilled else .rejected
  else if order.filledQty > 0 then .partiallyFilled
  else order.status

/-- The end of a submit: the final status is set and the order stored. -/
def settle (m : OrderManager) (order : Order) : Order × OrderManager :=
  let status := settledStatus order
  let m :=
    if order.remainingQty ≠ 0 ∧ order.type = .market ∧ ¬ order.filledQty > 0 then
      m.appendEvent order.internalId .rejected (str "no liquidity for market order")
    else m
  let order := { order with status := status, updatedAt := m.now }
  (order, (m.tick.setOrder order.internalId order).saveOrder order)

/-- Hand out an id and build the pending order. -/
def request (m : OrderManager) (req : NewOrderRequest) : Order × OrderManager :=
  let order := newOrder req m.nextOrderId .pendingNew m.now m.now
  (order, { m.tick with nextOrderId := m.nextOrderId + 1 }.appendEvent order.internalId
    .newRequested req.clientOrderId)

/-- Accept an order that the engine, now `engine`, has taken. -/
def accept (m : OrderManager) (engine : MatchingEngine) (order : Order) : Order × OrderManager :=
  let m := { m.tick with engine }
  ({ order with status := .accepted, updatedAt := m.now },
    m.tick.appendEvent order.internalId .accepted [])

/-- `SubmitOrder` once the risk check has passed. -/
def place (m : OrderManager) (req : NewOrderRequest) : Result Order × OrderManager :=
  let requested := m.request req
  let order := requested.1
  let m := requested.2
  match m.engine.addOrder req.symbol order.internalId req.side req.type req.price req.quantity
      m.now with
  | (.error err, engine) => (.error err, { m.tick with engine }.rejectByEngine order err)
  | (.ok result, engine) =>
    let accepted := m.accept engine order
    let filled := accepted.2.applyFills accepted.1 result.fills
    let settled := filled.1.settle filled.2
    (.ok settled.1, settled.2)

def submitOrder (check : RiskCheck) (m : OrderManager) (req : NewOrderRequest) :
    Result Order × OrderManager :=
  match validate req with
  | .error err => (.error err, m)
  | .ok () =>
    match check m.risk (riskRequest req) with
    | (.error err, risk) => (.error err, { m with risk }.rejectByRisk req err)
    | (.ok (), risk) => { m with risk }.place req

def cancelOrder (m : OrderManager) (req : CancelOrderRequest) : Result Order × OrderManager :=
  match m.orders.lookup req.orderId with
  | none => (.error .orderNotFound, m)
  | some order =>
    if order.status = .filled ∨ order.status = .cancelled ∨ order.status = .rejected then
      (.error .invalidStateTransition, m)
    else
      let m := m.appendEvent order.internalId .cancelRequested []
      match m.engine.cancelOrder order.symbol order.internalId with
      | (.error err, engine) => (.error err, { m with engine })
      | (.ok _, engine) =>
        let order := { order with status := .cancelled, updatedAt := m.now }
        let m := { m.tick with engine }.setOrder req.orderId order
        (.ok order, (m.appendEvent order.internalId .cancelled []).saveOrder order)

/-- The loop of `RestoreFromDatabase` over the stored orders. -/
def restoreOrders : OrderManager → List Order → Result Unit × OrderManager
  | m, [] => (.ok (), m)
  | m, order :: orders =>
    let m := m.setOrder order.internalId order
    if (order.status = .accepted ∨ order.status = .partiallyFilled) ∧ order.type = .limit ∧
        order.remainingQty > 0 then
      match m.engine.restoreRestingOrder order with
      | (.error err, engine) => (.error err, { m with engine })
      | (.ok (), engine) => restoreOrders { m with engine } orders
    else restoreOrders m orders

/-- `std::max` over the ids of a table, starting from 0. -/
def maxId (ids : List ℕ) : ℕ := ids.foldl max 0

def restoreFromDatabase (m : OrderManager) : Result Unit × OrderManager :=
  match m.db with
  | none => (.ok (), m)
  | some db =>
    match db.loadOrders with
    | .error err => (.error err, m)
    | .ok orders =>
      match db.loadAllEvents with
      | .error err => (.error err, m)
      | .ok events =>
        match db.loadExecutions with
        | .error err => (.error err, m)
        | .ok executions =>
          let maxEventId := maxId (events.map OrderEvent.eventId)
          let maxExecutionId := maxId (executions.map Fill.executionId)
          let engine := m.engine.seedNextExecutionId (maxExecutionId + 1)
          match { m with orders := ∅, events, executions, engine }.restoreOrders orders with
          | (.error err, m) => (.error err, m)
          | (.ok (), m) =>
            (.ok (), { m with
              nextOrderId := maxId (orders.map Order.internalId) + 1
              nextEventId := maxEventId + 1 })

def getOrder (m : OrderManager) (id : ℕ) : Result Order :=
  match m.orders.lookup id with
  | none => .error .orderNotFound
  | some order => .ok order

def getEvents (m : OrderManager) (id : ℕ) : List OrderEvent :=
  m.events.filter fun event => event.orderId = id

inductive Op where
  | submit (check : RiskCheck) (req : NewOrderRequest)
  | cancel (req : CancelOrderRequest)

def step (m : OrderManager) : Op → Result Order × OrderManager
  | .submit check req => m.submitOrder check req
  | .cancel req => m.cancelOrder req

abbrev run (m : OrderManager) (ops : List Op) : OrderManager := (Machine.run step m ops).2

end OrderManager

end Oems
