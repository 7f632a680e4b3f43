import Oems.OrdersController

namespace Oems

open Lib OrderManager

def orderStatusName : OrderStatus → Str
  | .pendingNew => str "PendingNew"
  | .accepted => str "Accepted"
  | .partiallyFilled => str "PartiallyFilled"
  | .filled => str "Filled"
  | .pendingCancel => str "PendingCancel"
  | .cancelled => str "Cancelled"
  | .rejected => str "Rejected"

def domainToDtoSide (s : Side) : Str := if s = .buy then str "Buy" else str "Sell"

def domainToDtoType (t : OrderType) : Str := if t = .limit then str "Limit" else str "Market"

def domainToDtoStatus (s : OrderStatus) : Str := orderStatusName s

def parseRequestStatus : Option Str → Result OrderStatus
  | none => .error .invalidOrderType
  | some v =>
    if v = str "PendingNew" then .ok .pendingNew
    else if v = str "Accepted" then .ok .accepted
    else if v = str "PartiallyFilled" then .ok .partiallyFilled
    else if v = str "Filled" then .ok .filled
    else if v = str "PendingCancel" then .ok .pendingCancel
    else if v = str "Cancelled" then .ok .cancelled
    else if v = str "Rejected" then .ok .rejected
    else .error .invalidOrderType

/-- An order as the API shows it. The ids in it stay below 2^63, so the conversion to
`v_int64` keeps them. -/
structure OrderDto where
  internalId : ℤ
  clientOrderId : Str
  symbol : Str
  side : Str
  type : Str
  price : ℤ
  orderQty : ℤ
  filledQty : ℤ
  remainingQty : ℤ
  status : Str
  deriving DecidableEq, Repr

structure FillDto where
  executionId : ℤ
  symbol : Str
  aggressiveOrderId : ℤ
  passiveOrderId : ℤ
  side : Str
  price : ℤ
  quantity : ℤ
  deriving DecidableEq, Repr

structure PriceLevelDto where
  price : ℤ
  totalQty : ℤ
  orderCount : ℤ
  deriving DecidableEq, Repr

structure BookDto where
  symbol : Str
  bids : List PriceLevelDto
  asks : List PriceLevelDto
  deriving DecidableEq, Repr

def Order.toDto (o : Order) : OrderDto where
  internalId := o.internalId
  clientOrderId := o.clientOrderId
  symbol := o.symbol.value
  side := domainToDtoSide o.side
  type := domainToDtoType o.type
  price := o.price
  orderQty := o.orderQty
  filledQty := o.filledQty
  remainingQty := o.remainingQty
  status := domainToDtoStatus o.status

def Fill.toDto (f : Fill) : FillDto where
  executionId := f.executionId
  symbol := f.symbol.value
  aggressiveOrderId := f.aggressiveOrderId
  passiveOrderId := f.passiveOrderId
  side := domainToDtoSide f.aggressiveSide
  price := f.price
  quantity := f.quantity

def PriceLevel.toDto (l : PriceLevel) : PriceLevelDto := ⟨l.price, l.totalQty, l.orderCount⟩

/-- `static_cast<OrderId>` of a `v_int64`. -/
def toOrderId (id : ℤ) : ℕ := (id % 2 ^ 64).toNat

theorem toOrderId_eq {id : ℤ} (h : 0 ≤ id) (hlt : id < 2 ^ 64) : toOrderId id = id.toNat := by
  rw [toOrderId, Int.emod_eq_of_lt h hlt]

/-- What the server sends. A list of orders comes in the order of an `unordered_map`, which
nothing is promised of. -/
inductive ApiResponse where
  | error (status : ℤ) (error : Str)
  | health (status : Str)
  | order (status : ℤ) (order : OrderDto)
  | orders (list : Multiset OrderDto)
  | book (book : BookDto)
  | executions (list : List FillDto)

namespace OrderManager

def selects (symbol : Option Symbol) (status : Option OrderStatus) (o : Order) : Bool :=
  symbol.all (fun s => o.symbol = s) && status.all (fun st => o.status = st)

def getOrders (m : OrderManager) (symbol : Option Symbol) (status : Option OrderStatus) :
    Multiset Order :=
  (m.orders.entries.map Sigma.snd).filter fun o => selects symbol status o

def getAllExecutions (m : OrderManager) : List Fill := m.executions

end OrderManager

def HealthController.getHealth : ApiResponse := .health (str "ok")

def OrdersResponse.toApi : OrdersResponse → ApiResponse
  | .error status message => .error status message
  | .created order => .order 201 order.toDto

namespace OrdersController

def orderResponse : Result Order → ApiResponse
  | .error err => .error (errorToStatus err) (errorName err)
  | .ok order => .order 200 order.toDto

def cancelOrder (m : OrderManager) : Option ℤ → ApiResponse × OrderManager
  | none => (.error 400 (str "missing id"), m)
  | some id =>
    (orderResponse (m.cancelOrder ⟨toOrderId id⟩).1, (m.cancelOrder ⟨toOrderId id⟩).2)

def getOrder (m : OrderManager) : Option ℤ → ApiResponse
  | none => .error 400 (str "missing id")
  | some id => orderResponse (m.getOrder (toOrderId id))

/-- A filter that is left out or empty filters nothing. -/
def given : Option Str → Option Str
  | none => none
  | some s => if s = [] then none else some s

def listOrders (m : OrderManager) (symbol status : Option Str) : ApiResponse :=
  match given status with
  | none => .orders ((m.getOrders ((given symbol).map Symbol.mk) none).map Order.toDto)
  | some s =>
    match parseRequestStatus (some s) with
    | .error _ => .error 400 (str "invalid order status")
    | .ok st => .orders ((m.getOrders ((given symbol).map Symbol.mk) (some st)).map Order.toDto)

end OrdersController

def BooksController.getBook (e : MatchingEngine) : Option Str → ApiResponse
  | none => .error 400 (str "missing symbol")
  | some symbol =>
    if symbol = [] then .error 400 (str "missing symbol")
    else
      match e.getBook ⟨symbol⟩ with
      | .error err => .error 404 (errorName err)
      | .ok book =>
        .book ⟨symbol, book.bidLevels.map PriceLevel.toDto, book.askLevels.map PriceLevel.toDto⟩

def ExecutionsController.listExecutions (m : OrderManager) : ApiResponse :=
  .executions (m.getAllExecutions.map Fill.toDto)

/-- A request that the router hands to a controller. A submit comes with the verdict that
the risk check will give. -/
inductive ApiRequest where
  | getHealth
  | submitOrder (check : RiskCheck) (body : Option NewOrderRequestDto)
  | cancelOrder (id : Option ℤ)
  | getOrder (id : Option ℤ)
  | listOrders (symbol status : Option Str)
  | getBook (symbol : Option Str)
  | listExecutions

/-- The services hold one order manager and the engine it works on. -/
def OrderManager.serve (m : OrderManager) : ApiRequest → ApiResponse × OrderManager
  | .getHealth => (HealthController.getHealth, m)
  | .submitOrder check body =>
    ((OrdersController.submitOrder check m body).1.toApi,
      (OrdersController.submitOrder check m body).2)
  | .cancelOrder id => OrdersController.cancelOrder m id
  | .getOrder id => (OrdersController.getOrder m id, m)
  | .listOrders symbol status => (OrdersController.listOrders m symbol status, m)
  | .getBook symbol => (BooksController.getBook m.engine symbol, m)
  | .listExecutions => (ExecutionsController.listExecutions m, m)

def ApiRequest.op : ApiRequest → Option OrderManager.Op
  | .submitOrder check body =>
    match OrdersController.newOrderRequest body with
    | .error _ => none
    | .ok req => some (.submit check req)
  | .cancelOrder id => id.map fun id => .cancel ⟨toOrderId id⟩
  | .getHealth | .getOrder _ | .listOrders _ _ | .getBook _ | .listExecutions => none

namespace OrderManager

theorem serve_manager (m : OrderManager) (r : ApiRequest) :
    (m.serve r).2 = m.run r.op.toList := by
  cases r with
  | submitOrder check body =>
    obtain ⟨message, hbody, hres⟩ | ⟨req, hbody, hres⟩ :=
      OrdersController.submitOrder_manager check m body
    · rw [serve, ApiRequest.op, hbody, hres]
      rfl
    · rw [serve, ApiRequest.op, hbody]
      exact hres
  | cancelOrder id => cases id <;> rfl
  | getHealth => rfl
  | getOrder id => rfl
  | listOrders symbol status => rfl
  | getBook symbol => rfl
  | listExecutions => rfl

theorem serve_run (m : OrderManager) (rs : List ApiRequest) :
    (Machine.run serve m rs).2 = m.run (rs.flatMap fun r => r.op.toList) := by
  induction rs generalizing m with
  | nil => rfl
  | cons r rs ih =>
    rw [Machine.run, ih, serve_manager, List.flatMap_cons, run, run, run, Machine.run_append]

end OrderManager

end Oems
