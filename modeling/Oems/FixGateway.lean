import Oems.FixSession
import Oems.OrderManager

namespace Oems

open Lib

/-- `std::from_chars` into a `std::uint64_t`. -/
def fromCharsUInt64 (bs : Str) : Option ℕ :=
  (Decimal.toNat? (Decimal.leading bs)).filter fun n => n < 2 ^ 64

def parseFixSide (s : Str) : Result Side :=
  if s = str "1" then .ok .buy
  else if s = str "2" then .ok .sell
  else .error .invalidSide

def parseFixOrdType (s : Str) : Result OrderType :=
  if s = str "1" then .ok .market
  else if s = str "2" then .ok .limit
  else .error .invalidOrderType

def fixSideChar : Side → Str
  | .buy => str "1"
  | .sell => str "2"

def fixOrdStatusChar : OrderStatus → Str
  | .pendingNew => str "A"
  | .accepted => str "0"
  | .partiallyFilled => str "1"
  | .filled => str "2"
  | .pendingCancel => str "6"
  | .cancelled => str "4"
  | .rejected => str "8"

/-- The gateway with the order manager it refers to and the two counters that its
source keeps as statics. -/
structure FixGateway where
  om : OrderManager
  nextSyntheticOrderId : ℕ
  nextExecId : ℕ

namespace FixGateway

def new (om : OrderManager) : FixGateway := ⟨om, 2 ^ 64 - 1, 1⟩

/-- `fetch_sub` on an `std::uint64_t`. -/
def takeSyntheticOrderId (g : FixGateway) : ℕ × FixGateway :=
  (g.nextSyntheticOrderId,
    { g with nextSyntheticOrderId := (g.nextSyntheticOrderId + (2 ^ 64 - 1)) % 2 ^ 64 })

def reportFields (order : Order) (execId : ℕ) (execType : Str) : FixMessage :=
  let m := ((((((((((FixMessage.empty.set FixTag.msgType FixMsgType.executionReport).set
    FixTag.orderID (Decimal.ofNat order.internalId)).set
    FixTag.clOrdID order.clientOrderId).set
    FixTag.execID (Decimal.ofNat execId)).set
    FixTag.symbol order.symbol.value).set
    FixTag.side (fixSideChar order.side)).set
    FixTag.orderQty (Decimal.ofInt order.orderQty)).set
    FixTag.leavesQty (Decimal.ofInt order.remainingQty)).set
    FixTag.cumQty (Decimal.ofInt order.filledQty)).set
    FixTag.ordStatus (fixOrdStatusChar order.status)).set
    FixTag.execType execType
  if order.type = .limit then m.set FixTag.price (Decimal.ofInt order.price) else m

def buildExecutionReport (g : FixGateway) (order : Order) (session : FixSession)
    (execType : Str) : FixMessage × FixSession × FixGateway :=
  let stamped := session.stampOutbound (reportFields order g.nextExecId execType)
  (stamped.1, stamped.2, { g with nextExecId := g.nextExecId + 1 })

def newOrderRequest (msg : FixMessage) : Result NewOrderRequest := do
  let side ← parseFixSide ((msg.get FixTag.side).getD [])
  let type ← parseFixOrdType ((msg.get FixTag.ordType).getD [])
  return {
    clientOrderId := (msg.get FixTag.clOrdID).getD []
    symbol := ⟨(msg.get FixTag.symbol).getD []⟩
    side := side
    type := type
    price := msg.getInt FixTag.price
    quantity := msg.getInt FixTag.orderQty }

/-- The order that is reported when the order manager gives no snapshot. -/
def rejectedOrder (req : NewOrderRequest) (id : ℕ) : Order :=
  OrderManager.newOrder req id .rejected 0 0

def execTypeOf (order : Order) : Str :=
  if order.status = .filled ∨ order.status = .partiallyFilled then str "F"
  else if order.status = .rejected then str "8"
  else str "0"

def report (r : FixMessage × FixSession × FixGateway) :
    Result FixMessage × FixSession × FixGateway :=
  (.ok r.1, r.2)

def handleNewOrderSingle (check : RiskCheck) (g : FixGateway) (msg : FixMessage)
    (session : FixSession) : Result FixMessage × FixSession × FixGateway :=
  if msg.msgType ≠ FixMsgType.newOrderSingle then (.error .fixInvalidMsgType, session, g)
  else
    match newOrderRequest msg with
    | .error err => (.error err, session, g)
    | .ok req =>
      match g.om.submitOrder check req with
      | (.error _, om) =>
        let taken := { g with om }.takeSyntheticOrderId
        report (taken.2.buildExecutionReport (rejectedOrder req taken.1) session (str "8"))
      | (.ok order, om) =>
        report ({ g with om }.buildExecutionReport order session (execTypeOf order))

/-- The order id of a cancel request, 0 when it has none that can be read. -/
def cancelOrderId (msg : FixMessage) : ℕ :=
  (fromCharsUInt64 ((msg.get FixTag.orderID).getD [])).getD 0

def handleOrderCancelRequest (g : FixGateway) (msg : FixMessage) (session : FixSession) :
    Result FixMessage × FixSession × FixGateway :=
  if msg.msgType ≠ FixMsgType.orderCancelRequest then (.error .fixInvalidMsgType, session, g)
  else
    match g.om.cancelOrder ⟨cancelOrderId msg⟩ with
    | (.error err, om) => (.error err, session, { g with om })
    | (.ok order, om) => report ({ g with om }.buildExecutionReport order session (str "4"))

section NewOrderSingle

variable {check : RiskCheck} {g : FixGateway} {msg : FixMessage} {req : NewOrderRequest}
  {om : OrderManager}

theorem handleNewOrderSingle_refused (htype : msg.msgType = FixMsgType.newOrderSingle)
    (hreq : newOrderRequest msg = .ok req) {err : OemsError}
    (hsubmit : g.om.submitOrder check req = (.error err, om)) (session : FixSession) :
    g.handleNewOrderSingle check msg session =
      report ({ g with om }.takeSyntheticOrderId.2.buildExecutionReport
        (rejectedOrder req g.nextSyntheticOrderId) session (str "8")) := by
  rw [handleNewOrderSingle, if_neg (not_not.mpr htype)]
  simp only [hreq, hsubmit]
  rfl

theorem handleNewOrderSingle_taken (htype : msg.msgType = FixMsgType.newOrderSingle)
    (hreq : newOrderRequest msg = .ok req) {order : Order}
    (hsubmit : g.om.submitOrder check req = (.ok order, om)) (session : FixSession) :
    g.handleNewOrderSingle check msg session =
      report ({ g with om }.buildExecutionReport order session (execTypeOf order)) := by
  rw [handleNewOrderSingle, if_neg (not_not.mpr htype)]
  simp only [hreq, hsubmit]

variable (check g msg)

/-- Every outcome of `HandleNewOrderSingle`: an error before a request is made, which
changes nothing, or a report on what the order manager did with the request. -/
theorem handleNewOrderSingle_cases (session : FixSession) :
    (∃ err, g.handleNewOrderSingle check msg session = (.error err, session, g)) ∨
    ∃ req, msg.msgType = FixMsgType.newOrderSingle ∧ newOrderRequest msg = .ok req ∧
      ((∃ err om, g.om.submitOrder check req = (.error err, om) ∧
          g.handleNewOrderSingle check msg session =
            report ({ g with om }.takeSyntheticOrderId.2.buildExecutionReport
              (rejectedOrder req g.nextSyntheticOrderId) session (str "8"))) ∨
        (∃ order om, g.om.submitOrder check req = (.ok order, om) ∧
          g.handleNewOrderSingle check msg session =
            report ({ g with om }.buildExecutionReport order session (execTypeOf order)))) := by
  by_cases htype : msg.msgType = FixMsgType.newOrderSingle
  · cases hreq : newOrderRequest msg with
    | error err =>
      refine Or.inl ⟨err, ?_⟩
      rw [handleNewOrderSingle, if_neg (not_not.mpr htype)]
      simp only [hreq]
    | ok req =>
      refine Or.inr ⟨req, htype, rfl, ?_⟩
      cases hsubmit : g.om.submitOrder check req with
      | mk res om =>
        cases res with
        | error err =>
          exact Or.inl ⟨err, om, rfl, handleNewOrderSingle_refused htype hreq hsubmit session⟩
        | ok order =>
          exact Or.inr ⟨order, om, rfl, handleNewOrderSingle_taken htype hreq hsubmit session⟩
  · refine Or.inl ⟨.fixInvalidMsgType, ?_⟩
    rw [handleNewOrderSingle, if_pos htype]

end NewOrderSingle

theorem handleOrderCancelRequest_cases (g : FixGateway) (msg : FixMessage)
    (session : FixSession) :
    (∃ err om, g.handleOrderCancelRequest msg session = (.error err, session, { g with om })) ∨
    ∃ order om, g.om.cancelOrder ⟨cancelOrderId msg⟩ = (.ok order, om) ∧
      g.handleOrderCancelRequest msg session =
        report ({ g with om }.buildExecutionReport order session (str "4")) := by
  rw [handleOrderCancelRequest]
  by_cases htype : msg.msgType = FixMsgType.orderCancelRequest
  · rw [if_neg (not_not.mpr htype)]
    cases hcancel : g.om.cancelOrder ⟨cancelOrderId msg⟩ with
    | mk res om =>
      cases res with
      | error err => exact Or.inl ⟨err, om, rfl⟩
      | ok order => exact Or.inr ⟨order, om, rfl, rfl⟩
  · exact Or.inl ⟨_, g.om, if_pos htype⟩

end FixGateway

end Oems
