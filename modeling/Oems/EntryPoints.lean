import Oems.Controllers
import Oems.FixWire

namespace Oems

open Lib OrderManager

/-- A client's order or cancel: in a FIX session, as it is by then, or over HTTP when there is
none. -/
structure Entry where
  session : Option FixSession
  op : OrderManager.Op

inductive EntryAnswer where
  | http (response : ApiResponse)
  | fix (report : Result FixMessage)

namespace Entry

def sideText : Side → Str
  | .buy => str "buy"
  | .sell => str "sell"

def typeText : OrderType → Str
  | .limit => str "limit"
  | .market => str "market"

def ordTypeText : OrderType → Str
  | .market => str "1"
  | .limit => str "2"

def orderBody (req : NewOrderRequest) : NewOrderRequestDto :=
  ⟨some req.clientOrderId, some req.symbol.value, some (sideText req.side),
    some (typeText req.type), some req.price, some req.quantity⟩

def orderMessage (req : NewOrderRequest) : FixMessage :=
  ((((((FixMessage.empty.set FixTag.msgType FixMsgType.newOrderSingle).set
    FixTag.clOrdID req.clientOrderId).set
    FixTag.symbol req.symbol.value).set
    FixTag.side (fixSideChar req.side)).set
    FixTag.ordType (ordTypeText req.type)).setInt
    FixTag.orderQty req.quantity).setInt
    FixTag.price req.price

def cancelMessage (id : ℕ) : FixMessage :=
  (FixMessage.empty.set FixTag.msgType FixMsgType.orderCancelRequest).set
    FixTag.orderID (Decimal.ofNat id)

/-- The values have the types that the requests have for them, and no text ends a field. -/
def Fits (e : Entry) : Prop :=
  match e.op with
  | .submit _ req => soh ∉ req.clientOrderId ∧ soh ∉ req.symbol.value ∧
    (-2 ^ 63 ≤ req.price ∧ req.price < 2 ^ 63) ∧ -2 ^ 63 ≤ req.quantity ∧ req.quantity < 2 ^ 63
  | .cancel req => req.orderId < 2 ^ 63

/-- Read a message from its bytes and hand it to a handler of the gateway. -/
def onBytes (g : FixGateway) (raw : Str)
    (handle : FixMessage → Result FixMessage × FixSession × FixGateway) :
    EntryAnswer × FixGateway :=
  match FixMessage.parse raw with
  | .error err => (.fix (.error err), g)
  | .ok msg => (.fix (handle msg).1, (handle msg).2.2)

def onRequest (g : FixGateway) (r : ApiRequest) : EntryAnswer × FixGateway :=
  (.http (g.om.serve r).1, { g with om := (g.om.serve r).2 })

def enter (g : FixGateway) (e : Entry) : EntryAnswer × FixGateway :=
  match e.session, e.op with
  | none, .submit check req => onRequest g (.submitOrder check (some (orderBody req)))
  | none, .cancel req => onRequest g (.cancelOrder (some req.orderId))
  | some session, .submit check req =>
    onBytes g (orderMessage req).serialize fun msg =>
      g.handleNewOrderSingle check msg session
  | some session, .cancel req =>
    onBytes g (cancelMessage req.orderId).serialize fun msg =>
      g.handleOrderCancelRequest msg session

theorem newOrderRequest_orderBody (req : NewOrderRequest) :
    OrdersController.newOrderRequest (some (orderBody req)) = .ok req := by
  have hside : parseRequestSide (some (sideText req.side)) = .ok req.side := by
    cases req.side <;> rfl
  have htype : parseRequestType (some (typeText req.type)) = .ok req.type := by
    cases req.type <;> rfl
  simp only [OrdersController.newOrderRequest, orderBody, hside, htype]
  rfl

theorem toOrderId_natCast {id : ℕ} (h : id < 2 ^ 64) : toOrderId (id : ℤ) = id := by
  rw [toOrderId]
  omega

section Messages

variable {req : NewOrderRequest}

theorem orderMessage_wellFormed (hclient : soh ∉ req.clientOrderId)
    (hsymbol : soh ∉ req.symbol.value) : (orderMessage req).WellFormed := by
  have hside : soh ∉ fixSideChar req.side := by cases req.side <;> decide
  have htype : soh ∉ ordTypeText req.type := by cases req.type <;> decide
  exact (((((((FixMessage.wellFormed_empty.set (by decide) (by decide)).set (by decide)
    hclient).set (by decide) hsymbol).set (by decide) hside).set (by decide) htype).setInt _
    (by decide)).setInt _ (by decide))

theorem cancelMessage_wellFormed (id : ℕ) : (cancelMessage id).WellFormed :=
  (FixMessage.wellFormed_empty.set (by decide) (by decide)).set (by decide) (soh_notMem_ofNat id)

theorem getInt_of_get {msg : FixMessage} {tag z : ℤ} (h : msg.get tag = some (Decimal.ofInt z))
    (hz : -2 ^ 63 ≤ z ∧ z < 2 ^ 63) : msg.getInt tag = z := by
  rw [← FixMessage.getInt_setInt msg tag hz.1 hz.2, FixMessage.getInt, FixMessage.getInt, h,
    FixMessage.setInt, FixMessage.get_set_self]

theorem newOrderRequest_orderMessage (hprice : -2 ^ 63 ≤ req.price ∧ req.price < 2 ^ 63)
    (hqty : -2 ^ 63 ≤ req.quantity ∧ req.quantity < 2 ^ 63) :
    FixGateway.newOrderRequest (orderMessage req) = .ok req := by
  have hside : parseFixSide (fixSideChar req.side) = .ok req.side := by cases req.side <;> rfl
  have htype : parseFixOrdType (ordTypeText req.type) = .ok req.type := by cases req.type <;> rfl
  have hfields : (orderMessage req).get FixTag.clOrdID = some req.clientOrderId ∧
      (orderMessage req).get FixTag.symbol = some req.symbol.value ∧
      (orderMessage req).get FixTag.side = some (fixSideChar req.side) ∧
      (orderMessage req).get FixTag.ordType = some (ordTypeText req.type) ∧
      (orderMessage req).get FixTag.orderQty = some (Decimal.ofInt req.quantity) ∧
      (orderMessage req).get FixTag.price = some (Decimal.ofInt req.price) := by
    simp [orderMessage, FixMessage.setInt, FixMessage.get_set, FixTag.clOrdID, FixTag.symbol,
      FixTag.side, FixTag.ordType, FixTag.orderQty, FixTag.price]
  obtain ⟨hclient, hsymbol, hsideText, htypeText, hqtyText, hpriceText⟩ := hfields
  apply (FixGateway.newOrderRequest_ok_iff _).mpr
  refine ⟨req.side, req.type, ?_, ?_, ?_⟩
  · rw [hsideText]
    exact hside
  · rw [htypeText]
    exact htype
  · rw [FixGateway.requestOf, hclient, hsymbol, getInt_of_get hpriceText hprice,
      getInt_of_get hqtyText hqty]
    rfl

theorem cancelOrderId_cancelMessage {id : ℕ} (h : id < 2 ^ 64) :
    FixGateway.cancelOrderId (cancelMessage id) = id := by
  apply FixGateway.cancelOrderId_of_stated _ _ h
  rw [FixMessage.statedNat, cancelMessage, FixMessage.get_set_self, Option.bind_some,
    Decimal.toNat?_ofNat]

end Messages

/-- The status of an answer that shows an order. -/
def shownStatus : OrderManager.Op → ℤ
  | .submit _ _ => 201
  | .cancel _ => 200

/-- An answer tells, in the language of the entry, what the order manager has made of its call. -/
inductive Answers : Entry → Result Order → EntryAnswer → Prop where
  | shown (op : OrderManager.Op) (order : Order) :
    Answers ⟨none, op⟩ (.ok order) (.http (.order (shownStatus op) order.toDto))
  | refused (op : OrderManager.Op) (err : OemsError) :
    Answers ⟨none, op⟩ (.error err) (.http (.error (errorToStatus err) (errorName err)))
  | reported (session : FixSession) (op : OrderManager.Op) (order : Order) (report : FixMessage)
    (h : Reports report order) : Answers ⟨some session, op⟩ (.ok order) (.fix (.ok report))
  | rejected (session : FixSession) (check : RiskCheck) (req : NewOrderRequest) (err : OemsError)
    (report : FixMessage) (id : ℕ) (h : Reports report (FixGateway.rejectedOrder req id)) :
    Answers ⟨some session, .submit check req⟩ (.error err) (.fix (.ok report))
  | failed (session : FixSession) (req : CancelOrderRequest) (err : OemsError) :
    Answers ⟨some session, .cancel req⟩ (.error err) (.fix (.error err))

structure Enters (m : OrderManager) (e : Entry) (r : EntryAnswer × FixGateway) : Prop where
  om : r.2.om = (m.step e.op).2
  answer : Answers e (m.step e.op).1 r.1

variable (g : FixGateway)

theorem submit_request (check : RiskCheck) (req : NewOrderRequest) :
    Enters g.om ⟨none, .submit check req⟩
      (onRequest g (.submitOrder check (some (orderBody req)))) := by
  have hbody := newOrderRequest_orderBody req
  rw [onRequest, OrderManager.serve, OrdersController.submitOrder]
  simp only [hbody]
  have hcall : g.om.step (.submit check req) = g.om.submitOrder check req := rfl
  cases hsubmit : g.om.submitOrder check req with
  | mk res om =>
    rw [hsubmit] at hcall
    cases res with
    | error err => exact ⟨by rw [hcall], by rw [hcall]; exact .refused _ err⟩
    | ok order => exact ⟨by rw [hcall], by rw [hcall]; exact .shown (.submit check req) order⟩

theorem cancel_request {id : ℕ} (hid : id < 2 ^ 64) :
    Enters g.om ⟨none, .cancel ⟨id⟩⟩ (onRequest g (.cancelOrder (some id))) := by
  rw [onRequest, OrderManager.serve, OrdersController.cancelOrder]
  simp only [toOrderId_natCast hid]
  refine ⟨rfl, ?_⟩
  change Answers _ (g.om.cancelOrder ⟨id⟩).1 (.http (OrdersController.orderResponse _))
  cases (g.om.cancelOrder ⟨id⟩).1 with
  | error err => exact .refused _ err
  | ok order => exact .shown (.cancel ⟨id⟩) order

theorem onBytes_eq {msg : FixMessage} (hmsg : msg.WellFormed)
    {handle : FixMessage → Result FixMessage × FixSession × FixGateway}
    (hframed : ∀ trailer, handle (msg.framed trailer) = handle msg) :
    onBytes g msg.serialize handle = (.fix (handle msg).1, (handle msg).2.2) := by
  obtain ⟨L⟩ := hmsg.exists_layout
  rw [onBytes, L.parse]
  simp only [hframed]

theorem submit_message {check : RiskCheck} {req : NewOrderRequest} (session : FixSession)
    (hfits : Fits ⟨some session, .submit check req⟩) :
    Enters g.om ⟨some session, .submit check req⟩
      (onBytes g (orderMessage req).serialize fun msg =>
        g.handleNewOrderSingle check msg session) := by
  obtain ⟨hclient, hsymbol, hprice, hqty⟩ := hfits
  rw [onBytes_eq g (orderMessage_wellFormed hclient hsymbol) fun trailer =>
    handleNewOrderSingle_framed check g _ trailer session]
  have htype : (orderMessage req).msgType = FixMsgType.newOrderSingle := by
    simp [orderMessage, FixMessage.msgType, FixMessage.setInt, FixMessage.get_set, FixTag.msgType,
      FixTag.clOrdID, FixTag.symbol, FixTag.side, FixTag.ordType, FixTag.orderQty, FixTag.price]
  have hreq := newOrderRequest_orderMessage hprice hqty
  have hcall : g.om.step (.submit check req) = g.om.submitOrder check req := rfl
  cases hsubmit : g.om.submitOrder check req with
  | mk res om =>
    rw [hsubmit] at hcall
    cases res with
    | error err =>
      rw [FixGateway.handleNewOrderSingle_refused htype hreq hsubmit]
      refine ⟨by rw [hcall]; rfl, ?_⟩
      rw [hcall]
      exact .rejected session check req err _ _
        (FixGateway.buildExecutionReport_reports _ _ session _)
    | ok order =>
      rw [FixGateway.handleNewOrderSingle_taken htype hreq hsubmit]
      refine ⟨by rw [hcall]; rfl, ?_⟩
      rw [hcall]
      exact .reported session _ order _ (FixGateway.buildExecutionReport_reports _ _ session _)

theorem cancel_message {id : ℕ} (hid : id < 2 ^ 64) (session : FixSession) :
    Enters g.om ⟨some session, .cancel ⟨id⟩⟩
      (onBytes g (cancelMessage id).serialize fun msg =>
        g.handleOrderCancelRequest msg session) := by
  rw [onBytes_eq g (cancelMessage_wellFormed id) fun trailer =>
    handleOrderCancelRequest_framed g _ trailer session]
  have htype : (cancelMessage id).msgType = FixMsgType.orderCancelRequest := by
    simp [cancelMessage, FixMessage.msgType, FixMessage.get_set, FixTag.msgType, FixTag.orderID]
  have hcall : g.om.step (.cancel ⟨id⟩) = g.om.cancelOrder ⟨id⟩ := rfl
  rw [FixGateway.handleOrderCancelRequest, if_neg (not_not.mpr htype),
    cancelOrderId_cancelMessage hid]
  cases hcancel : g.om.cancelOrder ⟨id⟩ with
  | mk res om =>
    rw [hcancel] at hcall
    cases res with
    | error err => exact ⟨by rw [hcall], by rw [hcall]; exact .failed session ⟨id⟩ err⟩
    | ok order =>
      refine ⟨by rw [hcall]; rfl, ?_⟩
      rw [hcall]
      exact .reported session _ order _ (FixGateway.buildExecutionReport_reports _ _ session _)

theorem enter_enters {e : Entry} (hfits : e.Fits) : Enters g.om e (enter g e) := by
  obtain ⟨door, op⟩ := e
  cases door with
  | none =>
    cases op with
    | submit check req => exact submit_request g check req
    | cancel req =>
      have hid : req.orderId < 2 ^ 63 := hfits
      exact cancel_request g (by omega)
  | some session =>
    cases op with
    | submit check req => exact submit_message g session hfits
    | cancel req =>
      have hid : req.orderId < 2 ^ 63 := hfits
      exact cancel_message g (by omega) session

end Entry

/-- The way in makes no difference: orders and cancels that come over HTTP and in FIX sessions, as
bytes and in any mix, do to the order manager what the calls do that they stand for, and each
is answered with what its call returns. -/
theorem entry_points_agree (g : FixGateway) {entries : List Entry}
    (hfits : ∀ e ∈ entries, e.Fits) :
    (Machine.run Entry.enter g entries).2.om = g.om.run (entries.map Entry.op) ∧
      List.Forall₂ (fun entry answer => Entry.Answers entry.1 entry.2 answer)
        (entries.zip (Machine.run OrderManager.step g.om (entries.map Entry.op)).1)
        (Machine.run Entry.enter g entries).1 := by
  induction entries generalizing g with
  | nil => exact ⟨rfl, .nil⟩
  | cons e entries ih =>
    obtain ⟨hom, hanswer⟩ := Entry.enter_enters g (hfits e List.mem_cons_self)
    obtain ⟨hrest, hanswers⟩ := ih (Entry.enter g e).2 fun e' he' =>
      hfits e' (List.mem_cons_of_mem e he')
    rw [hom] at hrest hanswers
    exact ⟨hrest, .cons hanswer hanswers⟩

def bothDoors : List Entry :=
  [⟨some counterparty, .submit (RiskCheck.at 0) ⟨str "C1", ⟨str "AAPL"⟩, .buy, .limit, 100, 5⟩⟩,
    ⟨none, .submit (RiskCheck.at 0) ⟨str "C2", ⟨str "AAPL"⟩, .sell, .limit, 100, 2⟩⟩,
    ⟨some counterparty, .cancel ⟨1⟩⟩]

theorem bothDoors_agree :
    (Machine.run Entry.enter freshGateway bothDoors).2.om =
        freshGateway.om.run (bothDoors.map Entry.op) ∧
      List.Forall₂ (fun entry answer => Entry.Answers entry.1 entry.2 answer)
        (bothDoors.zip
          (Machine.run OrderManager.step freshGateway.om (bothDoors.map Entry.op)).1)
        (Machine.run Entry.enter freshGateway bothDoors).1 :=
  entry_points_agree freshGateway (by
    intro e he
    simp only [bothDoors, List.mem_cons, List.not_mem_nil, or_false] at he
    obtain rfl | rfl | rfl := he
    · exact ⟨by decide, by decide, by decide, by decide⟩
    · exact ⟨by decide, by decide, by decide, by decide⟩
    · change 1 < 2 ^ 63
      omega)

end Oems
