import Oems.OrderManager

namespace Oems

open OrderManager

/-- The body of `POST /v1/orders`, with the fields that a client may leave out. -/
structure NewOrderRequestDto where
  clientOrderId : Option Str
  symbol : Option Str
  side : Option Str
  type : Option Str
  price : Option ℤ
  quantity : Option ℤ

/-- What the server answers: an error with its status, or the snapshot of a new order. -/
inductive OrdersResponse where
  | error (status : ℤ) (message : Str)
  | created (order : Order)

/-- `std::tolower` of the default locale. -/
def toLower (c : UInt8) : UInt8 := if 65 ≤ c ∧ c ≤ 90 then c + 32 else c

def parseRequestSide : Option Str → Result Side
  | none => .error .invalidSide
  | some s =>
    let v := s.map toLower
    if v = str "buy" then .ok .buy
    else if v = str "sell" then .ok .sell
    else .error .invalidSide

def parseRequestType : Option Str → Result OrderType
  | none => .error .invalidOrderType
  | some s =>
    let v := s.map toLower
    if v = str "limit" then .ok .limit
    else if v = str "market" then .ok .market
    else .error .invalidOrderType

def errorToStatus : OemsError → ℤ
  | .orderNotFound | .bookNotFound | .routeNotFound => 404
  | .invalidQuantity | .invalidPrice | .invalidSymbol | .invalidSide | .invalidOrderType
  | .httpParseError => 400
  | _ => 422

namespace OrdersController

/-- The request that a body makes, or the text of the response with status 400. -/
def newOrderRequest (dto : Option NewOrderRequestDto) : Except Str NewOrderRequest :=
  match dto with
  | none => .error (str "missing required fields")
  | some dto =>
    match dto.symbol, dto.side, dto.type, dto.quantity with
    | some symbol, some side, some type, some quantity =>
      match parseRequestSide (some side) with
      | .error _ => .error (str "invalid side")
      | .ok side =>
        match parseRequestType (some type) with
        | .error _ => .error (str "invalid type")
        | .ok type => .ok {
            clientOrderId := dto.clientOrderId.getD []
            symbol := ⟨symbol⟩
            side := side
            type := type
            price := dto.price.getD 0
            quantity := quantity }
    | _, _, _, _ => .error (str "missing required fields")

def submitOrder (check : RiskCheck) (m : OrderManager) (dto : Option NewOrderRequestDto) :
    OrdersResponse × OrderManager :=
  match newOrderRequest dto with
  | .error message => (.error 400 message, m)
  | .ok req =>
    match m.submitOrder check req with
    | (.error err, m) => (.error (errorToStatus err) (errorName err), m)
    | (.ok order, m) => (.created order, m)

theorem submitOrder_manager (check : RiskCheck) (m : OrderManager)
    (dto : Option NewOrderRequestDto) :
    (∃ message, newOrderRequest dto = .error message ∧
      OrdersController.submitOrder check m dto = (.error 400 message, m)) ∨
    ∃ req, newOrderRequest dto = .ok req ∧
      (OrdersController.submitOrder check m dto).2 = (m.step (.submit check req)).2 := by
  rw [OrdersController.submitOrder]
  cases hreq : newOrderRequest dto with
  | error message => exact Or.inl ⟨message, rfl, rfl⟩
  | ok req =>
    refine Or.inr ⟨req, rfl, ?_⟩
    dsimp only [OrderManager.step]
    generalize m.submitOrder check req = r
    obtain ⟨err | order, m'⟩ := r
    · rfl
    · rfl

theorem newOrderRequest_ok {dto : NewOrderRequestDto} {req : NewOrderRequest}
    (h : newOrderRequest (some dto) = .ok req) :
    dto.symbol = some req.symbol.value ∧ req.clientOrderId = dto.clientOrderId.getD [] := by
  rw [newOrderRequest] at h
  split at h
  · rename_i symbol side type quantity hsymbol _ _ _
    split at h
    · cases h
    · split at h
      · cases h
      · cases h
        exact ⟨hsymbol, rfl⟩
  · cases h

end OrdersController

end Oems
