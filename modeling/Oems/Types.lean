import Mathlib.Algebra.Ring.Int.Defs
import Mathlib.Data.Int.Order.Basic

namespace Oems

/-- A `std::string`: its bytes. -/
abbrev Str := List UInt8

def str (s : String) : Str := s.toList.map fun c => c.toNat.toUInt8

/-- The range of `std::int64_t`. Prices, quantities and timestamps (nanoseconds
since the epoch) are integers of this range in the source and `ℤ` here. Ids are
`std::uint64_t` there and `ℕ` here: each one handed out is kept in memory with
its record, so the counters behind them never reach 2^64. -/
def InInt64 (x : ℤ) : Prop := -2 ^ 63 ≤ x ∧ x < 2 ^ 63

/-- A sum that leaves the range wraps around. The language leaves it undefined. -/
def wrapInt64 (x : ℤ) : ℤ := (x + 2 ^ 63) % 2 ^ 64 - 2 ^ 63

theorem wrapInt64_eq {x : ℤ} (h : InInt64 x) : wrapInt64 x = x := by
  rw [InInt64] at h
  rw [wrapInt64]
  omega

theorem wrapInt64_le {x : ℤ} (h : 2 ^ 63 ≤ x) : wrapInt64 x ≤ x - 2 ^ 64 := by
  rw [wrapInt64]
  omega

structure Symbol where
  value : Str
  deriving DecidableEq, Repr

inductive Side where
  | buy
  | sell
  deriving DecidableEq, Repr

def Side.opposite : Side → Side
  | .buy => .sell
  | .sell => .buy

inductive OrderType where
  | limit
  | market
  deriving DecidableEq, Repr

inductive OrderStatus where
  | pendingNew
  | accepted
  | partiallyFilled
  | filled
  | pendingCancel
  | cancelled
  | rejected
  deriving DecidableEq, Repr

inductive OemsError where
  | invalidQuantity
  | invalidPrice
  | invalidSymbol
  | invalidSide
  | invalidOrderType
  | orderNotFound
  | duplicateOrder
  | invalidStateTransition
  | riskBreachMaxQty
  | riskBreachNotional
  | riskBreachPriceBand
  | riskBreachRateLimit
  | riskBreachLotSize
  | riskBreachTickSize
  | riskBreachDailyLimit
  | bookNotFound
  | noLiquidity
  | fixParseError
  | fixSessionError
  | fixInvalidMsgType
  | databaseError
  | httpParseError
  | routeNotFound
  deriving DecidableEq, Repr

def errorName : OemsError → Str
  | .invalidQuantity => str "InvalidQuantity"
  | .invalidPrice => str "InvalidPrice"
  | .invalidSymbol => str "InvalidSymbol"
  | .invalidSide => str "InvalidSide"
  | .invalidOrderType => str "InvalidOrderType"
  | .orderNotFound => str "OrderNotFound"
  | .duplicateOrder => str "DuplicateOrder"
  | .invalidStateTransition => str "InvalidStateTransition"
  | .riskBreachMaxQty => str "RiskBreachMaxQty"
  | .riskBreachNotional => str "RiskBreachNotional"
  | .riskBreachPriceBand => str "RiskBreachPriceBand"
  | .riskBreachRateLimit => str "RiskBreachRateLimit"
  | .riskBreachLotSize => str "RiskBreachLotSize"
  | .riskBreachTickSize => str "RiskBreachTickSize"
  | .riskBreachDailyLimit => str "RiskBreachDailyLimit"
  | .bookNotFound => str "BookNotFound"
  | .noLiquidity => str "NoLiquidity"
  | .fixParseError => str "FixParseError"
  | .fixSessionError => str "FixSessionError"
  | .fixInvalidMsgType => str "FixInvalidMsgType"
  | .databaseError => str "DatabaseError"
  | .httpParseError => str "HttpParseError"
  | .routeNotFound => str "RouteNotFound"

abbrev Result (α : Type) := Except OemsError α

structure Order where
  internalId : ℕ
  clientOrderId : Str
  symbol : Symbol
  side : Side
  type : OrderType
  price : ℤ
  orderQty : ℤ
  filledQty : ℤ
  remainingQty : ℤ
  status : OrderStatus
  createdAt : ℤ
  updatedAt : ℤ
  deriving DecidableEq, Repr

structure NewOrderRequest where
  clientOrderId : Str
  symbol : Symbol
  side : Side
  type : OrderType
  price : ℤ
  quantity : ℤ
  deriving DecidableEq, Repr

structure CancelOrderRequest where
  orderId : ℕ
  deriving DecidableEq, Repr

inductive EventType where
  | newRequested
  | accepted
  | rejected
  | partialFill
  | fill
  | cancelRequested
  | cancelled
  deriving DecidableEq, Repr

structure OrderEvent where
  eventId : ℕ
  orderId : ℕ
  type : EventType
  timestamp : ℤ
  detail : Str
  deriving DecidableEq, Repr

structure TickBand where
  low : ℤ
  high : ℤ
  tick : ℤ
  deriving DecidableEq, Repr

structure SymbolConfig where
  symbol : Symbol
  lotSize : ℤ
  previousClose : ℤ
  dailyLimitBps : ℤ
  tickBands : List TickBand
  deriving DecidableEq, Repr

end Oems
