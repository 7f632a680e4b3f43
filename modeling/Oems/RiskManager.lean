import Oems.Types
import Mathlib.Data.Finmap
import Mathlib.Algebra.Order.Group.Abs

namespace Oems

structure RiskRequest where
  symbol : Symbol
  side : Side
  type : OrderType
  price : ℤ
  quantity : ℤ

structure RiskLimits where
  maxOrderQty : ℤ
  maxNotional : ℤ
  priceBandBps : ℤ
  maxOrdersPerSecond : ℤ
  deriving DecidableEq, Repr

def RiskLimits.default : RiskLimits := ⟨10000, 100000000, 1000, 100⟩

structure RiskManager where
  limits : RiskLimits
  referencePrices : Finmap fun _ : Str => ℤ
  configs : Finmap fun _ : Str => SymbolConfig
  recentOrders : List ℤ

namespace RiskManager

def new (limits : RiskLimits) : RiskManager := ⟨limits, ∅, ∅, []⟩

def setLimits (r : RiskManager) (limits : RiskLimits) : RiskManager := { r with limits }

def setReferencePrice (r : RiskManager) (symbol : Symbol) (price : ℤ) : RiskManager :=
  { r with referencePrices := r.referencePrices.insert symbol.value price }

def getReferencePrice (r : RiskManager) (symbol : Symbol) : Option ℤ :=
  r.referencePrices.lookup symbol.value

def setSymbolConfig (r : RiskManager) (symbol : Symbol) (config : SymbolConfig) : RiskManager :=
  { r with configs := r.configs.insert symbol.value { config with symbol } }

def getSymbolConfig (r : RiskManager) (symbol : Symbol) : Option SymbolConfig :=
  r.configs.lookup symbol.value

/-- The products are `__int128` in the source, so none of them wraps. -/
def checkPriceBand (r : RiskManager) (req : RiskRequest) : Result Unit :=
  match r.referencePrices.lookup req.symbol.value with
  | none => .ok ()
  | some ref =>
    if ref ≤ 0 then .ok ()
    else if |req.price - ref| * 10000 > ref * r.limits.priceBandBps then
      .error .riskBreachPriceBand
    else .ok ()

def checkLotSize (r : RiskManager) (req : RiskRequest) : Result Unit :=
  match r.configs.lookup req.symbol.value with
  | none => .ok ()
  | some config =>
    if config.lotSize ≤ 0 then .ok ()
    else if req.quantity.tmod config.lotSize ≠ 0 then .error .riskBreachLotSize
    else .ok ()

def checkTickSize (r : RiskManager) (req : RiskRequest) : Result Unit :=
  if req.type ≠ .limit then .ok ()
  else
    match r.configs.lookup req.symbol.value with
    | none => .ok ()
    | some config =>
      if config.tickBands = [] then .ok ()
      else
        match config.tickBands.find? fun b => b.low ≤ req.price ∧ req.price ≤ b.high with
        | some band =>
          if band.tick ≤ 0 ∨ req.price.tmod band.tick ≠ 0 then .error .riskBreachTickSize
          else .ok ()
        | none => .error .riskBreachTickSize

def checkDailyLimit (r : RiskManager) (req : RiskRequest) : Result Unit :=
  if req.type ≠ .limit then .ok ()
  else
    match r.configs.lookup req.symbol.value with
    | none => .ok ()
    | some config =>
      if config.previousClose ≤ 0 ∨ config.dailyLimitBps ≤ 0 then .ok ()
      else
        let diff := if req.price ≥ config.previousClose then req.price - config.previousClose
          else config.previousClose - req.price
        if diff * 10000 > config.previousClose * config.dailyLimitBps then
          .error .riskBreachDailyLimit
        else .ok ()

def checkRateLimit (r : RiskManager) (now : ℤ) : Result Unit × RiskManager :=
  let recentOrders := r.recentOrders.dropWhile fun t => t < now - 10 ^ 9
  if (recentOrders.length : ℤ) ≥ r.limits.maxOrdersPerSecond then
    (.error .riskBreachRateLimit, { r with recentOrders })
  else (.ok (), { r with recentOrders := recentOrders ++ [now] })

/-- The checks before the rate limit, in their order. -/
def checkRules (r : RiskManager) (req : RiskRequest) : Result Unit := do
  if req.quantity ≤ 0 then throw .invalidQuantity
  if req.symbol.value = [] then throw .invalidSymbol
  if req.type = .limit ∧ req.price ≤ 0 then throw .invalidPrice
  if req.quantity > r.limits.maxOrderQty then throw .riskBreachMaxQty
  if req.type = .limit then
    if req.price * req.quantity > r.limits.maxNotional then throw .riskBreachNotional
    r.checkPriceBand req
  r.checkLotSize req
  r.checkTickSize req
  r.checkDailyLimit req

def check (r : RiskManager) (now : ℤ) (req : RiskRequest) : Result Unit × RiskManager :=
  match r.checkRules req with
  | .error err => (.error err, r)
  | .ok () => r.checkRateLimit now

end RiskManager

end Oems
