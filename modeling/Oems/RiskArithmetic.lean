import Oems.RiskManager
import Oems.Lib.Bounded

namespace Oems

open Lib

def InInt32 (x : ℤ) : Prop := -2 ^ 31 ≤ x ∧ x < 2 ^ 31

instance (x : ℤ) : Decidable (InInt64 x) := inferInstanceAs (Decidable (_ ∧ _))

instance (x : ℤ) : Decidable (InInt32 x) := inferInstanceAs (Decidable (_ ∧ _))

theorem abs_le_of_inInt64 {x : ℤ} (h : InInt64 x) : |x| ≤ 2 ^ 63 :=
  abs_le.mpr ⟨h.1, le_of_lt h.2⟩

theorem abs_le_of_inInt32 {x : ℤ} (h : InInt32 x) : |x| ≤ 2 ^ 31 :=
  abs_le.mpr ⟨h.1, le_of_lt h.2⟩

/-- The types of the fields of a `RiskRequest`. -/
structure RiskRequest.InRange (req : RiskRequest) : Prop where
  price : InInt64 req.price
  quantity : InInt64 req.quantity

structure SymbolConfig.InRange (config : SymbolConfig) : Prop where
  lotSize : InInt64 config.lotSize
  previousClose : InInt64 config.previousClose
  dailyLimitBps : InInt32 config.dailyLimitBps
  tickBands : ∀ b ∈ config.tickBands, InInt64 b.low ∧ InInt64 b.high ∧ InInt64 b.tick

structure RiskLimits.InRange (limits : RiskLimits) : Prop where
  maxOrderQty : InInt64 limits.maxOrderQty
  maxNotional : InInt64 limits.maxNotional
  priceBandBps : InInt32 limits.priceBandBps
  maxOrdersPerSecond : InInt32 limits.maxOrdersPerSecond

structure RiskManager.InRange (r : RiskManager) : Prop where
  limits : r.limits.InRange
  reference : ∀ s ref, r.referencePrices.lookup s = some ref → InInt64 ref
  config : ∀ s config, r.configs.lookup s = some config → config.InRange

namespace RiskManager.InRange

theorem new {limits : RiskLimits} (h : limits.InRange) : (RiskManager.new limits).InRange := by
  refine ⟨h, fun s ref hs => ?_, fun s config hs => ?_⟩
  · simp [RiskManager.new] at hs
  · simp [RiskManager.new] at hs

variable {r : RiskManager}

theorem setLimits (hr : r.InRange) {limits : RiskLimits} (h : limits.InRange) :
    (r.setLimits limits).InRange :=
  ⟨h, hr.reference, hr.config⟩

theorem setReferencePrice (hr : r.InRange) (symbol : Symbol) {price : ℤ} (h : InInt64 price) :
    (r.setReferencePrice symbol price).InRange := by
  refine ⟨hr.limits, fun s ref hs => ?_, hr.config⟩
  by_cases hsame : s = symbol.value
  · subst hsame
    rw [RiskManager.setReferencePrice, Finmap.lookup_insert] at hs
    cases hs
    exact h
  · rw [RiskManager.setReferencePrice, Finmap.lookup_insert_of_ne _ hsame] at hs
    exact hr.reference s ref hs

theorem setSymbolConfig (hr : r.InRange) (symbol : Symbol) {config : SymbolConfig}
    (h : config.InRange) : (r.setSymbolConfig symbol config).InRange := by
  refine ⟨hr.limits, hr.reference, fun s config' hs => ?_⟩
  by_cases hsame : s = symbol.value
  · subst hsame
    rw [RiskManager.setSymbolConfig, Finmap.lookup_insert] at hs
    cases hs
    exact ⟨h.lotSize, h.previousClose, h.dailyLimitBps, h.tickBands⟩
  · rw [RiskManager.setSymbolConfig, Finmap.lookup_insert_of_ne _ hsame] at hs
    exact hr.config s config' hs

end RiskManager.InRange

namespace RiskManager.Machine

/-- The check with the widths of the source: the difference is taken in 64 bits,
the products in 128. -/
def checkPriceBand (r : RiskManager) (req : RiskRequest) : Option (Result Unit) :=
  match r.referencePrices.lookup req.symbol.value with
  | none => some (.ok ())
  | some ref =>
    if ref ≤ 0 then some (.ok ())
    else do
      let diff ← Bounded.abs 63 (← Bounded.sub 63 req.price ref)
      let lhs ← Bounded.mul 127 diff 10000
      let rhs ← Bounded.mul 127 ref r.limits.priceBandBps
      some (if lhs > rhs then .error .riskBreachPriceBand else .ok ())

def checkLotSize (r : RiskManager) (req : RiskRequest) : Option (Result Unit) :=
  match r.configs.lookup req.symbol.value with
  | none => some (.ok ())
  | some config =>
    if config.lotSize ≤ 0 then some (.ok ())
    else do
      let left ← Bounded.rem 63 req.quantity config.lotSize
      some (if left ≠ 0 then .error .riskBreachLotSize else .ok ())

def checkTickSize (r : RiskManager) (req : RiskRequest) : Option (Result Unit) :=
  if req.type ≠ .limit then some (.ok ())
  else
    match r.configs.lookup req.symbol.value with
    | none => some (.ok ())
    | some config =>
      if config.tickBands = [] then some (.ok ())
      else
        match config.tickBands.find? fun b => b.low ≤ req.price ∧ req.price ≤ b.high with
        | some band =>
          if band.tick ≤ 0 then some (.error .riskBreachTickSize)
          else do
            let left ← Bounded.rem 63 req.price band.tick
            some (if left ≠ 0 then .error .riskBreachTickSize else .ok ())
        | none => some (.error .riskBreachTickSize)

def checkDailyLimit (r : RiskManager) (req : RiskRequest) : Option (Result Unit) :=
  if req.type ≠ .limit then some (.ok ())
  else
    match r.configs.lookup req.symbol.value with
    | none => some (.ok ())
    | some config =>
      if config.previousClose ≤ 0 ∨ config.dailyLimitBps ≤ 0 then some (.ok ())
      else do
        let diff ← if req.price ≥ config.previousClose then
            Bounded.sub 63 req.price config.previousClose
          else Bounded.sub 63 config.previousClose req.price
        let lhs ← Bounded.mul 127 diff 10000
        let rhs ← Bounded.mul 127 config.previousClose config.dailyLimitBps
        some (if lhs > rhs then .error .riskBreachDailyLimit else .ok ())

def andThen (first next : Option (Result Unit)) : Option (Result Unit) :=
  match first with
  | some (.ok ()) => next
  | other => other

def checkLimitOrder (r : RiskManager) (req : RiskRequest) : Option (Result Unit) := do
  let notional ← Bounded.mul 127 req.price req.quantity
  if notional > r.limits.maxNotional then some (.error .riskBreachNotional)
  else checkPriceBand r req

def checkRules (r : RiskManager) (req : RiskRequest) : Option (Result Unit) :=
  if req.quantity ≤ 0 then some (.error .invalidQuantity)
  else if req.symbol.value = [] then some (.error .invalidSymbol)
  else if req.type = .limit ∧ req.price ≤ 0 then some (.error .invalidPrice)
  else if req.quantity > r.limits.maxOrderQty then some (.error .riskBreachMaxQty)
  else
    andThen (if req.type = .limit then checkLimitOrder r req else some (.ok ()))
      (andThen (checkLotSize r req) (andThen (checkTickSize r req) (checkDailyLimit r req)))

variable {r : RiskManager} {req : RiskRequest}

/-- The distance of two positive prices, and its product with a small number. -/
theorem distance_fits {x y : ℤ} (hx : 0 < x) (hy : 0 < y) (hxw : InInt64 x) (hyw : InInt64 y) :
    Bounded.sub 63 x y = some (x - y) ∧ Bounded.abs 63 (x - y) = some |x - y| ∧
      Bounded.mul 127 |x - y| 10000 = some (|x - y| * 10000) := by
  have hrange : |x - y| < 2 ^ 63 := by
    obtain ⟨-, hp⟩ := hxw
    obtain ⟨-, hf⟩ := hyw
    exact abs_lt.mpr ⟨by omega, by omega⟩
  refine ⟨Bounded.sub_eq (le_of_lt hx) (le_of_lt hy) hxw.2 hyw.2,
    Bounded.abs_eq (abs_lt.mp hrange).1 (abs_lt.mp hrange).2, ?_⟩
  exact Bounded.mul_eq (u := 63) (v := 14) (by rw [abs_abs]; exact le_of_lt hrange) (by decide)
    (by decide)

theorem bps_fits {x bps : ℤ} (hx : InInt64 x) (hbps : InInt32 bps) :
    Bounded.mul 127 x bps = some (x * bps) :=
  Bounded.mul_eq (abs_le_of_inInt64 hx) (abs_le_of_inInt32 hbps) (by decide)

theorem checkPriceBand_eq (hr : r.InRange) (hreq : req.InRange) (hprice : 0 < req.price) :
    checkPriceBand r req = some (r.checkPriceBand req) := by
  rw [checkPriceBand, RiskManager.checkPriceBand]
  cases href : r.referencePrices.lookup req.symbol.value with
  | none => rfl
  | some ref =>
    by_cases hpos : ref ≤ 0
    · simp [hpos]
    · have hrange := hr.reference _ _ href
      obtain ⟨hsub, habs, hlhs⟩ := distance_fits hprice (not_le.mp hpos) hreq.price hrange
      have hrhs := bps_fits hrange hr.limits.priceBandBps
      simp only [hpos, if_false, hsub, habs, hlhs, hrhs, Option.bind_eq_bind, Option.bind_some]

theorem checkLotSize_eq (hreq : req.InRange) (hquantity : 0 < req.quantity) :
    checkLotSize r req = some (r.checkLotSize req) := by
  rw [checkLotSize, RiskManager.checkLotSize]
  cases r.configs.lookup req.symbol.value with
  | none => rfl
  | some config =>
    by_cases hpos : config.lotSize ≤ 0
    · simp [hpos]
    · have hrem := Bounded.rem_eq (le_of_lt hquantity) (not_le.mp hpos) hreq.quantity.2
      simp only [hpos, if_false, hrem, Option.bind_eq_bind, Option.bind_some]

theorem checkTickSize_eq (hreq : req.InRange) (hprice : req.type = .limit → 0 < req.price) :
    checkTickSize r req = some (r.checkTickSize req) := by
  rw [checkTickSize, RiskManager.checkTickSize]
  by_cases hlimit : req.type = .limit
  · cases r.configs.lookup req.symbol.value with
    | none => simp [hlimit]
    | some config =>
      by_cases hempty : config.tickBands = []
      · simp [hlimit, hempty]
      · simp only [hlimit, ne_eq, not_true_eq_false, if_false, hempty]
        cases config.tickBands.find? fun b => b.low ≤ req.price ∧ req.price ≤ b.high with
        | none => rfl
        | some band =>
          by_cases hpos : band.tick ≤ 0
          · simp [hpos]
          · have hrem := Bounded.rem_eq (le_of_lt (hprice hlimit)) (not_le.mp hpos) hreq.price.2
            simp only [hpos, if_false, false_or, hrem, Option.bind_eq_bind, Option.bind_some]
  · simp [hlimit]

theorem checkDailyLimit_eq (hr : r.InRange) (hreq : req.InRange)
    (hprice : req.type = .limit → 0 < req.price) :
    checkDailyLimit r req = some (r.checkDailyLimit req) := by
  rw [checkDailyLimit, RiskManager.checkDailyLimit]
  by_cases hlimit : req.type = .limit
  · cases hconfig : r.configs.lookup req.symbol.value with
    | none => simp [hlimit]
    | some config =>
      by_cases hset : config.previousClose ≤ 0 ∨ config.dailyLimitBps ≤ 0
      · simp [hlimit, hset]
      · have hrange := hr.config _ _ hconfig
        have hclose := not_le.mp (not_or.mp hset).1
        have hrhs := bps_fits hrange.previousClose hrange.dailyLimitBps
        simp only [hlimit, ne_eq, not_true_eq_false, if_false, hset]
        by_cases hge : req.price ≥ config.previousClose
        · obtain ⟨hsub, -, hlhs⟩ :=
            distance_fits (hprice hlimit) hclose hreq.price hrange.previousClose
          rw [abs_of_nonneg (by omega)] at hlhs
          simp only [if_pos hge, hsub, hlhs, hrhs, Option.bind_eq_bind, Option.bind_some]
        · obtain ⟨hsub, -, hlhs⟩ :=
            distance_fits hclose (hprice hlimit) hrange.previousClose hreq.price
          rw [abs_of_nonneg (by omega)] at hlhs
          simp only [if_neg hge, hsub, hlhs, hrhs, Option.bind_eq_bind, Option.bind_some]
  · simp [hlimit]

theorem checkLimitOrder_eq (hr : r.InRange) (hreq : req.InRange) (hprice : 0 < req.price) :
    checkLimitOrder r req = some (if req.price * req.quantity > r.limits.maxNotional then
      .error .riskBreachNotional else r.checkPriceBand req) := by
  have hmul : Bounded.mul 127 req.price req.quantity = some (req.price * req.quantity) :=
    Bounded.mul_eq (abs_le_of_inInt64 hreq.price) (abs_le_of_inInt64 hreq.quantity) (by decide)
  rw [checkLimitOrder, checkPriceBand_eq hr hreq hprice, hmul]
  simp only [Option.bind_eq_bind, Option.bind_some]
  split_ifs <;> rfl

theorem andThen_some (first next : Result Unit) :
    andThen (some first) (some next) = some (do first; next) := by
  cases first with
  | error err => rfl
  | ok u => rfl

theorem checkRules_eq (hr : r.InRange) (hreq : req.InRange) :
    checkRules r req = some (r.checkRules req) := by
  rw [checkRules, RiskManager.checkRules]
  by_cases hquantity : req.quantity ≤ 0
  · simp only [if_pos hquantity]
    rfl
  by_cases hsymbol : req.symbol.value = []
  · simp only [if_neg hquantity, if_pos hsymbol]
    rfl
  by_cases hprice : req.type = .limit ∧ req.price ≤ 0
  · simp only [if_neg hquantity, if_neg hsymbol, if_pos hprice]
    rfl
  by_cases hmax : req.quantity > r.limits.maxOrderQty
  · simp only [if_neg hquantity, if_neg hsymbol, if_neg hprice, if_pos hmax]
    rfl
  have hlimitPrice : req.type = .limit → 0 < req.price :=
    fun hlimit => not_le.mp fun hle => hprice ⟨hlimit, hle⟩
  simp only [if_neg hquantity, if_neg hsymbol, if_neg hprice, if_neg hmax]
  rw [checkLotSize_eq hreq (not_le.mp hquantity), checkTickSize_eq hreq hlimitPrice,
    checkDailyLimit_eq hr hreq hlimitPrice]
  by_cases hlimit : req.type = .limit
  · simp only [if_pos hlimit]
    rw [checkLimitOrder_eq hr hreq (hlimitPrice hlimit), andThen_some, andThen_some, andThen_some]
    split_ifs <;> rfl
  · simp only [if_neg hlimit]
    rw [andThen_some, andThen_some, andThen_some]
    rfl

def check (r : RiskManager) (now : ℤ) (req : RiskRequest) : Option (Result Unit × RiskManager) :=
  (checkRules r req).map fun res =>
    match res with
    | .error err => (.error err, r)
    | .ok () => r.checkRateLimit now

theorem check_eq (hr : r.InRange) (hreq : req.InRange) (now : ℤ) :
    check r now req = some (r.check now req) := by
  rw [check, checkRules_eq hr hreq, RiskManager.check]
  cases r.checkRules req <;> rfl

end RiskManager.Machine

end Oems
