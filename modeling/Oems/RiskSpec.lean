import Oems.RiskArithmetic
import Oems.Lib.Checks

namespace Oems

open Lib

/-- The rules of the risk gate, in the order of precedence of their errors. -/
inductive RiskRule where
  | quantity
  | symbol
  | price
  | maxQty
  | notional
  | band
  | lot
  | tick
  | daily
  deriving DecidableEq, Repr

namespace RiskRule

def all : List RiskRule := [quantity, symbol, price, maxQty, notional, band, lot, tick, daily]

def error : RiskRule → OemsError
  | quantity => .invalidQuantity
  | symbol => .invalidSymbol
  | price => .invalidPrice
  | maxQty => .riskBreachMaxQty
  | notional => .riskBreachNotional
  | band => .riskBreachPriceBand
  | lot => .riskBreachLotSize
  | tick => .riskBreachTickSize
  | daily => .riskBreachDailyLimit

end RiskRule

/-- The first band that contains the price has a tick that divides it. -/
def OnTick (bands : List TickBand) (price : ℤ) : Prop :=
  ∃ pre b post, bands = pre ++ b :: post ∧ (∀ c ∈ pre, ¬ (c.low ≤ price ∧ price ≤ c.high)) ∧
    (b.low ≤ price ∧ price ≤ b.high) ∧ 0 < b.tick ∧ b.tick ∣ price

def RiskRule.Holds (r : RiskManager) (req : RiskRequest) : RiskRule → Prop
  | quantity => 0 < req.quantity
  | symbol => req.symbol.value ≠ []
  | price => req.type = .limit → 0 < req.price
  | maxQty => req.quantity ≤ r.limits.maxOrderQty
  | notional => req.type = .limit → req.price * req.quantity ≤ r.limits.maxNotional
  | band => req.type = .limit → ∀ ref, r.getReferencePrice req.symbol = some ref → 0 < ref →
      |req.price - ref| * 10000 ≤ ref * r.limits.priceBandBps
  | lot => ∀ config, r.getSymbolConfig req.symbol = some config → 0 < config.lotSize →
      config.lotSize ∣ req.quantity
  | tick => req.type = .limit → ∀ config, r.getSymbolConfig req.symbol = some config →
      config.tickBands ≠ [] → OnTick config.tickBands req.price
  | daily => req.type = .limit → ∀ config, r.getSymbolConfig req.symbol = some config →
      0 < config.previousClose → 0 < config.dailyLimitBps →
      |req.price - config.previousClose| * 10000 ≤ config.previousClose * config.dailyLimitBps

namespace RiskManager

variable {r : RiskManager} {req : RiskRequest}

/-- A check that is a rule: it succeeds where the rule holds and gives the
rule's error otherwise. -/
def Decides (r : RiskManager) (req : RiskRequest) (rule : RiskRule) (res : Result Unit) : Prop :=
  (rule.Holds r req → res = .ok ()) ∧ (¬ rule.Holds r req → res = .error rule.error)

theorem checkPriceBand_decides (hlimit : req.type = .limit) :
    Decides r req .band (r.checkPriceBand req) := by
  have hholds : RiskRule.Holds r req .band ↔ ∀ ref, r.referencePrices.lookup req.symbol.value =
      some ref → 0 < ref → |req.price - ref| * 10000 ≤ ref * r.limits.priceBandBps :=
    ⟨fun h => h hlimit, fun h _ => h⟩
  rw [Decides, hholds, checkPriceBand]
  cases r.referencePrices.lookup req.symbol.value with
  | none => simp
  | some ref =>
    by_cases hpos : ref ≤ 0
    · simp [hpos, not_lt.mpr hpos]
    · by_cases hgt : |req.price - ref| * 10000 > ref * r.limits.priceBandBps
      · simp [hpos, hgt, not_le.mp hpos, RiskRule.error]
      · simp [hpos, hgt, not_lt.mp hgt]

theorem checkLotSize_decides : Decides r req .lot (r.checkLotSize req) := by
  rw [Decides, RiskRule.Holds, getSymbolConfig, checkLotSize]
  cases r.configs.lookup req.symbol.value with
  | none => simp
  | some config =>
    by_cases hpos : config.lotSize ≤ 0
    · simp [hpos, not_lt.mpr hpos]
    · by_cases hdvd : config.lotSize ∣ req.quantity
      · simp [hpos, hdvd, Int.tmod_eq_zero_of_dvd hdvd]
      · have hmod : req.quantity.tmod config.lotSize ≠ 0 :=
          fun h => hdvd (Int.dvd_of_tmod_eq_zero h)
        simp [hpos, not_le.mp hpos, hdvd, hmod, RiskRule.error]

theorem onTick_iff {bands : List TickBand} {price : ℤ} : OnTick bands price ↔
    ∃ b, (bands.find? fun b => b.low ≤ price ∧ price ≤ b.high) = some b ∧ 0 < b.tick ∧
      b.tick ∣ price := by
  simp only [OnTick, List.find?_eq_some_iff_append, decide_eq_true_eq, Bool.not_eq_true',
    decide_eq_false_iff_not]
  constructor
  · rintro ⟨pre, b, post, rfl, hpre, hb, hpos, hdvd⟩
    exact ⟨b, ⟨hb, pre, post, rfl, hpre⟩, hpos, hdvd⟩
  · rintro ⟨b, ⟨hb, pre, post, rfl, hpre⟩, hpos, hdvd⟩
    exact ⟨pre, b, post, rfl, hpre, hb, hpos, hdvd⟩

theorem checkTickSize_decides : Decides r req .tick (r.checkTickSize req) := by
  rw [Decides, RiskRule.Holds, getSymbolConfig, checkTickSize]
  by_cases hlimit : req.type = .limit
  · cases r.configs.lookup req.symbol.value with
    | none => simp [hlimit]
    | some config =>
      by_cases hempty : config.tickBands = []
      · simp [hlimit, hempty]
      · simp only [hlimit, ne_eq, not_true_eq_false, if_false, hempty, Option.some.injEq,
          forall_eq', not_false_eq_true, forall_const, onTick_iff]
        cases config.tickBands.find? fun b => b.low ≤ req.price ∧ req.price ≤ b.high with
        | none => simp [RiskRule.error]
        | some b =>
          by_cases hpos : b.tick ≤ 0
          · simp [hpos, not_lt.mpr hpos, RiskRule.error]
          · by_cases hdvd : b.tick ∣ req.price
            · simp [hpos, not_le.mp hpos, hdvd, Int.tmod_eq_zero_of_dvd hdvd]
            · have hmod : req.price.tmod b.tick ≠ 0 := fun h => hdvd (Int.dvd_of_tmod_eq_zero h)
              simp [hpos, hdvd, hmod, RiskRule.error]
  · simp [hlimit]

theorem checkDailyLimit_decides : Decides r req .daily (r.checkDailyLimit req) := by
  rw [Decides, RiskRule.Holds, getSymbolConfig, checkDailyLimit]
  by_cases hlimit : req.type = .limit
  · cases r.configs.lookup req.symbol.value with
    | none => simp [hlimit]
    | some config =>
      have hdiff : (if req.price ≥ config.previousClose then req.price - config.previousClose
          else config.previousClose - req.price) = |req.price - config.previousClose| := by
        split_ifs with hge
        · exact (abs_of_nonneg (by omega)).symm
        · rw [abs_of_nonpos (by omega)]
          omega
      simp only [hlimit, ne_eq, not_true_eq_false, if_false, hdiff, Option.some.injEq,
        forall_eq', forall_const]
      by_cases hset : config.previousClose ≤ 0 ∨ config.dailyLimitBps ≤ 0
      · rw [if_pos hset]
        have hoff : ¬ (0 < config.previousClose ∧ 0 < config.dailyLimitBps) := by omega
        exact ⟨fun _ => rfl, fun h => absurd (fun hc hb => absurd ⟨hc, hb⟩ hoff) h⟩
      · obtain ⟨hclose, hbps⟩ := not_or.mp hset
        rw [if_neg hset]
        by_cases hgt : |req.price - config.previousClose| * 10000 >
            config.previousClose * config.dailyLimitBps
        · simp [hgt, not_le.mp hclose, not_le.mp hbps, RiskRule.error]
        · simp [hgt, not_lt.mp hgt]
  · simp [hlimit]

section InOrder

variable [DecidablePred fun rule => RiskRule.Holds r req rule] {rule : RiskRule}
  {rules : List RiskRule}

abbrev firstError (r : RiskManager) (req : RiskRequest)
    [DecidablePred fun rule => RiskRule.Holds r req rule] (rules : List RiskRule) : Result Unit :=
  Checks.firstError (fun rule => RiskRule.Holds r req rule) RiskRule.error rules

theorem Decides.then {res rest : Result Unit} (h : Decides r req rule res)
    (hrest : rest = firstError r req rules) :
    (do res; rest) = firstError r req (rule :: rules) := by
  rw [firstError, Checks.firstError]
  split_ifs with hholds
  · rw [h.1 hholds, ← firstError, ← hrest]
    rfl
  · rw [h.2 hholds]
    rfl

theorem throw_unless (rule : RiskRule) {c : Prop} [Decidable c] (h : c ↔ ¬ rule.Holds r req)
    {rest : PUnit → Result Unit} (hrest : rest () = firstError r req rules) :
    (if c then (do let u ← throw rule.error; rest u) else rest ()) =
      firstError r req (rule :: rules) := by
  rw [firstError, Checks.firstError]
  split_ifs with hc hholds hholds
  · exact absurd hholds (h.mp hc)
  · rfl
  · exact hrest
  · exact absurd (h.mpr hholds) hc

theorem firstError_of_holds (h : rule.Holds r req) :
    firstError r req (rule :: rules) = firstError r req rules := by
  rw [firstError, Checks.firstError, if_pos h]

theorem firstError_last {res : Result Unit} (h : Decides r req rule res) :
    res = firstError r req [rule] := by
  rw [firstError, Checks.firstError]
  split_ifs with hholds
  · exact h.1 hholds
  · exact h.2 hholds

theorem marketRules_eq : (do r.checkLotSize req; r.checkTickSize req; r.checkDailyLimit req) =
    firstError r req [.lot, .tick, .daily] :=
  checkLotSize_decides.then (checkTickSize_decides.then (firstError_last checkDailyLimit_decides))

theorem checkRules_eq : r.checkRules req = firstError r req RiskRule.all := by
  rw [checkRules]
  refine throw_unless .quantity (by simp [RiskRule.Holds]) ?_
  refine throw_unless .symbol (by simp [RiskRule.Holds]) ?_
  refine throw_unless .price (by simp [RiskRule.Holds]) ?_
  refine throw_unless .maxQty (by simp [RiskRule.Holds]) ?_
  by_cases hlimit : req.type = .limit
  · simp only [if_pos hlimit]
    refine throw_unless .notional (by simp [RiskRule.Holds, hlimit]) ?_
    exact (checkPriceBand_decides hlimit).then marketRules_eq
  · have hnotional : RiskRule.Holds r req .notional := fun h => absurd h hlimit
    have hband : RiskRule.Holds r req .band := fun h => absurd h hlimit
    simp only [if_neg hlimit]
    rw [firstError_of_holds hnotional, firstError_of_holds hband]
    exact marketRules_eq

end InOrder

/-- The window of the last second takes one more order. -/
def HasRoom (r : RiskManager) (now : ℤ) : Prop :=
  ((r.recentOrders.dropWhile fun t => t < now - 10 ^ 9).length : ℤ) < r.limits.maxOrdersPerSecond

theorem check_eq_of_room {now : ℤ} (h : r.HasRoom now) : (r.check now req).1 = r.checkRules req := by
  rw [check]
  cases r.checkRules req with
  | error err => rfl
  | ok u =>
    rw [HasRoom, ← not_le] at h
    simp only [checkRateLimit, if_neg h]

theorem check_unchanged {err : OemsError} (h : r.checkRules req = .error err) (now : ℤ) :
    (r.check now req).2 = r := by
  rw [check, h]

end RiskManager

open Classical in
/-- The risk gate is its rules: it lets a request through that meets them all,
and gives the error of the first that is not met. -/
theorem riskGate_eq_spec (r : RiskManager) (hr : r.InRange) (req : RiskRequest)
    (hreq : req.InRange) (now : ℤ) (hroom : r.HasRoom now) :
    RiskManager.Machine.check r now req = some (r.check now req) ∧
      ((r.check now req).1 = .ok () ↔ ∀ rule ∈ RiskRule.all, rule.Holds r req) ∧
      (∀ err, (r.check now req).1 = .error err ↔ ∃ pre rule post,
        RiskRule.all = pre ++ rule :: post ∧ (∀ before ∈ pre, before.Holds r req) ∧
          ¬ rule.Holds r req ∧ rule.error = err) ∧
      ((∃ rule ∈ RiskRule.all, ¬ rule.Holds r req) → (r.check now req).2 = r) := by
  have hrules : r.checkRules req = RiskManager.firstError r req RiskRule.all :=
    RiskManager.checkRules_eq
  rw [RiskManager.check_eq_of_room hroom, hrules]
  refine ⟨RiskManager.Machine.check_eq hr hreq now, Checks.firstError_eq_ok_iff,
    fun err => Checks.firstError_eq_error_iff, fun ⟨rule, hmem, hfails⟩ => ?_⟩
  cases hres : r.checkRules req with
  | error err => exact RiskManager.check_unchanged hres now
  | ok u => exact absurd (Checks.firstError_eq_ok_iff.mp (hrules.symm.trans hres) rule hmem) hfails

def referenced : RiskManager :=
  (RiskManager.new RiskLimits.default).setReferencePrice ⟨str "AAPL"⟩ 10000

def nearReference : RiskRequest := ⟨⟨str "AAPL"⟩, .buy, .limit, 10001, 100⟩

theorem referenced_inRange : referenced.InRange :=
  (RiskManager.InRange.new ⟨by decide, by decide, by decide, by decide⟩).setReferencePrice _
    (by decide)

theorem nearReference_spec : RiskManager.Machine.check referenced 0 nearReference =
      some (referenced.check 0 nearReference) ∧
    ((referenced.check 0 nearReference).1 = .ok () ↔
      ∀ rule ∈ RiskRule.all, rule.Holds referenced nearReference) ∧
    (∀ err, (referenced.check 0 nearReference).1 = .error err ↔ ∃ pre rule post,
      RiskRule.all = pre ++ rule :: post ∧
        (∀ before ∈ pre, before.Holds referenced nearReference) ∧
        ¬ rule.Holds referenced nearReference ∧ rule.error = err) ∧
    ((∃ rule ∈ RiskRule.all, ¬ rule.Holds referenced nearReference) →
      (referenced.check 0 nearReference).2 = referenced) :=
  riskGate_eq_spec referenced referenced_inRange nearReference ⟨by decide, by decide⟩ 0
    (by change (0 : ℤ) < 100; decide)

end Oems
