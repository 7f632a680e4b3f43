import Oems.OrderManager
import Oems.Lib.Apportion
import Oems.Lib.RoundEven

namespace Oems

open Lib OrderManager

inductive AlgoType where
  | twap
  | vwap
  deriving DecidableEq, Repr

/-- The duration is in seconds. -/
structure AlgoParams where
  parent : NewOrderRequest
  duration : ℤ
  numSlices : ℤ
  deriving DecidableEq, Repr

structure ChildSlice where
  request : NewOrderRequest
  scheduledAt : ℤ
  deriving DecidableEq, Repr

/-- The weights are exact where the source has doubles. -/
structure AlgoRequest where
  type : AlgoType
  params : AlgoParams
  vwapProfile : List ℚ

structure AlgoRun where
  type : AlgoType
  params : AlgoParams
  childOrderIds : List ℕ
  submitted : ℕ
  rejected : ℕ
  deriving DecidableEq, Repr

/-- The slice `i` of a schedule, whose step is a whole number of seconds. Times are counted in
nanoseconds. -/
def childSlice (params : AlgoParams) (start : ℤ) (i : ℕ) (qty : ℤ) : ChildSlice where
  request := { params.parent with quantity := qty }
  scheduledAt := wrapInt64 (start + params.duration.tdiv params.numSlices * i * 10 ^ 9)

def generateTwapSlices (params : AlgoParams) (start : ℤ) : List ChildSlice :=
  if params.numSlices ≤ 0 ∨ params.parent.quantity ≤ 0 then []
  else
    let perSlice := params.parent.quantity.tdiv params.numSlices
    let remainder := params.parent.quantity.tmod params.numSlices
    (List.range params.numSlices.toNat).map fun i =>
      childSlice params start i
        (if (i : ℤ) = params.numSlices - 1 then perSlice + remainder else perSlice)

/-- A U-shape: heavy at open and close, light midday. -/
def defaultVolumeProfile (buckets : ℤ) : List ℚ :=
  if buckets ≤ 0 then []
  else
    let mid : ℚ := (buckets - 1 : ℚ) / 2
    let weights := (List.range buckets.toNat).map fun i : ℕ =>
      let x : ℚ := i - mid
      1 + x * x / (mid * mid + 1)
    weights.map fun w => w / weights.sum

def llround : ℚ → ℤ := Apportion.roundAway

/-- `static_cast<double>` of a quantity. A double has 53 binary digits. -/
def toDouble (qty : ℤ) : ℤ := qty.sign * RoundEven.significant 53 qty.natAbs

theorem toDouble_of_lt {qty : ℤ} (hq : 0 < qty) (h : qty < 2 ^ 53) : toDouble qty = qty := by
  rw [toDouble, Int.sign_eq_one_of_pos hq, one_mul,
    RoundEven.significant_of_lt (by omega) (by omega), Int.natAbs_of_nonneg hq.le]

theorem toDouble_nonneg {qty : ℤ} (hq : 0 < qty) : 0 ≤ toDouble qty := by
  rw [toDouble, Int.sign_eq_one_of_pos hq, one_mul]
  exact Int.natCast_nonneg _

/-- The loop of `GenerateVwapSlices` from slice `i` on, over the weights that are left. -/
def vwapSlices (params : AlgoParams) (start : ℤ) : ℕ → ℤ → List ℚ → List ChildSlice
  | _, _, [] => []
  | i, allocated, w :: profile =>
    if (i : ℤ) < params.numSlices - 1 then
      let qty := llround (toDouble params.parent.quantity * w)
      childSlice params start i qty :: vwapSlices params start (i + 1) (allocated + qty) profile
    else
      -- the last slice absorbs the rounding drift
      childSlice params start i (params.parent.quantity - allocated) ::
        vwapSlices params start (i + 1) allocated profile

def generateVwapSlices (params : AlgoParams) (start : ℤ) (profile : List ℚ) : List ChildSlice :=
  if params.numSlices ≤ 0 ∨ params.parent.quantity ≤ 0 then []
  else
    let profile := if profile = [] then defaultVolumeProfile params.numSlices else profile
    if (profile.length : ℤ) ≠ params.numSlices then []
    else
      if profile.sum ≤ 0 then []
      else vwapSlices params start 0 0 (profile.map fun w => w / profile.sum)

def AlgoRequest.slices (req : AlgoRequest) (start : ℤ) : List ChildSlice :=
  match req.type with
  | .twap => generateTwapSlices req.params start
  | .vwap => generateVwapSlices req.params start req.vwapProfile

/-- Run ids are handed out in order. -/
structure AlgoEngine where
  nextRunId : ℕ
  runs : Finmap fun _ : ℕ => AlgoRun
  fresh : ∀ id ∈ runs, id < nextRunId

namespace AlgoEngine

def new : AlgoEngine := ⟨1, ∅, fun _ h => absurd h Finmap.notMem_empty⟩

def emplace (e : AlgoEngine) (run : AlgoRun) : AlgoEngine where
  nextRunId := e.nextRunId + 1
  runs := e.runs.insert e.nextRunId run
  fresh := by
    intro id h
    obtain rfl | h := Finmap.mem_insert.mp h
    · exact Nat.lt_succ_self _
    · exact Nat.lt_succ_of_lt (e.fresh id h)

def submitSlice (check : RiskCheck) (s : AlgoRun × OrderManager) (slice : ChildSlice) :
    AlgoRun × OrderManager :=
  match s.2.submitOrder check slice.request with
  | (.ok order, m) =>
    ({ s.1 with
      childOrderIds := s.1.childOrderIds ++ [order.internalId]
      submitted := s.1.submitted + 1 }, m)
  | (.error _, m) => ({ s.1 with rejected := s.1.rejected + 1 }, m)

/-- The loop over the slices; `checks` holds the risk checks to come. -/
def submitSlices : (ℕ → RiskCheck) → AlgoRun × OrderManager → List ChildSlice →
    AlgoRun × OrderManager
  | _, s, [] => s
  | checks, s, slice :: slices =>
    submitSlices (fun k => checks (k + 1)) (submitSlice (checks 0) s slice) slices

def startAlgo (checks : ℕ → RiskCheck) (start : ℤ) (e : AlgoEngine) (m : OrderManager)
    (req : AlgoRequest) : Result ℕ × AlgoEngine × OrderManager :=
  if req.params.numSlices ≤ 0 ∨ req.params.parent.quantity ≤ 0 then (.error .invalidQuantity, e, m)
  else
    let slices := req.slices start
    if slices = [] then (.error .invalidQuantity, e, m)
    else
      let ran := submitSlices checks (⟨req.type, req.params, [], 0, 0⟩, m) slices
      (.ok e.nextRunId, e.emplace ran.1, ran.2)

def getRun (e : AlgoEngine) (runId : ℕ) : Result AlgoRun :=
  match e.runs.lookup runId with
  | none => .error .orderNotFound
  | some run => .ok run

end AlgoEngine

end Oems
