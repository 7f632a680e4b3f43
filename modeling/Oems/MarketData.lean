import Oems.RiskManager
import Oems.Lib.Bounded
import Oems.Lib.Latest

namespace Oems

open Lib

structure Bbo where
  symbol : Symbol
  bidPrice : ℤ
  bidQty : ℤ
  askPrice : ℤ
  askQty : ℤ
  timestamp : ℤ
  deriving DecidableEq, Repr

def Bbo.default : Bbo := ⟨⟨[]⟩, 0, 0, 0, 0, 0⟩

structure MarketSnapshot where
  bbo : Bbo
  lastTradePrice : ℤ
  lastTradeQty : ℤ
  lastUpdate : ℤ
  deriving DecidableEq, Repr

def MarketSnapshot.default : MarketSnapshot := ⟨Bbo.default, 0, 0, 0⟩

/-- The handler with the risk manager it refers to. -/
structure MarketDataHandler where
  risk : RiskManager
  snapshots : Finmap fun _ : Str => MarketSnapshot

namespace MarketDataHandler

def new (risk : RiskManager) : MarketDataHandler := ⟨risk, ∅⟩

/-- `snapshots_[symbol]`, made when there is none. -/
def snapshot (h : MarketDataHandler) (symbol : Symbol) : MarketSnapshot :=
  (h.snapshots.lookup symbol.value).getD MarketSnapshot.default

def setSnapshot (h : MarketDataHandler) (symbol : Symbol) (snap : MarketSnapshot) :
    MarketDataHandler :=
  { h with snapshots := h.snapshots.insert symbol.value snap }

def setReferencePrice (h : MarketDataHandler) (symbol : Symbol) (price : ℤ) : MarketDataHandler :=
  { h with risk := h.risk.setReferencePrice symbol price }

/-- The price that a BBO gives, 0 when it has none. The sum is taken in 64 bits, and
has no result when it does not fit. -/
def referenceOf (bbo : Bbo) : Option ℤ :=
  if bbo.bidPrice > 0 ∧ bbo.askPrice > 0 then
    (Bounded.add 63 bbo.bidPrice bbo.askPrice).map fun sum => sum.tdiv 2
  else if bbo.bidPrice > 0 then some bbo.bidPrice
  else if bbo.askPrice > 0 then some bbo.askPrice
  else some 0

def onBbo (h : MarketDataHandler) (bbo : Bbo) : Option MarketDataHandler :=
  let h := h.setSnapshot bbo.symbol
    { h.snapshot bbo.symbol with bbo, lastUpdate := bbo.timestamp }
  (referenceOf bbo).map fun ref => if ref > 0 then h.setReferencePrice bbo.symbol ref else h

def onTrade (h : MarketDataHandler) (symbol : Symbol) (price qty now : ℤ) : MarketDataHandler :=
  let snap := h.snapshot symbol
  let h := h.setSnapshot symbol
    ⟨{ snap.bbo with symbol }, price, qty, now⟩
  if price > 0 then h.setReferencePrice symbol price else h

def getSnapshot (h : MarketDataHandler) (symbol : Symbol) : Option MarketSnapshot :=
  h.snapshots.lookup symbol.value

end MarketDataHandler

/-- An update of the market data. A trade comes with the reading of the clock. -/
inductive MarketUpdate where
  | bbo (bbo : Bbo)
  | trade (symbol : Symbol) (price qty now : ℤ)

namespace MarketUpdate

def symbol : MarketUpdate → Symbol
  | bbo b => b.symbol
  | trade symbol .. => symbol

/-- The positive price that an update carries: of a trade its price, of a BBO the floor
of the midpoint, or the one positive side. -/
def price : MarketUpdate → Option ℤ
  | bbo b =>
    if 0 < b.bidPrice ∧ 0 < b.askPrice then some ((b.bidPrice + b.askPrice) / 2)
    else if 0 < b.bidPrice then some b.bidPrice
    else if 0 < b.askPrice then some b.askPrice
    else none
  | trade _ price _ _ => if 0 < price then some price else none

/-- A BBO with two positive sides has a sum of 64 bits. -/
def Fits : MarketUpdate → Prop
  | bbo b => 0 < b.bidPrice → 0 < b.askPrice → b.bidPrice + b.askPrice < 2 ^ 63
  | trade .. => True

def priceOf (s : Symbol) (u : MarketUpdate) : Option ℤ := if u.symbol = s then u.price else none

def bboOf (s : Symbol) : MarketUpdate → Option Bbo
  | bbo b => if b.symbol = s then some b else none
  | trade .. => none

def tradeOf (s : Symbol) : MarketUpdate → Option (ℤ × ℤ)
  | bbo _ => none
  | trade symbol price qty _ => if symbol = s then some (price, qty) else none

theorem price_between {b : Bbo} (hbid : 0 < b.bidPrice) (hask : 0 < b.askPrice) {p : ℤ}
    (h : (bbo b).price = some p) :
    min b.bidPrice b.askPrice ≤ p ∧ p ≤ max b.bidPrice b.askPrice := by
  rw [price, if_pos ⟨hbid, hask⟩] at h
  cases h
  omega

theorem symbol_of_latest {s : Symbol} {us : List MarketUpdate} {b : Bbo}
    (h : latest (bboOf s) us = some b) : b.symbol = s := by
  obtain ⟨u, -, hu⟩ := exists_of_latest _ h
  cases u with
  | bbo b' =>
    rw [bboOf] at hu
    split_ifs at hu with hs
    cases hu
    exact hs
  | trade symbol price qty now => cases hu

theorem price_pos {u : MarketUpdate} {p : ℤ} (h : u.price = some p) : 0 < p := by
  cases u with
  | bbo b =>
    rw [price] at h
    split_ifs at h with hboth hbid hask
    · cases h
      omega
    · cases h
      exact hbid
    · cases h
      exact hask
  | trade symbol price qty now =>
    rw [MarketUpdate.price] at h
    split_ifs at h with hp
    cases h
    exact hp

end MarketUpdate

namespace MarketDataHandler

open MarketUpdate

def step (h : MarketDataHandler) : MarketUpdate → Option MarketDataHandler
  | .bbo b => h.onBbo b
  | .trade symbol price qty now => some (h.onTrade symbol price qty now)

/-- A run has no result when one of its updates has none. -/
def run (h : MarketDataHandler) (us : List MarketUpdate) : Option MarketDataHandler :=
  us.foldlM step h

theorem run_concat (h : MarketDataHandler) (us : List MarketUpdate) (u : MarketUpdate) :
    h.run (us ++ [u]) = (h.run us).bind fun h' => h'.step u := by
  rw [run, List.foldlM_append, run]
  cases us.foldlM step h with
  | none => rfl
  | some h' =>
    change (step h' u).bind some = step h' u
    exact Option.bind_fun_some _

def shown (snap : MarketSnapshot) : MarketUpdate → MarketSnapshot
  | .bbo b => { snap with bbo := b, lastUpdate := b.timestamp }
  | .trade symbol price qty now => ⟨{ snap.bbo with symbol }, price, qty, now⟩

def takes (h : MarketDataHandler) (u : MarketUpdate) : MarketDataHandler :=
  let h := h.setSnapshot u.symbol (shown (h.snapshot u.symbol) u)
  match u.price with
  | none => h
  | some p => h.setReferencePrice u.symbol p

theorem onTrade_eq (h : MarketDataHandler) (symbol : Symbol) (price qty now : ℤ) :
    h.onTrade symbol price qty now = h.takes (.trade symbol price qty now) := by
  rw [onTrade, takes, MarketUpdate.price]
  by_cases hp : 0 < price
  · rw [if_pos hp, if_pos hp]
    rfl
  · rw [if_neg hp, if_neg hp]
    rfl

theorem referenceOf_eq {b : Bbo} (h : (MarketUpdate.bbo b).Fits) :
    referenceOf b = some ((MarketUpdate.bbo b).price.getD 0) := by
  rw [referenceOf, MarketUpdate.price]
  by_cases hboth : 0 < b.bidPrice ∧ 0 < b.askPrice
  · obtain ⟨hbid, hask⟩ := hboth
    have hsum := h hbid hask
    rw [if_pos ⟨hbid, hask⟩, if_pos ⟨hbid, hask⟩, Bounded.add_eq hbid.le hask.le, if_pos hsum,
      Option.map_some, Option.getD_some, Int.tdiv_eq_ediv_of_nonneg (by omega)]
  · rw [if_neg hboth, if_neg hboth]
    split_ifs
    · rfl
    · rfl
    · rfl

theorem referenceOf_eq_none {b : Bbo} (h : ¬ (MarketUpdate.bbo b).Fits) :
    referenceOf b = none := by
  rw [MarketUpdate.Fits] at h
  push Not at h
  obtain ⟨hbid, hask, hsum⟩ := h
  rw [referenceOf, if_pos ⟨hbid, hask⟩, Bounded.add_eq hbid.le hask.le, if_neg (not_lt.mpr hsum)]
  rfl

theorem step_eq (h : MarketDataHandler) {u : MarketUpdate} (hu : u.Fits) :
    h.step u = some (h.takes u) := by
  cases u with
  | bbo b =>
    rw [step, onBbo, referenceOf_eq hu, takes]
    cases hp : (MarketUpdate.bbo b).price with
    | none => rfl
    | some p => exact congrArg some (if_pos (price_pos hp))
  | trade symbol price qty now => exact congrArg some (h.onTrade_eq symbol price qty now)

theorem step_eq_none (h : MarketDataHandler) {u : MarketUpdate} (hu : ¬ u.Fits) :
    h.step u = none := by
  cases u with
  | bbo b =>
    rw [step, onBbo, referenceOf_eq_none hu]
    rfl
  | trade symbol price qty now => exact absurd trivial hu

section Takes

variable (h : MarketDataHandler) (u : MarketUpdate)

theorem takes_reference (s : Symbol) : (h.takes u).risk.getReferencePrice s =
    (priceOf s u).or (h.risk.getReferencePrice s) := by
  rw [takes, priceOf]
  cases u.price with
  | none =>
    rw [ite_self, Option.none_or]
    rfl
  | some p =>
    by_cases hs : u.symbol = s
    · rw [if_pos hs, ← hs]
      exact Finmap.lookup_insert _
    · have hne : s.value ≠ u.symbol.value := fun hv => hs (congrArg Symbol.mk hv.symm)
      rw [if_neg hs]
      exact Finmap.lookup_insert_of_ne _ hne

theorem takes_lookup (v : Str) : (h.takes u).snapshots.lookup v =
    if v = u.symbol.value then some (shown (h.snapshot u.symbol) u) else h.snapshots.lookup v := by
  have hset : (h.takes u).snapshots =
      h.snapshots.insert u.symbol.value (shown (h.snapshot u.symbol) u) := by
    rw [takes]
    cases u.price <;> rfl
  rw [hset]
  by_cases hv : v = u.symbol.value
  · rw [if_pos hv, hv, Finmap.lookup_insert]
  · rw [if_neg hv, Finmap.lookup_insert_of_ne _ hv]

variable {u} {s : Symbol}

theorem takes_snapshot (hs : u.symbol = s) : (h.takes u).snapshot s = shown (h.snapshot s) u := by
  rw [snapshot, takes_lookup, if_pos (congrArg Symbol.value hs.symm), Option.getD_some, hs]

theorem takes_snapshot_of_ne (hs : u.symbol ≠ s) : (h.takes u).snapshot s = h.snapshot s := by
  have hne : ¬ s.value = u.symbol.value := fun hv => hs (congrArg Symbol.mk hv.symm)
  rw [snapshot, takes_lookup, if_neg hne, snapshot]

end Takes

/-- The handler stands where the updates made so far have left it. -/
structure Stands (risk : RiskManager) (us : List MarketUpdate) (h : MarketDataHandler) :
    Prop where
  reference : ∀ s, h.risk.getReferencePrice s =
    (latest (priceOf s) us).or (risk.getReferencePrice s)
  known : ∀ s, (h.getSnapshot s).isSome ↔ ∃ u ∈ us, u.symbol = s
  bbo : ∀ s, ∀ b ∈ latest (bboOf s) us, (h.snapshot s).bbo = b
  trade : ∀ s, ∀ t ∈ latest (tradeOf s) us,
    ((h.snapshot s).lastTradePrice, (h.snapshot s).lastTradeQty) = t

theorem Stands.new (risk : RiskManager) : Stands risk [] (MarketDataHandler.new risk) := by
  refine ⟨fun s => rfl, fun s => ?_, fun s b hb => ?_, fun s t ht => ?_⟩
  · simp [getSnapshot, MarketDataHandler.new]
  · cases hb
  · cases ht

theorem Stands.takes {risk : RiskManager} {us : List MarketUpdate} {h : MarketDataHandler}
    (hs : Stands risk us h) (u : MarketUpdate) : Stands risk (us ++ [u]) (h.takes u) where
  reference s := by
    rw [takes_reference, latest_concat, Option.or_assoc, hs.reference]
  known s := by
    have hlookup : (h.takes u).getSnapshot s = _ := takes_lookup h u s.value
    rw [hlookup]
    by_cases hsame : u.symbol = s
    · rw [if_pos (congrArg Symbol.value hsame.symm)]
      exact iff_of_true rfl ⟨u, by simp, hsame⟩
    · have hne : ¬ s.value = u.symbol.value := fun hv => hsame (congrArg Symbol.mk hv.symm)
      rw [if_neg hne]
      refine (hs.known s).trans ⟨fun ⟨v, hv, hvs⟩ => ⟨v, by simp [hv], hvs⟩, fun ⟨v, hv, hvs⟩ => ?_⟩
      obtain hv | hv := List.mem_append.mp hv
      · exact ⟨v, hv, hvs⟩
      · rw [List.mem_singleton.mp hv] at hvs
        exact absurd hvs hsame
  bbo s b hb := by
    rw [latest_concat] at hb
    cases u with
    | bbo b' =>
      by_cases hsame : b'.symbol = s
      · simp only [bboOf, if_pos hsame, Option.some_or] at hb
        rw [h.takes_snapshot (u := .bbo b') hsame]
        exact Option.some.inj hb
      · simp only [bboOf, if_neg hsame, Option.none_or] at hb
        rw [h.takes_snapshot_of_ne (u := .bbo b') hsame]
        exact hs.bbo s b hb
    | trade symbol price qty now =>
      rw [bboOf, Option.none_or] at hb
      have hold := hs.bbo s b hb
      by_cases hsame : symbol = s
      · rw [h.takes_snapshot (u := .trade symbol price qty now) hsame, shown, hold, hsame, ← symbol_of_latest hb]
      · rw [h.takes_snapshot_of_ne (u := .trade symbol price qty now) hsame]
        exact hold
  trade s t ht := by
    rw [latest_concat] at ht
    cases u with
    | bbo b =>
      rw [tradeOf, Option.none_or] at ht
      have hold := hs.trade s t ht
      by_cases hsame : b.symbol = s
      · rw [h.takes_snapshot (u := .bbo b) hsame]
        exact hold
      · rw [h.takes_snapshot_of_ne (u := .bbo b) hsame]
        exact hold
    | trade symbol price qty now =>
      by_cases hsame : symbol = s
      · simp only [tradeOf, if_pos hsame, Option.some_or] at ht
        rw [h.takes_snapshot (u := .trade symbol price qty now) hsame]
        exact Option.some.inj ht
      · simp only [tradeOf, if_neg hsame, Option.none_or] at ht
        rw [h.takes_snapshot_of_ne (u := .trade symbol price qty now) hsame]
        exact hs.trade s t ht

theorem run_fits {risk : RiskManager} {us : List MarketUpdate} (hus : ∀ u ∈ us, u.Fits) :
    ∃ h, (MarketDataHandler.new risk).run us = some h ∧ Stands risk us h := by
  induction us using List.reverseRecOn with
  | nil => exact ⟨_, rfl, Stands.new risk⟩
  | append_singleton us u ih =>
    obtain ⟨h, hrun, hstands⟩ := ih fun v hv => hus v (by simp [hv])
    have hfits := hus u (by simp)
    refine ⟨h.takes u, ?_, hstands.takes u⟩
    rw [run_concat, hrun, Option.bind_some, step_eq h hfits]

theorem fits_of_run {risk : RiskManager} {us : List MarketUpdate} {h : MarketDataHandler}
    (hrun : (MarketDataHandler.new risk).run us = some h) : ∀ u ∈ us, u.Fits := by
  induction us using List.reverseRecOn generalizing h with
  | nil => simp
  | append_singleton us u ih =>
    rw [run_concat] at hrun
    obtain ⟨h', hrun', hstep⟩ := Option.bind_eq_some_iff.mp hrun
    intro v hv
    obtain hv | hv := List.mem_append.mp hv
    · exact ih hrun' v hv
    · rw [List.mem_singleton.mp hv]
      by_contra hnot
      rw [step_eq_none h' hnot] at hstep
      cases hstep

end MarketDataHandler

structure Tracks (risk : RiskManager) (us : List MarketUpdate) (h : MarketDataHandler) :
    Prop where
  /-- The last update with a positive price gives the reference price. -/
  reference : ∀ s pre u post p, us = pre ++ u :: post → u.symbol = s → u.price = some p →
    (∀ v ∈ post, v.symbol = s → v.price = none) → h.risk.getReferencePrice s = some p
  /-- A symbol without such an update keeps the reference price that it had. -/
  untouched : ∀ s, (∀ u ∈ us, u.symbol = s → u.price = none) →
    h.risk.getReferencePrice s = risk.getReferencePrice s
  /-- The price of a BBO with two sides lies between them. -/
  between : ∀ b, .bbo b ∈ us → 0 < b.bidPrice → 0 < b.askPrice →
    ∃ p, (MarketUpdate.bbo b).price = some p ∧ min b.bidPrice b.askPrice ≤ p ∧
      p ≤ max b.bidPrice b.askPrice
  /-- The snapshot has the last BBO. -/
  bbo : ∀ s pre b post, us = pre ++ .bbo b :: post → b.symbol = s →
    (∀ b', .bbo b' ∈ post → b'.symbol ≠ s) → ∃ snap, h.getSnapshot s = some snap ∧ snap.bbo = b
  /-- The snapshot has the last trade. -/
  trade : ∀ s pre price qty now post, us = pre ++ .trade s price qty now :: post →
    (∀ price' qty' now', .trade s price' qty' now' ∉ post) →
    ∃ snap, h.getSnapshot s = some snap ∧ snap.lastTradePrice = price ∧ snap.lastTradeQty = qty

namespace MarketDataHandler

open MarketUpdate

theorem priceOf_eq_none {s : Symbol} {us : List MarketUpdate}
    (h : ∀ u ∈ us, u.symbol = s → u.price = none) : ∀ u ∈ us, priceOf s u = none := by
  intro u hu
  rw [priceOf]
  by_cases hs : u.symbol = s
  · rw [if_pos hs, h u hu hs]
  · rw [if_neg hs]

theorem Stands.getSnapshot {risk : RiskManager} {us : List MarketUpdate} {h : MarketDataHandler}
    (hs : Stands risk us h) {u : MarketUpdate} (hu : u ∈ us) :
    h.getSnapshot u.symbol = some (h.snapshot u.symbol) := by
  obtain ⟨snap, hsnap⟩ := Option.isSome_iff_exists.mp ((hs.known u.symbol).mpr ⟨u, hu, rfl⟩)
  have hget : h.snapshots.lookup u.symbol.value = some snap := hsnap
  rw [hsnap, snapshot, hget, Option.getD_some]

theorem Stands.tracks {risk : RiskManager} {us : List MarketUpdate} {h : MarketDataHandler}
    (hs : Stands risk us h) : Tracks risk us h where
  reference s pre u post p hsplit hu hp hpost := by
    have hprice : priceOf s u = some p := by
      rw [priceOf, if_pos hu, hp]
    rw [hs.reference, hsplit, latest_split _ hprice (priceOf_eq_none hpost), Option.some_or]
  untouched s hnone := by
    rw [hs.reference, latest_eq_none _ (priceOf_eq_none hnone), Option.none_or]
  between b _ hbid hask := by
    have hprice : (MarketUpdate.bbo b).price = some ((b.bidPrice + b.askPrice) / 2) :=
      if_pos ⟨hbid, hask⟩
    exact ⟨_, hprice, price_between hbid hask hprice⟩
  bbo s pre b post hsplit hb hpost := by
    have hlast : latest (bboOf s) us = some b := by
      rw [hsplit]
      refine latest_split _ (if_pos hb) fun v hv => ?_
      cases v with
      | bbo b' => exact if_neg (hpost b' hv)
      | trade symbol price qty now => rfl
    have hget := hs.getSnapshot (u := .bbo b) (by simp [hsplit])
    rw [← hb]
    exact ⟨_, hget, hs.bbo b.symbol b (by rw [hb]; exact hlast)⟩
  trade s pre price qty now post hsplit hpost := by
    have hlast : latest (tradeOf s) us = some (price, qty) := by
      rw [hsplit]
      refine latest_split _ (if_pos rfl) fun v hv => ?_
      cases v with
      | bbo b => rfl
      | trade symbol price' qty' now' =>
        refine if_neg fun hsame => ?_
        rw [hsame] at hv
        exact hpost price' qty' now' hv
    have hget := hs.getSnapshot (u := .trade s price qty now) (by simp [hsplit])
    obtain ⟨hprice, hqty⟩ := Prod.mk.inj (hs.trade s _ hlast)
    exact ⟨_, hget, hprice, hqty⟩

end MarketDataHandler

def wideBbo : MarketUpdate := .bbo ⟨⟨str "AAPL"⟩, 2 ^ 62, 1, 2 ^ 62, 1, 0⟩

theorem wideBbo_undefined : ¬ ∀ risk us,
    ∃ h, (MarketDataHandler.new risk).run us = some h ∧ Tracks risk us h := by
  intro hall
  obtain ⟨h, hrun, -⟩ := hall (RiskManager.new RiskLimits.default) [wideBbo]
  have hfits : wideBbo.Fits := MarketDataHandler.fits_of_run hrun _ (List.mem_singleton.mpr rfl)
  exact absurd (hfits (by decide) (by decide)) (by decide)

/-- The market data drives the reference prices, on every run of updates, exactly where no
midpoint overflows. -/
theorem marketData_tracks_iff (risk : RiskManager) (us : List MarketUpdate) :
    (∃ h, (MarketDataHandler.new risk).run us = some h ∧ Tracks risk us h) ↔
      ∀ b, .bbo b ∈ us → 0 < b.bidPrice → 0 < b.askPrice → b.bidPrice + b.askPrice < 2 ^ 63 := by
  constructor
  · rintro ⟨h, hrun, -⟩ b hb
    exact MarketDataHandler.fits_of_run hrun _ hb
  · intro hfits
    have hall : ∀ u ∈ us, u.Fits := by
      intro u hu
      cases u with
      | bbo b => exact hfits b hu
      | trade symbol price qty now => exact trivial
    obtain ⟨h, hrun, hstands⟩ := MarketDataHandler.run_fits hall
    exact ⟨h, hrun, hstands.tracks⟩

end Oems
