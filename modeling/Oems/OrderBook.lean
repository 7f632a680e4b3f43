import Oems.Types
import Oems.Lib.OrdMap
import Mathlib.Data.Finmap

namespace Oems

open Lib

structure BookEntry where
  orderId : ℕ
  side : Side
  price : ℤ
  remainingQty : ℤ
  timestamp : ℤ
  deriving DecidableEq, Repr

structure Fill where
  executionId : ℕ
  symbol : Symbol
  aggressiveOrderId : ℕ
  passiveOrderId : ℕ
  aggressiveSide : Side
  price : ℤ
  quantity : ℤ
  timestamp : ℤ
  deriving DecidableEq, Repr

structure PriceLevel where
  price : ℤ
  totalQty : ℤ
  orderCount : ℕ
  deriving DecidableEq, Repr

structure AddOrderResult where
  fills : List Fill
  resting : Option BookEntry
  deriving DecidableEq, Repr

structure IndexEntry where
  side : Side
  price : ℤ
  deriving DecidableEq, Repr

abbrev IdIndex := Finmap fun _ : ℕ => IndexEntry

/-- The key order of the two sides: `std::greater<>` for bids, `std::less<>`
for asks. -/
def better : Side → ℤ → ℤ → Prop
  | .buy, p, q => p > q
  | .sell, p, q => p < q

instance (side : Side) : DecidableRel (better side) := fun p q =>
  match side with
  | .buy => inferInstanceAs (Decidable (p > q))
  | .sell => inferInstanceAs (Decidable (p < q))

instance (side : Side) : IsStrictTotalOrder ℤ (better side) :=
  match side with
  | .buy => inferInstanceAs (IsStrictTotalOrder ℤ (· > ·))
  | .sell => inferInstanceAs (IsStrictTotalOrder ℤ (· < ·))

/-- One side of the book: price levels, best first, each a FIFO queue. -/
abbrev BookSide (side : Side) := OrdMap (better side) (List BookEntry)

structure OrderBook where
  symbol : Symbol
  bids : BookSide .buy
  asks : BookSide .sell
  idIndex : IdIndex
  nextExecutionId : ℕ

namespace OrderBook

def new (symbol : Symbol) : OrderBook := ⟨symbol, OrdMap.empty, OrdMap.empty, ∅, 1⟩

/-- What stays fixed while an incoming order is matched. -/
structure Incoming where
  symbol : Symbol
  aggressiveId : ℕ
  aggressiveSide : Side
  type : OrderType
  timestamp : ℤ

structure MatchState where
  fills : List Fill
  remainingQty : ℤ
  idIndex : IdIndex
  nextExecutionId : ℕ

/-- Trade against the front entry of a queue. -/
def trade (inc : Incoming) (st : MatchState) (passive : BookEntry) : MatchState :=
  let tradeQty := min st.remainingQty passive.remainingQty
  { fills := st.fills ++ [{
      executionId := st.nextExecutionId
      symbol := inc.symbol
      aggressiveOrderId := inc.aggressiveId
      passiveOrderId := passive.orderId
      aggressiveSide := inc.aggressiveSide
      price := passive.price
      quantity := tradeQty
      timestamp := inc.timestamp }]
    remainingQty := st.remainingQty - tradeQty
    idIndex :=
      if passive.remainingQty - tradeQty = 0 then st.idIndex.erase passive.orderId else st.idIndex
    nextExecutionId := st.nextExecutionId + 1 }

/-- The inner loop, over the queue of one price level. -/
def matchQueue (inc : Incoming) : MatchState → List BookEntry → MatchState × List BookEntry
  | st, [] => (st, [])
  | st, passive :: queue =>
    if st.remainingQty > 0 then
      let left := passive.remainingQty - min st.remainingQty passive.remainingQty
      if left = 0 then matchQueue inc (trade inc st passive) queue
      -- the trade took all of the incoming quantity, so the loop condition fails
      else (trade inc st passive, { passive with remainingQty := left } :: queue)
    else (st, passive :: queue)

/-- The outer loop, over the price levels from the best one on. -/
def matchLevels (inc : Incoming) (priceAcceptable : ℤ → Bool) :
    MatchState → List (Σ _ : ℤ, List BookEntry) →
      MatchState × List (Σ _ : ℤ, List BookEntry)
  | st, [] => (st, [])
  | st, ⟨bestPrice, queue⟩ :: levels =>
    if st.remainingQty > 0 then
      if inc.type = .limit ∧ ¬ priceAcceptable bestPrice then (st, ⟨bestPrice, queue⟩ :: levels)
      else
        match matchQueue inc st queue with
        | (st', []) => matchLevels inc priceAcceptable st' levels
        -- a queue is left over only when the incoming quantity is used up
        | (st', queue') => (st', ⟨bestPrice, queue'⟩ :: levels)
    else (st, ⟨bestPrice, queue⟩ :: levels)

theorem matchLevels_keys (inc : Incoming) (priceAcceptable : ℤ → Bool) (st : MatchState)
    (levels : List (Σ _ : ℤ, List BookEntry)) :
    (matchLevels inc priceAcceptable st levels).2.keys.Sublist levels.keys := by
  fun_induction matchLevels inc priceAcceptable st levels with
  | case1 => exact List.Sublist.refl _
  | case2 => exact List.Sublist.refl _
  | case3 st bestPrice queue levels _ _ st' _ ih => exact ih.cons bestPrice
  | case4 => exact List.Sublist.refl _
  | case5 => exact List.Sublist.refl _

def matchSide {side : Side} (inc : Incoming) (priceAcceptable : ℤ → Bool) (st : MatchState)
    (oppositeSide : BookSide side) : MatchState × BookSide side :=
  ((matchLevels inc priceAcceptable st oppositeSide.entries).1,
    oppositeSide.shrink (matchLevels inc priceAcceptable st oppositeSide.entries).2
      (matchLevels_keys inc priceAcceptable st oppositeSide.entries))

/-- Match an incoming order against the opposite side: the fills, the quantity
left of the incoming order and the book. -/
def matchAgainst (b : OrderBook) (aggressiveId : ℕ) (aggressiveSide : Side)
    (type : OrderType) (limitPrice : ℤ) (remainingQty : ℤ) (timestamp : ℤ) :
    List Fill × ℤ × OrderBook :=
  let inc : Incoming := ⟨b.symbol, aggressiveId, aggressiveSide, type, timestamp⟩
  let st : MatchState := ⟨[], remainingQty, b.idIndex, b.nextExecutionId⟩
  match aggressiveSide with
  | .buy =>
    let r := matchSide inc (fun p => p ≤ limitPrice) st b.asks
    (r.1.fills, r.1.remainingQty,
      { b with asks := r.2, idIndex := r.1.idIndex, nextExecutionId := r.1.nextExecutionId })
  | .sell =>
    let r := matchSide inc (fun p => p ≥ limitPrice) st b.bids
    (r.1.fills, r.1.remainingQty,
      { b with bids := r.2, idIndex := r.1.idIndex, nextExecutionId := r.1.nextExecutionId })

/-- `side[price].push_back(entry)`. -/
def pushBack {side : Side} (m : BookSide side) (price : ℤ) (entry : BookEntry) :
    BookSide side :=
  m.insert price ((m.find price).getD [] ++ [entry])

/-- Rest the remaining quantity on the book. -/
def rest (b : OrderBook) (id : ℕ) (side : Side) (price : ℤ) (qty : ℤ)
    (timestamp : ℤ) : BookEntry × OrderBook :=
  let entry : BookEntry := ⟨id, side, price, qty, timestamp⟩
  let b := match side with
    | .buy => { b with bids := pushBack b.bids price entry }
    | .sell => { b with asks := pushBack b.asks price entry }
  -- emplace keeps an entry that is already there
  let idIndex := if id ∈ b.idIndex then b.idIndex else b.idIndex.insert id ⟨side, price⟩
  (entry, { b with idIndex })

def addOrder (b : OrderBook) (id : ℕ) (side : Side) (type : OrderType) (price : ℤ)
    (qty : ℤ) (timestamp : ℤ) : Result AddOrderResult × OrderBook :=
  if qty ≤ 0 then (.error .invalidQuantity, b)
  else if type = .limit ∧ price ≤ 0 then (.error .invalidPrice, b)
  else if id ∈ b.idIndex then (.error .duplicateOrder, b)
  else
    match b.matchAgainst id side type price qty timestamp with
    | (fills, remaining, b) =>
      if remaining > 0 then
        -- market orders never rest
        if type = .market then (.ok ⟨fills, none⟩, b)
        else
          let r := b.rest id side price remaining timestamp
          (.ok ⟨fills, some r.1⟩, r.2)
      else (.ok ⟨fills, none⟩, b)

/-- Take an order out of the level at the given price. -/
def cancelIn {side : Side} (m : BookSide side) (price : ℤ) (id : ℕ) :
    Result (BookEntry × BookSide side) :=
  match m.find price with
  | none => .error .orderNotFound
  | some level =>
    match level.find? fun e => e.orderId = id with
    | none => .error .orderNotFound
    | some removed =>
      let level := level.eraseP fun e => e.orderId = id
      .ok (removed, if level = [] then m.erase price else m.insert price level)

def cancelOrder (b : OrderBook) (id : ℕ) : Result BookEntry × OrderBook :=
  match b.idIndex.lookup id with
  | none => (.error .orderNotFound, b)
  | some ⟨.buy, price⟩ =>
    match cancelIn b.bids price id with
    | .error e => (.error e, b)
    | .ok (removed, bids) => (.ok removed, { b with bids, idIndex := b.idIndex.erase id })
  | some ⟨.sell, price⟩ =>
    match cancelIn b.asks price id with
    | .error e => (.error e, b)
    | .ok (removed, asks) => (.ok removed, { b with asks, idIndex := b.idIndex.erase id })

/-- Put a resting order on the book without matching it. -/
def restoreRestingOrder (b : OrderBook) (id : ℕ) (side : Side) (price : ℤ)
    (qty : ℤ) (timestamp : ℤ) : Result Unit × OrderBook :=
  if qty ≤ 0 then (.error .invalidQuantity, b)
  else if price ≤ 0 then (.error .invalidPrice, b)
  else if id ∈ b.idIndex then (.error .duplicateOrder, b)
  else (.ok (), (b.rest id side price qty timestamp).2)

def priceLevels {side : Side} (m : BookSide side) : List PriceLevel :=
  m.entries.map fun l => ⟨l.1, wrapInt64 (l.2.map BookEntry.remainingQty).sum, l.2.length⟩

def bidLevels (b : OrderBook) : List PriceLevel := priceLevels b.bids

def askLevels (b : OrderBook) : List PriceLevel := priceLevels b.asks

def orderCount (b : OrderBook) : ℕ := b.idIndex.keys.card

end OrderBook

end Oems
