import Oems.OrderBook
import Oems.Lib.Keyed
import Oems.Lib.Machine

namespace Oems

open Lib

/-- An order as far as its place in a book goes: an entry without its timestamp. -/
structure Quote where
  id : ℕ
  side : Side
  price : ℤ
  qty : ℤ
  deriving DecidableEq, Repr

/-- A quote with something left to trade. -/
structure RestingOrder extends Quote where
  qty_pos : 0 < qty
  deriving DecidableEq

structure Trade where
  executionId : ℕ
  symbol : Symbol
  aggressiveOrderId : ℕ
  passiveOrderId : ℕ
  aggressiveSide : Side
  price : ℤ
  quantity : ℤ
  deriving DecidableEq, Repr

structure Outcome where
  trades : List Trade
  resting : Option Quote
  deriving DecidableEq, Repr

structure Taker where
  id : ℕ
  side : Side
  type : OrderType
  limit : ℤ

/-- Take a quantity off a resting order. With nothing left the order is gone. -/
def RestingOrder.take (q : ℤ) (o : RestingOrder) : Option RestingOrder :=
  if h : q < o.qty then some ⟨⟨o.id, o.side, o.price, o.qty - q⟩, by simpa using h⟩ else none

def limitAllows (side : Side) (limit p : ℤ) : Bool :=
  match side with
  | .buy => p ≤ limit
  | .sell => p ≥ limit

namespace Taker

def accepts (t : Taker) (o : RestingOrder) : Bool :=
  o.side = t.side.opposite ∧ (t.type = .market ∨ limitAllows t.side t.limit o.price)

/-- The acceptable opposite order of best price, the earliest one among equals. -/
def counterparty (t : Taker) (orders : List RestingOrder) : Option RestingOrder :=
  orders.find? fun o =>
    t.accepts o ∧ ∀ x ∈ orders, t.accepts x → ¬ better t.side.opposite x.price o.price

theorem counterparty_mem {t : Taker} {orders : List RestingOrder} {o : RestingOrder}
    (h : t.counterparty orders = some o) : o ∈ orders :=
  List.mem_of_find?_eq_some h

end Taker

/-- The book as its users think of it: one list of resting orders in the order
of their arrival. -/
structure NaiveBook where
  symbol : Symbol
  orders : List RestingOrder
  nextExecutionId : ℕ

namespace NaiveBook

def new (symbol : Symbol) : NaiveBook := ⟨symbol, [], 1⟩

def find (n : NaiveBook) (id : ℕ) : Option RestingOrder :=
  Keyed.find (fun o : RestingOrder => o.id) id n.orders

def fill (n : NaiveBook) (id : ℕ) (q : ℤ) : NaiveBook :=
  { n with
    orders := Keyed.update (fun o : RestingOrder => o.id) id (RestingOrder.take q) n.orders
    nextExecutionId := n.nextExecutionId + 1 }

def remove (n : NaiveBook) (id : ℕ) : NaiveBook :=
  { n with orders := Keyed.update (fun o : RestingOrder => o.id) id (fun _ => none) n.orders }

/-- Trade with one counterparty after the other, until the quantity is used up
or nobody acceptable is left. -/
def sweep (t : Taker) (remaining : ℤ) (n : NaiveBook) : List Trade × ℤ × NaiveBook :=
  if 0 < remaining then
    match t.counterparty n.orders with
    | none => ([], remaining, n)
    | some o =>
      let q := min remaining o.qty
      let r := sweep t (remaining - q) (n.fill o.id q)
      (⟨n.nextExecutionId, n.symbol, t.id, o.id, t.side, o.price, q⟩ :: r.1, r.2)
  else ([], remaining, n)
termination_by remaining.toNat
decreasing_by
  have ho := o.qty_pos
  omega

def addOrder (n : NaiveBook) (id : ℕ) (side : Side) (type : OrderType) (price : ℤ)
    (qty : ℤ) : Result Outcome × NaiveBook :=
  if qty ≤ 0 then (.error .invalidQuantity, n)
  else if type = .limit ∧ price ≤ 0 then (.error .invalidPrice, n)
  else if (n.find id).isSome then (.error .duplicateOrder, n)
  else
    match n.sweep ⟨id, side, type, price⟩ qty with
    | (trades, remaining, n) =>
      if h : 0 < remaining ∧ type = .limit then
        let o : RestingOrder := ⟨⟨id, side, price, remaining⟩, h.1⟩
        (.ok ⟨trades, some o.toQuote⟩, { n with orders := n.orders ++ [o] })
      else (.ok ⟨trades, none⟩, n)

def cancelOrder (n : NaiveBook) (id : ℕ) : Result Quote × NaiveBook :=
  match n.find id with
  | none => (.error .orderNotFound, n)
  | some o => (.ok o.toQuote, n.remove id)

def restoreRestingOrder (n : NaiveBook) (id : ℕ) (side : Side) (price : ℤ)
    (qty : ℤ) : Result Unit × NaiveBook :=
  if h : 0 < qty then
    if price ≤ 0 then (.error .invalidPrice, n)
    else if (n.find id).isSome then (.error .duplicateOrder, n)
    else (.ok (), { n with orders := n.orders ++ [⟨⟨id, side, price, qty⟩, h⟩] })
  else (.error .invalidQuantity, n)

end NaiveBook

/-- A call on a book. `now` is what the clock shows during it. -/
inductive BookOp where
  | add (id : ℕ) (side : Side) (type : OrderType) (price : ℤ) (qty : ℤ)
      (now : ℤ)
  | cancel (id : ℕ)
  | restore (id : ℕ) (side : Side) (price : ℤ) (qty : ℤ) (timestamp : ℤ)

inductive BookResult where
  | added (r : Result AddOrderResult)
  | cancelled (r : Result BookEntry)
  | restored (r : Result Unit)

inductive BookOutcome where
  | added (r : Result Outcome)
  | cancelled (r : Result Quote)
  | restored (r : Result Unit)

def OrderBook.step (b : OrderBook) : BookOp → BookResult × OrderBook
  | .add id side type price qty now =>
    let r := b.addOrder id side type price qty now
    (.added r.1, r.2)
  | .cancel id =>
    let r := b.cancelOrder id
    (.cancelled r.1, r.2)
  | .restore id side price qty timestamp =>
    let r := b.restoreRestingOrder id side price qty timestamp
    (.restored r.1, r.2)

def NaiveBook.step (n : NaiveBook) : BookOp → BookOutcome × NaiveBook
  | .add id side type price qty _ =>
    let r := n.addOrder id side type price qty
    (.added r.1, r.2)
  | .cancel id =>
    let r := n.cancelOrder id
    (.cancelled r.1, r.2)
  | .restore id side price qty _ =>
    let r := n.restoreRestingOrder id side price qty
    (.restored r.1, r.2)

def BookEntry.quote (e : BookEntry) : Quote := ⟨e.orderId, e.side, e.price, e.remainingQty⟩

def Fill.trade (f : Fill) : Trade :=
  ⟨f.executionId, f.symbol, f.aggressiveOrderId, f.passiveOrderId, f.aggressiveSide, f.price,
    f.quantity⟩

def AddOrderResult.view (r : AddOrderResult) : Outcome :=
  ⟨r.fills.map Fill.trade, r.resting.map BookEntry.quote⟩

def BookResult.view : BookResult → BookOutcome
  | .added r => .added (r.map AddOrderResult.view)
  | .cancelled r => .cancelled (r.map BookEntry.quote)
  | .restored r => .restored r

end Oems
