import Oems.OrderBook

namespace Oems

/-- The books by symbol, and the execution ids shared by all of them. -/
structure MatchingEngine where
  books : Finmap fun _ : Str => OrderBook
  nextExecutionId : ℕ

namespace MatchingEngine

def new : MatchingEngine := ⟨∅, 1⟩

/-- The book of a symbol, created when there is none. -/
def getOrCreateBook (e : MatchingEngine) (symbol : Symbol) : OrderBook × MatchingEngine :=
  match e.books.lookup symbol.value with
  | some book => (book, e)
  | none =>
    (OrderBook.new symbol,
      { e with books := e.books.insert symbol.value (OrderBook.new symbol) })

def setBook (e : MatchingEngine) (symbol : Symbol) (book : OrderBook) : MatchingEngine :=
  { e with books := e.books.insert symbol.value book }

/-- `fill.execution_id = next_execution_id_++` over the fills of a result. -/
def renumber : ℕ → List Fill → List Fill
  | _, [] => []
  | next, fill :: fills => { fill with executionId := next } :: renumber (next + 1) fills

def addOrder (e : MatchingEngine) (symbol : Symbol) (id : ℕ) (side : Side) (type : OrderType)
    (price qty now : ℤ) : Result AddOrderResult × MatchingEngine :=
  match e.getOrCreateBook symbol with
  | (book, e) =>
    match book.addOrder id side type price qty now with
    | (.error err, book) => (.error err, e.setBook symbol book)
    | (.ok result, book) =>
      (.ok { result with fills := renumber e.nextExecutionId result.fills },
        { e.setBook symbol book with
          nextExecutionId := e.nextExecutionId + result.fills.length })

def cancelOrder (e : MatchingEngine) (symbol : Symbol) (id : ℕ) :
    Result BookEntry × MatchingEngine :=
  match e.books.lookup symbol.value with
  | none => (.error .bookNotFound, e)
  | some book => ((book.cancelOrder id).1, e.setBook symbol (book.cancelOrder id).2)

def getBook (e : MatchingEngine) (symbol : Symbol) : Result OrderBook :=
  match e.books.lookup symbol.value with
  | none => .error .bookNotFound
  | some book => .ok book

def restoreRestingOrder (e : MatchingEngine) (order : Order) : Result Unit × MatchingEngine :=
  if order.type ≠ .limit ∨ order.remainingQty ≤ 0 then (.ok (), e)
  else
    match e.getOrCreateBook order.symbol with
    | (book, e) =>
      let r := book.restoreRestingOrder order.internalId order.side order.price order.remainingQty
        order.createdAt
      (r.1, e.setBook order.symbol r.2)

def seedNextExecutionId (e : MatchingEngine) (nextExecutionId : ℕ) : MatchingEngine :=
  { e with nextExecutionId := max 1 nextExecutionId }

def bookCount (e : MatchingEngine) : ℕ := e.books.keys.card

end MatchingEngine

end Oems
