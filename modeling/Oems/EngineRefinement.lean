import Oems.MatchingEngine
import Oems.BookRefinement

namespace Oems

open Lib

namespace MatchingEngine

def bookOf (e : MatchingEngine) (symbol : Symbol) : OrderBook :=
  (e.books.lookup symbol.value).getD (OrderBook.new symbol)

theorem bookOf_setBook_self (e : MatchingEngine) (symbol : Symbol) (book : OrderBook) :
    (e.setBook symbol book).bookOf symbol = book := by
  simp [bookOf, setBook]

theorem bookOf_setBook_of_ne (e : MatchingEngine) {symbol symbol' : Symbol} (book : OrderBook)
    (h : symbol' ≠ symbol) : (e.setBook symbol book).bookOf symbol' = e.bookOf symbol' := by
  have hv : symbol'.value ≠ symbol.value := by
    intro hv
    cases symbol
    cases symbol'
    exact h (congrArg Symbol.mk hv)
  simp [bookOf, setBook, Finmap.lookup_insert_of_ne _ hv]

theorem setBook_bookOf {e : MatchingEngine} {symbol : Symbol} {book : OrderBook}
    (h : e.books.lookup symbol.value = some book) : e.setBook symbol book = e := by
  have hb : e.books.insert symbol.value book = e.books := by
    apply Finmap.ext_lookup
    intro x
    by_cases hx : x = symbol.value
    · subst hx
      rw [Finmap.lookup_insert, h]
    · rw [Finmap.lookup_insert_of_ne _ hx]
  rw [setBook, hb]

theorem getOrCreateBook_book (e : MatchingEngine) (symbol : Symbol) :
    (e.getOrCreateBook symbol).1 = e.bookOf symbol := by
  unfold getOrCreateBook bookOf
  cases e.books.lookup symbol.value <;> rfl

theorem getOrCreateBook_next (e : MatchingEngine) (symbol : Symbol) :
    (e.getOrCreateBook symbol).2.nextExecutionId = e.nextExecutionId := by
  unfold getOrCreateBook
  cases e.books.lookup symbol.value <;> rfl

theorem getOrCreateBook_setBook (e : MatchingEngine) (symbol : Symbol) (book : OrderBook) :
    (e.getOrCreateBook symbol).2.setBook symbol book = e.setBook symbol book := by
  unfold getOrCreateBook
  cases e.books.lookup symbol.value with
  | none => simp [setBook, Finmap.insert_insert]
  | some b => rfl

theorem addOrder_eq (e : MatchingEngine) (symbol : Symbol) (id : ℕ) (side : Side) (type : OrderType)
    (price qty now : ℤ) : e.addOrder symbol id side type price qty now =
      match (e.bookOf symbol).addOrder id side type price qty now with
      | (.error err, book) => (.error err, e.setBook symbol book)
      | (.ok result, book) =>
        (.ok { result with fills := renumber e.nextExecutionId result.fills },
          { e.setBook symbol book with
            nextExecutionId := e.nextExecutionId + result.fills.length }) := by
  have hbook := e.getOrCreateBook_book symbol
  have hnext := e.getOrCreateBook_next symbol
  have hset := e.getOrCreateBook_setBook symbol
  unfold MatchingEngine.addOrder
  generalize e.getOrCreateBook symbol = c at hbook hnext hset
  obtain ⟨book, e'⟩ := c
  dsimp only at hbook hnext hset ⊢
  rw [hbook, hnext]
  obtain ⟨err | result, book⟩ := (e.bookOf symbol).addOrder id side type price qty now
  · exact congrArg (Prod.mk (Except.error err)) (hset book)
  · simp only [hset]

theorem restoreRestingOrder_eq (e : MatchingEngine) {order : Order}
    (h : ¬ (order.type ≠ .limit ∨ order.remainingQty ≤ 0)) :
    ∀ r, r = (e.bookOf order.symbol).restoreRestingOrder order.internalId order.side order.price
        order.remainingQty order.createdAt →
      e.restoreRestingOrder order = (r.1, e.setBook order.symbol r.2) := by
  rintro r hr
  have hbook := e.getOrCreateBook_book order.symbol
  have hset := e.getOrCreateBook_setBook order.symbol
  unfold MatchingEngine.restoreRestingOrder
  rw [if_neg h]
  generalize e.getOrCreateBook order.symbol = c at hbook hset
  obtain ⟨book, e'⟩ := c
  dsimp only at hbook hset ⊢
  rw [hbook, ← hr, hset]

end MatchingEngine

def renumberTrades : ℕ → List Trade → List Trade
  | _, [] => []
  | k, trade :: trades => { trade with executionId := k } :: renumberTrades (k + 1) trades

theorem renumber_trade (k : ℕ) (fills : List Fill) :
    (MatchingEngine.renumber k fills).map Fill.trade = renumberTrades k (fills.map Fill.trade) := by
  induction fills generalizing k with
  | nil => rfl
  | cons fill fills ih =>
    rw [MatchingEngine.renumber, List.map_cons, List.map_cons, renumberTrades, ih]
    rfl

def NaiveBook.withNext (n : NaiveBook) (k : ℕ) : NaiveBook := { n with nextExecutionId := k }

theorem sweep_withNext (t : Taker) (remaining : ℤ) (n : NaiveBook) (k : ℕ) :
    (n.withNext k).sweep t remaining =
      (renumberTrades k (n.sweep t remaining).1, (n.sweep t remaining).2.1,
        (n.sweep t remaining).2.2.withNext (k + (n.sweep t remaining).1.length)) := by
  induction remaining, n using NaiveBook.sweep.induct t generalizing k with
  | case1 remaining n hpos hnone =>
    have hnone' : t.counterparty (n.withNext k).orders = none := hnone
    rw [NaiveBook.sweep, if_pos hpos, hnone', NaiveBook.sweep, if_pos hpos, hnone]
    rfl
  | case2 remaining n hpos o hc q ih =>
    have hc' : t.counterparty (n.withNext k).orders = some o := hc
    have hfill : (n.withNext k).fill o.id q = (n.fill o.id q).withNext (k + 1) := rfl
    have ih' := ih (k + 1)
    rw [NaiveBook.sweep, if_pos hpos, hc', NaiveBook.sweep, if_pos hpos, hc]
    simp only [q] at hfill ih'
    simp only [hfill, ih', renumberTrades, List.length_cons, Prod.mk.injEq, true_and]
    refine ⟨rfl, ?_⟩
    congr 1
    omega
  | case3 remaining n hpos =>
    rw [NaiveBook.sweep, if_neg hpos, NaiveBook.sweep, if_neg hpos]
    rfl

def Outcome.renumber (k : ℕ) (o : Outcome) : Outcome := { o with trades := renumberTrades k o.trades }

def tradeCount : Result Outcome → ℕ
  | .error _ => 0
  | .ok o => o.trades.length

theorem addOrder_withNext (n : NaiveBook) (k id : ℕ) (side : Side) (type : OrderType)
    (price qty : ℤ) :
    (n.withNext k).addOrder id side type price qty =
      ((n.addOrder id side type price qty).1.map (Outcome.renumber k),
        (n.addOrder id side type price qty).2.withNext
          (k + tradeCount (n.addOrder id side type price qty).1)) := by
  unfold NaiveBook.addOrder
  by_cases hq : qty ≤ 0
  · rw [if_pos hq, if_pos hq]
    rfl
  rw [if_neg hq, if_neg hq]
  by_cases hp : type = .limit ∧ price ≤ 0
  · rw [if_pos hp, if_pos hp]
    rfl
  rw [if_neg hp, if_neg hp]
  have hfind : (n.withNext k).find id = n.find id := rfl
  by_cases hd : (n.find id).isSome = true
  · rw [hfind, if_pos hd, if_pos hd]
    rfl
  rw [hfind, if_neg hd, if_neg hd, sweep_withNext]
  generalize n.sweep ⟨id, side, type, price⟩ qty = w
  obtain ⟨trades, remaining, n'⟩ := w
  by_cases hr : 0 < remaining ∧ type = .limit
  · simp only [dif_pos hr]
    rfl
  · simp only [dif_neg hr]
    rfl

/-- Each book of the engine holds the orders of its flat list. -/
def EngineRefines (e : MatchingEngine) (live : Symbol → List RestingOrder) : Prop :=
  ∀ symbol, ∃ k, Refines (e.bookOf symbol) ⟨symbol, live symbol, k⟩

theorem EngineRefines.new : EngineRefines MatchingEngine.new fun _ => [] :=
  fun symbol => ⟨1, Refines.new symbol⟩

theorem EngineRefines.setBook {e : MatchingEngine} {live : Symbol → List RestingOrder}
    (h : EngineRefines e live) {symbol : Symbol} {book : OrderBook} {n : NaiveBook}
    (hb : Refines book n) (hs : n.symbol = symbol) :
    EngineRefines (e.setBook symbol book) (Function.update live symbol n.orders) := by
  intro symbol'
  by_cases he : symbol' = symbol
  · subst he
    rw [MatchingEngine.bookOf_setBook_self, Function.update_self]
    refine ⟨n.nextExecutionId, ?_⟩
    rw [← hs]
    exact hb
  · rw [MatchingEngine.bookOf_setBook_of_ne _ _ he, Function.update_of_ne he]
    exact h symbol'

theorem addOrder_symbol (n : NaiveBook) (id : ℕ) (side : Side) (type : OrderType)
    (price qty : ℤ) : (n.addOrder id side type price qty).2.symbol = n.symbol := by
  have hs := sweep_symbol ⟨id, side, type, price⟩ qty n
  unfold NaiveBook.addOrder
  generalize n.sweep ⟨id, side, type, price⟩ qty = w at hs
  obtain ⟨trades, remaining, n'⟩ := w
  split_ifs
  · rfl
  · rfl
  · rfl
  · by_cases hr : 0 < remaining ∧ type = .limit
    · simp only [dif_pos hr]
      exact hs
    · simp only [dif_neg hr]
      exact hs

/-- The engine adds an order as a naive book would that counts executions with
the counter of the engine. -/
theorem EngineRefines.addOrder {e : MatchingEngine} {live : Symbol → List RestingOrder}
    (h : EngineRefines e live) (symbol : Symbol) (id : ℕ) (side : Side) (type : OrderType)
    (price qty now : ℤ) :
    ∀ n, n = (NaiveBook.mk symbol (live symbol) e.nextExecutionId).addOrder id side type price qty →
      (e.addOrder symbol id side type price qty now).1.map AddOrderResult.view = n.1 ∧
      (e.addOrder symbol id side type price qty now).2.nextExecutionId = n.2.nextExecutionId ∧
      EngineRefines (e.addOrder symbol id side type price qty now).2
        (Function.update live symbol n.2.orders) := by
  rintro n rfl
  obtain ⟨k, hb⟩ := h symbol
  obtain ⟨hres, hend⟩ := hb.addOrder id side type price qty now
  have hnaive := addOrder_withNext ⟨symbol, live symbol, k⟩ e.nextExecutionId id side type price qty
  change (NaiveBook.mk symbol (live symbol) e.nextExecutionId).addOrder id side type price qty = _
    at hnaive
  have hsym := addOrder_symbol ⟨symbol, live symbol, k⟩ id side type price qty
  rw [hnaive]
  generalize (NaiveBook.mk symbol (live symbol) k).addOrder id side type price qty = w
    at hres hend hsym
  obtain ⟨r, n⟩ := w
  rw [e.addOrder_eq]
  generalize (e.bookOf symbol).addOrder id side type price qty now = a at hres hend
  obtain ⟨ra, book'⟩ := a
  have hengine := h.setBook hend hsym
  cases ra with
  | error err =>
    cases hres
    exact ⟨rfl, rfl, hengine⟩
  | ok result =>
    cases hres
    refine ⟨?_, ?_, hengine⟩
    · simp [Except.map, AddOrderResult.view, Outcome.renumber, renumber_trade]
    · simp [NaiveBook.withNext, AddOrderResult.view, tradeCount]

/-- Cancelling what rests in a book takes it out of the flat list. Anything
else is refused with one of the two not-found errors, and the engine stays as it was. -/
theorem EngineRefines.cancelOrder {e : MatchingEngine} {live : Symbol → List RestingOrder}
    (h : EngineRefines e live) (symbol : Symbol) (id : ℕ) :
    match Keyed.find (fun o : RestingOrder => o.id) id (live symbol) with
    | some o => (∃ entry, (e.cancelOrder symbol id).1 = .ok entry ∧ entry.quote = o.toQuote) ∧
        (e.cancelOrder symbol id).2.nextExecutionId = e.nextExecutionId ∧
        EngineRefines (e.cancelOrder symbol id).2
          (Function.update live symbol (removeFrom id (live symbol)))
    | none => ((e.cancelOrder symbol id).1 = .error .bookNotFound ∨
          (e.cancelOrder symbol id).1 = .error .orderNotFound) ∧
        (e.cancelOrder symbol id).2 = e := by
  obtain ⟨k, hb⟩ := h symbol
  obtain ⟨hres, hend⟩ := hb.cancelOrder id
  have hidx := hb.index id
  unfold MatchingEngine.cancelOrder
  cases hl : e.books.lookup symbol.value with
  | none =>
    have hbook : e.bookOf symbol = OrderBook.new symbol := by
      rw [MatchingEngine.bookOf, hl, Option.getD_none]
    have hfind : Keyed.find (fun o : RestingOrder => o.id) id (live symbol) = none := by
      rw [hbook] at hidx
      simpa [OrderBook.new] using hidx.symm
    rw [hfind]
    exact ⟨Or.inl rfl, rfl⟩
  | some book =>
    have hbook : e.bookOf symbol = book := by
      rw [MatchingEngine.bookOf, hl, Option.getD_some]
    rw [hbook] at hres hend hidx
    cases hf : Keyed.find (fun o : RestingOrder => o.id) id (live symbol) with
    | none =>
      have hnone : book.idIndex.lookup id = none := by
        rw [hidx]
        exact congrArg (Option.map _) hf
      have hcancel : book.cancelOrder id = (.error .orderNotFound, book) := by
        unfold OrderBook.cancelOrder
        rw [hnone]
      simp only [hcancel]
      exact ⟨Or.inr trivial, MatchingEngine.setBook_bookOf hl⟩
    | some o =>
      have hnaive : NaiveBook.cancelOrder ⟨symbol, live symbol, k⟩ id =
          (.ok o.toQuote, NaiveBook.remove ⟨symbol, live symbol, k⟩ id) := by
        unfold NaiveBook.cancelOrder NaiveBook.find
        rw [hf]
      rw [hnaive] at hres hend
      refine ⟨?_, rfl, h.setBook hend rfl⟩
      cases hc : (book.cancelOrder id).1 with
      | error err => simp [hc, Except.map] at hres
      | ok entry =>
        rw [hc] at hres
        exact ⟨entry, rfl, Except.ok.inj hres⟩

theorem EngineRefines.restoreRestingOrder {e : MatchingEngine} {live : Symbol → List RestingOrder}
    (h : EngineRefines e live) {order : Order} (hlimit : order.type = .limit)
    (hqty : 0 < order.remainingQty) (hprice : 0 < order.price)
    (hnew : Keyed.find (fun o : RestingOrder => o.id) order.internalId (live order.symbol) = none) :
    (e.restoreRestingOrder order).1 = .ok () ∧
      (e.restoreRestingOrder order).2.nextExecutionId = e.nextExecutionId ∧
      EngineRefines (e.restoreRestingOrder order).2 (Function.update live order.symbol
        (live order.symbol ++
          [⟨⟨order.internalId, order.side, order.price, order.remainingQty⟩, hqty⟩])) := by
  obtain ⟨k, hb⟩ := h order.symbol
  obtain ⟨hres, hend⟩ := hb.restoreRestingOrder order.internalId order.side order.price
    order.remainingQty order.createdAt
  have hnaive : NaiveBook.restoreRestingOrder ⟨order.symbol, live order.symbol, k⟩ order.internalId
      order.side order.price order.remainingQty = (.ok (), ⟨order.symbol, live order.symbol ++
        [⟨⟨order.internalId, order.side, order.price, order.remainingQty⟩, hqty⟩], k⟩) := by
    unfold NaiveBook.restoreRestingOrder NaiveBook.find
    rw [dif_pos hqty, if_neg (not_le.mpr hprice), hnew]
    rfl
  rw [hnaive] at hres hend
  have hlive : ¬ (order.type ≠ .limit ∨ order.remainingQty ≤ 0) := by
    simp [hlimit, hqty]
  rw [e.restoreRestingOrder_eq hlive _ rfl]
  exact ⟨hres, rfl, h.setBook hend rfl⟩

end Oems
