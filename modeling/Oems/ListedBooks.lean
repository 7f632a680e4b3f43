import Oems.ApiServer
import Oems.Lifecycle
import Oems.Placement

namespace Oems

open Lib OrderManager

namespace MatchingEngine

variable {e : MatchingEngine} {s : Str}

theorem mem_setBook {symbol : Symbol} {book : OrderBook} :
    s ∈ (e.setBook symbol book).books ↔ s = symbol.value ∨ s ∈ e.books :=
  Finmap.mem_insert

theorem mem_books_addOrder {symbol : Symbol} {id : ℕ} {side : Side} {type : OrderType}
    {price qty now : ℤ} (h : s ∈ (e.addOrder symbol id side type price qty now).2.books) :
    s = symbol.value ∨ s ∈ e.books := by
  rw [addOrder_eq] at h
  generalize (e.bookOf symbol).addOrder id side type price qty now = r at h
  obtain ⟨err | result, book⟩ := r
  · exact mem_setBook.mp h
  · exact mem_setBook.mp h

theorem mem_books_cancelOrder {symbol : Symbol} {id : ℕ}
    (h : s ∈ (e.cancelOrder symbol id).2.books) : s ∈ e.books := by
  rw [cancelOrder] at h
  cases hbook : e.books.lookup symbol.value with
  | none => simpa only [hbook] using h
  | some book =>
    simp only [hbook] at h
    obtain rfl | h := mem_setBook.mp h
    · exact Finmap.mem_of_lookup_eq_some hbook
    · exact h

theorem mem_books_restoreRestingOrder {order : Order}
    (h : s ∈ (e.restoreRestingOrder order).2.books) : s = order.symbol.value ∨ s ∈ e.books := by
  by_cases hskip : order.type ≠ .limit ∨ order.remainingQty ≤ 0
  · rw [restoreRestingOrder, if_pos hskip] at h
    exact Or.inr h
  · rw [e.restoreRestingOrder_eq hskip _ rfl] at h
    exact mem_setBook.mp h

end MatchingEngine

theorem mem_books_restoreOrders {m : OrderManager} {stored : List Order} {s : Str}
    (h : s ∈ (m.restoreOrders stored).2.engine.books) :
    s ∈ m.engine.books ∨ ∃ o ∈ stored, o.symbol.value = s := by
  induction stored generalizing m with
  | nil => exact Or.inl h
  | cons order stored ih =>
    have hlater : (s = order.symbol.value ∨ s ∈ m.engine.books) ∨
        (∃ o ∈ stored, o.symbol.value = s) →
        s ∈ m.engine.books ∨ ∃ o ∈ order :: stored, o.symbol.value = s := by
      rintro ((rfl | hs) | ⟨o, ho, hs⟩)
      · exact Or.inr ⟨order, List.mem_cons_self, rfl⟩
      · exact Or.inl hs
      · exact Or.inr ⟨o, List.mem_cons_of_mem _ ho, hs⟩
    rw [restoreOrders] at h
    apply hlater
    split_ifs at h with hrests
    · have hput : s ∈ ((m.setOrder order.internalId order).engine.restoreRestingOrder
          order).2.books → s = order.symbol.value ∨ s ∈ m.engine.books :=
        MatchingEngine.mem_books_restoreRestingOrder
      generalize (m.setOrder order.internalId order).engine.restoreRestingOrder order = r at h hput
      obtain ⟨err | u, engine⟩ := r
      · exact Or.inl (hput h)
      · exact (ih h).imp_left hput
    · exact (ih h).imp_left Or.inr

/-- Every book of the engine is that of a symbol for which an order has come. -/
def BooksListed (m : OrderManager) : Prop :=
  ∀ s ∈ m.engine.books, ∃ o ∈ tableOrders m.orders, o.symbol.value = s

theorem BooksListed.boot (risk : RiskManager) (clock : ℕ → ℤ) : BooksListed (boot risk clock) :=
  fun _ hs => absurd hs Finmap.notMem_empty

theorem BooksListed.evolves {m m' : OrderManager} (h : BooksListed m)
    (he : Evolves m.orders m'.orders) {s : Str} (hs : s ∈ m.engine.books) :
    ∃ o ∈ tableOrders m'.orders, o.symbol.value = s := by
  obtain ⟨o, ho, rfl⟩ := h s hs
  obtain ⟨id, hid⟩ := mem_tableOrders.mp ho
  obtain ⟨o', ho', hsame⟩ := he id o hid
  refine ⟨o', mem_tableOrders.mpr ⟨id, ho'⟩, ?_⟩
  obtain rfl | hmove := hsame
  · rfl
  · rw [hmove.terms.symbol]

theorem mem_books_place {m : OrderManager} {req : NewOrderRequest} {s : Str}
    (h : s ∈ (m.place req).2.engine.books) : s = req.symbol.value ∨ s ∈ m.engine.books := by
  have hadded : s ∈ ((m.request req).2.engine.addOrder req.symbol (m.request req).1.internalId
      req.side req.type req.price req.quantity (m.request req).2.now).2.books →
        s = req.symbol.value ∨ s ∈ m.engine.books := MatchingEngine.mem_books_addOrder
  rw [OrderManager.place] at h
  generalize (m.request req).2.engine.addOrder req.symbol (m.request req).1.internalId
    req.side req.type req.price req.quantity (m.request req).2.now = r at h hadded
  obtain ⟨err | result, engine⟩ := r
  · exact hadded h
  · have hframe := applyFills_frame ((m.request req).2.accept engine (m.request req).1).2
      ((m.request req).2.accept engine (m.request req).1).1 result.fills
    dsimp only at h
    rw [settle_engine, hframe.engine] at h
    exact hadded h

theorem Agrees.place_listed {m : OrderManager} (h : Agrees m) {req : NewOrderRequest}
    (hv : validate req = .ok ()) :
    ∃ o ∈ tableOrders (m.place req).2.orders, o.symbol = req.symbol := by
  obtain ⟨m', order, hplace, hland, -⟩ := h.place_rule hv (Q := fun _ _ => True)
    (fun _ _ _ => trivial) fun _ _ _ _ _ _ _ => trivial
  obtain ⟨created, updated, hterms⟩ := hland.terms
  rw [hplace, settle_orders]
  exact ⟨_, mem_tableOrders.mpr ⟨_, Finmap.lookup_insert _⟩,
    (hterms.trans (sameTerms_settledOrder order _)).symbol⟩

theorem BooksListed.step {m : OrderManager} (h : BooksListed m) (ha : Agrees m) (op : Op) :
    BooksListed (m.step op).2 := by
  intro s hs
  have hevolves := (ha.turns op).evolves
  have hold : s ∈ m.engine.books →
      ∃ o ∈ tableOrders (m.step op).2.orders, o.symbol.value = s := h.evolves hevolves
  cases op with
  | submit check req =>
    have hstep := submitStep check m req
    change s ∈ (m.submitOrder check req).2.engine.books at hs
    change s ∈ _ → ∃ o ∈ tableOrders (m.submitOrder check req).2.orders, _ at hold
    change ∃ o ∈ tableOrders (m.submitOrder check req).2.orders, _
    generalize m.submitOrder check req = r at hstep hs hold
    cases hstep with
    | invalid err _ => exact hold hs
    | refused risk err _ _ =>
      rw [rejectByRisk_engine] at hs
      exact hold hs
    | placed risk hv _ =>
      obtain rfl | hs := mem_books_place hs
      · obtain ⟨o, ho, hsymbol⟩ := (ha.withRisk risk).place_listed hv
        exact ⟨o, ho, congrArg Symbol.value hsymbol⟩
      · exact hold hs
  | cancel req =>
    have hstep := ha.cancelStep req
    change s ∈ (m.cancelOrder req).2.engine.books at hs
    change s ∈ _ → ∃ o ∈ tableOrders (m.cancelOrder req).2.orders, _ at hold
    change ∃ o ∈ tableOrders (m.cancelOrder req).2.orders, _
    generalize m.cancelOrder req = r at hstep hs hold
    cases hstep with
    | unknown _ => exact hold hs
    | closed order _ _ => exact hold hs
    | notResting order err _ _ _ _ => exact hold hs
    | done order engine _ _ _ _ hc _ _ =>
      obtain ⟨entry, hc⟩ := hc
      have hmem : s ∈ engine.books := hs
      have hcancel : s ∈ (m.engine.cancelOrder order.symbol req.orderId).2.books := by
        rw [hc]
        exact hmem
      exact hold (MatchingEngine.mem_books_cancelOrder hcancel)

/-- A restart puts back books of stored orders alone. -/
theorem BooksListed.restart {m m' : OrderManager} {risk : RiskManager} {clock : ℕ → ℤ}
    (hm : Hosting m) (hok : OrderManager.restart m.db risk clock = .ok m')
    (hsame : SameMemory m m') : BooksListed m' := by
  obtain ⟨d, hd, -⟩ := hm.serving.db
  have hmirror : Mirrors d.tables m.orders m.events m.executions :=
    hm.serving.durable.mirrored.db d hd
  intro s hs
  have hput : s ∈ MatchingEngine.new.books ∨ ∃ o ∈ d.tables.orders.values, o.symbol.value = s := by
    rw [hd, OrderManager.restart, restoreFromDatabase] at hok
    simp only [OrderManager.new, Database.loadOrders, Database.loadAllEvents,
      Database.loadExecutions] at hok
    generalize hstart : OrderManager.mk risk (MatchingEngine.new.seedNextExecutionId _) _ _ _ _ _ _
      _ = start at hok
    have hbooks : s ∈ (start.restoreOrders d.tables.orders.values).2.engine.books →
        s ∈ start.engine.books ∨ ∃ o ∈ d.tables.orders.values, o.symbol.value = s :=
      mem_books_restoreOrders
    generalize start.restoreOrders d.tables.orders.values = r at hok hbooks
    obtain ⟨err | u, m''⟩ := r
    · cases hok
    · cases hok
      rw [← hstart] at hbooks
      exact hbooks hs
  obtain hs | ⟨o, ho, hsymbol⟩ := hput
  · exact absurd hs Finmap.notMem_empty
  · rw [hsame.orders]
    exact ⟨o, mem_tableOrders.mpr ⟨_, (hmirror.mem_orders hm.agrees.filed o).mp ho⟩, hsymbol⟩

theorem booksListed_hostInvariant : HostInvariant BooksListed where
  step := fun _ op hm h => h.step hm.agrees op
  restart := fun _ _ _ _ hm _ hok hsame => BooksListed.restart hm hok hsame

end Oems
