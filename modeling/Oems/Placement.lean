import Oems.AddedOrder
import Oems.BookAgreement
import Oems.EngineAtomic

namespace Oems

open Lib OrderManager

namespace OrderBook

variable (b : OrderBook) (id : ℕ) (side : Side) (type : OrderType) (price qty now : ℤ)

theorem mem_addOrder {x : ℕ} (hx : x ∈ (b.addOrder id side type price qty now).2.idIndex) :
    x = id ∨ x ∈ b.idIndex := by
  rw [addOrder] at hx
  by_cases hqty : qty ≤ 0
  · rw [if_pos hqty] at hx
    exact Or.inr hx
  by_cases hprice : type = .limit ∧ price ≤ 0
  · rw [if_neg hqty, if_pos hprice] at hx
    exact Or.inr hx
  by_cases hid : id ∈ b.idIndex
  · rw [if_neg hqty, if_neg hprice, if_pos hid] at hx
    exact Or.inr hx
  rw [if_neg hqty, if_neg hprice, if_neg hid] at hx
  have hmatch := b.matchAgainst_indexFrom id side type price qty now
  generalize b.matchAgainst id side type price qty now = r at hx hmatch
  obtain ⟨fills, remaining, b'⟩ := r
  dsimp only at hx hmatch
  split_ifs at hx
  · exact Or.inr (hmatch x hx)
  · exact ((b'.mem_rest id side price remaining now).mp hx).imp_right (hmatch x)
  · exact Or.inr (hmatch x hx)

theorem mem_cancelOrder {x : ℕ} (hx : x ∈ (b.cancelOrder id).2.idIndex) : x ∈ b.idIndex := by
  rw [cancelOrder] at hx
  cases hlookup : b.idIndex.lookup id with
  | none =>
    rw [hlookup] at hx
    exact hx
  | some loc =>
    obtain ⟨side, price⟩ := loc
    rw [hlookup] at hx
    cases side with
    | buy =>
      dsimp only at hx
      cases hcancel : cancelIn b.bids price id with
      | error err =>
        rw [hcancel] at hx
        exact hx
      | ok r =>
        rw [hcancel] at hx
        exact (Finmap.mem_erase.mp hx).2
    | sell =>
      dsimp only at hx
      cases hcancel : cancelIn b.asks price id with
      | error err =>
        rw [hcancel] at hx
        exact hx
      | ok r =>
        rw [hcancel] at hx
        exact (Finmap.mem_erase.mp hx).2

theorem mem_restoreRestingOrder {x : ℕ}
    (hx : x ∈ (b.restoreRestingOrder id side price qty now).2.idIndex) :
    x = id ∨ x ∈ b.idIndex := by
  rw [restoreRestingOrder] at hx
  split_ifs at hx
  · exact Or.inr hx
  · exact Or.inr hx
  · exact Or.inr hx
  · exact (b.mem_rest id side price qty now).mp hx

end OrderBook

namespace MatchingEngine

def Indexes (e : MatchingEngine) (x : ℕ) : Prop := ∃ symbol, x ∈ (e.bookOf symbol).idIndex

variable {e : MatchingEngine} {x id : ℕ}

theorem indexes_setBook {symbol : Symbol} {book : OrderBook}
    (hbook : ∀ y ∈ book.idIndex, y = id ∨ y ∈ (e.bookOf symbol).idIndex)
    (hx : (e.setBook symbol book).Indexes x) : x = id ∨ e.Indexes x := by
  obtain ⟨s, hs⟩ := hx
  by_cases hsame : s = symbol
  · rw [hsame, bookOf_setBook_self] at hs
    exact (hbook x hs).imp_right fun h => ⟨symbol, h⟩
  · rw [bookOf_setBook_of_ne _ _ hsame] at hs
    exact Or.inr ⟨s, hs⟩

theorem indexes_addOrder {symbol : Symbol} {side : Side} {type : OrderType} {price qty now : ℤ}
    (hx : (e.addOrder symbol id side type price qty now).2.Indexes x) :
    x = id ∨ e.Indexes x := by
  have hbook : ∀ y ∈ ((e.bookOf symbol).addOrder id side type price qty now).2.idIndex,
      y = id ∨ y ∈ (e.bookOf symbol).idIndex :=
    fun y hy => (e.bookOf symbol).mem_addOrder id side type price qty now hy
  rw [addOrder_eq] at hx
  generalize (e.bookOf symbol).addOrder id side type price qty now = r at hx hbook
  obtain ⟨err | result, book⟩ := r
  · exact indexes_setBook hbook hx
  · exact indexes_setBook hbook hx

theorem indexes_cancelOrder {symbol : Symbol} (hx : (e.cancelOrder symbol id).2.Indexes x) :
    e.Indexes x := by
  rw [cancelOrder] at hx
  cases hbook : e.books.lookup symbol.value with
  | none =>
    rw [hbook] at hx
    exact hx
  | some book =>
    rw [hbook] at hx
    obtain ⟨s, hs⟩ := hx
    by_cases hsame : s = symbol
    · rw [hsame, bookOf_setBook_self] at hs
      refine ⟨symbol, ?_⟩
      rw [bookOf, hbook]
      exact book.mem_cancelOrder id hs
    · rw [bookOf_setBook_of_ne _ _ hsame] at hs
      exact ⟨s, hs⟩

theorem indexes_restoreRestingOrder {order : Order}
    (hx : (e.restoreRestingOrder order).2.Indexes x) : x = order.internalId ∨ e.Indexes x := by
  by_cases hskip : order.type ≠ .limit ∨ order.remainingQty ≤ 0
  · rw [restoreRestingOrder, if_pos hskip] at hx
    exact Or.inr hx
  · rw [e.restoreRestingOrder_eq hskip _ rfl] at hx
    exact indexes_setBook (fun y hy => (e.bookOf order.symbol).mem_restoreRestingOrder _ _ _ _ _ hy)
      hx

end MatchingEngine

/-- What fills leave alone in a manager and in the order that they fill. -/
structure FillsFrame (m : OrderManager) (order : Order) (m' : OrderManager) (order' : Order) :
    Prop where
  nextOrderId : m'.nextOrderId = m.nextOrderId
  engine : m'.engine = m.engine
  known : ∀ id, id ∈ m'.orders ↔ id ∈ m.orders
  terms : SameTerms order order'
  sum : order'.filledQty + order'.remainingQty = order.filledQty + order.remainingQty

theorem FillsFrame.refl (m : OrderManager) (order : Order) : FillsFrame m order m order :=
  ⟨rfl, rfl, fun _ => Iff.rfl, SameTerms.refl order, rfl⟩

theorem FillsFrame.trans {m m' m'' : OrderManager} {order order' order'' : Order}
    (h : FillsFrame m order m' order') (h' : FillsFrame m' order' m'' order'') :
    FillsFrame m order m'' order'' where
  nextOrderId := h'.nextOrderId.trans h.nextOrderId
  engine := h'.engine.trans h.engine
  known id := (h'.known id).trans (h.known id)
  terms := h.terms.trans h'.terms
  sum := h'.sum.trans h.sum

theorem fillPassive_frame (m : OrderManager) (fill : Fill) (order : Order) :
    FillsFrame m order (m.fillPassive fill) order := by
  refine ⟨?_, ?_, fun id => ?_, SameTerms.refl order, rfl⟩
  · rw [OrderManager.fillPassive]
    cases m.orders.lookup fill.passiveOrderId <;> rfl
  · rw [OrderManager.fillPassive]
    cases m.orders.lookup fill.passiveOrderId <;> rfl
  · rw [fillPassive_orders]
    cases hpassive : m.orders.lookup fill.passiveOrderId with
    | none => exact Iff.rfl
    | some passive =>
      have hmem : fill.passiveOrderId ∈ m.orders := Finmap.mem_of_lookup_eq_some hpassive
      refine Finmap.mem_insert.trans ⟨fun h => ?_, Or.inr⟩
      obtain rfl | h := h
      · exact hmem
      · exact h

theorem applyFill_frame (m : OrderManager) (order : Order) (fill : Fill) :
    FillsFrame m order (m.applyFill order fill).1 (m.applyFill order fill).2 := by
  have hpassive := fillPassive_frame
    ({ m with executions := m.executions ++ [fill] }.write (.saveExecution fill)) fill order
  refine ⟨hpassive.nextOrderId, hpassive.engine, hpassive.known, sameTerms_fillOrder order fill, ?_⟩
  change order.filledQty + fill.quantity + (order.remainingQty - fill.quantity) = _
  omega

theorem applyFills_frame (m : OrderManager) (order : Order) (fills : List Fill) :
    FillsFrame m order (m.applyFills order fills).1 (m.applyFills order fills).2 := by
  induction fills generalizing m order with
  | nil => exact FillsFrame.refl m order
  | cons fill fills ih => exact (applyFill_frame m order fill).trans (ih _ _)

theorem place_terms (m : OrderManager) (req : NewOrderRequest) {order : Order}
    (h : (m.place req).1 = .ok order) :
    SameTerms (newOrder req m.nextOrderId .pendingNew m.now m.now) order := by
  unfold OrderManager.place at h
  dsimp only at h
  cases hadd : (m.request req).2.engine.addOrder req.symbol (m.request req).1.internalId req.side
      req.type req.price req.quantity (m.request req).2.now with
  | mk res engine =>
    cases res with
    | error err => simp [hadd] at h
    | ok result =>
      simp only [hadd, Except.ok.injEq] at h
      rw [← h]
      have hstart : SameTerms (newOrder req m.nextOrderId .pendingNew m.now m.now)
          ((m.request req).2.accept engine (m.request req).1).1 :=
        ⟨rfl, rfl, rfl, rfl, rfl, rfl, rfl, rfl⟩
      have hframe := applyFills_frame ((m.request req).2.accept engine (m.request req).1).2
        ((m.request req).2.accept engine (m.request req).1).1 result.fills
      exact (hstart.trans hframe.terms).trans ⟨rfl, rfl, rfl, rfl, rfl, rfl, rfl, rfl⟩

/-- The manager has handed out its next id and stored an order under it. -/
structure Records (m m' : OrderManager) (order : Order) : Prop where
  nextOrderId : m'.nextOrderId = m.nextOrderId + 1
  lookup : m'.orders.lookup m.nextOrderId = some order
  internalId : order.internalId = m.nextOrderId
  addsUp : order.filledQty + order.remainingQty = order.orderQty
  known : ∀ id ∈ m'.orders, id = m.nextOrderId ∨ id ∈ m.orders
  indexed : ∀ x, m'.engine.Indexes x → x = m.nextOrderId ∨ m.engine.Indexes x

theorem Records.of_risk {m m' : OrderManager} {risk : RiskManager} {order : Order}
    (h : Records { m with risk } m' order) : Records m m' order :=
  ⟨h.nextOrderId, h.lookup, h.internalId, h.addsUp, h.known, h.indexed⟩

theorem rejectByRisk_records (m : OrderManager) (req : NewOrderRequest) (err : OemsError) :
    Records m (m.rejectByRisk req err)
      (newOrder req m.nextOrderId .rejected m.now m.tick.now) where
  nextOrderId := rejectByRisk_nextOrderId m req err
  lookup := by
    rw [rejectByRisk_orders, Finmap.lookup_insert]
  internalId := rfl
  addsUp := zero_add _
  known id hmem := by
    rw [rejectByRisk_orders] at hmem
    exact Finmap.mem_insert.mp hmem
  indexed x hx := by
    rw [rejectByRisk_engine] at hx
    exact Or.inr hx

theorem settle_records {m start : OrderManager} {order : Order}
    (hnext : start.nextOrderId = m.nextOrderId + 1) (horders : start.orders = m.orders)
    (hindexed : ∀ x, start.engine.Indexes x → x = m.nextOrderId ∨ m.engine.Indexes x)
    (hid : order.internalId = m.nextOrderId)
    (hsum : order.filledQty + order.remainingQty = order.orderQty) (fills : List Fill) :
    Records m ((start.applyFills order fills).1.settle (start.applyFills order fills).2).2
      ((start.applyFills order fills).1.settle (start.applyFills order fills).2).1 := by
  have hframe := applyFills_frame start order fills
  have hid' := hframe.terms.internalId.trans hid
  refine ⟨?_, ?_, hid', ?_, fun id hmem => ?_, fun x hx => ?_⟩
  · rw [settle_nextOrderId, hframe.nextOrderId, hnext]
  · rw [settle_orders, hid', Finmap.lookup_insert]
    rfl
  · exact hframe.sum.trans (hsum.trans hframe.terms.orderQty.symm)
  · rw [settle_orders, hid', Finmap.mem_insert, hframe.known, horders] at hmem
    exact hmem
  · rw [settle_engine, hframe.engine] at hx
    exact hindexed x hx

/-- `SubmitOrder` after a passed risk check, from any state: the engine refuses an id
that rests already, and takes the order otherwise. -/
theorem place_cases (m : OrderManager) {req : NewOrderRequest} (hv : validate req = .ok ()) :
    (m.nextOrderId ∈ (m.engine.bookOf req.symbol).idIndex ∧
      ∃ err m' created updated, m.place req = (.error err, m') ∧
        Records m m' (newOrder req m.nextOrderId .rejected created updated)) ∨
    (m.nextOrderId ∉ (m.engine.bookOf req.symbol).idIndex ∧
      ∃ order m', m.place req = (.ok order, m') ∧ Records m m' order) := by
  obtain ⟨hqty, hprice, -⟩ := validate_ok hv
  have hadd : (m.request req).2.engine.addOrder req.symbol (m.request req).1.internalId req.side
      req.type req.price req.quantity (m.request req).2.now = _ :=
    m.engine.addOrder_eq req.symbol m.nextOrderId req.side req.type req.price req.quantity _
  have hindexed : ∀ x, ((m.request req).2.engine.addOrder req.symbol (m.request req).1.internalId
      req.side req.type req.price req.quantity (m.request req).2.now).2.Indexes x →
        x = m.nextOrderId ∨ m.engine.Indexes x := fun x hx => MatchingEngine.indexes_addOrder hx
  rw [hadd] at hindexed
  obtain ⟨-, hid, result, b', hok⟩ | ⟨hnot, err, herr⟩ :=
    (m.engine.bookOf req.symbol).addOrder_cases m.nextOrderId req.side req.type req.price
      req.quantity (m.request req).2.now
  · rw [hok] at hadd hindexed
    dsimp only at hadd hindexed
    generalize { m.engine.setBook req.symbol b' with
      nextExecutionId := m.engine.nextExecutionId + result.fills.length } = engine at hadd hindexed
    refine Or.inr ⟨hid, ?_⟩
    rw [OrderManager.place]
    simp only [hadd]
    have hrec := @settle_records m ((m.request req).2.accept engine (m.request req).1).2
      ((m.request req).2.accept engine (m.request req).1).1 rfl rfl hindexed rfl (zero_add _)
    exact ⟨_, _, rfl, hrec _⟩
  · rw [herr] at hadd hindexed
    have hid : m.nextOrderId ∈ (m.engine.bookOf req.symbol).idIndex := by
      by_contra hid
      exact hnot ⟨⟨hqty, hprice⟩, hid⟩
    refine Or.inl ⟨hid, err, ?_⟩
    rw [OrderManager.place]
    simp only [hadd]
    exact ⟨_, (m.request req).1.createdAt, _, rfl, rfl, Finmap.lookup_insert _, rfl, zero_add _,
      fun id hmem => Finmap.mem_insert.mp hmem, fun x hx => hindexed x hx⟩

/-- The risk gate and the book of its symbol have no objection to a request. -/
def Unopposed (check : RiskCheck) (m : OrderManager) (req : NewOrderRequest) : Prop :=
  (check m.risk (riskRequest req)).1 = .ok () ∧
    m.nextOrderId ∉ (m.engine.bookOf req.symbol).idIndex

theorem submitOrder_records (check : RiskCheck) (m : OrderManager) {req : NewOrderRequest}
    (hv : validate req = .ok ()) :
    (Unopposed check m req ∧
      ∃ order m', m.submitOrder check req = (.ok order, m') ∧ Records m m' order) ∨
    (¬ Unopposed check m req ∧
      ∃ err m' created updated, m.submitOrder check req = (.error err, m') ∧
        Records m m' (newOrder req m.nextOrderId .rejected created updated)) := by
  generalize hres : m.submitOrder check req = res
  have hstep := submitStep check m req
  rw [hres] at hstep
  cases hstep with
  | invalid err hinvalid =>
    rw [hv] at hinvalid
    cases hinvalid
  | refused risk err _ hcheck =>
    refine Or.inr ⟨fun h => ?_, err, _, m.now, m.tick.now, rfl, ?_⟩
    · rw [Unopposed, hcheck] at h
      cases h.1
    · exact (rejectByRisk_records { m with risk } req err).of_risk
  | placed risk _ hcheck =>
    obtain ⟨hid, err, m', created, updated, hplace, hrec⟩ | ⟨hid, order, m', hplace, hrec⟩ :=
      place_cases { m with risk } hv
    · exact Or.inr ⟨fun h => h.2 hid, err, m', created, updated, hplace, hrec.of_risk⟩
    · exact Or.inl ⟨⟨by rw [hcheck], hid⟩, order, m', hplace, hrec.of_risk⟩

/-- The orders that a call of the manager files under the ids that it hands out. -/
def Files (m m' : OrderManager) (o : Order) : Prop :=
  ∃ id, m.nextOrderId ≤ id ∧ id < m'.nextOrderId ∧ m'.orders.lookup id = some o

theorem Records.files_iff {m m' : OrderManager} {order : Order} (h : Records m m' order)
    {o : Order} : Files m m' o ↔ o = order := by
  constructor
  · rintro ⟨id, hle, hlt, ho⟩
    have hid : id = m.nextOrderId := by
      have := h.nextOrderId
      omega
    rw [hid, h.lookup] at ho
    exact (Option.some.inj ho).symm
  · rintro rfl
    refine ⟨m.nextOrderId, le_rfl, ?_, h.lookup⟩
    rw [h.nextOrderId]
    exact Nat.lt_succ_self _

theorem submitOrder_files (check : RiskCheck) (m : OrderManager) {req : NewOrderRequest}
    (hv : validate req = .ok ()) : ∃ order t, Records m (m.submitOrder check req).2 order ∧
      SameTerms (newOrder req m.nextOrderId .pendingNew t t) order := by
  obtain ⟨-, order, m', hsubmit, hrec⟩ |
    ⟨-, err, m', created, updated, hsubmit, hrec⟩ := submitOrder_records check m hv
  · have hstep := submitStep check m req
    rw [hsubmit] at hstep ⊢
    refine ⟨order, m.now, hrec, ?_⟩
    generalize hr : (Except.ok order, m') = r at hstep
    cases hstep with
    | invalid err _ => cases hr
    | refused risk err _ _ => cases hr
    | placed risk _ _ =>
      have hok : (({ m with risk } : OrderManager).place req).1 = .ok order := by rw [← hr]
      exact place_terms { m with risk } req hok
  · rw [hsubmit]
    exact ⟨_, created, hrec, rfl, rfl, rfl, rfl, rfl, rfl, rfl, rfl⟩

/-- An order is open, and its book finds it. -/
def Cancellable (m : OrderManager) (id : ℕ) : Prop :=
  ∃ o, m.orders.lookup id = some o ∧
    ¬ (o.status = .filled ∨ o.status = .cancelled ∨ o.status = .rejected) ∧
    ∃ book, m.engine.books.lookup o.symbol.value = some book ∧ book.Finds o.internalId

theorem MatchingEngine.cancelOrder_ok_iff (e : MatchingEngine) (symbol : Symbol) (id : ℕ) :
    (∃ entry, (e.cancelOrder symbol id).1 = .ok entry) ↔
      ∃ book, e.books.lookup symbol.value = some book ∧ book.Finds id := by
  rw [MatchingEngine.cancelOrder]
  cases hbook : e.books.lookup symbol.value with
  | none => simp
  | some book => simp [book.cancelOrder_ok_iff id]

theorem OrderManager.cancelOrder_cases (m : OrderManager) (id : ℕ) :
    (Cancellable m id ∧ ∃ o t, m.orders.lookup id = some o ∧
      ¬ (o.status = .filled ∨ o.status = .cancelled ∨ o.status = .rejected) ∧
      (m.cancelOrder ⟨id⟩).2.orders = m.orders.insert id (cancelledOrder o t)) ∨
    (¬ Cancellable m id ∧ (m.cancelOrder ⟨id⟩).2.orders = m.orders) := by
  rw [OrderManager.cancelOrder, Cancellable]
  dsimp only
  cases ho : m.orders.lookup id with
  | none => exact Or.inr ⟨by simp, rfl⟩
  | some o =>
    dsimp only
    by_cases hclosed : o.status = .filled ∨ o.status = .cancelled ∨ o.status = .rejected
    · rw [if_pos hclosed]
      refine Or.inr ⟨?_, rfl⟩
      rintro ⟨x, hx, hopen, -⟩
      exact hopen (Option.some.inj hx ▸ hclosed)
    · rw [if_neg hclosed]
      have hok := m.engine.cancelOrder_ok_iff o.symbol o.internalId
      rw [appendEvent_engine]
      generalize m.engine.cancelOrder o.symbol o.internalId = r at hok
      obtain ⟨err | entry, engine⟩ := r
      · refine Or.inr ⟨?_, rfl⟩
        rintro ⟨x, hx, -, hfinds⟩
        obtain ⟨entry, hentry⟩ := hok.mpr (Option.some.inj hx ▸ hfinds)
        cases hentry
      · exact Or.inl ⟨⟨o, rfl, hclosed, hok.mp ⟨entry, rfl⟩⟩, o, _, rfl, hclosed, rfl⟩

end Oems
