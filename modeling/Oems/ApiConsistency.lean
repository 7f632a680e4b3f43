import Oems.ListedBooks
import Oems.RowServer

namespace Oems

open Lib OrderManager

theorem Uncrossed.of_quotes {orders orders' : List RestingOrder} (h : Uncrossed orders)
    (hperm : (orders'.map RestingOrder.toQuote).Perm (orders.map RestingOrder.toQuote)) :
    Uncrossed orders' := by
  apply h.places
  intro x hx
  obtain ⟨y, hy, hxy⟩ := List.mem_map.mp (hperm.subset (List.mem_map_of_mem hx))
  exact ⟨y, hy, congrArg Quote.side hxy, congrArg Quote.price hxy⟩

theorem EngineRefines.quotes_perm {e : MatchingEngine} {live live' : Symbol → List RestingOrder}
    (h : EngineRefines e live) (h' : EngineRefines e live') (s : Symbol) :
    ((live s).map RestingOrder.toQuote).Perm ((live' s).map RestingOrder.toQuote) := by
  obtain ⟨_, hb⟩ := h s
  obtain ⟨_, hb'⟩ := h' s
  exact hb.quotes_perm.symm.trans hb'.quotes_perm

/-- No live buy order of the table offers what a live sell order of the symbol asks. -/
def UncrossedTable (m : OrderManager) : Prop :=
  ∀ s, Uncrossed (liveOrders m.orders m.nextOrderId s)

theorem UncrossedTable.place {m : OrderManager} (ha : Agrees m) (h : UncrossedTable m)
    {req : NewOrderRequest} (hv : validate req = .ok ()) : UncrossedTable (m.place req).2 := by
  obtain ⟨hq, hp, _⟩ := validate_ok hv
  have ht := ha.takeoff hv
  have hend := ha.place hv
  obtain ⟨created, updated, horder⟩ := ht.order
  obtain ⟨_, hfly, _⟩ := ha.land hv
  have hengine := ht.engine
  rw [ht.place] at hend ⊢
  have hsame : ((m.flightOf req).land.1.settle (m.flightOf req).land.2).2.engine =
      (m.flightOf req).manager.engine := by
    rw [settle_engine]
    exact hfly.engine
  rw [← hsame] at hengine
  intro s
  apply Uncrossed.of_quotes _ (hend.engine.quotes_perm hengine s)
  by_cases hs : s = req.symbol
  · rw [hs, Function.update_self]
    have hnew : (m.flatBook req.symbol).find m.nextOrderId = none := by
      apply (find_liveOrders ha.filed _).trans
      rw [ha.filed.lookup_bound]
      rfl
    obtain ⟨outcome, hadd, -⟩ := naive_addOrder_ok
      (t := ⟨m.nextOrderId, req.side, req.type, req.price⟩) hq hp hnew
    have hadded := Uncrossed.addOrder (n := m.flatBook req.symbol) (h req.symbol) m.nextOrderId
      req.side req.type req.price req.quantity
    rw [hadd] at hadded
    exact hadded
  · rw [Function.update_of_ne hs]
    exact h s

theorem uncrossed_stepInvariant : StepInvariant Always UncrossedTable where
  rejected := by
    intro m _ req risk err ha h _ hv s
    have hend := (ha.withRisk risk).rejectByRisk hv err
    have hengine := hend.engine
    rw [rejectByRisk_engine] at hengine
    exact (h s).of_quotes (hengine.quotes_perm ha.engine s)
  placed := by
    intro m _ req risk ha h _ hv _
    exact UncrossedTable.place (ha.withRisk risk) h hv
  notResting := fun _ _ _ h _ _ _ _ => h
  withdrawn := by
    intro m order engine ha h _ hl hs _ hn s
    obtain ⟨now, horders⟩ := withdraw_orders m order engine
    rw [horders, withdraw_nextOrderId]
    have hgone : ∀ s', restingOf s' (cancelledOrder order now) = none :=
      fun s' => restingOf_eq_none fun hc => by simp [cancelledOrder, OrderStatus.live] at hc
    by_cases hsym : s = order.symbol
    · rw [liveOrders_insert ha.filed hl (fun _ => none)
        (by rw [hgone]; cases restingOf s order <;> rfl)]
      apply (h s).places
      exact fun x hx => ⟨x, (Keyed.mem_update_none hx).1, rfl, rfl⟩
    · rw [liveOrders_insert_other hl (Ne.symm hsym) (sameTerms_cancelledOrder order now).symbol]
      exact h s

theorem UncrossedTable.boot (risk : RiskManager) (clock : ℕ → ℤ) :
    UncrossedTable (boot risk clock) := fun s x hx => by
  simp [Oems.boot, OrderManager.new, liveOrders] at hx

theorem uncrossed_hostInvariant : HostInvariant UncrossedTable := by
  apply uncrossed_stepInvariant.hostInvariant
  intro m m' hsame h
  rw [UncrossedTable, hsame.orders, hsame.nextOrderId]
  exact h

def OrderManager.allOrders (m : OrderManager) : Multiset OrderDto :=
  (tableOrders m.orders).map Order.toDto

def Passing (filter : Option Str) (text : Str) : Prop :=
  ∀ s ∈ OrdersController.given filter, text = s

instance (filter : Option Str) (text : Str) : Decidable (Passing filter text) :=
  match h : OrdersController.given filter with
  | none => isTrue fun s hs => by rw [h] at hs; cases hs
  | some s => decidable_of_iff (text = s) (by simp [Passing, h])

def FillDto.Names (id : ℤ) (f : FillDto) : Prop :=
  f.aggressiveOrderId = id ∨ f.passiveOrderId = id

instance (id : ℤ) : DecidablePred (FillDto.Names id) :=
  fun _ => inferInstanceAs (Decidable (_ ∨ _))

/-- The orders that make up one level of a book, told by what the API shows of them. -/
def OrderDto.Rests (symbol side : Str) (p : ℤ) (o : OrderDto) : Prop :=
  o.symbol = symbol ∧ o.type = str "Limit" ∧
    (o.status = str "Accepted" ∨ o.status = str "PartiallyFilled") ∧ o.side = side ∧ o.price = p

instance (symbol side : Str) (p : ℤ) : DecidablePred (OrderDto.Rests symbol side p) :=
  fun _ => inferInstanceAs (Decidable (_ ∧ _))

def restingQty (all : Multiset OrderDto) (symbol side : Str) (p : ℤ) : ℤ :=
  ((all.filter (OrderDto.Rests symbol side p)).map OrderDto.remainingQty).sum

/-- The levels of one side add up the orders at their prices, and miss none. A total is an
`std::int64_t`. -/
structure SumsUp (all : Multiset OrderDto) (symbol side : Str) (levels : List PriceLevelDto) :
    Prop where
  totalQty : ∀ l ∈ levels, InInt64 (restingQty all symbol side l.price) →
    l.totalQty = restingQty all symbol side l.price
  orderCount : ∀ l ∈ levels,
    l.orderCount = (all.filter (OrderDto.Rests symbol side l.price)).card
  nonempty : ∀ l ∈ levels, 0 < l.orderCount
  complete : ∀ o ∈ all, ∀ p, OrderDto.Rests symbol side p o → ∃ l ∈ levels, l.price = p

/-- What a book shows of the orders of its symbol. -/
structure Shows (all : Multiset OrderDto) (symbol : Str) (bids asks : List PriceLevelDto) :
    Prop where
  bid : SumsUp all symbol (str "Buy") bids
  ask : SumsUp all symbol (str "Sell") asks
  bids_sorted : (bids.map PriceLevelDto.price).Pairwise (· > ·)
  asks_sorted : (asks.map PriceLevelDto.price).Pairwise (· < ·)
  uncrossed : ∀ bid ask, bids.head? = some bid → asks.head? = some ask → bid.price < ask.price

/-- The levels that `GET /v1/books` publishes: those of a book, or none where it has no book. -/
inductive Publishes (symbol : Str) :
    ApiResponse → List PriceLevelDto → List PriceLevelDto → Prop where
  | book (bids asks : List PriceLevelDto) :
    Publishes symbol (.book ⟨symbol, bids, asks⟩) bids asks
  | noBook : Publishes symbol (.error 404 (str "BookNotFound")) [] []

/-- The endpoints that read tell one story. -/
structure Reconciled (m : OrderManager) : Prop where
  listed : ∀ symbol status,
    (∀ s ∈ OrdersController.given status, ∃ st, orderStatusName st = s) →
      OrdersController.listOrders m symbol status = .orders
        (m.allOrders.filter fun o => Passing symbol o.symbol ∧ Passing status o.status)
  unlisted : ∀ symbol status, ∀ s ∈ OrdersController.given status,
    (∀ st, orderStatusName st ≠ s) →
      OrdersController.listOrders m symbol status = .error 400 (str "invalid order status")
  found : ∀ id : ℤ, 0 ≤ id → id < 2 ^ 63 → ∀ o,
    OrdersController.getOrder m (some id) = .order 200 o ↔ o ∈ m.allOrders ∧ o.internalId = id
  missing : ∀ id : ℤ, 0 ≤ id → id < 2 ^ 63 → (∀ o ∈ m.allOrders, o.internalId ≠ id) →
    OrdersController.getOrder m (some id) = .error 404 (str "OrderNotFound")
  executed : ExecutionsController.listExecutions m =
    .executions (m.getAllExecutions.map Fill.toDto)
  filled : ∀ o ∈ m.allOrders, o.orderQty = o.filledQty + o.remainingQty ∧
    o.filledQty = (((m.getAllExecutions.map Fill.toDto).filter
      (FillDto.Names o.internalId)).map FillDto.quantity).sum
  book : ∀ symbol, symbol ≠ [] → ∃ bids asks,
    Publishes symbol (BooksController.getBook m.engine (some symbol)) bids asks ∧
      Shows m.allOrders symbol bids asks
  /-- A symbol with an order that rests has a book. -/
  opened : ∀ symbol, symbol ≠ [] → ∀ o ∈ m.allOrders, ∀ side p, OrderDto.Rests symbol side p o →
    ∃ b, BooksController.getBook m.engine (some symbol) = .book b
  /-- A symbol without an order has none. -/
  unknown : ∀ symbol, symbol ≠ [] → (∀ o ∈ m.allOrders, o.symbol ≠ symbol) →
    BooksController.getBook m.engine (some symbol) = .error 404 (str "BookNotFound")

theorem domainToDtoSide_injective : Function.Injective domainToDtoSide := by
  intro s s' h
  cases s <;> cases s' <;> first | rfl | exact absurd h (by decide)

theorem orderStatusName_injective : Function.Injective orderStatusName := by
  intro s s' h
  cases s <;> cases s' <;> first | rfl | exact absurd h (by decide)

theorem parseRequestStatus_name (st : OrderStatus) :
    parseRequestStatus (some (orderStatusName st)) = .ok st := by
  cases st <;> rfl

theorem parseRequestStatus_unknown {s : Str} (h : ∀ st, orderStatusName st ≠ s) :
    parseRequestStatus (some s) = .error .invalidOrderType :=
  (if_neg (h .pendingNew).symm).trans <| (if_neg (h .accepted).symm).trans <|
    (if_neg (h .partiallyFilled).symm).trans <| (if_neg (h .filled).symm).trans <|
    (if_neg (h .pendingCancel).symm).trans <| (if_neg (h .cancelled).symm).trans <|
    if_neg (h .rejected).symm

theorem status_live_iff (st : OrderStatus) :
    (domainToDtoStatus st = str "Accepted" ∨ domainToDtoStatus st = str "PartiallyFilled") ↔
      st.live := by
  cases st <;> decide

theorem type_limit_iff (type : OrderType) :
    domainToDtoType type = str "Limit" ↔ type = .limit := by
  cases type <;> decide

theorem toDto_rests {o : Order} {symbol : Str} {side : Side} {p : ℤ} :
    OrderDto.Rests symbol (domainToDtoSide side) p o.toDto ↔ AtLevel ⟨symbol⟩ side p o := by
  have hsymbol : o.symbol.value = symbol ↔ o.symbol = ⟨symbol⟩ := by
    obtain ⟨_, _, ⟨value⟩⟩ := o
    simp
  exact and_congr hsymbol (and_congr (type_limit_iff o.type) (and_congr (status_live_iff o.status)
    (and_congr domainToDtoSide_injective.eq_iff Iff.rfl)))

theorem filter_rests (m : OrderManager) (symbol : Str) (side : Side) (p : ℤ) :
    m.allOrders.filter (OrderDto.Rests symbol (domainToDtoSide side) p) =
      ((tableOrders m.orders).filter (AtLevel ⟨symbol⟩ side p)).map Order.toDto := by
  rw [allOrders, Multiset.filter_map]
  apply congrArg (Multiset.map Order.toDto)
  exact Multiset.filter_congr fun o _ => toDto_rests

theorem Agrees.sumsUp {m : OrderManager} (h : Agrees m) (symbol : Str) {side : Side}
    {levels : BookSide side}
    (harranged : Arranged side levels.entries (liveOrders m.orders m.nextOrderId ⟨symbol⟩))
    (hunique : UniqueIds (liveOrders m.orders m.nextOrderId ⟨symbol⟩)) :
    SumsUp m.allOrders symbol (domainToDtoSide side)
      ((OrderBook.priceLevels levels).map PriceLevel.toDto) := by
  obtain ⟨hlevels, hcomplete⟩ := h.priceLevels ⟨symbol⟩ harranged hunique
  constructor
  · intro l hl
    obtain ⟨level, hlevel, rfl⟩ := List.mem_map.mp hl
    have htotal := (hlevels level hlevel).1
    rw [restingQty, filter_rests, Multiset.map_map]
    intro hrange
    exact htotal.trans (wrapInt64_eq hrange)
  · intro l hl
    obtain ⟨level, hlevel, rfl⟩ := List.mem_map.mp hl
    rw [filter_rests, Multiset.card_map]
    exact congrArg Nat.cast (hlevels level hlevel).2.1
  · intro l hl
    obtain ⟨level, hlevel, rfl⟩ := List.mem_map.mp hl
    exact Int.natCast_pos.mpr (hlevels level hlevel).2.2
  · intro dto hdto p hrests
    obtain ⟨o, ho, rfl⟩ := Multiset.mem_map.mp hdto
    obtain ⟨level, hlevel, hprice⟩ := hcomplete o ho p (toDto_rests.mp hrests)
    exact ⟨level.toDto, List.mem_map_of_mem hlevel, hprice⟩

/-- What `GET /v1/books` answers with is the book of the engine. -/
theorem getBook_eq (e : MatchingEngine) {symbol : Str} (hsymbol : symbol ≠ []) :
    BooksController.getBook e (some symbol) = .error 404 (str "BookNotFound") ∧
        e.bookOf ⟨symbol⟩ = OrderBook.new ⟨symbol⟩ ∨
      BooksController.getBook e (some symbol) = .book ⟨symbol,
        (e.bookOf ⟨symbol⟩).bidLevels.map PriceLevel.toDto,
        (e.bookOf ⟨symbol⟩).askLevels.map PriceLevel.toDto⟩ := by
  rw [BooksController.getBook, if_neg hsymbol, MatchingEngine.getBook, MatchingEngine.bookOf]
  cases e.books.lookup symbol with
  | none => exact Or.inl ⟨rfl, rfl⟩
  | some book => exact Or.inr rfl

theorem getBook_publishes (e : MatchingEngine) {symbol : Str} (hsymbol : symbol ≠ []) :
    Publishes symbol (BooksController.getBook e (some symbol))
      ((e.bookOf ⟨symbol⟩).bidLevels.map PriceLevel.toDto)
      ((e.bookOf ⟨symbol⟩).askLevels.map PriceLevel.toDto) := by
  obtain ⟨hnone, hnew⟩ | hbook := getBook_eq e hsymbol
  · rw [hnone, hnew]
    exact Publishes.noBook
  · rw [hbook]
    exact Publishes.book _ _

theorem getBook_unknown {e : MatchingEngine} {symbol : Str} (hsymbol : symbol ≠ [])
    (h : symbol ∉ e.books) :
    BooksController.getBook e (some symbol) = .error 404 (str "BookNotFound") := by
  have hlookup : e.books.lookup symbol = none := Finmap.lookup_eq_none.mpr h
  rw [BooksController.getBook, if_neg hsymbol, MatchingEngine.getBook]
  simp only [hlookup]
  rfl

theorem selects_iff {symbol status : Option Str} {st : Option OrderStatus} {o : Order}
    (hst : OrdersController.given status = st.map orderStatusName) :
    selects ((OrdersController.given symbol).map Symbol.mk) st o = true ↔
      Passing symbol o.toDto.symbol ∧ Passing status o.toDto.status := by
  rw [selects, Bool.and_eq_true, Passing, Passing, hst]
  apply and_congr
  · cases OrdersController.given symbol with
    | none => simp
    | some s =>
      obtain ⟨_, _, ⟨value⟩⟩ := o
      simp [Order.toDto]
  · cases st with
    | none => simp
    | some st =>
      have hname : o.toDto.status = orderStatusName st ↔ o.status = st :=
        orderStatusName_injective.eq_iff
      simp [hname]

theorem getOrders_toDto {m : OrderManager} {symbol status : Option Str}
    {st : Option OrderStatus} (hst : OrdersController.given status = st.map orderStatusName) :
    (m.getOrders ((OrdersController.given symbol).map Symbol.mk) st).map Order.toDto =
      m.allOrders.filter fun o => Passing symbol o.symbol ∧ Passing status o.status := by
  rw [allOrders, Multiset.filter_map, getOrders]
  apply congrArg (Multiset.map Order.toDto)
  exact Multiset.filter_congr fun o _ => selects_iff hst

theorem listOrders_named {m : OrderManager} {symbol status : Option Str}
    (h : ∀ s ∈ OrdersController.given status, ∃ st, orderStatusName st = s) :
    OrdersController.listOrders m symbol status = .orders
      (m.allOrders.filter fun o => Passing symbol o.symbol ∧ Passing status o.status) := by
  rw [OrdersController.listOrders]
  cases hgiven : OrdersController.given status with
  | none => exact congrArg ApiResponse.orders (getOrders_toDto hgiven)
  | some s =>
    obtain ⟨st, rfl⟩ := h s hgiven
    simp only [parseRequestStatus_name]
    exact congrArg ApiResponse.orders (getOrders_toDto hgiven)

theorem listOrders_all (m : OrderManager) :
    OrdersController.listOrders m none none = .orders m.allOrders := by
  have hpasses : ∀ text, Passing none text := by
    intro text s hs
    cases hs
  have hnamed : ∀ s ∈ OrdersController.given none, ∃ st, orderStatusName st = s := by
    intro s hs
    cases hs
  rw [listOrders_named hnamed, Multiset.filter_eq_self.mpr fun o _ => ⟨hpasses _, hpasses _⟩]

theorem listOrders_unknown {m : OrderManager} {symbol status : Option Str} {s : Str}
    (hs : s ∈ OrdersController.given status) (h : ∀ st, orderStatusName st ≠ s) :
    OrdersController.listOrders m symbol status =
      .error 400 (str "invalid order status") := by
  rw [OrdersController.listOrders, Option.mem_def.mp hs]
  simp only [parseRequestStatus_unknown h]

theorem getOrder_iff {m : OrderManager} (h : Agrees m) {id : ℤ} (hid : 0 ≤ id)
    (hmax : id < 2 ^ 63) {dto : OrderDto} :
    OrdersController.getOrder m (some id) = .order 200 dto ↔
      dto ∈ m.allOrders ∧ dto.internalId = id := by
  rw [OrdersController.getOrder, toOrderId_eq hid (by omega)]
  constructor
  · intro hres
    cases hlookup : m.orders.lookup id.toNat with
    | none =>
      rw [OrderManager.getOrder, hlookup] at hres
      cases hres
    | some o =>
      rw [OrderManager.getOrder, hlookup] at hres
      cases hres
      refine ⟨Multiset.mem_map_of_mem _ (mem_tableOrders.mpr ⟨_, hlookup⟩), ?_⟩
      change (o.internalId : ℤ) = id
      rw [(h.filed _ _ hlookup).1, Int.toNat_of_nonneg hid]
  · rintro ⟨hdto, rfl⟩
    obtain ⟨o, ho, rfl⟩ := Multiset.mem_map.mp hdto
    have hlookup := h.filed.lookup ho
    have hid : o.toDto.internalId.toNat = o.internalId := Int.toNat_natCast _
    rw [hid, OrderManager.getOrder, hlookup]
    rfl

theorem getOrder_missing {m : OrderManager} {id : ℤ} (hid : 0 ≤ id) (hmax : id < 2 ^ 63)
    (h : ∀ o ∈ m.allOrders, o.internalId ≠ id) (hfiled : Filed m.orders m.nextOrderId) :
    OrdersController.getOrder m (some id) = .error 404 (str "OrderNotFound") := by
  have hlookup : m.orders.lookup id.toNat = none := by
    rw [Option.eq_none_iff_forall_ne_some]
    intro o ho
    apply h o.toDto (Multiset.mem_map_of_mem _ (mem_tableOrders.mpr ⟨_, ho⟩))
    change (o.internalId : ℤ) = id
    rw [(hfiled _ _ ho).1, Int.toNat_of_nonneg hid]
  rw [OrdersController.getOrder, toOrderId_eq hid (by omega), OrderManager.getOrder, hlookup]
  rfl

theorem names_toDto {f : Fill} {id : ℕ} : FillDto.Names id f.toDto ↔ f.names id :=
  or_congr Nat.cast_inj Nat.cast_inj

theorem names_comp_toDto (id : ℕ) : (fun f => decide (FillDto.Names id f)) ∘ Fill.toDto =
    fun f : Fill => decide (f.names id) := by
  funext f
  exact decide_eq_decide.mpr names_toDto

theorem filledIn_toDto (executions : List Fill) (id : ℕ) :
    (((executions.map Fill.toDto).filter (FillDto.Names id)).map FillDto.quantity).sum =
      filledIn executions id := by
  rw [List.filter_map, List.map_map, filledIn, names_comp_toDto]
  rfl

theorem Hosting.shows {m : OrderManager} (h : Hosting m) (hcross : UncrossedTable m)
    (symbol : Str) :
    Shows m.allOrders symbol ((m.engine.bookOf ⟨symbol⟩).bidLevels.map PriceLevel.toDto)
      ((m.engine.bookOf ⟨symbol⟩).askLevels.map PriceLevel.toDto) := by
  obtain ⟨_, hbook⟩ := h.agrees.engine ⟨symbol⟩
  have hpublished := hbook.published (hcross ⟨symbol⟩)
  have hprice : PriceLevelDto.price ∘ PriceLevel.toDto = PriceLevel.price := rfl
  refine ⟨h.agrees.sumsUp symbol hbook.bids hbook.unique,
    h.agrees.sumsUp symbol hbook.asks hbook.unique, ?_, ?_, ?_⟩
  · rw [List.map_map, hprice]
    exact hpublished.bids_sorted
  · rw [List.map_map, hprice]
    exact hpublished.asks_sorted
  · intro bid ask hbid hask
    rw [List.head?_map, Option.map_eq_some_iff] at hbid hask
    obtain ⟨bid, hbid, rfl⟩ := hbid
    obtain ⟨ask, hask, rfl⟩ := hask
    exact hpublished.uncrossed bid ask hbid hask

theorem Hosting.opened {m : OrderManager} (h : Hosting m) {symbol : Str} (hsymbol : symbol ≠ [])
    {dto : OrderDto} (hdto : dto ∈ m.allOrders) {side : Str} {p : ℤ}
    (hrests : OrderDto.Rests symbol side p dto) :
    ∃ b, BooksController.getBook m.engine (some symbol) = .book b := by
  obtain ⟨o, ho, rfl⟩ := Multiset.mem_map.mp hdto
  obtain ⟨hs, ht, hl, -, hp⟩ := hrests
  have hat : AtLevel ⟨symbol⟩ o.side p o := toDto_rests.mp ⟨hs, ht, hl, rfl, hp⟩
  have hquote := (h.agrees.mem_quotes ⟨symbol⟩ o.quote).mpr
    ⟨o, h.agrees.filed.lookup ho, ⟨hat.1, hat.2.1, hat.2.2.1⟩, rfl⟩
  obtain ⟨-, hnew⟩ | hbook := getBook_eq m.engine hsymbol
  · rw [hnew] at hquote
    cases hquote
  · exact ⟨_, hbook⟩

/-- What a server keeps for its books, besides that they hold the live orders. -/
def Booked (m : OrderManager) : Prop := UncrossedTable m ∧ BooksListed m

theorem booked_hostInvariant : HostInvariant Booked :=
  uncrossed_hostInvariant.and booksListed_hostInvariant

theorem Booked.boot (risk : RiskManager) (clock : ℕ → ℤ) : Booked (boot risk clock) :=
  ⟨UncrossedTable.boot risk clock, BooksListed.boot risk clock⟩

theorem Hosting.reconciled {m : OrderManager} (h : Hosting m) (hbooks : Booked m) :
    Reconciled m where
  listed := fun _ _ hst => listOrders_named hst
  unlisted := fun _ _ _ hs hst => listOrders_unknown hs hst
  found := fun _ hid hmax _ => getOrder_iff h.agrees hid hmax
  missing := fun _ hid hmax hnone => getOrder_missing hid hmax hnone h.agrees.filed
  executed := rfl
  filled := by
    intro dto hdto
    obtain ⟨o, ho, rfl⟩ := Multiset.mem_map.mp hdto
    have hlookup := h.agrees.filed.lookup ho
    refine ⟨(h.agrees.kept _ _ hlookup).ledger, ?_⟩
    exact (h.ledger.filled _ _ hlookup).trans (filledIn_toDto _ _).symm
  book := fun symbol hsymbol =>
    ⟨_, _, getBook_publishes m.engine hsymbol, h.shows hbooks.1 symbol⟩
  opened := fun _ hsymbol _ hdto _ _ hrests => h.opened hsymbol hdto hrests
  unknown := by
    intro symbol hsymbol hnone
    apply getBook_unknown hsymbol
    intro hbook
    obtain ⟨o, ho, hs⟩ := hbooks.2 symbol hbook
    exact hnone o.toDto (Multiset.mem_map_of_mem _ ho) hs

/-- At any time in the life of a server, over any requests and any number of restarts, its
answers fit each other: every list of orders is the part of all orders that its filters
name, an order is found under its id alone, its filled quantity is the sum of the listed
executions that name it, and every book adds up the live limit orders of its symbol, price
by price, the best price first and the sides not crossed. -/
theorem api_reconciled (risk : RiskManager) (clock : ℕ → ℤ) {tasks : List ServerTask}
    (h : PlainTasks tasks) :
    ∃ m, (Machine.run hostRows (.ok (boot risk clock)) tasks).2 = .ok m ∧ Reconciled m := by
  obtain ⟨m, hok, hm, hbooks⟩ :=
    booked_hostInvariant.hostRows h risk clock (Booked.boot risk clock)
  exact ⟨m, hok, hm.reconciled hbooks⟩

theorem tradeThenRestart_reconciled : ∃ m, (Machine.run hostRows
    (.ok (boot (RiskManager.new RiskLimits.default) fun _ => 0)) tradeThenRestart).2 = .ok m ∧
      Reconciled m :=
  api_reconciled _ _ ⟨by decide, by decide⟩

end Oems
