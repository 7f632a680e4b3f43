import Oems.ApiConsistency
import Oems.Lib.Tally

namespace Oems

open Lib OrderManager

def Order.On (s : Symbol) (side : Side) (o : Order) : Prop := o.symbol = s ∧ o.side = side

instance (s : Symbol) (side : Side) : DecidablePred (Order.On s side) :=
  fun _ => inferInstanceAs (Decidable (_ ∧ _))

theorem FairFill.on {fill : Fill} {aggressive passive : Order}
    (h : FairFill fill aggressive passive) (side : Side) :
    (aggressive.side = side ∧ passive.side ≠ side) ∨
      (aggressive.side ≠ side ∧ passive.side = side) := by
  rw [h.opposite]
  cases aggressive.side <;> cases side <;> simp [Side.opposite]

theorem FairFill.names_iff {orders : OrderMap} {bound : ℕ} (hfiled : Filed orders bound)
    {fill : Fill} {aggressive passive : Order} (h : FairFill fill aggressive passive)
    (ha : orders.lookup fill.aggressiveOrderId = some aggressive)
    (hp : orders.lookup fill.passiveOrderId = some passive) {o : Order}
    (ho : o ∈ tableOrders orders) : fill.names o.internalId ↔ o = aggressive ∨ o = passive := by
  have hlookup := hfiled.lookup ho
  constructor
  · rintro (hid | hid)
    · rw [← hid, ha] at hlookup
      exact Or.inl (Option.some.inj hlookup).symm
    · rw [← hid, hp] at hlookup
      exact Or.inr (Option.some.inj hlookup).symm
  · rintro (rfl | rfl)
    · exact Or.inl h.aggressiveId.symm
    · exact Or.inr h.passiveId.symm

/-- What the executions of an order come to. -/
def postedTo (executions : List Fill) (amount : Fill → ℤ) (o : Order) : ℤ :=
  Tally.balance (fun (fill : Fill) (o : Order) => fill.names o.internalId) amount executions o

/-- Each trade of a symbol is posted to one order on each side, so what is posted to the orders
of a side is what was traded. -/
theorem posted_eq_traded {m : OrderManager} (hm : Hosting m)
    (hfair : FairTrades m.orders m.executions) (s : Symbol) (side : Side) (amount : Fill → ℤ) :
    (((tableOrders m.orders).filter (Order.On s side)).map (postedTo m.executions amount)).sum =
      ((m.executions.filter fun fill => fill.symbol = s).map amount).sum := by
  have hnodup := hm.agrees.filed.nodup_tableOrders.filter (Order.On s side)
  refine Tally.sum_balance_of_once (fun fill : Fill => fill.symbol = s) hnodup ?_ ?_
  · intro fill hfill hs
    obtain ⟨aggressive, passive, ha, hp, hf⟩ := hfair fill hfill
    have hnames : ∀ o ∈ (tableOrders m.orders).filter (Order.On s side),
        fill.names o.internalId ↔ o = aggressive ∨ o = passive := fun o ho =>
      hf.names_iff hm.agrees.filed ha hp (Multiset.mem_of_mem_filter ho)
    obtain ⟨hon, hoff⟩ | ⟨hoff, hon⟩ := hf.on side
    · refine ⟨aggressive, Multiset.mem_filter.mpr ⟨mem_tableOrders.mpr ⟨_, ha⟩,
        hf.aggressiveSymbol.trans hs, hon⟩, fun o ho => (hnames o ho).trans ?_⟩
      have hne : o ≠ passive := fun he => hoff (he ▸ (Multiset.of_mem_filter ho).2)
      exact or_iff_left hne
    · refine ⟨passive, Multiset.mem_filter.mpr ⟨mem_tableOrders.mpr ⟨_, hp⟩,
        hf.passiveSymbol.trans hs, hon⟩, fun o ho => (hnames o ho).trans ?_⟩
      have hne : o ≠ aggressive := fun he => hoff (he ▸ (Multiset.of_mem_filter ho).2)
      exact or_iff_right hne
  · intro fill hfill hs o ho hnamed
    obtain ⟨aggressive, passive, ha, hp, hf⟩ := hfair fill hfill
    have hsymbol := (Multiset.of_mem_filter ho).1
    obtain rfl | rfl :=
      (hf.names_iff hm.agrees.filed ha hp (Multiset.mem_of_mem_filter ho)).mp hnamed
    · exact hs (hf.aggressiveSymbol.symm.trans hsymbol)
    · exact hs (hf.passiveSymbol.symm.trans hsymbol)

theorem filled_eq_traded {m : OrderManager} (hm : Hosting m)
    (hfair : FairTrades m.orders m.executions) (s : Symbol) (side : Side) :
    (((tableOrders m.orders).filter (Order.On s side)).map Order.filledQty).sum =
      ((m.executions.filter fun fill => fill.symbol = s).map Fill.quantity).sum := by
  have hledger : ((tableOrders m.orders).filter (Order.On s side)).map Order.filledQty =
      ((tableOrders m.orders).filter (Order.On s side)).map
        (postedTo m.executions Fill.quantity) := by
    apply Multiset.map_congr rfl
    intro o ho
    have hlookup := hm.agrees.filed.lookup (Multiset.mem_of_mem_filter ho)
    exact hm.ledger.filled _ _ hlookup
  rw [hledger, posted_eq_traded hm hfair]

/-- What rests at a price adds up to an `std::int64_t`. -/
def FitsLevels (all : Multiset OrderDto) (symbol side : Str) : Prop :=
  ∀ p, InInt64 (restingQty all symbol side p)

theorem SumsUp.sum_totalQty {all : Multiset OrderDto} {symbol side : Str}
    {levels : List PriceLevelDto} (h : SumsUp all symbol side levels)
    (hfits : FitsLevels all symbol side) (hnodup : (levels.map PriceLevelDto.price).Nodup) :
    (levels.map PriceLevelDto.totalQty).sum =
      ((all.filter fun o => OrderDto.Rests symbol side o.price o).map
        OrderDto.remainingQty).sum := by
  have hlevels : levels.map PriceLevelDto.totalQty = levels.map
      (Tally.balance (fun (o : OrderDto) (l : PriceLevelDto) =>
        OrderDto.Rests symbol side l.price o) OrderDto.remainingQty all) :=
    List.map_congr_left fun l hl => h.totalQty l hl (hfits l.price)
  rw [hlevels]
  have hunique : (levels : Multiset PriceLevelDto).Nodup := hnodup.of_map
  refine Tally.sum_balance_of_once (fun o : OrderDto => OrderDto.Rests symbol side o.price o)
    hunique ?_ ?_
  · intro o ho hrests
    obtain ⟨l, hl, hprice⟩ := h.complete o ho o.price hrests
    refine ⟨l, hl, fun b hb => ⟨fun hat => ?_, ?_⟩⟩
    · exact List.inj_on_of_nodup_map hnodup hb hl (hat.2.2.2.2.symm.trans hprice.symm)
    · rintro rfl
      exact hprice ▸ hrests
  · rintro o - hrests b - hat
    have hprice : o.price = b.price := hat.2.2.2.2
    rw [hprice] at hrests
    exact hrests hat

namespace OrderManager

def ordersOn (m : OrderManager) (symbol side : Str) : Multiset OrderDto :=
  m.allOrders.filter fun o => o.symbol = symbol ∧ o.side = side

def volume (m : OrderManager) (symbol : Str) : ℤ :=
  (((m.getAllExecutions.map Fill.toDto).filter fun f => f.symbol = symbol).map
    FillDto.quantity).sum

/-- The quantity that is left of the orders of a side and will never trade. -/
def withdrawn (m : OrderManager) (symbol side : Str) : ℤ :=
  (((m.ordersOn symbol side).filter fun o => ¬ OrderDto.Rests symbol side o.price o).map
    OrderDto.remainingQty).sum

end OrderManager

/-- What was ordered on a side was traded, is offered in the book, or was withdrawn. -/
def OrderManager.Balances (m : OrderManager) (symbol side : Str) (levels : List PriceLevelDto) :
    Prop :=
  ((m.ordersOn symbol side).map OrderDto.orderQty).sum =
    m.volume symbol + (levels.map PriceLevelDto.totalQty).sum + m.withdrawn symbol side

/-- The books of account of a server balance: of every symbol as much was bought as sold, and
this is what the executions traded, and what was ordered on a side is accounted for. -/
structure Accounted (m : OrderManager) : Prop where
  listed : OrdersController.listOrders m none none = .orders m.allOrders
  executed : ExecutionsController.listExecutions m =
    .executions (m.getAllExecutions.map Fill.toDto)
  bought : ∀ symbol, ((m.ordersOn symbol (str "Buy")).map OrderDto.filledQty).sum =
    m.volume symbol
  sold : ∀ symbol, ((m.ordersOn symbol (str "Sell")).map OrderDto.filledQty).sum =
    m.volume symbol
  published : ∀ symbol, symbol ≠ [] → ∃ bids asks,
    Publishes symbol (BooksController.getBook m.engine (some symbol)) bids asks ∧
      (FitsLevels m.allOrders symbol (str "Buy") → m.Balances symbol (str "Buy") bids) ∧
      (FitsLevels m.allOrders symbol (str "Sell") → m.Balances symbol (str "Sell") asks)

theorem ordersOn_eq (m : OrderManager) (symbol : Str) (side : Side) :
    m.ordersOn symbol (domainToDtoSide side) =
      ((tableOrders m.orders).filter (Order.On ⟨symbol⟩ side)).map Order.toDto := by
  rw [ordersOn, allOrders, Multiset.filter_map]
  apply congrArg (Multiset.map Order.toDto)
  apply Multiset.filter_congr
  rintro ⟨_, _, ⟨value⟩⟩ -
  simp [Order.On, Order.toDto, domainToDtoSide_injective.eq_iff]

theorem symbol_toDto (symbol : Str) :
    (fun f : FillDto => decide (f.symbol = symbol)) ∘ Fill.toDto =
      fun fill : Fill => decide (fill.symbol = ⟨symbol⟩) := by
  funext fill
  obtain ⟨_, ⟨value⟩⟩ := fill
  exact decide_eq_decide.mpr (by simp [Fill.toDto])

theorem volume_eq (m : OrderManager) (symbol : Str) :
    m.volume symbol =
      ((m.executions.filter fun fill => fill.symbol = ⟨symbol⟩).map Fill.quantity).sum := by
  rw [volume, getAllExecutions, List.filter_map, List.map_map, symbol_toDto]
  rfl

theorem Hosting.filledQty_eq_volume {m : OrderManager} (hm : Hosting m)
    (hfair : FairTrades m.orders m.executions) (symbol : Str) (side : Side) :
    ((m.ordersOn symbol (domainToDtoSide side)).map OrderDto.filledQty).sum =
      m.volume symbol := by
  rw [ordersOn_eq, Multiset.map_map, volume_eq]
  exact filled_eq_traded hm hfair ⟨symbol⟩ side

theorem Reconciled.orderQty_eq {m : OrderManager} (h : Reconciled m) {symbol side : Str}
    {levels : List PriceLevelDto} (hsums : SumsUp m.allOrders symbol side levels)
    (hfits : FitsLevels m.allOrders symbol side)
    (hnodup : (levels.map PriceLevelDto.price).Nodup) :
    ((m.ordersOn symbol side).map OrderDto.orderQty).sum =
      ((m.ordersOn symbol side).map OrderDto.filledQty).sum +
        (levels.map PriceLevelDto.totalQty).sum + m.withdrawn symbol side := by
  have hledger : (m.ordersOn symbol side).map OrderDto.orderQty =
      (m.ordersOn symbol side).map fun o => o.filledQty + o.remainingQty :=
    Multiset.map_congr rfl fun o ho => (h.filled o (Multiset.mem_of_mem_filter ho)).1
  have hrests : (m.ordersOn symbol side).filter (fun o => OrderDto.Rests symbol side o.price o) =
      m.allOrders.filter fun o => OrderDto.Rests symbol side o.price o := by
    rw [ordersOn, Multiset.filter_filter]
    apply Multiset.filter_congr
    exact fun o _ => and_iff_left_of_imp fun hat => ⟨hat.1, hat.2.2.2.1⟩
  have hremaining : ((m.ordersOn symbol side).map OrderDto.remainingQty).sum =
      (levels.map PriceLevelDto.totalQty).sum + m.withdrawn symbol side := by
    rw [hsums.sum_totalQty hfits hnodup, ← hrests, withdrawn, ← Multiset.sum_add,
      ← Multiset.map_add, Multiset.filter_add_not]
  rw [hledger, Multiset.sum_map_add, hremaining, add_assoc]

theorem Hosting.accounted {m : OrderManager} (hm : Hosting m)
    (hfair : FairTrades m.orders m.executions) (h : Reconciled m) : Accounted m where
  listed := listOrders_all m
  executed := h.executed
  bought := fun symbol => hm.filledQty_eq_volume hfair symbol .buy
  sold := fun symbol => hm.filledQty_eq_volume hfair symbol .sell
  published := by
    intro symbol hsymbol
    obtain ⟨bids, asks, hpublishes, hshows⟩ := h.book symbol hsymbol
    have hbuy : ((m.ordersOn symbol (str "Buy")).map OrderDto.filledQty).sum = m.volume symbol :=
      hm.filledQty_eq_volume hfair symbol .buy
    have hsell : ((m.ordersOn symbol (str "Sell")).map OrderDto.filledQty).sum = m.volume symbol :=
      hm.filledQty_eq_volume hfair symbol .sell
    refine ⟨bids, asks, hpublishes, fun hfits => ?_, fun hfits => ?_⟩
    · rw [Balances, ← hbuy]
      exact h.orderQty_eq hshows.bid hfits (hshows.bids_sorted.imp fun hlt => ne_of_gt hlt)
    · rw [Balances, ← hsell]
      exact h.orderQty_eq hshows.ask hfits (hshows.asks_sorted.imp fun hlt => ne_of_lt hlt)

theorem fairTrades_hostInvariant : HostInvariant fun m => FairTrades m.orders m.executions := by
  apply fairTrades_stepInvariant.hostInvariant
  intro m m' hsame h
  rw [hsame.orders, hsame.executions]
  exact h

/-- At any time in the life of a server, over any requests and any number of restarts, its
books of account balance. -/
theorem every_share_accounted (risk : RiskManager) (clock : ℕ → ℤ) {tasks : List ServerTask}
    (h : PlainTasks tasks) :
    ∃ m, (Machine.run hostRows (.ok (boot risk clock)) tasks).2 = .ok m ∧ Accounted m := by
  obtain ⟨m, hok, hm, hbooks, hfair⟩ := (booked_hostInvariant.and fairTrades_hostInvariant).hostRows
    h risk clock ⟨Booked.boot risk clock, fun fill hfill => by cases hfill⟩
  exact ⟨m, hok, hm.accounted hfair (hm.reconciled hbooks)⟩

theorem tradeThenRestart_accounted : ∃ m, (Machine.run hostRows
    (.ok (boot (RiskManager.new RiskLimits.default) fun _ => 0)) tradeThenRestart).2 = .ok m ∧
      Accounted m :=
  every_share_accounted _ _ ⟨by decide, by decide⟩

def Fill.value (fill : Fill) : ℤ := fill.price * fill.quantity

def FillDto.value (f : FillDto) : ℤ := f.price * f.quantity

namespace OrderManager

end OrderManager

end Oems
