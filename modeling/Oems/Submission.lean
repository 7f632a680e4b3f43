import Oems.LiveOrders
import Oems.MatchingLoops

namespace Oems

open Lib OrderManager

structure SameTerms (o o' : Order) : Prop where
  internalId : o'.internalId = o.internalId
  clientOrderId : o'.clientOrderId = o.clientOrderId
  symbol : o'.symbol = o.symbol
  side : o'.side = o.side
  type : o'.type = o.type
  price : o'.price = o.price
  orderQty : o'.orderQty = o.orderQty
  createdAt : o'.createdAt = o.createdAt

theorem SameTerms.refl (o : Order) : SameTerms o o := ⟨rfl, rfl, rfl, rfl, rfl, rfl, rfl, rfl⟩

theorem SameTerms.trans {o o' o'' : Order} (h : SameTerms o o') (h' : SameTerms o' o'') :
    SameTerms o o'' :=
  ⟨h'.internalId.trans h.internalId, h'.clientOrderId.trans h.clientOrderId,
    h'.symbol.trans h.symbol, h'.side.trans h.side, h'.type.trans h.type, h'.price.trans h.price,
    h'.orderQty.trans h.orderQty, h'.createdAt.trans h.createdAt⟩

theorem sameTerms_fillOrder (o : Order) (fill : Fill) : SameTerms o (fillOrder o fill) :=
  ⟨rfl, rfl, rfl, rfl, rfl, rfl, rfl, rfl⟩

def passiveAfter (passive : Order) (fill : Fill) (now : ℤ) : Order :=
  { fillOrder passive fill with
    status := if (fillOrder passive fill).remainingQty = 0 then .filled else .partiallyFilled
    updatedAt := now }

theorem sameTerms_passiveAfter (o : Order) (fill : Fill) (now : ℤ) :
    SameTerms o (passiveAfter o fill now) :=
  ⟨rfl, rfl, rfl, rfl, rfl, rfl, rfl, rfl⟩

def fillEvent (remainingQty : ℤ) : EventType := if remainingQty = 0 then .fill else .partialFill

theorem Kept.afterFill {o : Order} (h : Kept o) {fill : Fill}
    (hpos : 0 < fill.quantity) (hle : fill.quantity ≤ o.remainingQty) (now : ℤ) :
    Kept (passiveAfter o fill now) := by
  have hledger := h.ledger
  have hfilled := h.filled_nonneg
  have hstatus : (passiveAfter o fill now).status =
      if o.remainingQty - fill.quantity = 0 then .filled else .partiallyFilled := rfl
  refine ⟨?_, ?_, ?_, ?_, ?_, ?_, ?_, ?_, h.price_pos⟩
  · change o.orderQty = o.filledQty + fill.quantity + (o.remainingQty - fill.quantity)
    omega
  · change 0 ≤ o.filledQty + fill.quantity
    omega
  · change 0 ≤ o.remainingQty - fill.quantity
    omega
  · rw [hstatus]
    split_ifs <;> simp
  · rw [hstatus]
    change _ ↔ o.remainingQty - fill.quantity = 0
    split_ifs with hz <;> simp [hz]
  · intro _
    change 0 < o.filledQty + fill.quantity
    omega
  · rw [hstatus]
    split_ifs <;> simp
  · rw [hstatus]
    split_ifs <;> simp

theorem fillPassive_orders (m : OrderManager) (fill : Fill) : (m.fillPassive fill).orders =
    match m.orders.lookup fill.passiveOrderId with
    | none => m.orders
    | some passive => m.orders.insert fill.passiveOrderId (passiveAfter passive fill m.now) := by
  unfold OrderManager.fillPassive
  cases m.orders.lookup fill.passiveOrderId <;> rfl

theorem fillPassive_executions (m : OrderManager) (fill : Fill) :
    (m.fillPassive fill).executions = m.executions := by
  unfold OrderManager.fillPassive
  cases m.orders.lookup fill.passiveOrderId <;> rfl

section ApplyFill

variable {m : OrderManager} {order passive : Order} {fill : Fill}
  (hp : m.orders.lookup fill.passiveOrderId = some passive)
include hp

theorem applyFill_eq :
    (m.applyFill order fill).1 =
      ((((({ m with executions := m.executions ++ [fill] }.write (.saveExecution fill)).tick.setOrder
        fill.passiveOrderId (passiveAfter passive fill m.now)).appendEvent passive.internalId
          (fillEvent (passive.remainingQty - fill.quantity)) fill.detail).saveOrder
            (passiveAfter passive fill m.now)).appendEvent order.internalId
              (fillEvent (order.remainingQty - fill.quantity)) fill.detail) := by
  simp only [OrderManager.applyFill, OrderManager.fillPassive, write_orders, hp]
  rfl

theorem applyFill_engine : (m.applyFill order fill).1.engine = m.engine := by
  rw [applyFill_eq hp]
  rfl

theorem applyFill_nextOrderId : (m.applyFill order fill).1.nextOrderId = m.nextOrderId := by
  rw [applyFill_eq hp]
  rfl

theorem applyFill_orders : (m.applyFill order fill).1.orders =
    m.orders.insert fill.passiveOrderId (passiveAfter passive fill m.now) := by
  rw [applyFill_eq hp]
  rfl

theorem applyFill_executions :
    (m.applyFill order fill).1.executions = m.executions ++ [fill] := by
  rw [applyFill_eq hp]
  rfl

variable (order) in
theorem applyFill_events : ∃ now now', (m.applyFill order fill).1.events = m.events ++
    [⟨m.nextEventId, passive.internalId, fillEvent (passive.remainingQty - fill.quantity), now,
      fill.detail⟩,
    ⟨m.nextEventId + 1, order.internalId, fillEvent (order.remainingQty - fill.quantity), now',
      fill.detail⟩] := by
  rw [applyFill_eq hp]
  exact ⟨_, _, List.append_assoc ..⟩

end ApplyFill

/-- A property of every fill that `ApplyFills` goes through, at the state and the
order it finds there. -/
def EachFill (P : OrderManager → Order → Fill → Prop) : OrderManager → Order → List Fill → Prop
  | _, _, [] => True
  | m, order, fill :: fills =>
    P m order fill ∧ EachFill P (m.applyFill order fill).1 (m.applyFill order fill).2 fills

theorem EachFill.imp {P P' : OrderManager → Order → Fill → Prop}
    (h : ∀ m order fill, P m order fill → P' m order fill) {m : OrderManager} {order : Order}
    {fills : List Fill} (hf : EachFill P m order fills) : EachFill P' m order fills := by
  induction fills generalizing m order with
  | nil => trivial
  | cons fill fills ih => exact ⟨h _ _ _ hf.1, ih hf.2⟩

theorem EachFill.keeps {P : OrderManager → Order → Fill → Prop} {Q : OrderManager → Order → Prop}
    (h : ∀ m order fill, P m order fill → Q m order →
      Q (m.applyFill order fill).1 (m.applyFill order fill).2)
    {m : OrderManager} {order : Order} {fills : List Fill} (hf : EachFill P m order fills)
    (hq : Q m order) :
    EachFill (fun m order fill => P m order fill ∧ Q m order) m order fills ∧
      Q (m.applyFills order fills).1 (m.applyFills order fills).2 := by
  induction fills generalizing m order with
  | nil => exact ⟨trivial, hq⟩
  | cons fill fills ih =>
    obtain ⟨hall, hend⟩ := ih hf.2 (h _ _ _ hf.1 hq)
    exact ⟨⟨⟨hf.1, hq⟩, hall⟩, hend⟩

/-- An accepted order on its way through its fills. -/
structure Running (start order : Order) : Prop where
  terms : SameTerms start order
  status : order.status = .accepted
  ledger : order.orderQty = order.filledQty + order.remainingQty
  filled_nonneg : 0 ≤ order.filledQty
  remaining_nonneg : 0 ≤ order.remainingQty

/-- A fill between two orders. The passive one is a limit order that came before, and the
trade is at its price, within the limit of the aggressive one. -/
structure FairFill (fill : Fill) (aggressive passive : Order) : Prop where
  aggressiveId : aggressive.internalId = fill.aggressiveOrderId
  passiveId : passive.internalId = fill.passiveOrderId
  aggressiveSymbol : aggressive.symbol = fill.symbol
  passiveSymbol : passive.symbol = fill.symbol
  aggressiveSide : fill.aggressiveSide = aggressive.side
  opposite : passive.side = aggressive.side.opposite
  resting : passive.type = .limit
  older : passive.internalId < aggressive.internalId
  price : fill.price = passive.price
  withinLimit : aggressive.type = .limit →
    limitAllows aggressive.side aggressive.price fill.price = true
  quantity_pos : 0 < fill.quantity

/-- What `ApplyFills` finds at a fill. -/
structure FillStep (start : Order) (m : OrderManager) (order : Order) (fill : Fill)
    (passive : Order) : Prop where
  running : Running start order
  filed : Filed m.orders order.internalId
  kept : ∀ id o, m.orders.lookup id = some o → Kept o
  lookup : m.orders.lookup fill.passiveOrderId = some passive
  live : passive.status.live
  limit : passive.type = .limit
  aggressive : fill.aggressiveOrderId = order.internalId
  executionId : fill.executionId = m.executions.length + 1
  quantity_pos : 0 < fill.quantity
  quantity_le : fill.quantity ≤ order.remainingQty
  quantity_le_passive : fill.quantity ≤ passive.remainingQty
  exhausts : fill.quantity = order.remainingQty ∨ fill.quantity = passive.remainingQty
  fair : FairFill fill order passive

theorem FillStep.passive_id {start order passive : Order} {m : OrderManager} {fill : Fill}
    (h : FillStep start m order fill passive) : passive.internalId = fill.passiveOrderId :=
  (h.filed _ _ h.lookup).1

theorem FillStep.passive_lt {start order passive : Order} {m : OrderManager} {fill : Fill}
    (h : FillStep start m order fill passive) : fill.passiveOrderId < order.internalId :=
  (h.filed _ _ h.lookup).2

theorem FillStep.running_after {start order passive : Order} {m : OrderManager} {fill : Fill}
    (h : FillStep start m order fill passive) : Running start (fillOrder order fill) where
  terms := h.running.terms.trans (sameTerms_fillOrder order fill)
  status := h.running.status
  ledger := by
    have hl := h.running.ledger
    change order.orderQty = order.filledQty + fill.quantity + (order.remainingQty - fill.quantity)
    omega
  filled_nonneg := by
    have hf := h.running.filled_nonneg
    have hq := h.quantity_pos
    change 0 ≤ order.filledQty + fill.quantity
    omega
  remaining_nonneg := by
    have hq := h.quantity_le
    change 0 ≤ order.remainingQty - fill.quantity
    omega

def Order.taker (o : Order) : Taker := ⟨o.internalId, o.side, o.type, o.price⟩

/-- Between two fills: the live orders of the table are what the naive book still
holds, and the order at hand has what is left of the incoming quantity. -/
structure InFlight (engine : MatchingEngine) (live : Symbol → List RestingOrder) (start : Order)
    (m : OrderManager) (order : Order) (n : NaiveBook) : Prop where
  engine : m.engine = engine
  nextOrderId : m.nextOrderId = start.internalId + 1
  filed : Filed m.orders start.internalId
  kept : ∀ id o, m.orders.lookup id = some o → Kept o
  symbol : n.symbol = start.symbol
  orders : n.orders = liveOrders m.orders start.internalId start.symbol
  others : ∀ s, s ≠ start.symbol → liveOrders m.orders start.internalId s = live s
  next : n.nextExecutionId = m.executions.length + 1
  running : Running start order

section Flight

variable {engine : MatchingEngine} {live : Symbol → List RestingOrder} {start order : Order}
  {m : OrderManager} {n : NaiveBook} {o : RestingOrder} {fill : Fill}

theorem InFlight.fairFill (h : InFlight engine live start m order n) {passive : Order} {q : ℤ}
    (hc : start.taker.counterparty n.orders = some o)
    (hf : fill.trade = ⟨n.nextExecutionId, n.symbol, start.internalId, o.id, start.side, o.price, q⟩)
    (hl : m.orders.lookup o.id = some passive) (hres : restingOf start.symbol passive = some o)
    (hpos : 0 < fill.quantity) : FairFill fill order passive := by
  obtain ⟨⟨hsymbol, hlimit, _⟩, hquote⟩ := restingOf_eq_some_iff.mp hres
  obtain ⟨hside, hallows⟩ := Taker.accepts_of_counterparty hc
  have hterms := h.running.terms
  have hfiled := h.filed _ _ hl
  have hfsymbol : fill.symbol = n.symbol := congrArg Trade.symbol hf
  have hfprice : fill.price = o.price := congrArg Trade.price hf
  have hfpassive : fill.passiveOrderId = o.id := congrArg Trade.passiveOrderId hf
  have hfaggressive : fill.aggressiveOrderId = start.internalId :=
    congrArg Trade.aggressiveOrderId hf
  have hoside : o.side = passive.side := congrArg Quote.side hquote
  have hoprice : o.price = passive.price := congrArg Quote.price hquote
  refine ⟨?_, ?_, ?_, ?_, ?_, ?_, hlimit, ?_, hfprice.trans hoprice, ?_, hpos⟩
  · rw [hterms.internalId, hfaggressive]
  · rw [hfiled.1, hfpassive]
  · rw [hterms.symbol, hfsymbol, h.symbol]
  · rw [hsymbol, hfsymbol, h.symbol]
  · rw [hterms.side]
    exact congrArg Trade.aggressiveSide hf
  · rw [← hoside, hside, hterms.side]
    rfl
  · rw [hfiled.1, hterms.internalId]
    exact hfiled.2
  · intro htype
    rw [hterms.type] at htype
    rw [hterms.side, hterms.price, hfprice]
    obtain hmarket | hallows := hallows
    · change start.type = .market at hmarket
      simp [htype] at hmarket
    · exact hallows

theorem InFlight.fillStep (h : InFlight engine live start m order n) (hr : 0 < order.remainingQty)
    (hc : start.taker.counterparty n.orders = some o)
    (hf : fill.trade = ⟨n.nextExecutionId, n.symbol, start.internalId, o.id, start.side, o.price,
      min order.remainingQty o.qty⟩) :
    ∃ passive, FillStep start m order fill passive ∧ restingOf start.symbol passive = some o := by
  have hmem := Taker.counterparty_mem hc
  rw [h.orders] at hmem
  obtain ⟨passive, hlookup, hres⟩ := (mem_liveOrders h.filed).mp hmem
  obtain ⟨⟨_, hlimit, hlive⟩, hquote⟩ := restingOf_eq_some_iff.mp hres
  have hpassive : fill.passiveOrderId = o.id := congrArg Trade.passiveOrderId hf
  have hqty : fill.quantity = min order.remainingQty o.qty := congrArg Trade.quantity hf
  have hoqty : o.qty = passive.remainingQty := congrArg Quote.qty hquote
  have hopos := o.qty_pos
  refine ⟨passive, ⟨h.running, ?_, h.kept, hpassive ▸ hlookup, hlive, hlimit, ?_, ?_, ?_, ?_, ?_,
    ?_, h.fairFill hc hf hlookup hres (by omega)⟩, hres⟩
  · rw [h.running.terms.internalId]
    exact h.filed
  · rw [h.running.terms.internalId]
    exact congrArg Trade.aggressiveOrderId hf
  · rw [← h.next]
    exact congrArg Trade.executionId hf
  · omega
  · omega
  · omega
  · omega

theorem restingOf_passiveAfter {symbol : Symbol} {passive : Order} {fill : Fill} {o : RestingOrder}
    (h : restingOf symbol passive = some o) (now : ℤ) :
    restingOf symbol (passiveAfter passive fill now) = o.take fill.quantity := by
  obtain ⟨⟨hs, ht, _⟩, hquote⟩ := restingOf_eq_some_iff.mp h
  have hqty : o.qty = passive.remainingQty := congrArg Quote.qty hquote
  by_cases hlt : fill.quantity < o.qty
  · obtain ⟨o', htake, hquote'⟩ := RestingOrder.take_of_lt hlt
    have hne : passive.remainingQty - fill.quantity ≠ 0 := by omega
    rw [htake, restingOf_eq_some_iff, hquote', hquote]
    refine ⟨⟨hs, ht, Or.inr ?_⟩, rfl⟩
    exact if_neg hne
  · rw [RestingOrder.take_eq_none (not_lt.mp hlt)]
    unfold restingOf
    rw [dif_neg]
    rintro ⟨_, _, _, hq⟩
    have hq' : 0 < passive.remainingQty - fill.quantity := hq
    omega

theorem InFlight.applyFill (h : InFlight engine live start m order n)
    (hr : 0 < order.remainingQty) (hc : start.taker.counterparty n.orders = some o)
    (hf : fill.trade = ⟨n.nextExecutionId, n.symbol, start.internalId, o.id, start.side, o.price,
      min order.remainingQty o.qty⟩) :
    InFlight engine live start (m.applyFill order fill).1 (m.applyFill order fill).2
      (n.fill o.id (min order.remainingQty o.qty)) := by
  obtain ⟨passive, hstep, hres⟩ := h.fillStep hr hc hf
  have hid : fill.passiveOrderId = o.id := congrArg Trade.passiveOrderId hf
  have hqty : fill.quantity = min order.remainingQty o.qty := congrArg Trade.quantity hf
  have hlookup := hstep.lookup
  have hlt : fill.passiveOrderId < start.internalId := (h.filed _ _ hlookup).2
  refine ⟨?_, ?_, ?_, ?_, h.symbol, ?_, ?_, ?_, hstep.running_after⟩
  · rw [applyFill_engine hlookup, h.engine]
  · rw [applyFill_nextOrderId hlookup, h.nextOrderId]
  · rw [applyFill_orders hlookup]
    exact h.filed.insert hstep.passive_id hlt
  · rw [applyFill_orders hlookup]
    exact forall_lookup_insert h.kept ((h.kept _ _ hlookup).afterFill hstep.quantity_pos
      hstep.quantity_le_passive _)
  · rw [applyFill_orders hlookup,
      liveOrders_insert h.filed hlookup (RestingOrder.take fill.quantity) ?_, ← h.orders, hid, hqty]
    · rfl
    · rw [hres, restingOf_passiveAfter hres]
      rfl
  · intro s hs
    have hsym := (restingOf_eq_some_iff.mp hres).1.1
    have hne : passive.symbol ≠ s := by
      rw [hsym]
      exact Ne.symm hs
    rw [applyFill_orders hlookup,
      liveOrders_insert_other hlookup hne (sameTerms_passiveAfter passive fill m.now).symbol,
      h.others s hs]
  · rw [applyFill_executions hlookup, List.length_append]
    exact congrArg (· + 1) h.next

/-- `ApplyFills` follows the sweep of the naive book fill by fill. Every passive order it looks
up is there. -/
theorem InFlight.applyFills (fills : List Fill) (h : InFlight engine live start m order n)
    (hf : fills.map Fill.trade = (n.sweep start.taker order.remainingQty).1) :
    EachFill (fun m order fill => ∃ passive, FillStep start m order fill passive) m order fills ∧
      InFlight engine live start (m.applyFills order fills).1 (m.applyFills order fills).2
        (n.sweep start.taker order.remainingQty).2.2 ∧
      (m.applyFills order fills).2.remainingQty = (n.sweep start.taker order.remainingQty).2.1 := by
  induction fills generalizing m order n with
  | nil =>
    rw [sweep_eq_self order.remainingQty n hf.symm]
    exact ⟨trivial, h, rfl⟩
  | cons fill fills ih =>
    rw [NaiveBook.sweep] at hf ⊢
    by_cases hr : 0 < order.remainingQty
    · rw [if_pos hr] at hf ⊢
      cases hc : start.taker.counterparty n.orders with
      | none => simp [hc] at hf
      | some o =>
        rw [hc] at hf
        obtain ⟨hhead, htail⟩ := List.cons.inj hf
        have hqty : fill.quantity = min order.remainingQty o.qty := congrArg Trade.quantity hhead
        obtain ⟨passive, hstep, _⟩ := h.fillStep hr hc hhead
        have hleft : (m.applyFill order fill).2.remainingQty =
            order.remainingQty - min order.remainingQty o.qty := by
          rw [← hqty]
          rfl
        have hnext := ih (h.applyFill hr hc hhead) (by rw [hleft]; exact htail)
        rw [hleft] at hnext
        exact ⟨⟨⟨passive, hstep⟩, hnext.1⟩, hnext.2⟩
    · rw [if_neg hr] at hf
      simp at hf

end Flight

end Oems
