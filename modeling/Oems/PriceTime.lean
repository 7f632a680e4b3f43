import Oems.ApiServer
import Oems.Lib.Greedy
import Oems.Lib.Tally
import Oems.TwapRun

namespace Oems

open Lib OrderManager

def Quote.before (side : Side) (x y : Quote) : Prop :=
  better side x.price y.price ∨ x.price = y.price ∧ x.id < y.id

instance (side : Side) : DecidableRel (Quote.before side) :=
  fun _ _ => inferInstanceAs (Decidable (_ ∨ _))

theorem Quote.before_total {side : Side} {x y : Quote} (h : ¬ y.before side x) (hid : x.id ≠ y.id) :
    x.before side y := by
  rw [Quote.before, not_or, not_and] at h
  obtain ⟨hb, hp⟩ := h
  obtain hlt | heq | hgt := trichotomous_of (better side) x.price y.price
  · exact Or.inl hlt
  · have hle := hp heq.symm
    exact Or.inr ⟨heq, by omega⟩
  · exact absurd hgt hb

/-- The orders of a list came in the order of their ids. -/
def ByAge (orders : List RestingOrder) : Prop :=
  (orders.map fun o : RestingOrder => o.id).Pairwise (· < ·)

theorem ByAge.unique {orders : List RestingOrder} (h : ByAge orders) : UniqueIds orders :=
  h.imp ne_of_lt

theorem ByAge.takeFrom {orders : List RestingOrder} (h : ByAge orders) (id : ℕ) (k : ℤ) :
    ByAge (takeFrom id k orders) :=
  h.sublist (Keyed.keys_update (fun _ _ hxy => take_id hxy) orders)

/-- What an incoming order may take of the order with an id. -/
def Taker.offered (t : Taker) (orders : List RestingOrder) (id : ℕ) : ℤ :=
  (((Keyed.find (fun o : RestingOrder => o.id) id orders).filter t.accepts).map
    fun o => o.qty).getD 0

namespace Taker

variable {t : Taker} {orders : List RestingOrder} {o : RestingOrder}

theorem find_of_unique (hunique : UniqueIds orders) (ho : o ∈ orders) :
    Keyed.find (fun x : RestingOrder => x.id) o.id orders = some o :=
  Keyed.find_of_mem hunique ho

theorem offered_of_mem (hunique : UniqueIds orders) (ho : o ∈ orders) (ha : t.accepts o = true) :
    t.offered orders o.id = o.qty := by
  rw [offered, find_of_unique hunique ho, Option.filter_some_pos ha]
  rfl

theorem offered_nonneg (t : Taker) (orders : List RestingOrder) (id : ℕ) :
    0 ≤ t.offered orders id := by
  rw [offered]
  cases (Keyed.find (fun o : RestingOrder => o.id) id orders).filter t.accepts with
  | none => exact le_refl _
  | some o => exact o.qty_pos.le

theorem exists_of_offered {id : ℕ} (h : t.offered orders id ≠ 0) :
    ∃ o ∈ orders, o.id = id ∧ t.accepts o = true := by
  rw [offered] at h
  cases hf : (Keyed.find (fun o : RestingOrder => o.id) id orders).filter t.accepts with
  | none =>
    rw [hf] at h
    exact absurd rfl h
  | some o =>
    obtain ⟨hfind, ha⟩ := Option.filter_eq_some_iff.mp hf
    obtain ⟨ho, hid⟩ := Keyed.mem_of_find hfind
    exact ⟨o, ho, hid, ha⟩

theorem offered_takeFrom (hunique : UniqueIds orders) (ho : o ∈ orders) (ha : t.accepts o = true)
    {k : ℤ} (hk : k ≤ o.qty) :
    t.offered (takeFrom o.id k orders) =
      Function.update (t.offered orders) o.id (t.offered orders o.id - k) := by
  funext id
  have hid : ∀ x y : RestingOrder, x.take k = some y → y.id = x.id := fun _ _ => take_id
  by_cases he : id = o.id
  · subst he
    rw [Function.update_self, offered_of_mem hunique ho ha, offered, takeFrom,
      Keyed.find_update_self hid hunique, find_of_unique hunique ho, Option.bind_some]
    obtain hlt | heq := hk.lt_or_eq
    · obtain ⟨o', htake, hquote⟩ := RestingOrder.take_of_lt hlt
      have ha' : t.accepts o' = true := by
        rw [accepts_iff] at ha ⊢
        rw [hquote]
        exact ha
      rw [htake, Option.filter_some_pos ha']
      exact congrArg Quote.qty hquote
    · rw [RestingOrder.take_eq_none heq.ge, heq, sub_self]
      rfl
  · rw [Function.update_of_ne he, offered, takeFrom, Keyed.find_update_of_ne hid he]
    rfl

theorem counterparty_first {ahead : ℕ → ℕ → Prop} {claimants : Finset ℕ}
    (hc : t.counterparty orders = some o) (hage : ByAge orders)
    (hmem : ∀ x ∈ orders, x.id ∈ claimants)
    (hahead : ∀ x ∈ orders, ∀ y ∈ orders,
      ahead x.id y.id ↔ x.toQuote.before t.side.opposite y.toQuote) :
    Greedy.First ahead claimants (t.offered orders) o.id := by
  have ho := counterparty_mem hc
  have ha : t.accepts o = true := accepts_iff.mpr (accepts_of_counterparty hc)
  have hbest := List.find?_some hc
  simp only [decide_eq_true_eq] at hbest
  have hbehind : ∀ y ∈ orders, t.accepts y = true →
      ¬ y.toQuote.before t.side.opposite o.toQuote := by
    rintro y hy hay (hb | ⟨hp, hid⟩)
    · exact hbest.2 y hy hay hb
    · -- an older order at the price of `o` would have been found first
      have hfront : ∀ x ∈ orders, t.accepts x = true →
          ¬ better t.side.opposite x.price y.price := hp ▸ hbest.2
      obtain ⟨-, before, after, rfl, hnot⟩ := List.find?_eq_some_iff_append.mp hc
      obtain hy | hy := List.mem_append.mp hy
      · have hrefused := hnot y hy
        rw [decide_eq_true ⟨hay, hfront⟩] at hrefused
        cases hrefused
      · rw [ByAge, List.map_append, List.map_cons, List.pairwise_append] at hage
        obtain rfl | hy := List.mem_cons.mp hy
        · exact lt_irrefl _ hid
        · have hlt := (List.pairwise_cons.mp hage.2.1).1 y.id (List.mem_map_of_mem hy)
          omega
  refine ⟨hmem o ho, ?_, ?_, ?_⟩
  · rw [offered_of_mem hage.unique ho ha]
    exact o.qty_pos
  · intro id hid hne hpos
    obtain ⟨y, hy, rfl, hay⟩ := exists_of_offered hpos.ne'
    exact (hahead o ho y hy).mpr (Quote.before_total (hbehind y hy hay) (Ne.symm hne))
  · intro id hid hpos hlt
    obtain ⟨y, hy, rfl, hay⟩ := exists_of_offered hpos.ne'
    exact hbehind y hy hay ((hahead y hy o ho).mp hlt)

end Taker

theorem exists_of_mem_takeFrom {id : ℕ} {k : ℤ} {orders : List RestingOrder} {x : RestingOrder}
    (hx : x ∈ takeFrom id k orders) :
    ∃ y ∈ orders, y.id = x.id ∧ y.side = x.side ∧ y.price = x.price := by
  obtain ⟨y, hy, hxy⟩ := List.mem_filterMap.mp hx
  split_ifs at hxy
  · rw [RestingOrder.take_eq_some hxy]
    exact ⟨y, hy, rfl, rfl, rfl⟩
  · cases hxy
    exact ⟨x, hy, rfl, rfl, rfl⟩

/-- A sweep serves the orders that it accepts by price and age. -/
theorem sweep_serves {t : Taker} {ahead : ℕ → ℕ → Prop} {claimants : Finset ℕ} (remaining : ℤ)
    (n : NaiveBook) (hage : ByAge n.orders) (hmem : ∀ x ∈ n.orders, x.id ∈ claimants)
    (hahead : ∀ x ∈ n.orders, ∀ y ∈ n.orders,
      ahead x.id y.id ↔ x.toQuote.before t.side.opposite y.toQuote) :
    Greedy.Serves ahead claimants remaining (t.offered n.orders)
      ((n.sweep t remaining).1.map fun trade => (trade.passiveOrderId, trade.quantity)) := by
  induction remaining, n using NaiveBook.sweep.induct t with
  | case1 remaining n hpos hnone =>
    rw [NaiveBook.sweep, if_pos hpos, hnone]
    apply Greedy.Serves.content
    intro id _
    by_contra hc
    obtain ⟨o, ho, -, ha⟩ := Taker.exists_of_offered hc
    exact Taker.not_accepts_of_counterparty hnone o ho ha
  | case2 remaining n hpos o hc k ih =>
    have ho := Taker.counterparty_mem hc
    have ha : t.accepts o = true := accepts_iff.mpr (Taker.accepts_of_counterparty hc)
    have hoffered := Taker.offered_of_mem hage.unique ho ha
    have hrest := ih (hage.takeFrom o.id k)
      (fun x hx => by
        obtain ⟨y, hy, hid, -⟩ := exists_of_mem_takeFrom hx
        exact hid ▸ hmem y hy)
      (fun x hx y hy => by
        obtain ⟨x', hx', hid, -, hprice⟩ := exists_of_mem_takeFrom hx
        obtain ⟨y', hy', hid', -, hprice'⟩ := exists_of_mem_takeFrom hy
        have hbefore := hahead x' hx' y' hy'
        rwa [Quote.before, hid, hid', hprice, hprice'] at hbefore)
    change Greedy.Serves _ _ _ (t.offered (takeFrom o.id k n.orders)) _ at hrest
    rw [Taker.offered_takeFrom hage.unique ho ha (min_le_right _ _)] at hrest
    rw [NaiveBook.sweep, if_pos hpos, hc]
    have hfirst := Taker.counterparty_first hc hage hmem hahead
    simp only [k, ← hoffered] at hrest
    simp only [List.map_cons, ← hoffered]
    exact Greedy.Serves.serve hfirst hrest
  | case3 remaining n hpos =>
    rw [NaiveBook.sweep, if_neg hpos]
    exact Greedy.Serves.spent (not_lt.mp hpos)

theorem liveOrders_byAge {orders : OrderMap} {bound : ℕ} (hfiled : Filed orders bound)
    (s : Symbol) : ByAge (liveOrders orders bound s) := by
  rw [ByAge, liveOrders, List.map_filterMap, List.pairwise_filterMap]
  apply List.pairwise_lt_range.imp
  have hsame : ∀ i r,
      ((orders.lookup i).bind (restingOf s)).map (fun r => r.id) = some r → r = i := by
    intro i r hr
    obtain ⟨x, hx, rfl⟩ := Option.map_eq_some_iff.mp hr
    obtain ⟨o, ho, hres⟩ := Option.bind_eq_some_iff.mp hx
    exact (congrArg Quote.id (restingOf_eq_some_iff.mp hres).2).trans (hfiled i o ho).1
  intro i j hlt r hr r' hr'
  rw [hsame i r hr, hsame j r' hr']
  exact hlt

/-- An order that a request may trade with. -/
def Order.meets (req : NewOrderRequest) (o : Order) : Prop :=
  o.symbol = req.symbol ∧ o.type = .limit ∧ o.status.live ∧ o.side = req.side.opposite ∧
    (req.type = .market ∨ limitAllows req.side req.price o.price = true)

instance (req : NewOrderRequest) : DecidablePred (Order.meets req) :=
  fun _ => inferInstanceAs (Decidable (_ ∧ _))

def NewOrderRequest.taker (req : NewOrderRequest) (id : ℕ) : Taker :=
  ⟨id, req.side, req.type, req.price⟩

theorem offered_liveOrders {orders : OrderMap} {bound : ℕ} (hfiled : Filed orders bound)
    (hkept : ∀ id o, orders.lookup id = some o → Kept o) (req : NewOrderRequest) {o : Order}
    (ho : o ∈ tableOrders orders) :
    (req.taker bound).offered (liveOrders orders bound req.symbol) o.internalId =
      if o.meets req then o.remainingQty else 0 := by
  have hlookup := hfiled.lookup ho
  rw [Taker.offered, find_liveOrders hfiled, hlookup, Option.bind_some]
  by_cases hrests : o.symbol = req.symbol ∧ o.type = .limit ∧ o.status.live
  · have hpos := (hkept _ _ hlookup).remaining_pos hrests.2.2
    have hres : restingOf req.symbol o = some ⟨o.quote, hpos⟩ :=
      restingOf_eq_some_iff.mpr ⟨hrests, rfl⟩
    have hiff : (req.taker bound).accepts ⟨o.quote, hpos⟩ = true ↔ o.meets req := by
      rw [accepts_iff]
      exact ⟨fun h => ⟨hrests.1, hrests.2.1, hrests.2.2, h⟩, fun h => h.2.2.2⟩
    rw [hres]
    by_cases hm : o.meets req
    · rw [if_pos hm, Option.filter_some_pos (hiff.mpr hm)]
      rfl
    · rw [if_neg hm, Option.filter_some_neg (Bool.eq_false_iff.mpr fun h => hm (hiff.mp h))]
      rfl
  · have hm : ¬ o.meets req := fun h => hrests ⟨h.1, h.2.1, h.2.2.1⟩
    rw [if_neg hm, restingOf_eq_none fun h => hrests h]
    rfl

theorem keys_val {orders : OrderMap} {bound : ℕ} (hfiled : Filed orders bound) :
    orders.keys.val = (tableOrders orders).map Order.internalId := by
  rw [tableOrders, Multiset.map_map]
  apply Multiset.map_congr rfl
  rintro ⟨id, o⟩ ho
  exact (hfiled id o (Finmap.lookup_eq_some_iff.mpr ho)).1.symm

theorem sum_offered {orders : OrderMap} {bound : ℕ} (hfiled : Filed orders bound)
    (hkept : ∀ id o, orders.lookup id = some o → Kept o) (req : NewOrderRequest)
    (p : ℕ → Prop) [DecidablePred p] :
    ∑ id ∈ orders.keys with p id,
        (req.taker bound).offered (liveOrders orders bound req.symbol) id =
      (((tableOrders orders).filter fun o => o.meets req ∧ p o.internalId).map
        Order.remainingQty).sum := by
  change (Multiset.map _ (Multiset.filter p orders.keys.val)).sum = _
  rw [keys_val hfiled, Multiset.filter_map, Multiset.map_map, ← Multiset.filter_filter,
    ← Tally.sum_map_ite (Order.meets req)]
  apply congrArg Multiset.sum
  apply Multiset.map_congr rfl
  intro o ho
  exact offered_liveOrders hfiled hkept req (Multiset.mem_of_mem_filter ho)

/-- The order in which a table trades with a request. -/
def tradesBefore (orders : OrderMap) (side : Side) (id id' : ℕ) : Prop :=
  ∃ o o', orders.lookup id = some o ∧ orders.lookup id' = some o' ∧ o.quote.before side o'.quote

theorem tradesBefore_iff {orders : OrderMap} {side : Side} {id id' : ℕ} {o o' : Order}
    (ho : orders.lookup id = some o) (ho' : orders.lookup id' = some o') :
    tradesBefore orders side id id' ↔ o.quote.before side o'.quote := by
  constructor
  · rintro ⟨x, x', hx, hx', h⟩
    obtain rfl := Option.some.inj (ho.symm.trans hx)
    obtain rfl := Option.some.inj (ho'.symm.trans hx')
    exact h
  · exact fun h => ⟨o, o', ho, ho', h⟩

theorem Agrees.serves {m : OrderManager} (h : Agrees m) (req : NewOrderRequest) :
    Greedy.Serves (tradesBefore m.orders req.side.opposite) m.orders.keys req.quantity
      ((req.taker m.nextOrderId).offered (liveOrders m.orders m.nextOrderId req.symbol))
      (((m.flatBook req.symbol).sweep (req.taker m.nextOrderId) req.quantity).1.map
        fun trade => (trade.passiveOrderId, trade.quantity)) := by
  refine sweep_serves req.quantity (m.flatBook req.symbol) (liveOrders_byAge h.filed _) ?_ ?_
  · intro x hx
    obtain ⟨o, ho, -⟩ := (mem_liveOrders h.filed).mp hx
    exact Finmap.mem_keys.mpr (Finmap.mem_of_lookup_eq_some ho)
  · intro x hx y hy
    obtain ⟨o, ho, hres⟩ := (mem_liveOrders h.filed).mp hx
    obtain ⟨o', ho', hres'⟩ := (mem_liveOrders h.filed).mp hy
    rw [tradesBefore_iff ho ho', (restingOf_eq_some_iff.mp hres).2,
      (restingOf_eq_some_iff.mp hres').2]
    rfl

theorem applyFills_executions {start : Order} {m : OrderManager} {order : Order} {fills : List Fill}
    (h : EachFill (fun m order fill => ∃ passive, FillStep start m order fill passive)
      m order fills) : (m.applyFills order fills).1.executions = m.executions ++ fills := by
  induction fills generalizing m order with
  | nil => exact (List.append_nil _).symm
  | cons fill fills ih =>
    obtain ⟨⟨passive, hstep⟩, hrest⟩ := h
    rw [OrderManager.applyFills, ih hrest, applyFill_executions hstep.lookup, List.append_assoc]
    rfl

theorem Agrees.place_executions {m : OrderManager} (h : Agrees m) {req : NewOrderRequest}
    (hv : validate req = .ok ()) :
    (m.place req).2.executions = m.executions ++ (m.flightOf req).fills := by
  have ht := h.takeoff hv
  rw [ht.place, settle_executions, Flight.land, applyFills_executions (h.land hv).1, ht.executions]

theorem filledIn_append_list (executions fills : List Fill) (id : ℕ) :
    filledIn (executions ++ fills) id = filledIn executions id + filledIn fills id := by
  rw [filledIn, List.filter_append, List.map_append, List.sum_append]
  rfl

def Fill.given (fill : Fill) : ℕ × ℤ := (fill.passiveOrderId, fill.quantity)

theorem filledIn_passive {fills : List Fill} {id : ℕ}
    (h : ∀ fill ∈ fills, fill.aggressiveOrderId ≠ id) :
    filledIn fills id = Greedy.received id (fills.map Fill.given) := by
  rw [Greedy.received, List.filter_map, List.map_map, filledIn]
  apply congrArg List.sum
  apply congrArg (List.map Fill.quantity)
  apply List.filter_congr
  intro fill hfill
  exact decide_eq_decide.mpr (or_iff_right (h fill hfill))

theorem filledIn_aggressive {fills : List Fill} {id : ℕ}
    (h : ∀ fill ∈ fills, fill.aggressiveOrderId = id) :
    filledIn fills id = ((fills.map Fill.given).map Prod.snd).sum := by
  have hnames : ∀ fill ∈ fills, decide (fill.names id) = true := fun fill hfill =>
    decide_eq_true (Or.inl (h fill hfill))
  rw [filledIn, List.filter_eq_self.mpr hnames, List.map_map]
  rfl

theorem eachFill_aggressive {start : Order} {m : OrderManager} {order : Order} {fills : List Fill}
    (h : EachFill (fun m order fill => ∃ passive, FillStep start m order fill passive)
      m order fills) : ∀ fill ∈ fills, fill.aggressiveOrderId = order.internalId := by
  induction fills generalizing m order with
  | nil => exact fun fill hfill => by cases hfill
  | cons fill fills ih =>
    obtain ⟨⟨passive, hstep⟩, hrest⟩ := h
    intro fill' hfill'
    obtain rfl | hfill' := List.mem_cons.mp hfill'
    · exact hstep.aggressive
    · exact ih hrest fill' hfill'

/-- The quantity of the orders that a request reaches before an order. -/
def OrderManager.aheadOf (m : OrderManager) (req : NewOrderRequest) (o : Order) : ℤ :=
  (((tableOrders m.orders).filter fun x =>
    x.meets req ∧ x.quote.before req.side.opposite o.quote).map Order.remainingQty).sum

/-- The quantity of all orders that a request may trade with. -/
def OrderManager.reachOf (m : OrderManager) (req : NewOrderRequest) : ℤ :=
  (((tableOrders m.orders).filter (Order.meets req)).map Order.remainingQty).sum

/-- An order that a request meets gets what it still wants of what the orders before it leave
of the request, and other orders get nothing. -/
structure Allocated (m m' : OrderManager) (req : NewOrderRequest) (order : Order) : Prop where
  taken : order.filledQty = min req.quantity (m.reachOf req)
  given : ∀ o ∈ tableOrders m.orders, ∃ o' ∈ tableOrders m'.orders, SameTerms o o' ∧
    o'.filledQty = o.filledQty +
      if o.meets req then max 0 (min o.remainingQty (req.quantity - m.aheadOf req o)) else 0

theorem Agrees.place_filled {m : OrderManager} (h : Agrees m) {req : NewOrderRequest}
    (hv : validate req = .ok ()) :
    filledIn (m.flightOf req).fills m.nextOrderId = min req.quantity (m.reachOf req) ∧
      ∀ o ∈ tableOrders m.orders, filledIn (m.flightOf req).fills o.internalId =
        if o.meets req then max 0 (min o.remainingQty (req.quantity - m.aheadOf req o)) else 0 := by
  classical
  have ht := h.takeoff hv
  obtain ⟨created, updated, horder⟩ := ht.order
  have haggressive : ∀ fill ∈ (m.flightOf req).fills, fill.aggressiveOrderId = m.nextOrderId := by
    have hfills := eachFill_aggressive (h.land hv).1
    rwa [horder] at hfills
  have hgiven : (m.flightOf req).fills.map Fill.given =
      ((m.flatBook req.symbol).sweep (req.taker m.nextOrderId) req.quantity).1.map
        fun trade => (trade.passiveOrderId, trade.quantity) := by
    change _ = List.map _ ((m.flatBook req.symbol).sweep
      ⟨m.nextOrderId, req.side, req.type, req.price⟩ req.quantity).1
    rw [← ht.fills, List.map_map]
    rfl
  have hserves := h.serves req
  rw [← hgiven] at hserves
  have hoffers : ∀ id ∈ m.orders.keys, 0 ≤ (req.taker m.nextOrderId).offered
      (liveOrders m.orders m.nextOrderId req.symbol) id := fun id _ => Taker.offered_nonneg _ _ id
  have hpos : 0 ≤ req.quantity := (validate_ok hv).1.le
  constructor
  · have hsum := sum_offered h.filed h.kept req fun _ => True
    simp only [Finset.filter_true, and_true] at hsum
    rw [filledIn_aggressive haggressive, hserves.sum_eq hoffers hpos, hsum]
    rfl
  · intro o ho
    have hlookup := h.filed.lookup ho
    have hmem := Finmap.mem_keys.mpr (Finmap.mem_of_lookup_eq_some hlookup)
    have hother : ∀ fill ∈ (m.flightOf req).fills, fill.aggressiveOrderId ≠ o.internalId := by
      intro fill hfill
      have hlt := (h.filed _ _ hlookup).2
      rw [haggressive fill hfill]
      omega
    have hoffered := offered_liveOrders h.filed h.kept req ho
    rw [filledIn_passive hother, hserves.received_eq hoffers hpos hmem]
    by_cases hmeets : o.meets req
    · have hahead : ((tableOrders m.orders).filter fun x => x.meets req ∧
          tradesBefore m.orders req.side.opposite x.internalId o.internalId) =
          (tableOrders m.orders).filter fun x =>
            x.meets req ∧ x.quote.before req.side.opposite o.quote := by
        apply Multiset.filter_congr
        intro x hx
        exact and_congr_right fun _ => tradesBefore_iff (h.filed.lookup hx) hlookup
      rw [if_pos hmeets] at hoffered ⊢
      rw [Greedy.share, hoffered, sum_offered h.filed h.kept req, hahead]
      rfl
    · rw [if_neg hmeets] at hoffered ⊢
      exact Greedy.share_of_sated hoffered

theorem Hosting.allocated {m m' : OrderManager} (hm : Hosting m) {check : RiskCheck}
    {req : NewOrderRequest} {order : Order}
    (hsubmit : m.submitOrder check req = (.ok order, m')) : Allocated m m' req order := by
  have hm' : Hosting m' := by
    have hstep := hm.step (.submit check req)
    change Hosting (m.submitOrder check req).2 at hstep
    rwa [hsubmit] at hstep
  have hstep := submitStep check m req
  generalize hres : m.submitOrder check req = r at hstep hsubmit
  cases hstep with
  | invalid err _ => cases hsubmit
  | refused risk err _ _ => cases hsubmit
  | placed risk hv _ =>
    have ha := hm.agrees.withRisk risk
    have hfree : m.nextOrderId ∉ m.orders := Finmap.lookup_eq_none.mp hm.agrees.filed.lookup_bound
    have hkept := (place_stored (m := { m with risk }) hfree req).kept
    have hexecutions := ha.place_executions hv
    obtain ⟨htaken, hgiven⟩ := ha.place_filled hv
    rw [hsubmit] at hkept hexecutions
    have hfilled : ∀ id o, m'.orders.lookup id = some o →
        o.filledQty = filledIn m.executions id +
          filledIn ({ m with risk }.flightOf req).fills id := by
      intro id o ho
      rw [← filledIn_append_list, hm'.ledger.filled id o ho]
      exact congrArg (filledIn · id) hexecutions
    constructor
    · obtain ⟨-, order', _, hok, hrecords⟩ | ⟨-, _, _, _, _, herr, -⟩ :=
        submitOrder_records check m hv
      · rw [hres, hsubmit] at hok
        cases hok
        rw [hfilled _ _ hrecords.lookup, Balanced.filledIn_bound hm.ledger, zero_add]
        exact htaken
      · rw [hres, hsubmit] at herr
        cases herr
    · intro o ho
      have hlookup := hm.agrees.filed.lookup ho
      obtain ⟨o', ho', hterms⟩ := hkept _ _ hlookup
      refine ⟨o', mem_tableOrders.mpr ⟨_, ho'⟩, hterms, ?_⟩
      rw [hfilled _ _ ho', hm.ledger.filled _ _ hlookup]
      exact congrArg (_ + ·) (hgiven o ho)

/-- At any time in the life of a server a request that is accepted trades by price and age: an
order of the table gets exactly what it still wants of what the better priced and the equally
priced older ones leave, whatever their number. So none gets anything while one before it
goes short, and the request takes all that it can reach. -/
theorem price_time_priority (risk : RiskManager) (clock : ℕ → ℤ) (tasks : List ServerTask) :
    ∃ m, (Machine.run host (.ok (boot risk clock)) tasks).2 = .ok m ∧
      ∀ check req order m', m.submitOrder check req = (.ok order, m') →
        Allocated m m' req order := by
  obtain ⟨m, hok, hm⟩ := (Hosting.boot risk clock).run tasks
  exact ⟨m, hok, fun _ _ _ _ hsubmit => hm.allocated hsubmit⟩

def sameOffers : List ServerTask :=
  [.request (.submitOrder (fun risk _ => (.ok (), risk))
      (some ⟨none, some (str "AAPL"), some (str "sell"), some (str "limit"), some 100, some 5⟩)),
    .request (.submitOrder (fun risk _ => (.ok (), risk))
      (some ⟨none, some (str "AAPL"), some (str "sell"), some (str "limit"), some 100, some 3⟩))]

def sweepSix : NewOrderRequest := ⟨[], ⟨str "AAPL"⟩, .buy, .limit, 100, 6⟩

theorem sameOffers_allocated : ∃ m order m', (Machine.run host
    (.ok (boot (RiskManager.new RiskLimits.default) fun _ => 0)) sameOffers).2 = .ok m ∧
      m.submitOrder (fun risk _ => (.ok (), risk)) sweepSix = (.ok order, m') ∧
        Allocated m m' sweepSix order := by
  obtain ⟨m, hok, hall⟩ :=
    price_time_priority (RiskManager.new RiskLimits.default) (fun _ => 0) sameOffers
  have haccepted : ∀ m ∈ ((Machine.run host (.ok (boot (RiskManager.new RiskLimits.default)
      fun _ => 0)) sameOffers).2).toOption,
        (m.submitOrder (fun risk _ => (.ok (), risk)) sweepSix).1.isOk = true := by decide
  rw [hok] at haccepted
  generalize hsubmit : m.submitOrder (fun risk _ => (.ok (), risk)) sweepSix = r
  obtain ⟨err | order, m'⟩ := r
  · have htaken := haccepted m rfl
    rw [hsubmit] at htaken
    cases htaken
  · exact ⟨m, order, m', hok, hsubmit, hall _ _ _ _ hsubmit⟩

end Oems
