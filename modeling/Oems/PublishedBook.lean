import Oems.BookRefinement
import Mathlib.Algebra.GroupWithZero.Nat
import Mathlib.Data.Finset.Max

namespace Oems

open Lib

/-- No buyer offers what some seller asks. -/
def Uncrossed (orders : List RestingOrder) : Prop :=
  ∀ x ∈ orders, ∀ y ∈ orders, x.side = .buy → y.side = .sell → x.price < y.price

theorem Uncrossed.places {orders orders' : List RestingOrder} (h : Uncrossed orders')
    (hp : PlacesOf orders orders') : Uncrossed orders := by
  intro x hx y hy hbuy hsell
  obtain ⟨x', hx', hxs, hxp⟩ := hp x hx
  obtain ⟨y', hy', hys, hyp⟩ := hp y hy
  rw [← hxp, ← hyp]
  exact h x' hx' y' hy' (hxs.trans hbuy) (hys.trans hsell)

theorem placesOf_remove (n : NaiveBook) (id : ℕ) : PlacesOf (n.remove id).orders n.orders :=
  fun x hx => ⟨x, (Keyed.mem_update_none hx).1, rfl, rfl⟩

theorem exists_unbeaten (side : Side) {P : RestingOrder → Prop} {orders : List RestingOrder}
    {o : RestingOrder} (ho : o ∈ orders) (hP : P o) :
    ∃ x ∈ orders, P x ∧ ∀ y ∈ orders, P y → ¬ better side y.price x.price := by
  classical
  have hne : (orders.toFinset.filter P).Nonempty := ⟨o, by simp [ho, hP]⟩
  cases side with
  | buy =>
    obtain ⟨x, hx, hmax⟩ := Finset.exists_max_image _ (fun x : RestingOrder => x.price) hne
    simp only [Finset.mem_filter, List.mem_toFinset] at hx hmax
    exact ⟨x, hx.1, hx.2, fun y hy hPy => not_lt.mpr (hmax y ⟨hy, hPy⟩)⟩
  | sell =>
    obtain ⟨x, hx, hmin⟩ := Finset.exists_min_image _ (fun x : RestingOrder => x.price) hne
    simp only [Finset.mem_filter, List.mem_toFinset] at hx hmin
    exact ⟨x, hx.1, hx.2, fun y hy hPy => not_lt.mpr (hmin y ⟨hy, hPy⟩)⟩

theorem Taker.not_accepts_of_counterparty {t : Taker} {orders : List RestingOrder}
    (h : t.counterparty orders = none) : ∀ o ∈ orders, ¬ t.accepts o = true := by
  intro o ho hacc
  obtain ⟨x, hx, hxa, hbest⟩ :=
    exists_unbeaten t.side.opposite (P := fun o => t.accepts o = true) ho hacc
  have hnot := List.find?_eq_none.mp h x hx
  exact hnot (by simpa using ⟨hxa, hbest⟩)

theorem NaiveBook.sweep_exhausts (t : Taker) (remaining : ℤ) (n : NaiveBook)
    (h : 0 < (n.sweep t remaining).2.1) :
    t.counterparty (n.sweep t remaining).2.2.orders = none := by
  induction remaining, n using NaiveBook.sweep.induct t with
  | case1 remaining n hpos hnone =>
    rw [NaiveBook.sweep, if_pos hpos, hnone]
    exact hnone
  | case2 remaining n hpos o hc k ih =>
    rw [NaiveBook.sweep, if_pos hpos, hc] at h ⊢
    exact ih h
  | case3 remaining n hpos =>
    rw [NaiveBook.sweep, if_neg hpos] at h
    exact absurd h hpos

theorem Uncrossed.sweep {n : NaiveBook} (h : Uncrossed n.orders) (t : Taker) (remaining : ℤ) :
    Uncrossed (n.sweep t remaining).2.2.orders :=
  h.places (placesOf_sweep t remaining n)

theorem Uncrossed.append {orders : List RestingOrder} (h : Uncrossed orders) {t : Taker}
    (hnone : ∀ o ∈ orders, ¬ t.accepts o = true) {o : RestingOrder} (hs : o.side = t.side)
    (hp : o.price = t.limit) : Uncrossed (orders ++ [o]) := by
  have hrefused : ∀ x ∈ orders, x.side = t.side.opposite →
      ¬ limitAllows t.side t.limit x.price = true :=
    fun x hx hxs ha => hnone x hx (accepts_iff.mpr ⟨hxs, Or.inr ha⟩)
  intro x hx y hy hbuy hsell
  obtain hxo | hxo := List.mem_append.mp hx
  · obtain hyo | hyo := List.mem_append.mp hy
    · exact h x hxo y hyo hbuy hsell
    · have hyp : y.price = t.limit := List.mem_singleton.mp hyo ▸ hp
      have hside : t.side = .sell := hs.symm.trans (List.mem_singleton.mp hyo ▸ hsell)
      rw [hside] at hrefused
      simpa [limitAllows, hyp] using hrefused x hxo hbuy
  · have hxp : x.price = t.limit := List.mem_singleton.mp hxo ▸ hp
    have hside : t.side = .buy := hs.symm.trans (List.mem_singleton.mp hxo ▸ hbuy)
    obtain hyo | hyo := List.mem_append.mp hy
    · rw [hside] at hrefused
      simpa [limitAllows, hxp] using hrefused y hyo hsell
    · have hxy : x = y := (List.mem_singleton.mp hxo).trans (List.mem_singleton.mp hyo).symm
      rw [hxy, hsell] at hbuy
      simp at hbuy

/-- A call that a client can make: all but the restoring of a resting order. -/
def BookOp.fromClient : BookOp → Prop
  | .add .. => True
  | .cancel _ => True
  | .restore .. => False

theorem Uncrossed.addOrder {n : NaiveBook} (h : Uncrossed n.orders) (id : ℕ) (side : Side)
    (type : OrderType) (price qty : ℤ) :
    Uncrossed (n.addOrder id side type price qty).2.orders := by
  unfold NaiveBook.addOrder
  split_ifs
  · exact h
  · exact h
  · exact h
  · have hswept := h.sweep ⟨id, side, type, price⟩ qty
    have hleft := NaiveBook.sweep_exhausts ⟨id, side, type, price⟩ qty n
    generalize n.sweep ⟨id, side, type, price⟩ qty = r at hswept hleft
    obtain ⟨trades, remaining, n'⟩ := r
    dsimp only at hswept hleft ⊢
    by_cases hr : 0 < remaining ∧ type = .limit
    · rw [dif_pos hr]
      exact hswept.append (Taker.not_accepts_of_counterparty (hleft hr.1)) rfl rfl
    · rw [dif_neg hr]
      exact hswept

theorem Uncrossed.step {n : NaiveBook} (h : Uncrossed n.orders) {op : BookOp}
    (hop : op.fromClient) : Uncrossed (n.step op).2.orders := by
  cases op with
  | add id side type price qty now => exact h.addOrder id side type price qty
  | cancel id =>
    change Uncrossed (n.cancelOrder id).2.orders
    unfold NaiveBook.cancelOrder
    cases n.find id with
    | none => exact h
    | some o => exact h.places (placesOf_remove n id)
  | restore id side price qty timestamp => exact hop.elim

theorem Uncrossed.run {n : NaiveBook} (h : Uncrossed n.orders) {ops : List BookOp}
    (hops : ∀ op ∈ ops, op.fromClient) : Uncrossed (Machine.run NaiveBook.step n ops).2.orders :=
  Machine.invariant_along (I := fun n => Uncrossed n.orders) (fun _ _ hop hn => hn.step hop) h
    (Machine.along_of_mem (fun op hm _ => hops op hm) n)

namespace OrderBook

theorem priceLevels_price {side : Side} (m : BookSide side) :
    (priceLevels m).map PriceLevel.price = m.entries.keys := by
  rw [priceLevels, List.map_map]
  rfl

theorem priceLevels_orderCount {side : Side} (m : BookSide side) :
    ((priceLevels m).map PriceLevel.orderCount).sum = (m.entries.map Sigma.snd).flatten.length := by
  rw [priceLevels, List.map_map, List.length_flatten, List.map_map]
  rfl

end OrderBook

theorem Arranged.orderCount_pos {side : Side} {m : BookSide side} {orders : List RestingOrder}
    (h : Arranged side m.entries orders) : ∀ l ∈ OrderBook.priceLevels m, 1 ≤ l.orderCount := by
  intro l hl
  obtain ⟨level, hlevel, rfl⟩ := List.mem_map.mp hl
  exact List.length_pos_iff.mpr (h.nonempty level hlevel)

theorem Arranged.exists_of_head {side : Side} {m : BookSide side} {orders : List RestingOrder}
    (h : Arranged side m.entries orders) {l : PriceLevel}
    (hl : (OrderBook.priceLevels m).head? = some l) :
    ∃ o ∈ orders, o.side = side ∧ o.price = l.price := by
  have hentries := h
  cases hm : m.entries with
  | nil => simp [OrderBook.priceLevels, hm] at hl
  | cons level levels =>
    obtain ⟨p, q⟩ := level
    rw [hm] at hentries
    obtain ⟨e, q', rfl⟩ := List.exists_cons_of_ne_nil (hentries.nonempty ⟨p, q⟩ (by simp))
    obtain ⟨o, tail, hqueue, _, _⟩ := hentries.front
    obtain ⟨ho, hs, hp⟩ := mem_queueAt.mp (by simp [hqueue] : o ∈ queueAt side p orders)
    have hprice : p = l.price := by
      simp only [OrderBook.priceLevels, hm, List.map_cons, List.head?_cons,
        Option.some.injEq] at hl
      rw [← hl]
    exact ⟨o, ho, hs, hp.trans hprice⟩

theorem Refines.orderCount {b : OrderBook} {n : NaiveBook} (h : Refines b n) :
    b.orderCount = b.quotes.length := by
  have hkeys : b.idIndex.keys = (n.orders.map fun o : RestingOrder => o.id).toFinset := by
    ext id
    have hnone : Keyed.find (fun o : RestingOrder => o.id) id n.orders = none ↔
        id ∉ n.orders.map fun o : RestingOrder => o.id := Keyed.find_eq_none_iff
    rw [Finmap.mem_keys, h.index.mem_iff, List.mem_toFinset, ← not_iff_not, ← hnone,
      Option.not_isSome_iff_eq_none]
  rw [OrderBook.orderCount, hkeys, List.toFinset_card_of_nodup h.unique, h.quotes_perm.length_eq,
    List.length_map, List.length_map]

theorem Refines.orderCount_sum {b : OrderBook} {n : NaiveBook} (h : Refines b n) :
    ((b.bidLevels ++ b.askLevels).map PriceLevel.orderCount).sum = b.orderCount := by
  rw [h.orderCount, List.map_append, List.sum_append, OrderBook.bidLevels, OrderBook.askLevels,
    OrderBook.priceLevels_orderCount, OrderBook.priceLevels_orderCount, OrderBook.quotes,
    List.length_map, List.length_append]
  rfl

structure Published (b : OrderBook) : Prop where
  bids_sorted : (b.bidLevels.map PriceLevel.price).Pairwise (· > ·)
  asks_sorted : (b.askLevels.map PriceLevel.price).Pairwise (· < ·)
  level_nonempty : ∀ l ∈ b.bidLevels ++ b.askLevels, 1 ≤ l.orderCount
  orderCount : ((b.bidLevels ++ b.askLevels).map PriceLevel.orderCount).sum = b.orderCount
  uncrossed : ∀ bid ask, b.bidLevels.head? = some bid → b.askLevels.head? = some ask →
    bid.price < ask.price

theorem Refines.published {b : OrderBook} {n : NaiveBook} (h : Refines b n)
    (hn : Uncrossed n.orders) : Published b where
  bids_sorted := by
    rw [OrderBook.bidLevels, OrderBook.priceLevels_price]
    exact h.bids.sorted
  asks_sorted := by
    rw [OrderBook.askLevels, OrderBook.priceLevels_price]
    exact h.asks.sorted
  level_nonempty := by
    intro l hl
    obtain hl | hl := List.mem_append.mp hl
    · exact h.bids.orderCount_pos l hl
    · exact h.asks.orderCount_pos l hl
  orderCount := h.orderCount_sum
  uncrossed := by
    intro bid ask hbid hask
    obtain ⟨x, hx, hbuy, hxp⟩ := h.bids.exists_of_head hbid
    obtain ⟨y, hy, hsell, hyp⟩ := h.asks.exists_of_head hask
    rw [← hxp, ← hyp]
    exact hn x hx y hy hbuy hsell

/-- After any sequence of calls of clients a book lists its levels best first, with an
order in each and all orders counted once, and its best bid is below its best ask. -/
theorem book_never_crossed (symbol : Symbol) (ops : List BookOp)
    (hops : ∀ op ∈ ops, op.fromClient) :
    Published (Machine.run OrderBook.step (OrderBook.new symbol) ops).2 :=
  ((Refines.new symbol).run ops).2.published
    (Uncrossed.run (n := NaiveBook.new symbol) (by simp [Uncrossed, NaiveBook.new]) hops)

def restingRemainder : List BookOp :=
  [.add 1 .buy .limit 101 2 0, .add 2 .buy .limit 99 5 0, .add 3 .buy .limit 102 4 0,
    .add 4 .sell .limit 100 10 0]

theorem restingRemainder_published :
    Published (Machine.run OrderBook.step (OrderBook.new ⟨str "AAPL"⟩) restingRemainder).2 ∧
      (Machine.run OrderBook.step (OrderBook.new ⟨str "AAPL"⟩) restingRemainder).2.bidLevels =
        [⟨99, 5, 1⟩] ∧
      (Machine.run OrderBook.step (OrderBook.new ⟨str "AAPL"⟩) restingRemainder).2.askLevels =
        [⟨100, 4, 1⟩] :=
  ⟨book_never_crossed _ restingRemainder (by simp [restingRemainder, BookOp.fromClient]),
    by decide, by decide⟩

end Oems
