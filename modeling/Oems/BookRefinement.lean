import Oems.MatchingLoops

namespace Oems

open Lib

/-- The book and the naive book hold the same orders. -/
structure Refines (b : OrderBook) (n : NaiveBook) : Prop where
  symbol : b.symbol = n.symbol
  bids : Arranged .buy b.bids.entries n.orders
  asks : Arranged .sell b.asks.entries n.orders
  unique : UniqueIds n.orders
  index : Indexes b.idIndex n.orders
  next : b.nextExecutionId = n.nextExecutionId
  price_pos : ∀ o ∈ n.orders, 0 < o.price

theorem Refines.new (symbol : Symbol) : Refines (OrderBook.new symbol) (NaiveBook.new symbol) where
  symbol := rfl
  bids := ⟨List.Pairwise.nil, by simp [OrderBook.new], fun _ => rfl⟩
  asks := ⟨List.Pairwise.nil, by simp [OrderBook.new], fun _ => rfl⟩
  unique := List.nodup_nil
  index := fun id => Finmap.lookup_empty id
  next := rfl
  price_pos := by simp [NaiveBook.new]

theorem Side.opposite_ne (side : Side) : side.opposite ≠ side := by
  cases side <;> simp [Side.opposite]

theorem sweep_symbol (t : Taker) (remaining : ℤ) (n : NaiveBook) :
    (n.sweep t remaining).2.2.symbol = n.symbol :=
  NaiveBook.sweep_keeps (P := fun n' => n'.symbol = n.symbol) (fun _ _ _ _ h => h) remaining n rfl

theorem sweep_price_pos (t : Taker) (remaining : ℤ) (n : NaiveBook)
    (h : ∀ o ∈ n.orders, 0 < o.price) : ∀ o ∈ (n.sweep t remaining).2.2.orders, 0 < o.price := by
  intro o ho
  obtain ⟨x, hx, _, hprice⟩ := placesOf_sweep t remaining n o ho
  rw [← hprice]
  exact h x hx

theorem sweep_own_side {t : Taker} {levels : List (Σ _ : ℤ, List BookEntry)} (remaining : ℤ)
    (n : NaiveBook) (hu : UniqueIds n.orders) (h : Arranged t.side levels n.orders) :
    Arranged t.side levels (n.sweep t remaining).2.2.orders := by
  refine (NaiveBook.sweep_keeps (P := fun n' => UniqueIds n'.orders ∧ Arranged t.side levels n'.orders)
    ?_ remaining n ⟨hu, h⟩).2
  rintro n' o k hc ⟨hu', h'⟩
  have hs : o.side ≠ t.side := by
    rw [Taker.counterparty_side hc]
    exact t.side.opposite_ne
  exact ⟨hu'.takeFrom _ _, h'.takeFrom_other hu' (Taker.counterparty_mem hc) hs k⟩

theorem Refines.matchAgainst {b : OrderBook} {n : NaiveBook} (h : Refines b n) (t : Taker) (qty : ℤ)
    (now : ℤ) : ∀ r w, b.matchAgainst t.id t.side t.type t.limit qty now = r → n.sweep t qty = w →
      r.1.map Fill.trade = w.1 ∧ r.2.1 = w.2.1 ∧ Refines r.2.2 w.2.2 := by
  intro r w hr hw
  subst hr hw
  have hown := fun levels => @sweep_own_side t levels qty n h.unique
  have hsym := sweep_symbol t qty n
  have hprice := sweep_price_pos t qty n h.price_pos
  obtain ⟨id, side, type, limit⟩ := t
  cases side with
  | buy =>
    obtain ⟨hfills, hleft, hsim⟩ := matchLevels_sweep ⟨id, .buy, type, limit⟩ b.symbol now
      ⟨[], qty, b.idIndex, b.nextExecutionId⟩ b.asks.entries n h.symbol
      ⟨h.asks, h.unique, h.index, h.next⟩ _ _ rfl rfl
    exact ⟨hfills, hleft, h.symbol.trans hsym.symm, hown _ h.bids, hsim.arranged, hsim.unique,
      hsim.index, hsim.next, hprice⟩
  | sell =>
    obtain ⟨hfills, hleft, hsim⟩ := matchLevels_sweep ⟨id, .sell, type, limit⟩ b.symbol now
      ⟨[], qty, b.idIndex, b.nextExecutionId⟩ b.bids.entries n h.symbol
      ⟨h.bids, h.unique, h.index, h.next⟩ _ _ rfl rfl
    exact ⟨hfills, hleft, h.symbol.trans hsym.symm, hsim.arranged, hown _ h.asks, hsim.unique,
      hsim.index, hsim.next, hprice⟩

theorem Arranged.of_find {side : Side} {m : BookSide side} {orders : List RestingOrder}
    (hne : ∀ p q, m.find p = some q → q ≠ [])
    (hq : ∀ p, ((m.find p).getD []).map BookEntry.quote =
      (queueAt side p orders).map RestingOrder.toQuote) : Arranged side m.entries orders where
  sorted := m.sorted
  nonempty := fun l hl => hne l.1 l.2 (OrdMap.find_eq_some_iff.mpr hl)
  queue := hq

section Find

variable {side : Side} {m : BookSide side} {orders : List RestingOrder}

theorem Arranged.find_ne_nil (h : Arranged side m.entries orders) {p : ℤ} {q : List BookEntry}
    (hq : m.find p = some q) : q ≠ [] :=
  h.nonempty ⟨p, q⟩ (OrdMap.find_eq_some_iff.mp hq)

theorem Arranged.find_queue (h : Arranged side m.entries orders) (p : ℤ) :
    ((m.find p).getD []).map BookEntry.quote = (queueAt side p orders).map RestingOrder.toQuote :=
  h.queue p

theorem queueAt_append_other {o : RestingOrder} {p : ℤ} (h : ¬ (o.side = side ∧ o.price = p)) :
    queueAt side p (orders ++ [o]) = queueAt side p orders := by
  have hlast : queueAt side p [o] = [] := by simpa [queueAt] using h
  rw [queueAt_append, hlast, List.append_nil]

theorem Arranged.append_other (h : Arranged side m.entries orders) {o : RestingOrder}
    (hs : o.side ≠ side) : Arranged side m.entries (orders ++ [o]) := by
  refine Arranged.of_find (fun _ _ => h.find_ne_nil) fun p => ?_
  rw [queueAt_append_other fun hc => hs hc.1]
  exact h.find_queue p

theorem Arranged.pushBack (h : Arranged side m.entries orders) {o : RestingOrder} {e : BookEntry}
    (hs : o.side = side) (he : e.quote = o.toQuote) :
    Arranged side (OrderBook.pushBack m o.price e).entries (orders ++ [o]) := by
  refine Arranged.of_find ?_ ?_
  · intro p q hq
    by_cases hp : p = o.price
    · subst hp
      rw [OrderBook.pushBack, OrdMap.find_insert] at hq
      cases hq
      simp
    · rw [OrderBook.pushBack, OrdMap.find_insert_of_ne _ _ hp] at hq
      exact h.find_ne_nil hq
  · intro p
    by_cases hp : p = o.price
    · subst hp
      have hq := h.find_queue o.price
      have hlast : queueAt side o.price [o] = [o] := by simp [queueAt, hs]
      rw [OrderBook.pushBack, OrdMap.find_insert, queueAt_append, hlast]
      simp [hq, he]
    · rw [OrderBook.pushBack, OrdMap.find_insert_of_ne _ _ hp,
        queueAt_append_other fun hc => hp hc.2.symm]
      exact h.find_queue p

end Find

theorem UniqueIds.append {orders : List RestingOrder} (h : UniqueIds orders) {o : RestingOrder}
    (hnew : Keyed.find (fun o : RestingOrder => o.id) o.id orders = none) :
    UniqueIds (orders ++ [o]) := by
  have hid := Keyed.find_eq_none_iff.mp hnew
  unfold UniqueIds
  rw [List.map_append, List.nodup_append]
  refine ⟨h, List.nodup_singleton _, ?_⟩
  intro a ha b hb hab
  subst hab
  have ho : a = o.id := List.mem_singleton.mp hb
  exact hid (ho ▸ ha)

theorem Indexes.append {idIndex : IdIndex} {orders : List RestingOrder} (h : Indexes idIndex orders)
    {o : RestingOrder} (hnew : Keyed.find (fun o : RestingOrder => o.id) o.id orders = none) :
    Indexes (idIndex.insert o.id ⟨o.side, o.price⟩) (orders ++ [o]) := by
  intro id
  rw [Keyed.find_append]
  by_cases hid : id = o.id
  · subst hid
    rw [Finmap.lookup_insert, hnew]
    simp [Keyed.find]
  · have hlast : Keyed.find (fun o : RestingOrder => o.id) id [o] = none := by
      simp [Keyed.find, Ne.symm hid]
    rw [Finmap.lookup_insert_of_ne _ hid, h id, hlast, Option.or_none]

theorem Refines.rest {b : OrderBook} {n : NaiveBook} (h : Refines b n) (o : RestingOrder)
    (hnew : n.find o.id = none) (hprice : 0 < o.price) (now : ℤ) :
    Refines (b.rest o.id o.side o.price o.qty now).2 { n with orders := n.orders ++ [o] } := by
  have hmem : ¬ o.id ∈ b.idIndex := by
    rw [h.index.mem_iff]
    have hn : Keyed.find (fun o : RestingOrder => o.id) o.id n.orders = none := hnew
    simp [hn]
  have hpos : ∀ x ∈ n.orders ++ [o], 0 < x.price := by
    intro x hx
    obtain hx | hx := List.mem_append.mp hx
    · exact h.price_pos x hx
    · rw [List.mem_singleton.mp hx]
      exact hprice
  have hidx := h.index.append hnew
  cases hs : o.side with
  | buy =>
    rw [hs] at hidx
    simp only [OrderBook.rest, hmem, if_false]
    exact ⟨h.symbol, h.bids.pushBack hs (by simp [BookEntry.quote, ← hs]),
      h.asks.append_other (by simp [hs]), h.unique.append hnew, hidx, h.next, hpos⟩
  | sell =>
    rw [hs] at hidx
    simp only [OrderBook.rest, hmem, if_false]
    exact ⟨h.symbol, h.bids.append_other (by simp [hs]),
      h.asks.pushBack hs (by simp [BookEntry.quote, ← hs]), h.unique.append hnew, hidx, h.next,
      hpos⟩

section Cancel

variable {side : Side} {m : BookSide side} {orders : List RestingOrder} {o : RestingOrder}

abbrev removeFrom (id : ℕ) (orders : List RestingOrder) : List RestingOrder :=
  Keyed.update (fun o : RestingOrder => o.id) id (fun _ => none) orders

theorem queueAt_removeFrom (side : Side) (p : ℤ) (id : ℕ) (orders : List RestingOrder) :
    queueAt side p (removeFrom id orders) = removeFrom id (queueAt side p orders) :=
  Keyed.filter_update (by simp) orders

theorem queueAt_removeFrom_of_ne {p : ℤ} (hu : UniqueIds orders) (ho : o ∈ orders)
    (hne : ¬ (o.side = side ∧ o.price = p)) :
    queueAt side p (removeFrom o.id orders) = queueAt side p orders := by
  rw [queueAt_removeFrom]
  apply Keyed.update_of_notMem
  intro hm
  obtain ⟨x, hx, hid⟩ := List.mem_map.mp hm
  obtain ⟨hxo, hxs⟩ := mem_queueAt.mp hx
  exact hne (hu.eq hxo ho hid ▸ hxs)

theorem Arranged.remove_other (h : Arranged side m.entries orders) (hu : UniqueIds orders)
    (ho : o ∈ orders) (hs : o.side ≠ side) : Arranged side m.entries (removeFrom o.id orders) := by
  refine Arranged.of_find (fun _ _ => h.find_ne_nil) fun p => ?_
  rw [queueAt_removeFrom_of_ne hu ho fun hc => hs hc.1]
  exact h.find_queue p

theorem Indexes.remove {idIndex : IdIndex} (h : Indexes idIndex orders) (hu : UniqueIds orders)
    (id : ℕ) : Indexes (idIndex.erase id) (removeFrom id orders) := by
  intro id'
  by_cases he : id' = id
  · subst he
    rw [Finmap.lookup_erase, removeFrom, Keyed.find_update_self (by simp) hu]
    simp
  · rw [Finmap.lookup_erase_ne he, removeFrom, Keyed.find_update_of_ne (by simp) he]
    exact h id'

theorem Arranged.cancelIn (h : Arranged side m.entries orders) (hu : UniqueIds orders)
    (ho : o ∈ orders) (hs : o.side = side) :
    ∃ removed m', OrderBook.cancelIn m o.price o.id = .ok (removed, m') ∧
      removed.quote = o.toQuote ∧ Arranged side m'.entries (removeFrom o.id orders) := by
  have hq := h.find_queue o.price
  have hmem : o ∈ queueAt side o.price orders := mem_queueAt.mpr ⟨ho, hs, rfl⟩
  have huq : UniqueIds (queueAt side o.price orders) := hu.sublist (List.filter_sublist.map _)
  cases hl : m.find o.price with
  | none =>
    have hnil : queueAt side o.price orders = [] := by simpa [hl] using hq.symm
    simp [hnil] at hmem
  | some level =>
    rw [hl, Option.getD_some] at hq
    have hfind : (level.find? fun e => e.orderId = o.id).map BookEntry.quote = some o.toQuote := by
      have hf := Keyed.find_of_mem huq hmem
      have hmap := congrArg (List.find? fun x : Quote => x.id = o.id) hq
      rw [List.find?_map, List.find?_map] at hmap
      refine hmap.trans ?_
      exact congrArg (Option.map RestingOrder.toQuote) hf
    obtain ⟨removed, hr, hquote⟩ := Option.map_eq_some_iff.mp hfind
    have herase : (level.eraseP fun e => e.orderId = o.id).map BookEntry.quote =
        (queueAt side o.price (removeFrom o.id orders)).map RestingOrder.toQuote := by
      have hmap := congrArg (List.eraseP fun x : Quote => x.id = o.id) hq
      rw [List.eraseP_map, List.eraseP_map] at hmap
      refine hmap.trans ?_
      rw [queueAt_removeFrom, removeFrom, ← Keyed.eraseP_eq_update huq]
      rfl
    refine ⟨removed, _, by rw [OrderBook.cancelIn, hl]; simp only [hr]; rfl, hquote, ?_⟩
    refine Arranged.of_find ?_ ?_
    · intro p q hp
      split_ifs at hp with hnil
      · by_cases hpo : p = o.price
        · simp [hpo] at hp
        · rw [OrdMap.find_erase_of_ne _ hpo] at hp
          exact h.find_ne_nil hp
      · by_cases hpo : p = o.price
        · subst hpo
          rw [OrdMap.find_insert] at hp
          cases hp
          exact hnil
        · rw [OrdMap.find_insert_of_ne _ _ hpo] at hp
          exact h.find_ne_nil hp
    · intro p
      by_cases hpo : p = o.price
      · subst hpo
        rw [← herase]
        split_ifs with hnil
        · simp [hnil]
        · simp
      · rw [queueAt_removeFrom_of_ne hu ho fun hc => hpo hc.2.symm, ← h.find_queue p]
        split_ifs
        · rw [OrdMap.find_erase_of_ne _ hpo]
        · rw [OrdMap.find_insert_of_ne _ _ hpo]

end Cancel

theorem Refines.cancelOrder {b : OrderBook} {n : NaiveBook} (h : Refines b n) (id : ℕ) :
    (b.cancelOrder id).1.map BookEntry.quote = (n.cancelOrder id).1 ∧
      Refines (b.cancelOrder id).2 (n.cancelOrder id).2 := by
  have hidx := h.index id
  cases hf : n.find id with
  | none =>
    have hnone : b.idIndex.lookup id = none := by
      rw [hidx]
      exact congrArg (Option.map _) hf
    simp only [OrderBook.cancelOrder, NaiveBook.cancelOrder, hnone, hf]
    exact ⟨rfl, h⟩
  | some o =>
    obtain ⟨ho, hid⟩ := Keyed.mem_of_find hf
    subst hid
    have hsome : b.idIndex.lookup o.id = some ⟨o.side, o.price⟩ := by
      rw [hidx]
      exact congrArg (Option.map _) hf
    have hpos : ∀ x ∈ removeFrom o.id n.orders, 0 < x.price :=
      fun x hx => h.price_pos x (Keyed.mem_update_none hx).1
    have hun : UniqueIds (removeFrom o.id n.orders) :=
      h.unique.sublist (Keyed.keys_update (by simp) n.orders)
    simp only [NaiveBook.cancelOrder, hf]
    cases hs : o.side with
    | buy =>
      obtain ⟨removed, m, hm, hquote, harr⟩ := h.bids.cancelIn h.unique ho hs
      rw [hs] at hsome
      simp only [OrderBook.cancelOrder, hsome, hm]
      exact ⟨congrArg _ hquote, h.symbol, harr, h.asks.remove_other h.unique ho (by simp [hs]), hun,
        h.index.remove h.unique _, h.next, hpos⟩
    | sell =>
      obtain ⟨removed, m, hm, hquote, harr⟩ := h.asks.cancelIn h.unique ho hs
      rw [hs] at hsome
      simp only [OrderBook.cancelOrder, hsome, hm]
      exact ⟨congrArg _ hquote, h.symbol, h.bids.remove_other h.unique ho (by simp [hs]), harr, hun,
        h.index.remove h.unique _, h.next, hpos⟩

theorem Refines.restoreRestingOrder {b : OrderBook} {n : NaiveBook} (h : Refines b n) (id : ℕ)
    (side : Side) (price qty timestamp : ℤ) :
    (b.restoreRestingOrder id side price qty timestamp).1 =
        (n.restoreRestingOrder id side price qty).1 ∧
      Refines (b.restoreRestingOrder id side price qty timestamp).2
        (n.restoreRestingOrder id side price qty).2 := by
  have hmem : id ∈ b.idIndex ↔ (n.find id).isSome = true := h.index.mem_iff id
  unfold OrderBook.restoreRestingOrder NaiveBook.restoreRestingOrder
  by_cases hq : 0 < qty
  · rw [if_neg (not_le.mpr hq), dif_pos hq]
    by_cases hp : price ≤ 0
    · rw [if_pos hp, if_pos hp]
      exact ⟨rfl, h⟩
    · rw [if_neg hp, if_neg hp]
      by_cases hd : (n.find id).isSome = true
      · rw [if_pos (hmem.mpr hd), if_pos hd]
        exact ⟨rfl, h⟩
      · rw [if_neg (mt hmem.mp hd), if_neg hd]
        have hnone : n.find id = none := by simpa using hd
        exact ⟨rfl, h.rest ⟨⟨id, side, price, qty⟩, hq⟩ hnone (not_le.mp hp) timestamp⟩
  · rw [if_pos (not_lt.mp hq), dif_neg hq]
    exact ⟨rfl, h⟩

theorem find_takeFrom_eq_none {id : ℕ} {orders : List RestingOrder} (id' : ℕ) (k : ℤ)
    (h : Keyed.find (fun o : RestingOrder => o.id) id orders = none) :
    Keyed.find (fun o : RestingOrder => o.id) id (takeFrom id' k orders) = none := by
  rw [Keyed.find_eq_none_iff] at h ⊢
  exact fun hm => h ((Keyed.keys_update (fun _ _ hxy => take_id hxy) orders).subset hm)

theorem sweep_find_eq_none {t : Taker} (remaining : ℤ) {n : NaiveBook} {id : ℕ}
    (h : n.find id = none) : (n.sweep t remaining).2.2.find id = none :=
  NaiveBook.sweep_keeps (P := fun n' => n'.find id = none)
    (fun _ o k _ h' => find_takeFrom_eq_none o.id k h') remaining n h

theorem Refines.addOrder {b : OrderBook} {n : NaiveBook} (h : Refines b n) (id : ℕ) (side : Side)
    (type : OrderType) (price qty now : ℤ) :
    (b.addOrder id side type price qty now).1.map AddOrderResult.view =
        (n.addOrder id side type price qty).1 ∧
      Refines (b.addOrder id side type price qty now).2 (n.addOrder id side type price qty).2 := by
  have hmem : id ∈ b.idIndex ↔ (n.find id).isSome = true := h.index.mem_iff id
  unfold OrderBook.addOrder NaiveBook.addOrder
  by_cases hq : qty ≤ 0
  · rw [if_pos hq, if_pos hq]
    exact ⟨rfl, h⟩
  rw [if_neg hq, if_neg hq]
  by_cases hp : type = .limit ∧ price ≤ 0
  · rw [if_pos hp, if_pos hp]
    exact ⟨rfl, h⟩
  rw [if_neg hp, if_neg hp]
  by_cases hd : (n.find id).isSome = true
  · rw [if_pos (hmem.mpr hd), if_pos hd]
    exact ⟨rfl, h⟩
  rw [if_neg (mt hmem.mp hd), if_neg hd]
  have hnone : n.find id = none := by simpa using hd
  obtain ⟨hfills, hleft, hend⟩ := h.matchAgainst ⟨id, side, type, price⟩ qty now _ _ rfl rfl
  have hnew := sweep_find_eq_none (t := ⟨id, side, type, price⟩) qty hnone
  generalize n.sweep ⟨id, side, type, price⟩ qty = w at hfills hleft hend hnew
  generalize b.matchAgainst id side type price qty now = r at hfills hleft hend
  obtain ⟨fills, remaining, b'⟩ := r
  obtain ⟨trades, remaining', n'⟩ := w
  obtain rfl : remaining = remaining' := hleft
  obtain rfl : fills.map Fill.trade = trades := hfills
  simp only
  by_cases hr : 0 < remaining
  · rw [if_pos hr]
    by_cases ht : type = .market
    · have hl : ¬ (0 < remaining ∧ type = .limit) := by simp [ht]
      rw [if_pos ht, dif_neg hl]
      exact ⟨rfl, hend⟩
    · have hlim : type = .limit := by
        cases type
        · rfl
        · exact absurd rfl ht
      have hpos : 0 < price := by
        by_contra hc
        exact hp ⟨hlim, not_lt.mp hc⟩
      rw [if_neg ht, dif_pos ⟨hr, hlim⟩]
      refine ⟨rfl, hend.rest ⟨⟨id, side, price, remaining⟩, hr⟩ hnew hpos now⟩
  · rw [if_neg hr, dif_neg fun hc => hr hc.1]
    exact ⟨rfl, hend⟩

theorem Arranged.flatten_perm {side : Side} {levels : List (Σ _ : ℤ, List BookEntry)}
    {orders : List RestingOrder} (h : Arranged side levels orders) :
    ((levels.map Sigma.snd).flatten.map BookEntry.quote).Perm
      ((orders.filter fun o => o.side = side).map RestingOrder.toQuote) := by
  induction levels generalizing orders with
  | nil =>
    have hnil : (orders.filter fun o => o.side = side) = [] := by
      rw [List.filter_eq_nil_iff]
      intro o ho hs
      exact absurd (h.key_of_mem ho (by simpa using hs)) (by simp)
    rw [hnil]
    rfl
  | cons l levels ih =>
    obtain ⟨p, q⟩ := l
    have hsplit := List.filter_append_perm (fun o : RestingOrder => o.price = p)
      (orders.filter fun o => o.side = side)
    have hhead : (orders.filter fun o => o.side = side).filter (fun o => o.price = p) =
        queueAt side p orders := by
      rw [List.filter_filter, queueAt]
      congr 1
      funext o
      simp [and_comm]
    have htail : (orders.filter fun o => o.side = side).filter (fun o => !decide (o.price = p)) =
        (orders.filter fun o => ¬ o.price = p).filter fun o => o.side = side := by
      rw [List.filter_filter, List.filter_filter]
      congr 1
      funext o
      simp [Bool.and_comm]
    have hq := h.queue p
    rw [List.dlookup_cons_eq, Option.getD_some] at hq
    have hrest : Arranged side levels (orders.filter fun o => ¬ o.price = p) := by
      refine h.drop_front ?_ fun p' hp' => ?_
      · rw [queueAt, List.filter_filter, List.filter_eq_nil_iff]
        simp
      · rw [queueAt, queueAt, List.filter_filter]
        congr 1
        funext o
        by_cases ho : o.price = p'
        · simp [ho, hp']
        · simp [ho]
    rw [hhead, htail] at hsplit
    have hperm := (ih hrest).append_left (q.map BookEntry.quote)
    rw [hq, ← List.map_append] at hperm
    simpa [hq] using hperm.trans (hsplit.map _)

namespace OrderBook

def quotes (b : OrderBook) : List Quote :=
  (b.bids.values.flatten ++ b.asks.values.flatten).map BookEntry.quote

def queue (b : OrderBook) (side : Side) (p : ℤ) : List BookEntry :=
  match side with
  | .buy => (b.bids.find p).getD []
  | .sell => (b.asks.find p).getD []

end OrderBook

theorem Refines.quotes_perm {b : OrderBook} {n : NaiveBook} (h : Refines b n) :
    b.quotes.Perm (n.orders.map RestingOrder.toQuote) := by
  have hsplit := List.filter_append_perm (fun o : RestingOrder => o.side = .buy) n.orders
  have hsell : (n.orders.filter fun o => !decide (o.side = .buy)) =
      n.orders.filter fun o => o.side = .sell := by
    congr 1
    funext o
    cases o.side <;> rfl
  rw [hsell] at hsplit
  rw [OrderBook.quotes, List.map_append]
  refine (h.bids.flatten_perm.append h.asks.flatten_perm).trans ?_
  rw [← List.map_append]
  exact hsplit.map _

theorem Refines.queue {b : OrderBook} {n : NaiveBook} (h : Refines b n) (side : Side) (p : ℤ) :
    (b.queue side p).map BookEntry.quote = (queueAt side p n.orders).map RestingOrder.toQuote := by
  cases side with
  | buy => exact h.bids.queue p
  | sell => exact h.asks.queue p

theorem Refines.step {b : OrderBook} {n : NaiveBook} (h : Refines b n) (op : BookOp) :
    (b.step op).1.view = (n.step op).1 ∧ Refines (b.step op).2 (n.step op).2 := by
  cases op with
  | add id side type price qty now =>
    obtain ⟨hres, hend⟩ := h.addOrder id side type price qty now
    exact ⟨congrArg BookOutcome.added hres, hend⟩
  | cancel id =>
    obtain ⟨hres, hend⟩ := h.cancelOrder id
    exact ⟨congrArg BookOutcome.cancelled hres, hend⟩
  | restore id side price qty timestamp =>
    obtain ⟨hres, hend⟩ := h.restoreRestingOrder id side price qty timestamp
    exact ⟨congrArg BookOutcome.restored hres, hend⟩

theorem Refines.run {b : OrderBook} {n : NaiveBook} (h : Refines b n) (ops : List BookOp) :
    (Machine.run OrderBook.step b ops).1.map BookResult.view =
        (Machine.run NaiveBook.step n ops).1 ∧
      Refines (Machine.run OrderBook.step b ops).2 (Machine.run NaiveBook.step n ops).2 := by
  have hstep : ∀ b n op, Refines b n →
      (OrderBook.step b op).1.view = (NaiveBook.step n op).1 ∧
        Refines (OrderBook.step b op).2 (NaiveBook.step n op).2 := fun _ _ op h => h.step op
  obtain ⟨hres, hend⟩ :=
    Machine.simulation (O := fun (r : BookResult) o => r.view = o) hstep h ops
  refine ⟨?_, hend⟩
  rw [← List.forall₂_eq_eq_eq, List.forall₂_map_left_iff]
  exact hres

/-- On every sequence of calls a book and the naive book return the same
results and are left with the same resting orders, in the same queues. -/
theorem orderBook_refines_naiveBook (symbol : Symbol) (ops : List BookOp) :
    (Machine.run OrderBook.step (OrderBook.new symbol) ops).1.map BookResult.view =
        (Machine.run NaiveBook.step (NaiveBook.new symbol) ops).1 ∧
      (Machine.run OrderBook.step (OrderBook.new symbol) ops).2.quotes.Perm
        ((Machine.run NaiveBook.step (NaiveBook.new symbol) ops).2.orders.map
          RestingOrder.toQuote) ∧
      ∀ side p, ((Machine.run OrderBook.step (OrderBook.new symbol) ops).2.queue side p).map
          BookEntry.quote =
        (queueAt side p (Machine.run NaiveBook.step (NaiveBook.new symbol) ops).2.orders).map
          RestingOrder.toQuote := by
  obtain ⟨hres, hend⟩ := (Refines.new symbol).run ops
  exact ⟨hres, hend.quotes_perm, hend.queue⟩

end Oems
