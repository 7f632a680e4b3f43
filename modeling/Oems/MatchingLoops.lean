import Oems.BookLevels

namespace Oems

open Lib

/-- What ties the state of the matching loops to the flat list. -/
structure MatchSim (side : Side) (st : OrderBook.MatchState)
    (levels : List (Σ _ : ℤ, List BookEntry)) (n : NaiveBook) : Prop where
  arranged : Arranged side levels n.orders
  unique : UniqueIds n.orders
  index : Indexes st.idIndex n.orders
  next : st.nextExecutionId = n.nextExecutionId

abbrev BookEntry.less (e : BookEntry) (k : ℤ) : BookEntry :=
  { e with remainingQty := e.remainingQty - k }

def pushQueue (p : ℤ) (q : List BookEntry) (levels : List (Σ _ : ℤ, List BookEntry)) :
    List (Σ _ : ℤ, List BookEntry) :=
  if q = [] then levels else ⟨p, q⟩ :: levels

section Loops

open OrderBook

variable {inc : Incoming} {acc : ℤ → Bool} {st : MatchState} {p : ℤ} {e : BookEntry}
  {q : List BookEntry} {levels : List (Σ _ : ℤ, List BookEntry)}

theorem matchLevels_of_done (h : ¬ 0 < st.remainingQty) (levels : List (Σ _ : ℤ, List BookEntry)) :
    matchLevels inc acc st levels = (st, levels) := by
  cases levels with
  | nil => rfl
  | cons l levels => rw [matchLevels, if_neg h]

theorem matchLevels_front_full (hr : 0 < st.remainingQty)
    (ha : ¬ (inc.type = .limit ∧ ¬ acc p = true))
    (hfull : e.remainingQty - min st.remainingQty e.remainingQty = 0) :
    matchLevels inc acc st (⟨p, e :: q⟩ :: levels) =
      matchLevels inc acc (trade inc st e) (pushQueue p q levels) := by
  have hq : matchQueue inc st (e :: q) = matchQueue inc (trade inc st e) q := by
    rw [matchQueue, if_pos hr]
    exact if_pos hfull
  rw [matchLevels, if_pos hr, if_neg ha, hq]
  cases q with
  | nil => rfl
  | cons x q =>
    rw [pushQueue, if_neg (List.cons_ne_nil x q)]
    by_cases hr' : 0 < (trade inc st e).remainingQty
    · rw [matchLevels, if_pos hr', if_neg ha]
    · rw [matchLevels_of_done hr', matchQueue, if_neg hr']

theorem matchLevels_front_part (hr : 0 < st.remainingQty)
    (ha : ¬ (inc.type = .limit ∧ ¬ acc p = true))
    (hpart : e.remainingQty - min st.remainingQty e.remainingQty ≠ 0) :
    matchLevels inc acc st (⟨p, e :: q⟩ :: levels) =
      (trade inc st e, ⟨p, e.less (min st.remainingQty e.remainingQty) :: q⟩ :: levels) := by
  have hq : matchQueue inc st (e :: q) =
      (trade inc st e, e.less (min st.remainingQty e.remainingQty) :: q) := by
    rw [matchQueue, if_pos hr]
    exact if_neg hpart
  rw [matchLevels, if_pos hr, if_neg ha, hq]

end Loops

namespace MatchSim

open OrderBook

variable {inc : Incoming} {side : Side} {st : MatchState} {p : ℤ} {e : BookEntry}
  {q : List BookEntry} {levels : List (Σ _ : ℤ, List BookEntry)} {n : NaiveBook}
  {o : RestingOrder} {tail : List RestingOrder}

theorem trade_index (h : MatchSim side st (⟨p, e :: q⟩ :: levels) n) (ho : o ∈ n.orders)
    (he : o.toQuote = e.quote) :
    Indexes (trade inc st e).idIndex (takeFrom o.id (min st.remainingQty o.qty) n.orders) := by
  have hid : e.orderId = o.id := by rw [he]; rfl
  have hqty : e.remainingQty = o.qty := by rw [he]; rfl
  have hi := h.index.takeFrom h.unique ho (min_le_right st.remainingQty o.qty)
  rw [trade, hid, hqty]
  exact hi

theorem trade_full (inc : Incoming) (h : MatchSim side st (⟨p, e :: q⟩ :: levels) n)
    (hqueue : queueAt side p n.orders = o :: tail) (he : o.toQuote = e.quote)
    (ht : tail.map RestingOrder.toQuote = q.map BookEntry.quote) (hfull : o.qty ≤ st.remainingQty) :
    MatchSim side (trade inc st e) (pushQueue p q levels)
      (n.fill o.id (min st.remainingQty o.qty)) := by
  obtain ⟨ho, hs, hp⟩ := mem_queueAt.mp (by simp [hqueue] : o ∈ queueAt side p n.orders)
  have hself := queueAt_takeFrom_self h.unique hqueue (min st.remainingQty o.qty)
  rw [RestingOrder.take_eq_none (by omega), Option.toList_none, List.nil_append] at hself
  have hother : ∀ p', p' ≠ p → queueAt side p' (takeFrom o.id (min st.remainingQty o.qty) n.orders) =
      queueAt side p' n.orders :=
    fun p' hp' => queueAt_takeFrom_of_ne h.unique ho (fun hc => hp' (hc.2.symm.trans hp)) _
  refine ⟨?_, h.unique.takeFrom _ _, h.trade_index ho he, congrArg (· + 1) h.next⟩
  unfold pushQueue
  split_ifs with hq
  · subst hq
    have hnil : tail = [] := by simpa using ht
    exact h.arranged.drop_front (hself.trans hnil) hother
  · exact h.arranged.replace_front hq (by rw [← ht]; exact congrArg _ hself) hother

theorem trade_part (inc : Incoming) (h : MatchSim side st (⟨p, e :: q⟩ :: levels) n)
    (hqueue : queueAt side p n.orders = o :: tail) (he : o.toQuote = e.quote)
    (ht : tail.map RestingOrder.toQuote = q.map BookEntry.quote) (hpart : st.remainingQty < o.qty) :
    MatchSim side (trade inc st e)
      (⟨p, e.less (min st.remainingQty e.remainingQty) :: q⟩ :: levels)
      (n.fill o.id (min st.remainingQty o.qty)) := by
  obtain ⟨ho, hs, hp⟩ := mem_queueAt.mp (by simp [hqueue] : o ∈ queueAt side p n.orders)
  have hqty : e.remainingQty = o.qty := by rw [he]; rfl
  have hself := queueAt_takeFrom_self h.unique hqueue (min st.remainingQty o.qty)
  have htake : (o.take (min st.remainingQty o.qty)).toList.map RestingOrder.toQuote =
      [(e.less (min st.remainingQty e.remainingQty)).quote] := by
    obtain ⟨o', ho', hquote⟩ := RestingOrder.take_of_lt (by omega : min st.remainingQty o.qty < o.qty)
    have hless : (e.less (min st.remainingQty e.remainingQty)).quote =
        ⟨e.quote.id, e.quote.side, e.quote.price, e.remainingQty - min st.remainingQty e.remainingQty⟩ :=
      rfl
    rw [ho', hless, hqty, ← he, Option.toList_some, List.map_singleton, hquote]
  have hother : ∀ p', p' ≠ p → queueAt side p' (takeFrom o.id (min st.remainingQty o.qty) n.orders) =
      queueAt side p' n.orders :=
    fun p' hp' => queueAt_takeFrom_of_ne h.unique ho (fun hc => hp' (hc.2.symm.trans hp)) _
  refine ⟨?_, h.unique.takeFrom _ _, h.trade_index ho he, congrArg (· + 1) h.next⟩
  refine h.arranged.replace_front (List.cons_ne_nil _ _) ?_ hother
  change (queueAt side p (takeFrom o.id _ n.orders)).map _ = _
  rw [hself, List.map_append, htake, ht]
  rfl

end MatchSim

def Taker.incoming (t : Taker) (symbol : Symbol) (now : ℤ) : OrderBook.Incoming :=
  ⟨symbol, t.id, t.side, t.type, now⟩

theorem refused_iff {t : Taker} {p : ℤ} :
    (t.type = .limit ∧ ¬ limitAllows t.side t.limit p = true) ↔
      ¬ (t.type = .market ∨ limitAllows t.side t.limit p = true) := by
  cases t.type <;> simp

namespace MatchSim

variable {t : Taker} {st : OrderBook.MatchState} {levels : List (Σ _ : ℤ, List BookEntry)}
  {n : NaiveBook}

theorem matchLevels_eq_self (h : MatchSim t.side.opposite st levels n)
    (hnone : t.counterparty n.orders = none) (symbol : Symbol) (now : ℤ) :
    OrderBook.matchLevels (t.incoming symbol now) (limitAllows t.side t.limit) st levels =
      (st, levels) := by
  match levels, h with
  | [], _ => rfl
  | ⟨p, []⟩ :: levels, h => exact absurd rfl (h.arranged.nonempty _ List.mem_cons_self)
  | ⟨p, e :: q⟩ :: levels, h =>
    have hrefused : t.type = .limit ∧ ¬ limitAllows t.side t.limit p = true := by
      rw [refused_iff]
      intro ha
      obtain ⟨o, _, _, hc, _⟩ := counterparty_front h.arranged ha
      simp [hnone] at hc
    rw [OrderBook.matchLevels]
    split_ifs with hpos ha
    · rfl
    · exact absurd hrefused ha
    · rfl

theorem exists_front {o : RestingOrder} (h : MatchSim t.side.opposite st levels n)
    (hc : t.counterparty n.orders = some o) :
    ∃ p e q levels' tail, levels = ⟨p, e :: q⟩ :: levels' ∧
      ¬ (t.type = .limit ∧ ¬ limitAllows t.side t.limit p = true) ∧
      queueAt t.side.opposite p n.orders = o :: tail ∧ o.toQuote = e.quote ∧
      tail.map RestingOrder.toQuote = q.map BookEntry.quote := by
  match levels, h with
  | [], h => simp [counterparty_nil h.arranged] at hc
  | ⟨p, []⟩ :: levels, h => exact absurd rfl (h.arranged.nonempty _ List.mem_cons_self)
  | ⟨p, e :: q⟩ :: levels', h =>
    have hacc : t.type = .market ∨ limitAllows t.side t.limit p = true := by
      by_contra hr
      have hnone := counterparty_refused h.arranged hr
      simp [hc] at hnone
    obtain ⟨o', tail, hqueue, hc', he, ht⟩ := counterparty_front h.arranged hacc
    obtain rfl : o = o' := Option.some.inj (hc.symm.trans hc')
    exact ⟨p, e, q, levels', tail, rfl, fun hr => refused_iff.mp hr hacc, hqueue, he, ht⟩

end MatchSim

theorem trade_fills (t : Taker) (symbol : Symbol) (now : ℤ) (st : OrderBook.MatchState)
    {o : RestingOrder} {e : BookEntry} (he : o.toQuote = e.quote) :
    (OrderBook.trade (t.incoming symbol now) st e).fills.map Fill.trade =
      st.fills.map Fill.trade ++ [⟨st.nextExecutionId, symbol, t.id, o.id, t.side, o.price,
        min st.remainingQty o.qty⟩] := by
  have hid : e.orderId = o.id := congrArg Quote.id he.symm
  have hprice : e.price = o.price := congrArg Quote.price he.symm
  have hqty : e.remainingQty = o.qty := congrArg Quote.qty he.symm
  rw [OrderBook.trade, List.map_append, List.map_singleton, hid, hprice, hqty]
  rfl

/-- The nested loops do what the sweep of the flat list does. -/
theorem matchLevels_sweep (t : Taker) (symbol : Symbol) (now : ℤ) (st : OrderBook.MatchState)
    (levels : List (Σ _ : ℤ, List BookEntry)) (n : NaiveBook) (hsym : symbol = n.symbol)
    (h : MatchSim t.side.opposite st levels n) :
    ∀ r w, OrderBook.matchLevels (t.incoming symbol now) (limitAllows t.side t.limit) st levels = r →
      n.sweep t st.remainingQty = w →
      r.1.fills.map Fill.trade = st.fills.map Fill.trade ++ w.1 ∧ r.1.remainingQty = w.2.1 ∧
        MatchSim t.side.opposite r.1 r.2 w.2.2 := by
  intro r w hr hw
  subst hr hw
  generalize hrem : st.remainingQty = remaining
  induction remaining, n using NaiveBook.sweep.induct t generalizing st levels with
  | case1 remaining n hpos hnone =>
    rw [NaiveBook.sweep, if_pos hpos, hnone, h.matchLevels_eq_self hnone]
    exact ⟨(List.append_nil _).symm, hrem, h⟩
  | case2 remaining n hpos o hc k ih =>
    obtain ⟨p, e, q, levels', tail, rfl, hrefused, hqueue, he, ht⟩ := h.exists_front hc
    have hqty : e.remainingQty = o.qty := congrArg Quote.qty he.symm
    have hfill := trade_fills t symbol now st he
    have hleft : (OrderBook.trade (t.incoming symbol now) st e).remainingQty = remaining - k := by
      simp only [OrderBook.trade, hqty, hrem, k]
    rw [h.next, hrem] at hfill
    rw [NaiveBook.sweep, if_pos hpos, hc]
    by_cases hfull : o.qty ≤ remaining
    · rw [matchLevels_front_full (by omega) hrefused (by omega)]
      have hsim := h.trade_full (t.incoming symbol now) hqueue he ht (by omega)
      rw [hrem] at hsim
      obtain ⟨hfills, hrest, hend⟩ := ih _ _ hsym hsim hleft
      refine ⟨?_, hrest, hend⟩
      rw [hfills, hfill, List.append_assoc, hsym]
      rfl
    · rw [matchLevels_front_part (by omega) hrefused (by omega)]
      have hsim := h.trade_part (t.incoming symbol now) hqueue he ht (by omega)
      rw [hrem] at hsim
      have hdone : (n.fill o.id k).sweep t (remaining - k) =
          ([], remaining - k, n.fill o.id k) := by
        rw [NaiveBook.sweep, if_neg (by omega)]
      refine ⟨?_, ?_, ?_⟩
      · simpa [hdone, k, ← hsym] using hfill
      · simpa [hdone, k] using hleft
      · simpa [hdone, k, hrem] using hsim
  | case3 remaining n hpos =>
    rw [NaiveBook.sweep, if_neg hpos, matchLevels_of_done (by omega)]
    exact ⟨(List.append_nil _).symm, hrem, h⟩

theorem NaiveBook.sweep_keeps {t : Taker} {P : NaiveBook → Prop}
    (hfill : ∀ n o k, t.counterparty n.orders = some o → P n → P (n.fill o.id k))
    (remaining : ℤ) (n : NaiveBook) (h : P n) : P (n.sweep t remaining).2.2 := by
  induction remaining, n using NaiveBook.sweep.induct t with
  | case1 remaining n hpos hnone =>
    rw [NaiveBook.sweep, if_pos hpos, hnone]
    exact h
  | case2 remaining n hpos o hc k ih =>
    rw [NaiveBook.sweep, if_pos hpos, hc]
    exact ih (hfill n o k hc h)
  | case3 remaining n hpos =>
    rw [NaiveBook.sweep, if_neg hpos]
    exact h

theorem sweep_eq_self {t : Taker} (remaining : ℤ) (n : NaiveBook)
    (h : (n.sweep t remaining).1 = []) : n.sweep t remaining = ([], remaining, n) := by
  rw [NaiveBook.sweep] at h ⊢
  by_cases hpos : 0 < remaining
  · rw [if_pos hpos] at h ⊢
    cases hc : t.counterparty n.orders with
    | none => rfl
    | some o => simp [hc] at h
  · rw [if_neg hpos]

/-- The orders of the first list stand on places that the second one has too. -/
def PlacesOf (orders orders' : List RestingOrder) : Prop :=
  ∀ x ∈ orders, ∃ y ∈ orders', y.side = x.side ∧ y.price = x.price

theorem PlacesOf.trans {orders orders' orders'' : List RestingOrder} (h : PlacesOf orders orders')
    (h' : PlacesOf orders' orders'') : PlacesOf orders orders'' := by
  intro x hx
  obtain ⟨y, hy, hys, hyp⟩ := h x hx
  obtain ⟨z, hz, hzs, hzp⟩ := h' y hy
  exact ⟨z, hz, hzs.trans hys, hzp.trans hyp⟩

theorem placesOf_takeFrom (id : ℕ) (k : ℤ) (orders : List RestingOrder) :
    PlacesOf (takeFrom id k orders) orders := by
  intro x hx
  obtain ⟨y, hy, hxy⟩ := List.mem_filterMap.mp hx
  split_ifs at hxy
  · rw [RestingOrder.take_eq_some hxy]
    exact ⟨y, hy, rfl, rfl⟩
  · cases hxy
    exact ⟨x, hy, rfl, rfl⟩

theorem placesOf_sweep (t : Taker) (remaining : ℤ) (n : NaiveBook) :
    PlacesOf (n.sweep t remaining).2.2.orders n.orders :=
  NaiveBook.sweep_keeps (P := fun n' => PlacesOf n'.orders n.orders)
    (fun _ o k _ h => (placesOf_takeFrom o.id k _).trans h) remaining n
    fun x hx => ⟨x, hx, rfl, rfl⟩

theorem Taker.accepts_of_counterparty {t : Taker} {orders : List RestingOrder} {o : RestingOrder}
    (h : t.counterparty orders = some o) :
    o.side = t.side.opposite ∧ (t.type = .market ∨ limitAllows t.side t.limit o.price = true) := by
  have hp := List.find?_some h
  simp only [decide_eq_true_eq] at hp
  exact accepts_iff.mp hp.1

theorem Taker.counterparty_side {t : Taker} {orders : List RestingOrder} {o : RestingOrder}
    (h : t.counterparty orders = some o) : o.side = t.side.opposite :=
  (accepts_of_counterparty h).1

end Oems
