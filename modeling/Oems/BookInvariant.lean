import Oems.BookRefinement
import Mathlib.Computability.StateTransition

namespace Oems

open Lib

namespace OrderBook

def levelsOf (b : OrderBook) : Side → List (Σ _ : ℤ, List BookEntry)
  | .buy => b.bids.entries
  | .sell => b.asks.entries

def queued (b : OrderBook) : List BookEntry :=
  b.bids.values.flatten ++ b.asks.values.flatten

/-- What the maps of the two sides and the index of the ids agree on. -/
structure Coherent (b : OrderBook) : Prop where
  nonempty : ∀ side, ∀ l ∈ b.levelsOf side, l.2 ≠ []
  entry : ∀ side, ∀ l ∈ b.levelsOf side, ∀ e ∈ l.2,
    0 < e.remainingQty ∧ 0 < e.price ∧ e.price = l.1 ∧ e.side = side
  unique : (b.queued.map BookEntry.orderId).Nodup
  index : ∀ id i, b.idIndex.lookup id = some i ↔
    ∃ e ∈ b.queued, e.orderId = id ∧ i = ⟨e.side, e.price⟩

theorem mem_queued {b : OrderBook} {e : BookEntry} :
    e ∈ b.queued ↔ ∃ side, ∃ l ∈ b.levelsOf side, e ∈ l.2 := by
  simp only [queued, OrdMap.values, List.mem_append, List.mem_flatten, List.mem_map]
  constructor
  · rintro (⟨_, ⟨l, hl, rfl⟩, he⟩ | ⟨_, ⟨l, hl, rfl⟩, he⟩)
    · exact ⟨.buy, l, hl, he⟩
    · exact ⟨.sell, l, hl, he⟩
  · rintro ⟨side, l, hl, he⟩
    cases side with
    | buy => exact Or.inl ⟨_, ⟨l, hl, rfl⟩, he⟩
    | sell => exact Or.inr ⟨_, ⟨l, hl, rfl⟩, he⟩

def findLevel (b : OrderBook) (side : Side) (price : ℤ) : Option (List BookEntry) :=
  match side with
  | .buy => b.bids.find price
  | .sell => b.asks.find price

theorem findLevel_eq_some_iff {b : OrderBook} {side : Side} {p : ℤ} {q : List BookEntry} :
    b.findLevel side p = some q ↔ ⟨p, q⟩ ∈ b.levelsOf side := by
  cases side with
  | buy => exact OrdMap.find_eq_some_iff
  | sell => exact OrdMap.find_eq_some_iff

theorem Coherent.find {b : OrderBook} (h : b.Coherent) {id : ℕ} {i : IndexEntry}
    (hi : b.idIndex.lookup id = some i) :
    ∃ level e, b.findLevel i.side i.price = some level ∧
      level.find? (fun e => e.orderId = id) = some e := by
  obtain ⟨e, he, hid, rfl⟩ := (h.index id i).mp hi
  obtain ⟨side, l, hl, hel⟩ := mem_queued.mp he
  obtain ⟨_, _, hprice, hside⟩ := h.entry side l hl e hel
  have hsome : (l.2.find? fun e => e.orderId = id).isSome = true := by
    rw [List.find?_isSome]
    exact ⟨e, hel, by simpa using hid⟩
  obtain ⟨x, hx⟩ := Option.isSome_iff_exists.mp hsome
  refine ⟨l.2, x, ?_, hx⟩
  rw [hprice, hside]
  exact findLevel_eq_some_iff.mpr hl

def Finds (b : OrderBook) (id : ℕ) : Prop :=
  ∃ i level e, b.idIndex.lookup id = some i ∧ b.findLevel i.side i.price = some level ∧
    level.find? (fun e => e.orderId = id) = some e

theorem cancelIn_ok_iff {side : Side} {m : BookSide side} {price : ℤ} {id : ℕ} :
    (∃ r, cancelIn m price id = .ok r) ↔
      ∃ level e, m.find price = some level ∧ level.find? (fun e => e.orderId = id) = some e := by
  rw [cancelIn]
  cases hl : m.find price with
  | none => simp
  | some level =>
    cases he : level.find? fun e => e.orderId = id with
    | none => simp [he]
    | some e => simp [he]

theorem cancelOrder_ok_iff (b : OrderBook) (id : ℕ) :
    (∃ e, (b.cancelOrder id).1 = .ok e) ↔ b.Finds id := by
  rw [cancelOrder, Finds]
  cases hi : b.idIndex.lookup id with
  | none => simp
  | some i =>
    have hfinds : (∃ i' level e, some i = some i' ∧ b.findLevel i'.side i'.price = some level ∧
        level.find? (fun e => e.orderId = id) = some e) ↔
        ∃ level e, b.findLevel i.side i.price = some level ∧
          level.find? (fun e => e.orderId = id) = some e := by simp
    rw [hfinds]
    obtain ⟨side, price⟩ := i
    cases side with
    | buy =>
      refine Iff.trans ?_ (cancelIn_ok_iff (m := b.bids))
      cases hcancel : cancelIn b.bids price id <;> simp [hcancel]
    | sell =>
      refine Iff.trans ?_ (cancelIn_ok_iff (m := b.asks))
      cases hcancel : cancelIn b.asks price id <;> simp [hcancel]

theorem Coherent.cancelOrder_iff {b : OrderBook} (h : b.Coherent) (id : ℕ) :
    (∃ e, (b.cancelOrder id).1 = .ok e) ↔ ∃ e ∈ b.queued, e.orderId = id := by
  rw [cancelOrder_ok_iff]
  constructor
  · rintro ⟨i, level, e, hi, -, -⟩
    obtain ⟨x, hx, hid, -⟩ := (h.index id i).mp hi
    exact ⟨x, hx, hid⟩
  · rintro ⟨e, he, hid⟩
    have hi := (h.index id ⟨e.side, e.price⟩).mpr ⟨e, he, hid, rfl⟩
    obtain ⟨level, x, hl, hx⟩ := h.find hi
    exact ⟨_, level, x, hi, hl, hx⟩

end OrderBook

section Loops

/-- The heads of the two loops of `MatchAgainst`. -/
inductive LoopHead where
  | outer
  | inner
  deriving DecidableEq

structure LoopState where
  head : LoopHead
  st : OrderBook.MatchState
  levels : List (Σ _ : ℤ, List BookEntry)

open OrderBook

/-- From one loop head to the next; `none` where the outer loop is left. -/
def loopStep (inc : Incoming) (priceAcceptable : ℤ → Bool) : LoopState → Option LoopState
  | ⟨.outer, _, []⟩ => none
  | ⟨.outer, st, ⟨bestPrice, queue⟩ :: levels⟩ =>
    if st.remainingQty > 0 then
      if inc.type = .limit ∧ ¬ priceAcceptable bestPrice then none
      else some ⟨.inner, st, ⟨bestPrice, queue⟩ :: levels⟩
    else none
  | ⟨.inner, _, []⟩ => none
  -- an empty queue leaves the inner loop, and its level is erased
  | ⟨.inner, st, ⟨_, []⟩ :: levels⟩ => some ⟨.outer, st, levels⟩
  | ⟨.inner, st, ⟨bestPrice, passive :: queue⟩ :: levels⟩ =>
    if st.remainingQty > 0 then
      let left := passive.remainingQty - min st.remainingQty passive.remainingQty
      if left = 0 then some ⟨.inner, trade inc st passive, ⟨bestPrice, queue⟩ :: levels⟩
      else some ⟨.inner, trade inc st passive,
        ⟨bestPrice, { passive with remainingQty := left } :: queue⟩ :: levels⟩
    else some ⟨.outer, st, ⟨bestPrice, passive :: queue⟩ :: levels⟩

variable {inc : Incoming} {acc : ℤ → Bool}

open StateTransition

theorem loopStep_of_done {st : MatchState} (h : ¬ 0 < st.remainingQty)
    (levels : List (Σ _ : ℤ, List BookEntry)) : loopStep inc acc ⟨.outer, st, levels⟩ = none := by
  cases levels with
  | nil => rfl
  | cons l levels => exact if_neg h

theorem trade_done {st : MatchState} {passive : BookEntry}
    (h : passive.remainingQty - min st.remainingQty passive.remainingQty ≠ 0) :
    ¬ 0 < (trade inc st passive).remainingQty := by
  simp only [trade]
  omega

theorem matchQueue_done {st : MatchState} {queue : List BookEntry}
    (h : (matchQueue inc st queue).2 ≠ []) : ¬ 0 < (matchQueue inc st queue).1.remainingQty := by
  fun_induction matchQueue inc st queue with
  | case1 st => exact absurd rfl h
  | case2 st passive queue hr left hleft ih => exact ih h
  | case3 st passive queue hr left hleft => exact trade_done hleft
  | case4 st passive queue hr => exact hr

theorem loopStep_trade {st : MatchState} (hr : 0 < st.remainingQty) (p : ℤ) (passive : BookEntry)
    (queue : List BookEntry) (levels : List (Σ _ : ℤ, List BookEntry)) :
    loopStep inc acc ⟨.inner, st, ⟨p, passive :: queue⟩ :: levels⟩ =
      if passive.remainingQty - min st.remainingQty passive.remainingQty = 0 then
        some ⟨.inner, trade inc st passive, ⟨p, queue⟩ :: levels⟩
      else some ⟨.inner, trade inc st passive,
        ⟨p, passive.less (min st.remainingQty passive.remainingQty) :: queue⟩ :: levels⟩ :=
  if_pos hr

theorem reaches_inner (st : MatchState) (p : ℤ) (queue : List BookEntry)
    (levels : List (Σ _ : ℤ, List BookEntry)) :
    Reaches (loopStep inc acc) ⟨.inner, st, ⟨p, queue⟩ :: levels⟩
      ⟨.outer, (matchQueue inc st queue).1, pushQueue p (matchQueue inc st queue).2 levels⟩ := by
  fun_induction matchQueue inc st queue with
  | case1 st => exact Relation.ReflTransGen.single rfl
  | case2 st passive queue hr left hleft ih =>
    refine Relation.ReflTransGen.head ?_ ih
    exact (loopStep_trade hr p passive queue levels).trans (if_pos hleft)
  | case3 st passive queue hr left hleft =>
    have hout : Reaches (loopStep inc acc)
        ⟨.inner, trade inc st passive,
          ⟨p, passive.less (min st.remainingQty passive.remainingQty) :: queue⟩ :: levels⟩
        ⟨.outer, trade inc st passive,
          ⟨p, passive.less (min st.remainingQty passive.remainingQty) :: queue⟩ :: levels⟩ :=
      Relation.ReflTransGen.single (if_neg (trade_done hleft))
    refine Relation.ReflTransGen.head ?_ hout
    exact (loopStep_trade hr p passive queue levels).trans (if_neg hleft)
  | case4 st passive queue hr => exact Relation.ReflTransGen.single (if_neg hr)

theorem eval_outer (st : MatchState) (levels : List (Σ _ : ℤ, List BookEntry)) :
    ⟨.outer, (matchLevels inc acc st levels).1, (matchLevels inc acc st levels).2⟩ ∈
      eval (loopStep inc acc) ⟨.outer, st, levels⟩ := by
  induction levels generalizing st with
  | nil => exact mem_eval.mpr ⟨Relation.ReflTransGen.refl, rfl⟩
  | cons l levels ih =>
    obtain ⟨p, queue⟩ := l
    rw [matchLevels]
    split_ifs with hr ha
    · refine mem_eval.mpr ⟨Relation.ReflTransGen.refl, ?_⟩
      change (if st.remainingQty > 0 then _ else _) = _
      rw [if_pos hr]
      exact if_pos ha
    · have hinto : loopStep inc acc ⟨.outer, st, ⟨p, queue⟩ :: levels⟩ =
          some ⟨.inner, st, ⟨p, queue⟩ :: levels⟩ := by
        change (if st.remainingQty > 0 then _ else _) = _
        rw [if_pos hr]
        exact if_neg ha
      have hinner : Reaches (loopStep inc acc) ⟨.outer, st, ⟨p, queue⟩ :: levels⟩
          ⟨.outer, (matchQueue inc st queue).1, pushQueue p (matchQueue inc st queue).2 levels⟩ :=
        Relation.ReflTransGen.head hinto (reaches_inner st p queue levels)
      have hdone : (matchQueue inc st queue).2 ≠ [] →
          ¬ 0 < (matchQueue inc st queue).1.remainingQty := matchQueue_done
      rw [reaches_eval hinner]
      generalize matchQueue inc st queue = r at hdone
      obtain ⟨st', queue'⟩ := r
      cases queue' with
      | nil => exact ih st'
      | cons e queue' =>
        exact mem_eval.mpr ⟨Relation.ReflTransGen.refl, loopStep_of_done (hdone (by simp)) _⟩
    · exact mem_eval.mpr ⟨Relation.ReflTransGen.refl, loopStep_of_done hr _⟩

/-- For every incoming order the loops of `MatchAgainst` end, with the book it returns. -/
theorem matchAgainst_terminates (b : OrderBook) (id : ℕ) (side : Side) (type : OrderType)
    (limit qty now : ℤ) :
    ∃ st levels, ⟨.outer, st, levels⟩ ∈
        eval (loopStep ⟨b.symbol, id, side, type, now⟩ (limitAllows side limit))
          ⟨.outer, ⟨[], qty, b.idIndex, b.nextExecutionId⟩, b.levelsOf side.opposite⟩ ∧
      (b.matchAgainst id side type limit qty now).1 = st.fills ∧
      (b.matchAgainst id side type limit qty now).2.1 = st.remainingQty ∧
      (b.matchAgainst id side type limit qty now).2.2.levelsOf side.opposite = levels := by
  refine ⟨_, _, eval_outer _ _, ?_⟩
  cases side with
  | buy => exact ⟨rfl, rfl, rfl⟩
  | sell => exact ⟨rfl, rfl, rfl⟩

end Loops

theorem Arranged.exists_queueAt {side : Side} {levels : List (Σ _ : ℤ, List BookEntry)}
    {orders : List RestingOrder} (h : Arranged side levels orders) {l : Σ _ : ℤ, List BookEntry}
    (hl : l ∈ levels) {e : BookEntry} (he : e ∈ l.2) :
    ∃ o ∈ queueAt side l.1 orders, o.toQuote = e.quote := by
  have hq := h.queue l.1
  rw [(List.mem_dlookup_iff h.nodup_keys).mpr hl, Option.getD_some] at hq
  have hm : e.quote ∈ l.2.map BookEntry.quote := List.mem_map_of_mem he
  rw [hq] at hm
  exact List.mem_map.mp hm

theorem Refines.arranged {b : OrderBook} {n : NaiveBook} (h : Refines b n) (side : Side) :
    Arranged side (b.levelsOf side) n.orders := by
  cases side with
  | buy => exact h.bids
  | sell => exact h.asks

theorem Refines.mem_queued {b : OrderBook} {n : NaiveBook} (h : Refines b n) {q : Quote} :
    (∃ e ∈ b.queued, e.quote = q) ↔ ∃ o ∈ n.orders, o.toQuote = q := by
  have hp := h.quotes_perm.mem_iff (a := q)
  rwa [OrderBook.quotes, List.mem_map, List.mem_map] at hp

theorem Refines.coherent {b : OrderBook} {n : NaiveBook} (h : Refines b n) : b.Coherent where
  nonempty := fun side => (h.arranged side).nonempty
  entry := by
    intro side l hl e he
    obtain ⟨o, ho, hquote⟩ := (h.arranged side).exists_queueAt hl he
    obtain ⟨hmem, hside, hprice⟩ := mem_queueAt.mp ho
    have hpos := h.price_pos o hmem
    have hqty : o.qty = e.remainingQty := congrArg Quote.qty hquote
    have hep : o.price = e.price := congrArg Quote.price hquote
    have hes : o.side = e.side := congrArg Quote.side hquote
    exact ⟨hqty ▸ o.qty_pos, hep ▸ hpos, hep.symm.trans hprice, hes.symm.trans hside⟩
  unique := by
    have hp := h.quotes_perm.map Quote.id
    rw [OrderBook.quotes, List.map_map, List.map_map] at hp
    exact hp.nodup_iff.mpr h.unique
  index := by
    intro id i
    rw [h.index id, Option.map_eq_some_iff]
    constructor
    · rintro ⟨o, ho, rfl⟩
      obtain ⟨hmem, hid⟩ := Keyed.mem_of_find ho
      obtain ⟨e, he, hquote⟩ := h.mem_queued.mpr ⟨o, hmem, rfl⟩
      have hei : e.orderId = o.id := congrArg Quote.id hquote
      have hes : e.side = o.side := congrArg Quote.side hquote
      have hep : e.price = o.price := congrArg Quote.price hquote
      exact ⟨e, he, hei.trans hid, by rw [hes, hep]⟩
    · rintro ⟨e, he, hid, rfl⟩
      obtain ⟨o, ho, hquote⟩ := h.mem_queued.mp ⟨e, he, rfl⟩
      have hoi : o.id = id := (congrArg Quote.id hquote).trans hid
      have hos : o.side = e.side := congrArg Quote.side hquote
      have hop : o.price = e.price := congrArg Quote.price hquote
      refine ⟨o, ?_, by rw [hos, hop]⟩
      rw [← hoi]
      exact Keyed.find_of_mem h.unique ho

/-- The book after a sequence of calls on an empty one. -/
abbrev bookAfter (symbol : Symbol) (ops : List BookOp) : OrderBook :=
  (Machine.run OrderBook.step (OrderBook.new symbol) ops).2

/-- After every sequence of calls a book is coherent. So `CancelOrder` finds the level
and the entry of every indexed id and succeeds exactly on the queued ids, and the loops
of `MatchAgainst` end for every incoming order. -/
theorem bookAfter_coherent (symbol : Symbol) (ops : List BookOp) :
    (bookAfter symbol ops).Coherent ∧
      (∀ id i, (bookAfter symbol ops).idIndex.lookup id = some i → ∃ level e,
        (bookAfter symbol ops).findLevel i.side i.price = some level ∧
          level.find? (fun e => e.orderId = id) = some e) ∧
      (∀ id, (∃ e, ((bookAfter symbol ops).cancelOrder id).1 = .ok e) ↔
        ∃ e ∈ (bookAfter symbol ops).queued, e.orderId = id) ∧
      ∀ id side type limit qty now, ∃ st levels, ⟨.outer, st, levels⟩ ∈
          StateTransition.eval
            (loopStep ⟨(bookAfter symbol ops).symbol, id, side, type, now⟩ (limitAllows side limit))
            ⟨.outer, ⟨[], qty, (bookAfter symbol ops).idIndex,
              (bookAfter symbol ops).nextExecutionId⟩,
              (bookAfter symbol ops).levelsOf side.opposite⟩ ∧
        ((bookAfter symbol ops).matchAgainst id side type limit qty now).1 = st.fills ∧
        ((bookAfter symbol ops).matchAgainst id side type limit qty now).2.1 = st.remainingQty ∧
        ((bookAfter symbol ops).matchAgainst id side type limit qty now).2.2.levelsOf
          side.opposite = levels := by
  have h : (bookAfter symbol ops).Coherent := ((Refines.new symbol).run ops).2.coherent
  exact ⟨h, fun _ _ hi => h.find hi, h.cancelOrder_iff, matchAgainst_terminates _⟩

end Oems
