import Oems.AddedOrder

namespace Oems

open Lib

section Loops

open OrderBook

variable {inc inc' : Incoming} {acc acc' : ℤ → Bool}

theorem matchQueue_congr (htrade : trade inc = trade inc') (st : MatchState)
    (queue : List BookEntry) : matchQueue inc st queue = matchQueue inc' st queue := by
  induction queue generalizing st with
  | nil => rfl
  | cons passive queue ih => simp only [matchQueue, htrade, ih]

theorem fills_matchQueue (st : MatchState) (queue : List BookEntry) :
    st.fills <+: (matchQueue inc st queue).1.fills := by
  fun_induction matchQueue inc st queue with
  | case1 st => exact List.prefix_refl _
  | case2 st passive queue hr left hleft ih => exact (List.prefix_append _ _).trans ih
  | case3 st passive queue hr left hleft => exact List.prefix_append _ _
  | case4 st passive queue hr => exact List.prefix_refl _

theorem fills_matchLevels (st : MatchState) (levels : List (Σ _ : ℤ, List BookEntry)) :
    st.fills <+: (matchLevels inc acc st levels).1.fills := by
  have hqueue : ∀ st queue r, matchQueue inc st queue = r → st.fills <+: r.1.fills := by
    rintro st queue r rfl
    exact fills_matchQueue st queue
  fun_induction matchLevels inc acc st levels with
  | case1 st => exact List.prefix_refl _
  | case2 st p queue levels hr ha => exact List.prefix_refl _
  | case3 st p queue levels hr ha st' hq ih => exact (hqueue st queue _ hq).trans ih
  | case4 st p queue levels hr ha st' queue' hne hq => exact hqueue st queue _ hq
  | case5 st p queue levels hr => exact List.prefix_refl _

theorem quantity_trade (st : MatchState) (passive : BookEntry) :
    ((trade inc st passive).fills.map Fill.quantity).sum + (trade inc st passive).remainingQty =
      (st.fills.map Fill.quantity).sum + st.remainingQty := by
  simp only [trade, List.map_append, List.map_singleton, List.sum_append, List.sum_singleton]
  omega

theorem quantity_matchQueue (st : MatchState) (queue : List BookEntry) :
    ((matchQueue inc st queue).1.fills.map Fill.quantity).sum +
        (matchQueue inc st queue).1.remainingQty =
      (st.fills.map Fill.quantity).sum + st.remainingQty := by
  fun_induction matchQueue inc st queue with
  | case1 st => rfl
  | case2 st passive queue hr left hleft ih => exact ih.trans (quantity_trade st passive)
  | case3 st passive queue hr left hleft => exact quantity_trade st passive
  | case4 st passive queue hr => rfl

theorem quantity_matchLevels (st : MatchState) (levels : List (Σ _ : ℤ, List BookEntry)) :
    ((matchLevels inc acc st levels).1.fills.map Fill.quantity).sum +
        (matchLevels inc acc st levels).1.remainingQty =
      (st.fills.map Fill.quantity).sum + st.remainingQty := by
  have hqueue : ∀ st queue r, matchQueue inc st queue = r →
      (r.1.fills.map Fill.quantity).sum + r.1.remainingQty =
        (st.fills.map Fill.quantity).sum + st.remainingQty := by
    rintro st queue r rfl
    exact quantity_matchQueue st queue
  fun_induction matchLevels inc acc st levels with
  | case1 st => rfl
  | case2 st p queue levels hr ha => rfl
  | case3 st p queue levels hr ha st' hq ih => exact ih.trans (hqueue st queue _ hq)
  | case4 st p queue levels hr ha st' queue' hne hq => exact hqueue st queue _ hq
  | case5 st p queue levels hr => rfl

/-- Loops that refuse no more than others do all that the others do, and go on from
there. -/
theorem matchLevels_extends (htrade : trade inc = trade inc')
    (hacc : ∀ p, inc'.type = .limit ∧ ¬ acc' p = true → inc.type = .limit ∧ ¬ acc p = true)
    (st : MatchState) (levels : List (Σ _ : ℤ, List BookEntry)) :
    (matchLevels inc acc st levels).1.fills <+: (matchLevels inc' acc' st levels).1.fills := by
  induction levels generalizing st with
  | nil => exact List.prefix_refl _
  | cons l levels ih =>
    obtain ⟨p, queue⟩ := l
    by_cases hr : 0 < st.remainingQty
    · by_cases ha : inc.type = .limit ∧ ¬ acc p = true
      · rw [matchLevels, if_pos hr, if_pos ha]
        exact fills_matchLevels st _
      · rw [matchLevels, matchLevels, if_pos hr, if_pos hr, if_neg ha, if_neg (mt (hacc p) ha),
          matchQueue_congr htrade]
        generalize matchQueue inc' st queue = r
        obtain ⟨st', queue'⟩ := r
        cases queue' with
        | nil => exact ih st'
        | cons e queue' => exact List.prefix_refl _
    · rw [matchLevels_of_done hr, matchLevels_of_done hr]

theorem matchLevels_same (htrade : trade inc = trade inc')
    (hacc : ∀ p, inc'.type = .limit ∧ ¬ acc' p = true → inc.type = .limit ∧ ¬ acc p = true)
    (st : MatchState) (levels : List (Σ _ : ℤ, List BookEntry))
    (h : (∀ l ∈ levels, ¬ (inc.type = .limit ∧ ¬ acc l.1 = true)) ∨
      ¬ 0 < (matchLevels inc acc st levels).1.remainingQty) :
    matchLevels inc acc st levels = matchLevels inc' acc' st levels := by
  induction levels generalizing st with
  | nil => rfl
  | cons l levels ih =>
    obtain ⟨p, queue⟩ := l
    by_cases hr : 0 < st.remainingQty
    · by_cases ha : inc.type = .limit ∧ ¬ acc p = true
      · rw [matchLevels, if_pos hr, if_pos ha] at h
        obtain h | h := h
        · exact absurd ha (h _ List.mem_cons_self)
        · exact absurd hr h
      · rw [matchLevels, if_pos hr, if_neg ha, matchQueue_congr htrade] at h ⊢
        rw [matchLevels, if_pos hr, if_neg (mt (hacc p) ha)]
        generalize matchQueue inc' st queue = r at h
        obtain ⟨st', queue'⟩ := r
        cases queue' with
        | nil => exact ih st' (h.imp_left fun hall l hl => hall l (List.mem_cons_of_mem _ hl))
        | cons e queue' => rfl
    · rw [matchLevels_of_done hr, matchLevels_of_done hr]

end Loops

section Book

/-- The condition under which the loops break off at a price. -/
def breaksAt (side : Side) (type : OrderType) (limit p : ℤ) : Prop :=
  type = .limit ∧ ¬ limitAllows side limit p = true

variable {b : OrderBook} {n : NaiveBook} {id : ℕ} {side : Side} {type type' : OrderType}
  {limit limit' qty : ℤ}

theorem OrderBook.quantity_loops (b : OrderBook) (id : ℕ) (side : Side) (type : OrderType)
    (limit qty now : ℤ) : ((b.loops id side type limit qty now).1.fills.map Fill.quantity).sum +
      (b.loops id side type limit qty now).1.remainingQty = qty :=
  (quantity_matchLevels _ _).trans (zero_add qty)

theorem Refines.fills_untimed (h : Refines b n) (t : Taker) (qty now now' : ℤ) :
    (b.matchAgainst t.id t.side t.type t.limit qty now).1.map Fill.trade =
      (b.matchAgainst t.id t.side t.type t.limit qty now').1.map Fill.trade :=
  (h.matchAgainst t qty now _ _ rfl rfl).1.trans (h.matchAgainst t qty now' _ _ rfl rfl).1.symm

theorem Refines.fills_extend (h : Refines b n)
    (hbreaks : ∀ p, breaksAt side type' limit' p → breaksAt side type limit p) (now now' : ℤ) :
    (b.matchAgainst id side type limit qty now).1.map Fill.trade <+:
      (b.matchAgainst id side type' limit' qty now').1.map Fill.trade := by
  have hclock := h.fills_untimed ⟨id, side, type', limit'⟩ qty now' now
  rw [hclock, b.matchAgainst_fills, b.matchAgainst_fills]
  apply List.IsPrefix.map
  apply matchLevels_extends
  · rfl
  · exact hbreaks

theorem Refines.fills_same (h : Refines b n)
    (hbreaks : ∀ p, breaksAt side type' limit' p → breaksAt side type limit p) (now now' : ℤ)
    (hend : (∀ l ∈ b.levelsOf side.opposite, ¬ breaksAt side type limit l.1) ∨
      ((b.matchAgainst id side type limit qty now).1.map Fill.quantity).sum = qty) :
    (b.matchAgainst id side type limit qty now).1.map Fill.trade =
      (b.matchAgainst id side type' limit' qty now').1.map Fill.trade := by
  have hclock := h.fills_untimed ⟨id, side, type', limit'⟩ qty now' now
  rw [hclock]
  rw [b.matchAgainst_fills] at hend ⊢
  rw [b.matchAgainst_fills]
  have hdone : (∀ l ∈ b.levelsOf side.opposite, ¬ breaksAt side type limit l.1) ∨
      ¬ 0 < (b.loops id side type limit qty now).1.remainingQty := by
    refine hend.imp_right fun hsum => ?_
    have hleft := b.quantity_loops id side type limit qty now
    omega
  have hsame : b.loops id side type limit qty now = b.loops id side type' limit' qty now := by
    apply matchLevels_same
    · rfl
    · exact hbreaks
    · exact hdone
  rw [hsame]

end Book

/-- The second price is at least as aggressive as the first one. -/
def asAggressive (side : Side) (p p' : ℤ) : Prop :=
  match side with
  | .buy => p ≤ p'
  | .sell => p' ≤ p

theorem limitAllows_of_asAggressive {side : Side} {p p' x : ℤ} (h : asAggressive side p p')
    (ha : limitAllows side p x = true) : limitAllows side p' x = true := by
  cases side with
  | buy =>
    simp only [limitAllows, decide_eq_true_eq] at ha ⊢
    exact le_trans ha h
  | sell =>
    simp only [limitAllows, decide_eq_true_eq] at ha ⊢
    exact le_trans h ha

/-- A more aggressive limit extends the trade and a market order extends it further,
each beginning with the same fills. It stays the same once the limit allows every
opposite level or the quantity is used up. -/
theorem limit_extends_trade (symbol : Symbol) (ops : List BookOp) (id : ℕ) (side : Side)
    (qty price price' marketPrice now now' now'' : ℤ)
    (hid : id ∉ (bookAfter symbol ops).idIndex) (hq : 0 < qty) (hp : 0 < price)
    (hp' : 0 < price') (h : asAggressive side price price') :
    ∃ r r' r'' : AddOrderResult,
      ((bookAfter symbol ops).addOrder id side .limit price qty now).1 = .ok r ∧
      ((bookAfter symbol ops).addOrder id side .limit price' qty now').1 = .ok r' ∧
      ((bookAfter symbol ops).addOrder id side .market marketPrice qty now'').1 = .ok r'' ∧
      r.fills.map Fill.trade <+: r'.fills.map Fill.trade ∧
      r'.fills.map Fill.trade <+: r''.fills.map Fill.trade ∧
      ((∀ l ∈ (bookAfter symbol ops).levelsOf side.opposite, limitAllows side price l.1 = true) ∨
          (r.fills.map Fill.quantity).sum = qty →
        r.fills.map Fill.trade = r''.fills.map Fill.trade) ∧
      ((∀ l ∈ (bookAfter symbol ops).levelsOf side.opposite, limitAllows side price' l.1 = true) ∨
          (r'.fills.map Fill.quantity).sum = qty →
        r'.fills.map Fill.trade = r''.fills.map Fill.trade) := by
  have hb := ((Refines.new symbol).run ops).2
  obtain ⟨r, _, hr, hadded⟩ := OrderBook.addOrder_added hid hq (fun _ => hp) side now
  obtain ⟨r', _, hr', hadded'⟩ := OrderBook.addOrder_added hid hq (fun _ => hp') side now'
  have hany : OrderType.market = .limit → 0 < marketPrice := fun ht => absurd ht (by simp)
  obtain ⟨r'', _, hr'', hadded''⟩ := OrderBook.addOrder_added hid hq hany side now''
  have hwider : ∀ p, breaksAt side .limit price' p → breaksAt side .limit price p :=
    fun p hp => ⟨rfl, mt (limitAllows_of_asAggressive h) hp.2⟩
  have hmarket : ∀ limit p, breaksAt side .market marketPrice p → breaksAt side .limit limit p :=
    fun _ _ hp => absurd hp.1 (by simp)
  have hnever : ∀ limit, (∀ l ∈ (bookAfter symbol ops).levelsOf side.opposite,
      limitAllows side limit l.1 = true) →
      ∀ l ∈ (bookAfter symbol ops).levelsOf side.opposite, ¬ breaksAt side .limit limit l.1 :=
    fun _ hall l hl hbreak => hbreak.2 (hall l hl)
  refine ⟨r, r', r'', congrArg Prod.fst hr, congrArg Prod.fst hr', congrArg Prod.fst hr'', ?_⟩
  rw [hadded.fills, hadded'.fills, hadded''.fills]
  simp only [← OrderBook.matchAgainst_fills]
  refine ⟨hb.fills_extend hwider now now', hb.fills_extend (hmarket price') now' now'',
    fun hend => ?_, fun hend => ?_⟩
  · exact hb.fills_same (hmarket price) now now'' (hend.imp_left (hnever price))
  · exact hb.fills_same (hmarket price') now' now'' (hend.imp_left (hnever price'))

def twoOffers : List BookOp := [.add 1 .sell .limit 100 5 0, .add 2 .sell .limit 101 5 1]

theorem twoOffers_extended : ∃ r r' : AddOrderResult,
    ((bookAfter ⟨str "AAPL"⟩ twoOffers).addOrder 3 .buy .limit 100 8 2).1 = .ok r ∧
      ((bookAfter ⟨str "AAPL"⟩ twoOffers).addOrder 3 .buy .limit 101 8 2).1 = .ok r' ∧
      r.fills.map Fill.trade <+: r'.fills.map Fill.trade := by
  obtain ⟨r, r', _, hr, hr', _, h, _⟩ := limit_extends_trade ⟨str "AAPL"⟩ twoOffers 3 .buy 8 100 101
    0 2 2 2 (by decide) (by decide) (by decide) (by decide) (by decide : (100 : ℤ) ≤ 101)
  exact ⟨r, r', hr, hr', h⟩

end Oems
