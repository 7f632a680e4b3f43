import Oems.BookInvariant

namespace Oems

open Lib

namespace OrderBook

/-- The loops of `MatchAgainst` for an incoming order: their final state and the
opposite levels they leave. -/
def loops (b : OrderBook) (id : ℕ) (side : Side) (type : OrderType) (price qty now : ℤ) :
    MatchState × List (Σ _ : ℤ, List BookEntry) :=
  matchLevels ⟨b.symbol, id, side, type, now⟩ (limitAllows side price)
    ⟨[], qty, b.idIndex, b.nextExecutionId⟩ (b.levelsOf side.opposite)

def IndexFrom (idIndex idIndex' : IdIndex) : Prop := ∀ x ∈ idIndex', x ∈ idIndex

theorem trade_indexFrom (inc : Incoming) (st : MatchState) (passive : BookEntry) :
    IndexFrom st.idIndex (trade inc st passive).idIndex := by
  intro x hx
  rw [trade] at hx
  dsimp only at hx
  split_ifs at hx
  · exact (Finmap.mem_erase.mp hx).2
  · exact hx

theorem matchQueue_indexFrom (inc : Incoming) (st : MatchState) (queue : List BookEntry) :
    IndexFrom st.idIndex (matchQueue inc st queue).1.idIndex := by
  fun_induction matchQueue inc st queue with
  | case1 st => exact fun x hx => hx
  | case2 st passive queue _ _ _ ih => exact fun x hx => trade_indexFrom inc st passive x (ih x hx)
  | case3 st passive queue => exact trade_indexFrom inc st passive
  | case4 st passive queue => exact fun x hx => hx

theorem matchLevels_indexFrom (inc : Incoming) (priceAcceptable : ℤ → Bool) (st : MatchState)
    (levels : List (Σ _ : ℤ, List BookEntry)) :
    IndexFrom st.idIndex (matchLevels inc priceAcceptable st levels).1.idIndex := by
  fun_induction matchLevels inc priceAcceptable st levels with
  | case1 st => exact fun x hx => hx
  | case2 st => exact fun x hx => hx
  | case3 st bestPrice queue levels _ _ st' hq ih =>
    intro x hx
    have hqueue := matchQueue_indexFrom inc st queue
    rw [hq] at hqueue
    exact hqueue x (ih x hx)
  | case4 st bestPrice queue levels _ _ st' queue' _ hq =>
    have hqueue := matchQueue_indexFrom inc st queue
    rw [hq] at hqueue
    exact hqueue
  | case5 st => exact fun x hx => hx

section Parts

variable (b : OrderBook) (id : ℕ) (side : Side) (type : OrderType) (price qty now : ℤ)

theorem matchAgainst_fills : (b.matchAgainst id side type price qty now).1 =
    (b.loops id side type price qty now).1.fills := by
  cases side <;> rfl

theorem matchAgainst_left : (b.matchAgainst id side type price qty now).2.1 =
    (b.loops id side type price qty now).1.remainingQty := by
  cases side <;> rfl

theorem matchAgainst_opposite :
    (b.matchAgainst id side type price qty now).2.2.levelsOf side.opposite =
      (b.loops id side type price qty now).2 := by
  cases side <;> rfl

theorem matchAgainst_own (p : ℤ) :
    (b.matchAgainst id side type price qty now).2.2.queue side p = b.queue side p := by
  cases side <;> rfl

theorem matchAgainst_symbol : (b.matchAgainst id side type price qty now).2.2.symbol = b.symbol := by
  cases side <;> rfl

theorem matchAgainst_indexFrom :
    IndexFrom b.idIndex (b.matchAgainst id side type price qty now).2.2.idIndex := by
  cases side with
  | buy => exact matchLevels_indexFrom _ _ _ _
  | sell => exact matchLevels_indexFrom _ _ _ _

theorem find_pushBack {side : Side} (m : BookSide side) (price : ℤ) (e : BookEntry) (p : ℤ) :
    ((pushBack m price e).find p).getD [] =
      (m.find p).getD [] ++ if p = price then [e] else [] := by
  by_cases hp : p = price
  · subst hp
    rw [pushBack, OrdMap.find_insert, Option.getD_some, if_pos rfl]
  · rw [pushBack, OrdMap.find_insert_of_ne _ _ hp, if_neg hp, List.append_nil]

theorem rest_opposite :
    (b.rest id side price qty now).2.levelsOf side.opposite = b.levelsOf side.opposite := by
  cases side <;> rfl

theorem rest_own (p : ℤ) : (b.rest id side price qty now).2.queue side p =
    b.queue side p ++ if p = price then [⟨id, side, price, qty, now⟩] else [] := by
  cases side with
  | buy => exact find_pushBack b.bids price _ p
  | sell => exact find_pushBack b.asks price _ p

theorem rest_symbol : (b.rest id side price qty now).2.symbol = b.symbol := by
  cases side <;> rfl

theorem mem_rest {x : ℕ} :
    x ∈ (b.rest id side price qty now).2.idIndex ↔ x = id ∨ x ∈ b.idIndex := by
  have hindex : (b.rest id side price qty now).2.idIndex =
      if id ∈ b.idIndex then b.idIndex else b.idIndex.insert id ⟨side, price⟩ := by
    cases side <;> rfl
  rw [hindex]
  split_ifs with hid
  · refine ⟨Or.inr, fun h => ?_⟩
    obtain rfl | hx := h
    · exact hid
    · exact hx
  · exact Finmap.mem_insert

end Parts

/-- What `AddOrder` makes of an order that it takes. -/
structure Added (b : OrderBook) (id : ℕ) (side : Side) (type : OrderType) (price qty now : ℤ)
    (r : AddOrderResult) (b' : OrderBook) : Prop where
  fills : r.fills = (b.loops id side type price qty now).1.fills
  resting : r.resting = if 0 < (b.loops id side type price qty now).1.remainingQty ∧ type = .limit
    then some ⟨id, side, price, (b.loops id side type price qty now).1.remainingQty, now⟩ else none
  opposite : b'.levelsOf side.opposite = (b.loops id side type price qty now).2
  own : ∀ p, b'.queue side p = b.queue side p ++ if p = price then r.resting.toList else []
  symbol : b'.symbol = b.symbol
  index : ∀ x ∈ b'.idIndex, x = id ∨ x ∈ b.idIndex

theorem addOrder_added {b : OrderBook} {id : ℕ} {type : OrderType} {price qty : ℤ}
    (hid : id ∉ b.idIndex) (hq : 0 < qty) (hp : type = .limit → 0 < price) (side : Side) (now : ℤ) :
    ∃ r b', b.addOrder id side type price qty now = (.ok r, b') ∧
      Added b id side type price qty now r b' := by
  have hprice : ¬ (type = .limit ∧ price ≤ 0) := fun h => not_le.mpr (hp h.1) h.2
  have hfills := b.matchAgainst_fills id side type price qty now
  have hleft := b.matchAgainst_left id side type price qty now
  have hopposite := b.matchAgainst_opposite id side type price qty now
  have hown := b.matchAgainst_own id side type price qty now
  have hsymbol := b.matchAgainst_symbol id side type price qty now
  have hindex := b.matchAgainst_indexFrom id side type price qty now
  rw [addOrder, if_neg (not_le.mpr hq), if_neg hprice, if_neg hid]
  generalize b.matchAgainst id side type price qty now = m at *
  obtain ⟨fills, remaining, b'⟩ := m
  dsimp only at *
  by_cases hrest : 0 < remaining ∧ type = .limit
  · have hlimit : ¬ type = .market := by simp [hrest.2]
    rw [if_pos hrest.1, if_neg hlimit]
    refine ⟨_, _, rfl, hfills, ?_, ?_, fun p => ?_, ?_, fun x hx => ?_⟩
    · rw [← hleft, if_pos hrest]
      rfl
    · exact (b'.rest_opposite id side price remaining now).trans hopposite
    · rw [b'.rest_own id side price remaining now, hown]
      rfl
    · exact (b'.rest_symbol id side price remaining now).trans hsymbol
    · exact ((b'.mem_rest id side price remaining now).mp hx).imp_right (hindex x)
  · have hplain : Added b id side type price qty now ⟨fills, none⟩ b' := by
      refine ⟨hfills, ?_, hopposite, fun p => ?_, hsymbol, fun x hx => Or.inr (hindex x hx)⟩
      · rw [← hleft, if_neg hrest]
      · rw [hown, Option.toList_none, ite_self, List.append_nil]
    refine ⟨_, _, ?_, hplain⟩
    split_ifs with hr ht
    · rfl
    · cases type with
      | limit => exact absurd ⟨hr, rfl⟩ hrest
      | market => exact absurd rfl ht
    · rfl

end OrderBook

end Oems
