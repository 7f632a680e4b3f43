import Oems.RunInvariants

namespace Oems

open Lib OrderManager

theorem FairFill.sameTerms {fill : Fill} {aggressive passive aggressive' passive' : Order}
    (h : FairFill fill aggressive passive) (ha : SameTerms aggressive aggressive')
    (hp : SameTerms passive passive') : FairFill fill aggressive' passive' where
  aggressiveId := ha.internalId.trans h.aggressiveId
  passiveId := hp.internalId.trans h.passiveId
  aggressiveSymbol := ha.symbol.trans h.aggressiveSymbol
  passiveSymbol := hp.symbol.trans h.passiveSymbol
  aggressiveSide := h.aggressiveSide.trans ha.side.symm
  opposite := by
    rw [hp.side, ha.side]
    exact h.opposite
  resting := hp.type.trans h.resting
  older := by
    rw [hp.internalId, ha.internalId]
    exact h.older
  price := h.price.trans hp.price.symm
  withinLimit := by
    rw [ha.type, ha.side, ha.price]
    exact h.withinLimit
  quantity_pos := h.quantity_pos

/-- The orders of a table are still in a later one, on the same terms. -/
def TermsKept (orders orders' : OrderMap) : Prop :=
  ∀ id o, orders.lookup id = some o → ∃ o', orders'.lookup id = some o' ∧ SameTerms o o'

namespace TermsKept

variable {orders orders' : OrderMap} {id : ℕ} {o o' : Order}

theorem refl (orders : OrderMap) : TermsKept orders orders := fun _ o ho =>
  ⟨o, ho, SameTerms.refl o⟩

theorem insert_new (o' : Order) (hl : orders.lookup id = none) :
    TermsKept orders (orders.insert id o') := by
  apply exists_lookup_insert SameTerms.refl
  intro x hx
  simp [hl] at hx

theorem insert (hl : orders.lookup id = some o) (ht : SameTerms o o') :
    TermsKept orders (orders.insert id o') := by
  apply exists_lookup_insert SameTerms.refl
  intro x hx
  obtain rfl : o = x := Option.some.inj (hl.symm.trans hx)
  exact ht

theorem insert_both (h : TermsKept orders orders') (ht : SameTerms o o') :
    TermsKept (orders.insert id o) (orders'.insert id o') := by
  intro id' x hx
  by_cases he : id' = id
  · subst he
    rw [Finmap.lookup_insert] at hx
    obtain rfl : o = x := Option.some.inj hx
    exact ⟨o', Finmap.lookup_insert _, ht⟩
  · rw [Finmap.lookup_insert_of_ne _ he] at hx ⊢
    exact h id' x hx

end TermsKept

/-- Every execution is a fair trade between two orders of the table. -/
def FairTrades (orders : OrderMap) (executions : List Fill) : Prop :=
  ∀ fill ∈ executions, ∃ aggressive passive,
    orders.lookup fill.aggressiveOrderId = some aggressive ∧
      orders.lookup fill.passiveOrderId = some passive ∧ FairFill fill aggressive passive

namespace FairTrades

variable {orders orders' : OrderMap} {executions : List Fill}

theorem keep (h : FairTrades orders executions) (ht : TermsKept orders orders') :
    FairTrades orders' executions := by
  intro fill hf
  obtain ⟨aggressive, passive, ha, hp, hfair⟩ := h fill hf
  obtain ⟨aggressive', ha', hta⟩ := ht _ _ ha
  obtain ⟨passive', hp', htp⟩ := ht _ _ hp
  exact ⟨aggressive', passive', ha', hp', hfair.sameTerms hta htp⟩

theorem append (h : FairTrades orders executions) {fill : Fill} {aggressive passive : Order}
    (ha : orders.lookup fill.aggressiveOrderId = some aggressive)
    (hp : orders.lookup fill.passiveOrderId = some passive)
    (hf : FairFill fill aggressive passive) : FairTrades orders (executions ++ [fill]) := by
  intro f hm
  obtain hm | hm := List.mem_append.mp hm
  · exact h f hm
  · rw [List.mem_singleton.mp hm]
    exact ⟨aggressive, passive, ha, hp, hf⟩

end FairTrades

/-- During its fills the order at hand counts as stored. -/
def FlightFair (m : OrderManager) (order : Order) : Prop :=
  FairTrades (m.orders.insert order.internalId order) m.executions

theorem FlightFair.applyFill {start order passive : Order} {m : OrderManager} {fill : Fill}
    (hs : FillStep start m order fill passive) (h : FlightFair m order) :
    FlightFair (m.applyFill order fill).1 (m.applyFill order fill).2 := by
  have hlookup := hs.lookup
  have hne : fill.passiveOrderId ≠ order.internalId := hs.passive_lt.ne
  have hpassive := sameTerms_passiveAfter passive fill m.now
  have hkept : TermsKept (m.orders.insert order.internalId order)
      ((m.applyFill order fill).1.orders.insert order.internalId (fillOrder order fill)) := by
    rw [applyFill_orders hlookup]
    exact (TermsKept.insert hlookup hpassive).insert_both (sameTerms_fillOrder order fill)
  unfold FlightFair
  rw [applyFill_executions hlookup]
  refine FairTrades.append (h.keep hkept) ?_ ?_
    (hs.fair.sameTerms (sameTerms_fillOrder order fill) hpassive)
  · rw [hs.aggressive]
    exact Finmap.lookup_insert _
  · rw [Finmap.lookup_insert_of_ne _ hne, applyFill_orders hlookup]
    exact Finmap.lookup_insert _

theorem fairTrades_stepInvariant :
    StepInvariant Always fun m => FairTrades m.orders m.executions where
  rejected := by
    intro m _ req risk err ha h _ _
    rw [rejectByRisk_orders, rejectByRisk_executions]
    exact h.keep (TermsKept.insert_new _ ha.filed.lookup_bound)
  placed := by
    intro m _ req risk ha h _ hv _
    have hnone : m.orders.lookup m.nextOrderId = none := ha.filed.lookup_bound
    obtain ⟨m', order, hplace, hland, hq⟩ := (ha.withRisk risk).place_rule hv (Q := FlightFair)
      (fun _ _ _ => h.keep (TermsKept.insert_new _ hnone))
      fun _ _ _ _ _ hstep hq => FlightFair.applyFill hstep hq
    rw [hplace, settle_orders, settle_executions]
    exact hq.keep ((TermsKept.refl _).insert_both (sameTerms_settledOrder order _))
  notResting := fun _ _ _ h _ _ _ _ => h
  withdrawn := by
    intro m order engine ha h _ hl _ _ _
    exact h.keep (TermsKept.insert hl (sameTerms_cancelledOrder order _))

/-- In every reachable state each execution joins an order with an older limit
order of the same symbol and of the other side, at the older order's price and
within the limit of the newer one. -/
theorem executions_are_fair (risk : RiskManager) (db : Option Database) (clock : ℕ → ℤ)
    (ops : List Op) :
    let m := (OrderManager.new risk MatchingEngine.new db clock).run ops
    ∀ fill ∈ m.executions, ∃ aggressive passive,
      m.orders.lookup fill.aggressiveOrderId = some aggressive ∧
        m.orders.lookup fill.passiveOrderId = some passive ∧ FairFill fill aggressive passive :=
  fairTrades_stepInvariant.run_always (Agrees.new risk db clock)
    (fun _ hf => by simp [OrderManager.new] at hf) ops

/-- A sell of ten at 100 that a buy with the limit 101 takes six of. -/
def betterPriced : List Op :=
  [.submit (RiskCheck.at 0) ⟨str "maker", ⟨str "AAPL"⟩, .sell, .limit, 100, 10⟩,
    .submit (RiskCheck.at 0) ⟨str "taker", ⟨str "AAPL"⟩, .buy, .limit, 101, 6⟩]

theorem betterPriced_fair :
    let m := (OrderManager.new (RiskManager.new RiskLimits.default) MatchingEngine.new none
      fun _ => 0).run betterPriced
    ∃ aggressive passive, m.orders.lookup 2 = some aggressive ∧
      m.orders.lookup 1 = some passive ∧
        FairFill ⟨1, ⟨str "AAPL"⟩, 2, 1, .buy, 100, 6, 0⟩ aggressive passive :=
  executions_are_fair (RiskManager.new RiskLimits.default) none (fun _ => 0) betterPriced
    ⟨1, ⟨str "AAPL"⟩, 2, 1, .buy, 100, 6, 0⟩ (by decide)

end Oems
