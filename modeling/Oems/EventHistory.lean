import Oems.EventLog
import Oems.CancelExact

namespace Oems

open Lib OrderManager

/-- The types of the events of an order, in the order of the log. -/
def OrderManager.history (m : OrderManager) (id : ℕ) : List EventType :=
  (m.getEvents id).map OrderEvent.type

def working (k : ℕ) : List EventType :=
  [.newRequested, .accepted] ++ List.replicate k .partialFill

/-- The histories of the state machine of `OrderStatus`: rejected at once, or
accepted, filled in parts, and then filled or cancelled. -/
structure Documented (h : List EventType) : Prop where
  path : h = [.newRequested, .rejected] ∨
    ∃ k tail, (tail = [] ∨ tail = [.fill] ∨ tail = [.cancelRequested, .cancelled]) ∧
      h <+: working k ++ tail
  accepted : .accepted ∈ h → .rejected ∉ h
  answered : .cancelRequested ∈ h → .cancelled ∈ h

/-- The history of a stored order, by its status. -/
inductive Shape : OrderStatus → List EventType → Prop where
  | rejected : Shape .rejected [.newRequested, .rejected]
  | open {status : OrderStatus} (k : ℕ) (h : status.live) : Shape status (working k)
  | filled (k : ℕ) : Shape .filled (working k ++ [.fill])
  | cancelled (k : ℕ) : Shape .cancelled (working k ++ [.cancelRequested, .cancelled])

theorem working_succ (k : ℕ) : working (k + 1) = working k ++ [.partialFill] := by
  rw [working, working, List.append_assoc, List.replicate_succ']

theorem mem_working {k : ℕ} {type : EventType} (h : type ∈ working k) :
    type = .newRequested ∨ type = .accepted ∨ type = .partialFill := by
  obtain h | h := List.mem_append.mp h
  · have hhead : type = .newRequested ∨ type = .accepted := by simpa using h
    exact hhead.imp_right Or.inl
  · exact Or.inr (Or.inr (List.eq_of_mem_replicate h))

theorem accepted_mem_working (k : ℕ) : .accepted ∈ working k := by
  simp [working]

theorem notMem_working {k : ℕ} {type : EventType}
    (h : type = .rejected ∨ type = .cancelRequested ∨ type = .cancelled) : type ∉ working k := by
  intro hm
  obtain rfl | rfl | rfl := h
  · simpa using mem_working hm
  · simpa using mem_working hm
  · simpa using mem_working hm

theorem Shape.documented {status : OrderStatus} {h : List EventType} (hs : Shape status h) :
    Documented h := by
  have hrejected : ∀ k, .rejected ∉ working k := fun k => notMem_working (Or.inl rfl)
  have hrequested : ∀ k, .cancelRequested ∉ working k := fun k => notMem_working (Or.inr (Or.inl rfl))
  cases hs with
  | rejected => exact ⟨Or.inl rfl, by simp, by simp⟩
  | «open» k _ =>
    refine ⟨Or.inr ⟨k, [], Or.inl rfl, by simp⟩, fun _ => hrejected k, fun hc => ?_⟩
    exact absurd hc (hrequested k)
  | filled k =>
    refine ⟨Or.inr ⟨k, [.fill], Or.inr (Or.inl rfl), List.prefix_refl _⟩, fun _ => ?_, fun hc => ?_⟩
    · simp [hrejected k]
    · simp [hrequested k] at hc
  | cancelled k =>
    refine ⟨Or.inr ⟨k, _, Or.inr (Or.inr rfl), List.prefix_refl _⟩, fun _ => ?_, fun _ => by simp⟩
    simp [hrejected k]

theorem Shape.of_live {status : OrderStatus} {h : List EventType} (hs : Shape status h)
    (hl : status.live) : ∃ k, h = working k := by
  cases hs with
  | rejected => simp [OrderStatus.live] at hl
  | «open» k _ => exact ⟨k, rfl⟩
  | filled k => simp [OrderStatus.live] at hl
  | cancelled k => simp [OrderStatus.live] at hl

/-- An operation after which the documentation still holds: a market order that
gets as far as the book finds somebody there, and no cancel is for a market order
that was filled in part. -/
def Regular (m : OrderManager) : Op → Prop
  | .submit check req => validate req = .ok () → (check m.risk (riskRequest req)).1 = .ok () →
    req.type = .market → ∃ q ∈ (m.engine.bookOf req.symbol).quotes, q.side = req.side.opposite
  | .cancel req => ¬ PartlyFilledMarket m req.orderId

def Shaped (o : Order) (events : List OrderEvent) : Prop :=
  Shape o.status (events.map OrderEvent.type)

/-- The history of an accepted order on its way through its fills. -/
def ShapedRunning (o : Order) (events : List OrderEvent) : Prop :=
  ∃ k, events.map OrderEvent.type = working k ++ if o.remainingQty = 0 then [.fill] else []

section Counterparty

variable {t : Taker}

theorem sweep_none {n : NaiveBook} (hc : t.counterparty n.orders = none) (remaining : ℤ) :
    n.sweep t remaining = ([], remaining, n) := by
  rw [NaiveBook.sweep, hc]
  split_ifs <;> rfl

theorem sweep_remaining_le (remaining : ℤ) (n : NaiveBook) :
    (n.sweep t remaining).2.1 ≤ remaining := by
  induction remaining, n using NaiveBook.sweep.induct t with
  | case1 remaining n hpos hnone => rw [sweep_none hnone]
  | case2 remaining n hpos o hc k ih =>
    have ho := o.qty_pos
    rw [NaiveBook.sweep, if_pos hpos, hc]
    exact ih.trans (by omega)
  | case3 remaining n hpos => rw [NaiveBook.sweep, if_neg hpos]

theorem sweep_remaining_lt {remaining : ℤ} {n : NaiveBook} {o : RestingOrder}
    (hpos : 0 < remaining) (hc : t.counterparty n.orders = some o) :
    (n.sweep t remaining).2.1 < remaining := by
  have ho := o.qty_pos
  rw [NaiveBook.sweep, if_pos hpos, hc]
  exact (sweep_remaining_le _ _).trans_lt (by omega)

theorem exists_market_counterparty {orders : List RestingOrder} {o : RestingOrder}
    {levels : List (Σ _ : ℤ, List BookEntry)} (h : Arranged t.side.opposite levels orders)
    (ht : t.type = .market) (ho : o ∈ orders) (hs : o.side = t.side.opposite) :
    ∃ o', t.counterparty orders = some o' := by
  match levels, h with
  | [], h => exact absurd (h.key_of_mem ho hs) (by simp)
  | ⟨p, []⟩ :: levels, h => exact absurd rfl (h.nonempty _ List.mem_cons_self)
  | ⟨p, e :: q⟩ :: levels, h =>
    obtain ⟨o', _, _, hc, _⟩ := counterparty_front h (Or.inl ht)
    exact ⟨o', hc⟩

theorem Agrees.market_counterparty_iff {m : OrderManager} (h : Agrees m) (s : Symbol)
    (ht : t.type = .market) : (∃ o, t.counterparty (m.flatBook s).orders = some o) ↔
      ∃ q ∈ (m.engine.bookOf s).quotes, q.side = t.side.opposite := by
  obtain ⟨k, hb⟩ := h.engine s
  constructor
  · rintro ⟨o, hc⟩
    refine ⟨o.toQuote, hb.quotes_perm.mem_iff.mpr ?_, Taker.counterparty_side hc⟩
    exact List.mem_map_of_mem (Taker.counterparty_mem hc)
  · rintro ⟨q, hq, hs⟩
    obtain ⟨o, ho, rfl⟩ := List.mem_map.mp (hb.quotes_perm.mem_iff.mp hq)
    cases hside : t.side with
    | buy =>
      have harr : Arranged t.side.opposite (m.engine.bookOf s).asks.entries
          (m.flatBook s).orders := by
        rw [hside]
        exact hb.asks
      exact exists_market_counterparty harr ht ho hs
    | sell =>
      have harr : Arranged t.side.opposite (m.engine.bookOf s).bids.entries
          (m.flatBook s).orders := by
        rw [hside]
        exact hb.bids
      exact exists_market_counterparty harr ht ho hs

theorem Landed.filled_pos {m m' : OrderManager} {req : NewOrderRequest} {order : Order}
    (hland : Landed m req m' order) (h : Agrees m) (hq : 0 < req.quantity) (ht : req.type = .market)
    (hliquid : ∃ q ∈ (m.engine.bookOf req.symbol).quotes, q.side = req.side.opposite) :
    0 < order.filledQty := by
  obtain ⟨o, ho⟩ := (h.market_counterparty_iff
    (t := ⟨m.nextOrderId, req.side, req.type, req.price⟩) req.symbol ht).mpr hliquid
  have hlt := sweep_remaining_lt hq ho
  have hleft := hland.remaining
  have hledger := hland.running.ledger
  rw [hland.orderQty] at hledger
  omega

end Counterparty

theorem shaped_logRule : LogRule Regular Shaped ShapedRunning where
  rejected := by
    intro req id created updated e e' he he'
    unfold Shaped
    rw [List.map_cons, List.map_singleton, he, he']
    exact Shape.rejected
  accepted := by
    intro req id created updated e e' hq he he'
    refine ⟨0, ?_⟩
    have hne : (newOrder req id .accepted created updated).remainingQty ≠ 0 := hq.ne'
    rw [List.map_cons, List.map_singleton, he, he', if_neg hne]
    rfl
  passive := by
    intro start m order fill passive events e now hs ht _ h
    obtain ⟨k, hk⟩ := h.of_live hs.live
    change Shape (if passive.remainingQty - fill.quantity = 0 then _ else _) _
    rw [List.map_append, List.map_singleton, hk, ht]
    unfold fillEvent
    split_ifs
    · exact Shape.filled k
    · rw [← working_succ]
      exact Shape.open (k + 1) (Or.inr rfl)
  aggressor := by
    intro start m order fill passive events e hs ht _ h
    obtain ⟨k, hk⟩ := h
    have hpos := hs.quantity_pos
    have hle := hs.quantity_le
    have hrem : (fillOrder order fill).remainingQty = order.remainingQty - fill.quantity := rfl
    rw [if_neg (by omega), List.append_nil] at hk
    unfold ShapedRunning
    rw [List.map_append, List.map_singleton, hk, ht, hrem]
    unfold fillEvent
    split_ifs
    · exact ⟨k, rfl⟩
    · exact ⟨k + 1, by rw [working_succ, List.append_nil]⟩
  leftover := by
    intro m check req risk m' order events e now ha hc hv hok hland hrem hmarket hnone _ _
    obtain ⟨hq, _, _⟩ := validate_ok hv
    have htype : req.type = .market := hland.type.symm.trans hmarket
    have hliquid := hc hv (congrArg Prod.fst hok) htype
    exact absurd (hland.filled_pos (ha.withRisk risk) hq htype hliquid) hnone
  settled := by
    intro m req m' order events now hland hq hleft h
    obtain ⟨k, hk⟩ := h
    change Shape (settledStatus order) _
    rw [hk, settledStatus_accepted hland.running.status]
    by_cases hrem : order.remainingQty = 0
    · rw [if_pos hrem, if_pos hrem]
      exact Shape.filled k
    · rw [if_neg hrem, if_neg hrem, List.append_nil]
      by_cases hf : 0 < order.filledQty
      · rw [if_pos hf]
        exact Shape.open k (Or.inr rfl)
      · have htype : order.type ≠ .market := fun ht => hleft ⟨hrem, ht, hf⟩
        rw [if_neg hf, if_neg htype]
        exact Shape.open k (Or.inl rfl)
  notResting := by
    intro m order events e ha hc hl hs ht _ _
    exact absurd ⟨order, hl, ht, (ha.kept _ _ hl).market_live ht hs⟩ hc
  withdrawn := by
    intro order events e e' now hs he he' h
    obtain ⟨k, hk⟩ := h.of_live hs
    change Shape .cancelled _
    rw [List.map_append, hk, List.map_cons, List.map_singleton, he, he']
    exact Shape.cancelled k

/-- What every regular run keeps. -/
structure WellRun (m : OrderManager) : Prop where
  agrees : Agrees m
  shaped : Logged Shaped m.orders m.events m.nextOrderId

def AllDocumented (m : OrderManager) : Prop :=
  ∀ id o, m.orders.lookup id = some o → Documented (m.history o.internalId)

theorem WellRun.step {m : OrderManager} (h : WellRun m) {op : Op} (hc : Regular m op) :
    WellRun (m.step op).2 :=
  ⟨h.agrees.step op, shaped_logRule.stepInvariant.step h.agrees h.shaped op hc⟩

theorem WellRun.documented {m : OrderManager} (h : WellRun m) : AllDocumented m := by
  intro id o ho
  rw [(h.agrees.filed id o ho).1]
  exact (h.shaped.related id o ho).documented

/-- A market order that finds nobody is accepted and then rejected. -/
theorem WellRun.place_not_documented {m : OrderManager} (h : WellRun m) {req : NewOrderRequest}
    (hv : validate req = .ok ()) (ht : req.type = .market)
    (hnone : ¬ ∃ q ∈ (m.engine.bookOf req.symbol).quotes, q.side = req.side.opposite) :
    ¬ AllDocumented (m.place req).2 := by
  obtain ⟨hq, _, _⟩ := validate_ok hv
  obtain ⟨m', order, hplace, hland, hlog⟩ := h.agrees.place_rule hv
    (Q := FlightLog Shaped ShapedRunning) (shaped_logRule.start h.agrees h.shaped hq)
    fun _ _ _ _ _ hs hlog => shaped_logRule.applyFill hs hlog
  have hcounter : Taker.counterparty ⟨m.nextOrderId, req.side, req.type, req.price⟩
      (m.flatBook req.symbol).orders = none := by
    rw [Option.eq_none_iff_forall_ne_some]
    intro o ho
    exact hnone ((h.agrees.market_counterparty_iff req.symbol ht).mp ⟨o, ho⟩)
  have hleft : order.remainingQty = _ := hland.remaining
  have hledger := hland.running.ledger
  rw [sweep_none hcounter] at hleft
  dsimp only at hleft
  rw [hland.orderQty] at hledger
  obtain ⟨k, hk⟩ := hlog.own
  rw [if_neg (by omega), List.append_nil] at hk
  have hevents : (m'.settle order).2.history order.internalId = working k ++ [.rejected] := by
    have hif : m'.leftover order = m'.appendEvent order.internalId .rejected
        (str "no liquidity for market order") :=
      if_pos ⟨by omega, hland.type.trans ht, by omega⟩
    change (eventsOf (m'.settle order).2.events order.internalId).map OrderEvent.type = _
    rw [settle_events, hif, appendEvent_events, eventsOf_append_self (by simp), List.map_append, hk]
    rfl
  intro hall
  rw [hplace] at hall
  have hdoc := hall order.internalId (settledOrder order (m'.leftover order).now) (by
    dsimp only
    rw [settle_orders, Finmap.lookup_insert])
  change Documented ((m'.settle order).2.history order.internalId) at hdoc
  rw [hevents] at hdoc
  exact hdoc.accepted (List.mem_append_left _ (accepted_mem_working k)) (by simp)

/-- The cancel of a market order that was filled in part is logged and never answered. -/
theorem WellRun.cancel_not_documented {m : OrderManager} (h : WellRun m) {id : ℕ}
    (hp : PartlyFilledMarket m id) : ¬ AllDocumented (m.cancelOrder ⟨id⟩).2 := by
  obtain ⟨o, ho, ht, hs⟩ := hp
  have hstep := h.agrees.cancelStep ⟨id⟩
  generalize m.cancelOrder ⟨id⟩ = r at hstep
  cases hstep with
  | unknown hl => simp [ho] at hl
  | closed order hl hc =>
    obtain rfl : o = order := Option.some.inj (ho.symm.trans hl)
    exact absurd (Or.inr hs) hc
  | notResting order err _ _ _ _ =>
    have hid := (h.agrees.filed _ _ ho).1
    obtain ⟨k, hk⟩ := (h.shaped.related _ _ ho).of_live (Or.inr hs)
    intro hall
    have hdoc := hall id o ho
    have hevents : (m.appendEvent id .cancelRequested []).history id =
        working k ++ [.cancelRequested] := by
      change (eventsOf (m.appendEvent id .cancelRequested []).events id).map OrderEvent.type = _
      rw [appendEvent_events, eventsOf_append_self (by simp), List.map_append, hk]
      rfl
    rw [hid, hevents] at hdoc
    have hno : .cancelled ∉ working k := notMem_working (Or.inr (Or.inr rfl))
    have hmem := hdoc.answered (by simp)
    simp [hno] at hmem
  | done order engine hl _ _ hlimit _ _ _ =>
    obtain rfl : o = order := Option.some.inj (ho.symm.trans hl)
    simp [ht] at hlimit

theorem WellRun.irregular {m : OrderManager} (h : WellRun m) {op : Op} (hc : ¬ Regular m op) :
    ¬ AllDocumented (m.step op).2 := by
  cases op with
  | submit check req =>
    simp only [Regular, not_forall] at hc
    obtain ⟨hv, hok, ht, hnone⟩ := hc
    have hstep := submitStep check m req
    change ¬ AllDocumented (m.submitOrder check req).2
    generalize m.submitOrder check req = r at hstep
    cases hstep with
    | invalid err hv' => simp [hv] at hv'
    | refused risk err _ hc' => simp [hc'] at hok
    | placed risk _ _ =>
      have hr : WellRun { m with risk } := ⟨h.agrees.withRisk risk, h.shaped⟩
      exact hr.place_not_documented hv ht hnone
  | cancel req => exact h.cancel_not_documented (not_not.mp hc)

/-- The histories of all orders are documented in every state of a run exactly
when every operation of the run is regular. -/
theorem histories_documented_iff (risk : RiskManager) (db : Option Database) (clock : ℕ → ℤ)
    (ops : List Op) :
    Machine.Along OrderManager.step Regular (OrderManager.new risk MatchingEngine.new db clock) ops ↔
      ∀ before, before <+: ops →
        AllDocumented ((OrderManager.new risk MatchingEngine.new db clock).run before) :=
  Machine.along_iff (I := WellRun) (G := AllDocumented) (fun _ _ hc h => h.step hc)
    (fun _ h => h.documented) (fun _ _ h hc => h.irregular hc)
    ⟨Agrees.new risk db clock, logged_new _ risk db clock⟩ ops

/-- Ten bought at the market from an empty book: accepted first and then rejected. -/
theorem emptyBook_not_documented : ¬ AllDocumented ((OrderManager.new
    (RiskManager.new RiskLimits.default) MatchingEngine.new none fun _ => 0).run
      [.submit (RiskCheck.at 0) ⟨str "taker", ⟨str "AAPL"⟩, .buy, .market, 0, 10⟩]) := by
  intro h
  have hdoc := h 1 ⟨1, str "taker", ⟨str "AAPL"⟩, .buy, .market, 0, 10, 0, 10, .rejected, 0, 0⟩
    (by decide)
  have hhistory : OrderManager.history ((OrderManager.new (RiskManager.new RiskLimits.default)
      MatchingEngine.new none fun _ => 0).run
        [.submit (RiskCheck.at 0) ⟨str "taker", ⟨str "AAPL"⟩, .buy, .market, 0, 10⟩]) 1 =
      [.newRequested, .accepted, .rejected] := by decide
  rw [hhistory] at hdoc
  exact hdoc.accepted (by simp) (by simp)

end Oems
