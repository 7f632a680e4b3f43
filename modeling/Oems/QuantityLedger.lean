import Oems.RunInvariants

namespace Oems

open Lib OrderManager

def Fill.names (fill : Fill) (id : ℕ) : Prop :=
  fill.aggressiveOrderId = id ∨ fill.passiveOrderId = id

instance (fill : Fill) (id : ℕ) : Decidable (fill.names id) :=
  inferInstanceAs (Decidable (_ ∨ _))

def filledIn (executions : List Fill) (id : ℕ) : ℤ :=
  ((executions.filter fun fill => fill.names id).map Fill.quantity).sum

theorem filledIn_append (executions : List Fill) (fill : Fill) (id : ℕ) :
    filledIn (executions ++ [fill]) id =
      filledIn executions id + if fill.names id then fill.quantity else 0 := by
  unfold filledIn
  rw [List.filter_append, List.map_append, List.sum_append]
  congr 1
  by_cases h : fill.names id
  · simp [h]
  · simp [h]

theorem filledIn_eq_zero {executions : List Fill} {id : ℕ}
    (h : ∀ fill ∈ executions, ¬ fill.names id) : filledIn executions id = 0 := by
  have hnil : (executions.filter fun fill => fill.names id) = [] := by
    rw [List.filter_eq_nil_iff]
    intro fill hf
    simpa using h fill hf
  rw [filledIn, hnil]
  rfl

/-- The filled quantities of a table are those of the executions, and these name
no order from `bound` on. -/
structure Balanced (orders : OrderMap) (executions : List Fill) (bound : ℕ) : Prop where
  filled : ∀ id o, orders.lookup id = some o → o.filledQty = filledIn executions id
  named : ∀ fill ∈ executions, fill.aggressiveOrderId < bound ∧ fill.passiveOrderId < bound

namespace Balanced

variable {orders : OrderMap} {executions : List Fill} {bound : ℕ}

theorem filledIn_bound (h : Balanced orders executions bound) : filledIn executions bound = 0 := by
  apply filledIn_eq_zero
  rintro fill hf (hn | hn)
  · exact absurd (h.named fill hf).1 (by omega)
  · exact absurd (h.named fill hf).2 (by omega)

theorem insert (h : Balanced orders executions bound) {id : ℕ} {o : Order}
    (ho : o.filledQty = filledIn executions id) : Balanced (orders.insert id o) executions bound where
  filled := forall_lookup_insert h.filled ho
  named := h.named

theorem succ (h : Balanced orders executions bound) : Balanced orders executions (bound + 1) where
  filled := h.filled
  named := fun fill hf => by
    have hlt := h.named fill hf
    omega

end Balanced

/-- The ledger during the fills of an order. -/
structure FlightLedger (m : OrderManager) (order : Order) : Prop where
  balanced : Balanced m.orders m.executions (order.internalId + 1)
  filled : order.filledQty = filledIn m.executions order.internalId

theorem FlightLedger.applyFill {start order passive : Order} {m : OrderManager} {fill : Fill}
    (hs : FillStep start m order fill passive) (h : FlightLedger m order) :
    FlightLedger (m.applyFill order fill).1 (m.applyFill order fill).2 := by
  have hlookup := hs.lookup
  have hlt := hs.passive_lt
  have hagg := hs.aggressive
  have hother : ∀ id, id ≠ fill.passiveOrderId → id ≠ order.internalId → ¬ fill.names id := by
    rintro id hp ha (hn | hn)
    · exact ha (hn.symm.trans hagg)
    · exact hp hn.symm
  constructor
  · rw [applyFill_orders hlookup, applyFill_executions hlookup]
    constructor
    · intro id x hx
      rw [filledIn_append]
      by_cases he : id = fill.passiveOrderId
      · subst he
        rw [Finmap.lookup_insert] at hx
        cases hx
        have hnames : fill.names fill.passiveOrderId := Or.inr rfl
        rw [if_pos hnames, ← h.balanced.filled _ _ hlookup]
        rfl
      · rw [Finmap.lookup_insert_of_ne _ he] at hx
        have hne : id ≠ order.internalId := fun hc => by
          have hid := (hs.filed _ _ hx).2
          omega
        rw [if_neg (hother id he hne), add_zero]
        exact h.balanced.filled _ _ hx
    · intro f hf
      change _ < order.internalId + 1 ∧ _ < order.internalId + 1
      obtain hf | hf := List.mem_append.mp hf
      · exact h.balanced.named f hf
      · rw [List.mem_singleton.mp hf, hagg]
        omega
  · rw [applyFill_executions hlookup]
    change order.filledQty + fill.quantity = filledIn _ order.internalId
    have hnames : fill.names order.internalId := Or.inl hagg
    rw [filledIn_append, if_pos hnames, h.filled]

/-- The filled quantities in the order table are those of the recorded executions. -/
def Ledger (m : OrderManager) : Prop := Balanced m.orders m.executions m.nextOrderId

theorem Ledger.flight {m : OrderManager} (h : Ledger m) (req : NewOrderRequest)
    (engine : MatchingEngine) (created updated : ℤ) :
    FlightLedger (m.accepted req engine) (newOrder req m.nextOrderId .accepted created updated) where
  balanced := Balanced.succ h
  filled := (Balanced.filledIn_bound h).symm

theorem ledger_stepInvariant : StepInvariant Always Ledger where
  rejected := by
    intro m _ req risk err _ h _ _
    unfold Ledger
    rw [rejectByRisk_orders, rejectByRisk_executions, rejectByRisk_nextOrderId]
    exact (Balanced.succ h).insert (Balanced.filledIn_bound h).symm
  placed := by
    intro m _ req risk ha h _ hv _
    have hr : Ledger { m with risk } := h
    obtain ⟨m', order, hplace, hland, hq⟩ := (ha.withRisk risk).place_rule hv (Q := FlightLedger)
      (hr.flight req) fun _ _ _ _ _ hstep hq => FlightLedger.applyFill hstep hq
    have hbal := hq.balanced
    rw [hland.internalId, ← hland.nextOrderId] at hbal
    rw [hplace]
    unfold Ledger
    rw [settle_orders, settle_executions, settle_nextOrderId]
    exact hbal.insert hq.filled
  notResting := fun _ _ _ h _ _ _ _ => h
  withdrawn := by
    intro m order engine _ h _ hl _ _ _
    have hfilled : order.filledQty = _ := h.filled _ _ hl
    exact Balanced.insert h hfilled

theorem Ledger.new (risk : RiskManager) (db : Option Database) (clock : ℕ → ℤ) :
    Ledger (OrderManager.new risk MatchingEngine.new db clock) where
  filled := fun id o ho => by simp [OrderManager.new] at ho
  named := fun fill hf => by simp [OrderManager.new] at hf

def Bounded (B : ℤ) (m : OrderManager) : Prop :=
  ∀ id o, m.orders.lookup id = some o → o.orderQty ≤ B

def OrderManager.Op.atMost (B : ℤ) : Op → Prop
  | .submit _ req => req.quantity ≤ B
  | .cancel _ => True

theorem bounded_stepInvariant (B : ℤ) : StepInvariant (fun _ op => op.atMost B) (Bounded B) where
  rejected := by
    intro m _ req risk err _ h hc _
    unfold Bounded
    rw [rejectByRisk_orders]
    exact forall_lookup_insert (P := fun _ o => o.orderQty ≤ B) h hc
  placed := by
    intro m _ req risk ha h hc hv _
    obtain ⟨m', order, hplace, hland, hq⟩ := (ha.withRisk risk).place_rule hv
      (Q := fun m' _ => Bounded B m') (fun _ _ _ => h) (fun start m' order fill passive hs hq => by
        unfold Bounded
        rw [applyFill_orders hs.lookup]
        have hpassive := hq _ _ hs.lookup
        exact forall_lookup_insert (P := fun _ o => o.orderQty ≤ B) hq hpassive)
    rw [hplace]
    unfold Bounded
    rw [settle_orders]
    have hqty : order.orderQty ≤ B := by
      rw [hland.orderQty]
      exact hc
    exact forall_lookup_insert (P := fun _ o => o.orderQty ≤ B) hq hqty
  notResting := fun _ _ _ h _ _ _ _ => h
  withdrawn := by
    intro m order engine _ h _ hl _ _ _
    have hqty := h _ _ hl
    exact forall_lookup_insert (P := fun _ o => o.orderQty ≤ B) h hqty

namespace OrderBook

/-- A property of every trade that the inner loop makes. -/
def EachTradeIn (P : MatchState → BookEntry → Prop) (inc : Incoming) :
    MatchState → List BookEntry → Prop
  | _, [] => True
  | st, passive :: queue =>
    0 < st.remainingQty → P st passive ∧
      (passive.remainingQty - min st.remainingQty passive.remainingQty = 0 →
        EachTradeIn P inc (trade inc st passive) queue)

/-- A property of every trade that the two loops make. -/
def EachTrade (P : MatchState → BookEntry → Prop) (inc : Incoming) (priceAcceptable : ℤ → Bool) :
    MatchState → List (Σ _ : ℤ, List BookEntry) → Prop
  | _, [] => True
  | st, ⟨bestPrice, queue⟩ :: levels =>
    0 < st.remainingQty → ¬ (inc.type = .limit ∧ ¬ priceAcceptable bestPrice) →
      EachTradeIn P inc st queue ∧ ((matchQueue inc st queue).2 = [] →
        EachTrade P inc priceAcceptable (matchQueue inc st queue).1 levels)

/-- What a trade assigns to the incoming quantity and to the entry is in range. -/
def TradeInRange (st : MatchState) (passive : BookEntry) : Prop :=
  InInt64 (st.remainingQty - min st.remainingQty passive.remainingQty) ∧
    InInt64 (passive.remainingQty - min st.remainingQty passive.remainingQty)

variable {B : ℤ} {inc : Incoming}

variable (inc) in
theorem eachTradeIn_inRange (hB : B < 2 ^ 63) {queue : List BookEntry} {st : MatchState}
    (hst : 0 ≤ st.remainingQty ∧ st.remainingQty ≤ B)
    (hq : ∀ e ∈ queue, 0 < e.remainingQty ∧ e.remainingQty ≤ B) :
    EachTradeIn TradeInRange inc st queue ∧
      0 ≤ (matchQueue inc st queue).1.remainingQty ∧
      (matchQueue inc st queue).1.remainingQty ≤ B := by
  induction queue generalizing st with
  | nil => exact ⟨trivial, hst⟩
  | cons passive queue ih =>
    obtain ⟨hpos, hle⟩ := hq passive (by simp)
    have hnext : 0 ≤ (trade inc st passive).remainingQty ∧
        (trade inc st passive).remainingQty ≤ B := by
      change 0 ≤ st.remainingQty - min st.remainingQty passive.remainingQty ∧
        st.remainingQty - min st.remainingQty passive.remainingQty ≤ B
      omega
    have hrange : TradeInRange st passive := by
      unfold TradeInRange InInt64
      omega
    have htail := ih hnext fun e he => hq e (by simp [he])
    refine ⟨fun _ => ⟨hrange, fun _ => htail.1⟩, ?_⟩
    by_cases hr : st.remainingQty > 0
    · by_cases hl : passive.remainingQty - min st.remainingQty passive.remainingQty = 0
      · simp only [matchQueue, if_pos hr, if_pos hl]
        exact htail.2
      · simp only [matchQueue, if_pos hr, if_neg hl]
        exact hnext
    · simp only [matchQueue, if_neg hr]
      exact hst

theorem eachTrade_inRange (hB : B < 2 ^ 63) (priceAcceptable : ℤ → Bool)
    {levels : List (Σ _ : ℤ, List BookEntry)} {st : MatchState}
    (hst : 0 ≤ st.remainingQty ∧ st.remainingQty ≤ B)
    (hl : ∀ l ∈ levels, ∀ e ∈ l.2, 0 < e.remainingQty ∧ e.remainingQty ≤ B) :
    EachTrade TradeInRange inc priceAcceptable st levels := by
  induction levels generalizing st with
  | nil => trivial
  | cons l levels ih =>
    obtain ⟨bestPrice, queue⟩ := l
    intro _ _
    obtain ⟨hqueue, hleft⟩ := eachTradeIn_inRange inc hB hst (hl ⟨bestPrice, queue⟩ (by simp))
    exact ⟨hqueue, fun _ => ih hleft fun l hm => hl l (by simp [hm])⟩

/-- A property of every trade that `MatchAgainst` makes. -/
def EachMatch (P : MatchState → BookEntry → Prop) (b : OrderBook) (id : ℕ) (side : Side)
    (type : OrderType) (limit qty now : ℤ) : Prop :=
  match side with
  | .buy => EachTrade P ⟨b.symbol, id, side, type, now⟩ (fun p => p ≤ limit)
      ⟨[], qty, b.idIndex, b.nextExecutionId⟩ b.asks.entries
  | .sell => EachTrade P ⟨b.symbol, id, side, type, now⟩ (fun p => p ≥ limit)
      ⟨[], qty, b.idIndex, b.nextExecutionId⟩ b.bids.entries

theorem eachMatch_inRange (hB : B < 2 ^ 63) (b : OrderBook)
    (hb : ∀ q ∈ b.quotes, 0 < q.qty ∧ q.qty ≤ B) (id : ℕ) (side : Side) (type : OrderType)
    (limit : ℤ) {qty : ℤ} (hq : 0 ≤ qty ∧ qty ≤ B) (now : ℤ) :
    b.EachMatch TradeInRange id side type limit qty now := by
  cases side with
  | buy =>
    apply eachTrade_inRange hB _ hq
    intro l hl e he
    apply hb e.quote
    apply List.mem_map_of_mem
    apply List.mem_append_right
    exact List.mem_flatten.mpr ⟨l.2, List.mem_map_of_mem hl, he⟩
  | sell =>
    apply eachTrade_inRange hB _ hq
    intro l hl e he
    apply hb e.quote
    apply List.mem_map_of_mem
    apply List.mem_append_left
    exact List.mem_flatten.mpr ⟨l.2, List.mem_map_of_mem hl, he⟩

end OrderBook

/-- What `ApplyFills` assigns at a fill is in range. -/
def FillInRange (m : OrderManager) (order : Order) (fill : Fill) : Prop :=
  InInt64 (order.filledQty + fill.quantity) ∧ InInt64 (order.remainingQty - fill.quantity) ∧
    ∀ passive, m.orders.lookup fill.passiveOrderId = some passive →
      InInt64 (passive.filledQty + fill.quantity) ∧ InInt64 (passive.remainingQty - fill.quantity)

theorem FillStep.inRange {start order passive : Order} {m : OrderManager} {fill : Fill} {B : ℤ}
    (hB : B < 2 ^ 63) (hs : FillStep start m order fill passive) (hm : Bounded B m)
    (ho : order.orderQty ≤ B) : FillInRange m order fill := by
  obtain ⟨_, _, hledger, hfilled, hrem⟩ := hs.running
  have hpassive := hs.kept _ _ hs.lookup
  have hqty := hm _ _ hs.lookup
  obtain ⟨hpledger, hpfilled, hprem, _⟩ := hpassive
  have hpos := hs.quantity_pos
  have hle := hs.quantity_le
  have hle' := hs.quantity_le_passive
  refine ⟨?_, ?_, ?_⟩
  · unfold InInt64
    omega
  · unfold InInt64
    omega
  · intro passive' hl
    rw [hs.lookup] at hl
    cases hl
    unfold InInt64
    omega

/-- Every update of a quantity that a submit makes, in the matching loops of the
book and in `ApplyFills`, stays in the range of its type. -/
theorem Agrees.submit_inRange {m : OrderManager} (h : Agrees m) {B : ℤ} (hB : B < 2 ^ 63)
    (hm : Bounded B m) {check : RiskCheck} {req : NewOrderRequest} {f : Flight}
    (hf : m.submitFlight check req = some f) (hq : req.quantity ≤ B) :
    (∀ now, (m.engine.bookOf req.symbol).EachMatch OrderBook.TradeInRange m.nextOrderId req.side
        req.type req.price req.quantity now) ∧
      EachFill FillInRange f.manager f.order f.fills := by
  have hfly := h.submitFlight hf
  obtain ⟨hv, risk, rfl⟩ := submitFlight_eq_some hf
  obtain ⟨hpos, _, _⟩ := validate_ok hv
  constructor
  · intro now
    apply OrderBook.eachMatch_inRange hB _ _ _ _ _ _ ⟨hpos.le, hq⟩
    intro q hquote
    obtain ⟨o, ho, hlive, rfl⟩ := (h.mem_quotes _ _).mp hquote
    have hk := h.kept _ _ ho
    have hb := hm _ _ ho
    have hledger := hk.ledger
    have hfilled := hk.filled_nonneg
    exact ⟨hk.remaining_pos hlive.2.2, by dsimp only; omega⟩
  · have ht := (h.withRisk risk).takeoff hv
    obtain ⟨created, updated, horder⟩ := ht.order
    have hstart : Bounded B ({ m with risk }.flightOf req).manager := by
      unfold Bounded
      rw [ht.orders]
      exact hm
    have hqty : ({ m with risk }.flightOf req).order.orderQty ≤ B := by
      rw [horder]
      exact hq
    have hkeep := hfly.keeps (Q := fun m' order => Bounded B m' ∧ order.orderQty ≤ B)
      (fun m' order fill hs hb => by
        obtain ⟨passive, hs⟩ := hs
        refine ⟨?_, hb.2⟩
        unfold Bounded
        rw [applyFill_orders hs.lookup]
        have hpassive := hb.1 _ _ hs.lookup
        exact forall_lookup_insert (P := fun _ o => o.orderQty ≤ B) hb.1 hpassive) ⟨hstart, hqty⟩
    apply hkeep.1.imp
    rintro m' order fill ⟨⟨passive, hs⟩, hb, ho⟩
    exact hs.inRange hB hb ho

/-- In every reachable state each order has its quantity split into what is
filled and what remains, neither negative, and what is filled is the sum of the
executions that name it. With requests in range no update of a quantity can
leave the range. -/
theorem quantity_ledger (risk : RiskManager) (db : Option Database) (clock : ℕ → ℤ)
    (ops : List Op) :
    let m := (OrderManager.new risk MatchingEngine.new db clock).run ops
    (∀ id o, m.orders.lookup id = some o → o.orderQty = o.filledQty + o.remainingQty ∧
      0 ≤ o.filledQty ∧ 0 ≤ o.remainingQty ∧ o.filledQty = filledIn m.executions o.internalId) ∧
    ((∀ op ∈ ops, op.atMost (2 ^ 63 - 1)) → ∀ check req f, req.quantity ≤ 2 ^ 63 - 1 →
      m.submitFlight check req = some f →
        (∀ now, (m.engine.bookOf req.symbol).EachMatch OrderBook.TradeInRange m.nextOrderId
          req.side req.type req.price req.quantity now) ∧
        EachFill FillInRange f.manager f.order f.fills) := by
  intro m
  have hnew := Agrees.new risk db clock
  have h : Agrees m := hnew.run ops
  have hledger : Ledger m := ledger_stepInvariant.run_always hnew (Ledger.new risk db clock) ops
  refine ⟨fun id o ho => ?_, fun hops check req f hq hf => ?_⟩
  · have hk := h.kept id o ho
    refine ⟨hk.ledger, hk.filled_nonneg, hk.remaining_nonneg, ?_⟩
    rw [(h.filed id o ho).1]
    exact hledger.filled id o ho
  · have hbounded : Bounded (2 ^ 63 - 1) m := by
      apply (bounded_stepInvariant (2 ^ 63 - 1)).run hnew
      · intro id o ho
        simp [OrderManager.new] at ho
      · exact Machine.along_of_mem (fun op hop _ => hops op hop) _
    exact h.submit_inRange (by omega) hbounded hf hq

end Oems
