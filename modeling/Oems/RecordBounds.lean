import Oems.RunInvariants

namespace Oems

open Lib OrderManager

def closedIds (orders : OrderMap) : Finset ℕ :=
  orders.keys.filter fun id => ∀ o ∈ orders.lookup id, ¬ o.status.live

theorem mem_closedIds {orders : OrderMap} {id : ℕ} :
    id ∈ closedIds orders ↔ ∃ o, orders.lookup id = some o ∧ ¬ o.status.live := by
  rw [closedIds, Finset.mem_filter, Finmap.mem_keys, Finmap.mem_iff]
  constructor
  · rintro ⟨⟨o, ho⟩, hclosed⟩
    exact ⟨o, ho, hclosed o ho⟩
  · rintro ⟨o, ho, hclosed⟩
    refine ⟨⟨o, ho⟩, fun o' ho' => ?_⟩
    obtain rfl : o = o' := Option.some.inj (ho.symm.trans ho')
    exact hclosed

section ClosedIds

variable {orders : OrderMap} {id : ℕ}

theorem closedIds_subset_insert (h : id ∉ closedIds orders) (o : Order) :
    closedIds orders ⊆ closedIds (orders.insert id o) := by
  intro x hx
  have hne : x ≠ id := by
    rintro rfl
    exact h hx
  rw [mem_closedIds] at hx ⊢
  rw [Finmap.lookup_insert_of_ne _ hne]
  exact hx

theorem card_closedIds_le (h : id ∉ closedIds orders) (o : Order) :
    (closedIds orders).card ≤ (closedIds (orders.insert id o)).card :=
  Finset.card_le_card (closedIds_subset_insert h o)

theorem card_closedIds_lt (h : id ∉ closedIds orders) {o : Order} (ho : ¬ o.status.live) :
    (closedIds orders).card < (closedIds (orders.insert id o)).card := by
  apply Finset.card_lt_card
  refine ⟨closedIds_subset_insert h o, fun hback => h (hback ?_)⟩
  exact mem_closedIds.mpr ⟨o, Finmap.lookup_insert _, ho⟩

theorem notMem_closedIds_of_live {o : Order} (ho : orders.lookup id = some o)
    (hlive : o.status.live) : id ∉ closedIds orders := by
  rw [mem_closedIds]
  rintro ⟨o', ho', hclosed⟩
  obtain rfl : o = o' := Option.some.inj (ho.symm.trans ho')
  exact hclosed hlive

theorem notMem_closedIds_of_new (h : orders.lookup id = none) : id ∉ closedIds orders := by
  rw [mem_closedIds, h]
  rintro ⟨o, ho, -⟩
  cases ho

theorem Filed.card_closedIds_le {bound : ℕ} (h : Filed orders bound) :
    (closedIds orders).card ≤ bound := by
  have hsub : closedIds orders ⊆ Finset.range bound := by
    intro x hx
    obtain ⟨o, ho, -⟩ := mem_closedIds.mp hx
    exact Finset.mem_range.mpr (h x o ho).2
  have hcard := Finset.card_le_card hsub
  rwa [Finset.card_range] at hcard

end ClosedIds

/-- What `n` calls can have stored. Each fill closes the order that rested, or is the last one of
the order that came, so there are fewer executions than closed orders and orders in all. -/
structure Counted (n : ℕ) (m : OrderManager) : Prop where
  orders : m.nextOrderId ≤ n + 1
  executions : m.executions.length + 1 ≤ (closedIds m.orders).card + m.nextOrderId
  events : m.nextEventId ≤ 2 * m.executions.length + 3 * n + 1

theorem Counted.new (risk : RiskManager) (db : Option Database) (clock : ℕ → ℤ) :
    Counted 0 (OrderManager.new risk MatchingEngine.new db clock) :=
  ⟨le_rfl, Nat.le_add_left 1 _, le_rfl⟩

/-- The counts while the fills of an order are applied. -/
structure FlightCounts (n : ℕ) (m : OrderManager) (order : Order) : Prop where
  orders : m.nextOrderId ≤ n + 2
  executions : m.executions.length + (if order.remainingQty = 0 then 0 else 1) + 1 ≤
    (closedIds m.orders).card + m.nextOrderId
  events : m.nextEventId ≤ 2 * m.executions.length + 3 * n + 3

theorem applyFill_nextEventId {m : OrderManager} {order passive : Order} {fill : Fill}
    (hp : m.orders.lookup fill.passiveOrderId = some passive) :
    (m.applyFill order fill).1.nextEventId = m.nextEventId + 2 := by
  rw [applyFill_eq hp]
  rfl

theorem FlightCounts.applyFill {n : ℕ} {start order passive : Order} {m : OrderManager}
    {fill : Fill} (hs : FillStep start m order fill passive) (h : FlightCounts n m order) :
    FlightCounts n (m.applyFill order fill).1 (m.applyFill order fill).2 := by
  have hl := hs.lookup
  have hopen := notMem_closedIds_of_live hl hs.live
  have hleft : (m.applyFill order fill).2.remainingQty = order.remainingQty - fill.quantity := rfl
  have hne : order.remainingQty ≠ 0 := by
    have hpos := hs.quantity_pos
    have hle := hs.quantity_le
    omega
  have hexecutions := h.executions
  have hevents := h.events
  rw [if_neg hne] at hexecutions
  refine ⟨?_, ?_, ?_⟩
  · rw [applyFill_nextOrderId hl]
    exact h.orders
  · rw [applyFill_executions hl, applyFill_orders hl, applyFill_nextOrderId hl, hleft,
      List.length_append, List.length_singleton]
    obtain hlast | hlast := hs.exhausts
    · have hsame := card_closedIds_le hopen (passiveAfter passive fill m.now)
      rw [if_pos (by omega)]
      omega
    · have hfilled : ¬ (passiveAfter passive fill m.now).status.live := by
        have hstatus : (passiveAfter passive fill m.now).status = .filled :=
          if_pos (sub_eq_zero.mpr hlast.symm)
        rw [hstatus]
        decide
      have hless := card_closedIds_lt hopen hfilled
      split_ifs <;> omega
  · rw [applyFill_executions hl, applyFill_nextEventId hl, List.length_append,
      List.length_singleton]
    omega

theorem leftover_nextEventId_le (m : OrderManager) (order : Order) :
    (m.leftover order).nextEventId ≤ m.nextEventId + 1 := by
  unfold OrderManager.leftover
  split_ifs
  · exact le_rfl
  · exact Nat.le_succ _

section Counted

variable {n : ℕ} {m : OrderManager}

theorem Counted.place (h : Counted n m) (ha : Agrees m) {req : NewOrderRequest}
    (hv : validate req = .ok ()) : Counted (n + 1) (m.place req).2 := by
  obtain ⟨horders, hexecutions, hevents⟩ := h
  obtain ⟨m', order, hplace, hland, hq⟩ := ha.place_rule hv (Q := FlightCounts n)
    (fun engine created updated => by
      have hpos : (newOrder req m.nextOrderId .accepted created updated).remainingQty ≠ 0 :=
        (validate_ok hv).1.ne'
      refine ⟨Nat.succ_le_succ horders, ?_, Nat.add_le_add_right hevents 2⟩
      rw [if_neg hpos, accepted_executions, accepted_orders, accepted_nextOrderId]
      omega)
    fun _ _ _ _ _ hstep hq => hq.applyFill hstep
  have hcard := card_closedIds_le (notMem_closedIds_of_new hland.lookup_eq_none)
    (settledOrder order (m'.leftover order).now)
  have hleft := leftover_nextEventId_le m' order
  have hcount := hq.executions
  have hlast := hq.events
  rw [hplace]
  refine ⟨?_, ?_, ?_⟩
  · rw [settle_nextOrderId]
    exact hq.orders
  · rw [settle_executions, settle_orders, settle_nextOrderId]
    omega
  · rw [settle_executions]
    change (m'.leftover order).nextEventId ≤ _
    omega

theorem Counted.rejectByRisk (h : Counted n m) (ha : Agrees m) (req : NewOrderRequest)
    (err : OemsError) : Counted (n + 1) (m.rejectByRisk req err) := by
  obtain ⟨horders, hexecutions, hevents⟩ := h
  have hcard := card_closedIds_le (notMem_closedIds_of_new ha.filed.lookup_bound)
    (newOrder req m.nextOrderId .rejected m.now m.tick.now)
  refine ⟨?_, ?_, ?_⟩
  · rw [rejectByRisk_nextOrderId]
    exact Nat.succ_le_succ horders
  · rw [rejectByRisk_executions, rejectByRisk_orders, rejectByRisk_nextOrderId]
    omega
  · rw [rejectByRisk_executions]
    change m.nextEventId + 2 ≤ 2 * m.executions.length + 3 * (n + 1) + 1
    omega

theorem Counted.mono {n' : ℕ} (h : Counted n m) (hle : n ≤ n') : Counted n' m := by
  obtain ⟨horders, hexecutions, hevents⟩ := h
  exact ⟨by omega, hexecutions, by omega⟩

/-- One call adds an order at most, and three events besides those of its fills. -/
theorem Counted.step (h : Counted n m) (ha : Agrees m) (op : Op) :
    Counted (n + 1) (m.step op).2 := by
  obtain ⟨horders, hexecutions, hevents⟩ := id h
  cases op with
  | submit check req =>
    have hstep := submitStep check m req
    change Counted (n + 1) (m.submitOrder check req).2
    generalize m.submitOrder check req = r at hstep
    cases hstep with
    | invalid err _ => exact h.mono (Nat.le_succ n)
    | refused risk err _ _ =>
      have hrisk : Counted n { m with risk } := ⟨horders, hexecutions, hevents⟩
      exact hrisk.rejectByRisk (ha.withRisk risk) req err
    | placed risk hv _ =>
      have hrisk : Counted n { m with risk } := ⟨horders, hexecutions, hevents⟩
      exact hrisk.place (ha.withRisk risk) hv
  | cancel req =>
    have hstep := ha.cancelStep req
    change Counted (n + 1) (m.cancelOrder req).2
    generalize m.cancelOrder req = r at hstep
    cases hstep with
    | unknown _ => exact h.mono (Nat.le_succ n)
    | closed _ _ _ => exact h.mono (Nat.le_succ n)
    | notResting _ _ _ _ _ _ =>
      refine ⟨Nat.le_succ_of_le horders, hexecutions, ?_⟩
      rw [appendEvent_nextEventId, appendEvent_executions]
      omega
    | done order engine hl hid hs _ _ _ _ =>
      obtain ⟨now, hcancelled⟩ := withdraw_orders m order engine
      rw [← hid] at hl
      have hcard := card_closedIds_le (notMem_closedIds_of_live hl hs) (cancelledOrder order now)
      refine ⟨Nat.le_succ_of_le horders, ?_, ?_⟩
      · rw [withdraw_executions, hcancelled, withdraw_nextOrderId]
        omega
      · rw [withdraw_executions]
        change m.nextEventId + 2 ≤ _
        omega

/-- There is room for the ids of any run that could be made. -/
theorem Counted.ids_lt (h : Counted n m) (ha : Agrees m) (hn : n ≤ 2 ^ 60) :
    m.nextOrderId < 2 ^ 63 ∧ m.executions.length < 2 ^ 63 - 1 ∧ m.nextEventId < 2 ^ 63 := by
  have hcard := ha.filed.card_closedIds_le
  have horders := h.orders
  have hexecutions := h.executions
  have hevents := h.events
  omega

end Counted

def OrderManager.Op.Plain : Op → Prop
  | .submit _ req => 0 ∉ req.clientOrderId ∧ 0 ∉ req.symbol.value
  | .cancel _ => True

structure OrderManager.PlainTexts (m : OrderManager) : Prop where
  orders : ∀ id o, m.orders.lookup id = some o → 0 ∉ o.clientOrderId ∧ 0 ∉ o.symbol.value
  events : ∀ event ∈ m.events, 0 ∉ event.detail
  executions : ∀ fill ∈ m.executions, 0 ∉ fill.symbol.value

theorem nul_notMem_ofNat (n : ℕ) : 0 ∉ Decimal.ofNat n :=
  fun h => absurd (Decimal.isDigit_of_mem_ofNat h) (by decide)

theorem nul_notMem_ofInt (z : ℤ) : 0 ∉ Decimal.ofInt z := by
  cases z with
  | ofNat n => exact nul_notMem_ofNat n
  | negSucc n =>
    intro h
    obtain h | h := List.mem_cons.mp h
    · exact absurd h (by decide)
    · exact nul_notMem_ofNat (n + 1) h

theorem nul_notMem_detail (fill : Fill) : 0 ∉ fill.detail := by
  have hexec : (0 : UInt8) ∉ str "exec=" := by decide
  have hqty : (0 : UInt8) ∉ str " qty=" := by decide
  simp only [Fill.detail, List.mem_append, not_or]
  exact ⟨⟨⟨hexec, nul_notMem_ofNat _⟩, hqty⟩, nul_notMem_ofInt _⟩

theorem nul_notMem_errorName (err : OemsError) : 0 ∉ errorName err := by
  cases err <;> decide

theorem plainDetails_append {events new : List OrderEvent} (h : ∀ event ∈ events, 0 ∉ event.detail)
    (hnew : ∀ event ∈ new, 0 ∉ event.detail) : ∀ event ∈ events ++ new, 0 ∉ event.detail :=
  fun event he => (List.mem_append.mp he).elim (h event) (hnew event)

theorem OrderManager.PlainTexts.applyFill {start order passive : Order} {m : OrderManager}
    {fill : Fill} (hs : FillStep start m order fill passive) (h : m.PlainTexts) :
    (m.applyFill order fill).1.PlainTexts := by
  have hl := hs.lookup
  have hpassive := h.orders _ _ hl
  obtain ⟨now, now', hevents⟩ := applyFill_events order hl
  refine ⟨?_, ?_, ?_⟩
  · rw [applyFill_orders hl]
    exact forall_lookup_insert h.orders hpassive
  · rw [hevents]
    apply plainDetails_append h.events
    simp only [List.forall_mem_cons, nul_notMem_detail, not_false_eq_true, true_and]
    exact fun _ hx => absurd hx List.not_mem_nil
  · rw [applyFill_executions hl]
    intro x hx
    obtain hx | hx := List.mem_append.mp hx
    · exact h.executions x hx
    · rw [List.mem_singleton.mp hx, ← hs.fair.passiveSymbol]
      exact hpassive.2

theorem OrderManager.PlainTexts.settle {m : OrderManager} {order : Order} (h : m.PlainTexts)
    (horder : 0 ∉ order.clientOrderId ∧ 0 ∉ order.symbol.value) : (m.settle order).2.PlainTexts := by
  have hreason : (0 : UInt8) ∉ str "no liquidity for market order" := by decide
  refine ⟨?_, ?_, ?_⟩
  · rw [settle_orders]
    exact forall_lookup_insert h.orders horder
  · rw [settle_events]
    unfold OrderManager.leftover
    split_ifs
    · apply plainDetails_append h.events
      simp only [List.forall_mem_cons, hreason, not_false_eq_true, true_and]
      exact fun _ hx => absurd hx List.not_mem_nil
    · exact h.events
  · rw [settle_executions]
    exact h.executions

theorem plainTexts_stepInvariant : StepInvariant (fun _ op => op.Plain) PlainTexts where
  rejected := by
    intro m _ req risk err _ h hplain _
    obtain ⟨now, now', hevents⟩ := rejectByRisk_events { m with risk } req err
    refine ⟨?_, ?_, ?_⟩
    · rw [rejectByRisk_orders]
      exact forall_lookup_insert h.orders hplain
    · rw [hevents]
      apply plainDetails_append h.events
      simp only [List.forall_mem_cons, hplain.1, nul_notMem_errorName, not_false_eq_true, true_and]
      exact fun _ hx => absurd hx List.not_mem_nil
    · rw [rejectByRisk_executions]
      exact h.executions
  placed := by
    intro m _ req risk ha h hplain hv _
    obtain ⟨m', order, hplace, hland, hq⟩ := (ha.withRisk risk).place_rule hv
      (Q := fun m' _ => m'.PlainTexts)
      (fun engine created updated => by
        obtain ⟨now, now', hevents⟩ := accepted_events { m with risk } req engine
        refine ⟨h.orders, ?_, h.executions⟩
        rw [hevents]
        apply plainDetails_append h.events
        simp only [List.forall_mem_cons, hplain.1, List.not_mem_nil, not_false_eq_true, true_and]
        exact fun _ hx => hx.elim)
      fun _ _ _ _ _ hstep hq => hq.applyFill hstep
    obtain ⟨created, updated, hterms⟩ := hland.terms
    rw [hplace]
    apply hq.settle
    rw [hterms.clientOrderId, hterms.symbol]
    exact hplain
  notResting := by
    intro m order _ h _ _ _ _
    refine ⟨h.orders, ?_, h.executions⟩
    apply plainDetails_append h.events
    intro event hevent
    rw [List.mem_singleton.mp hevent]
    exact List.not_mem_nil
  withdrawn := by
    intro m order engine _ h _ hl _ _ _
    obtain ⟨now, horders⟩ := withdraw_orders m order engine
    obtain ⟨now₁, now₂, hevents⟩ := withdraw_events m order engine
    refine ⟨?_, ?_, h.executions⟩
    · rw [horders]
      have hplain := h.orders _ _ hl
      exact forall_lookup_insert h.orders hplain
    · rw [hevents]
      apply plainDetails_append h.events
      simp only [List.forall_mem_cons, List.not_mem_nil, not_false_eq_true, true_and]
      exact fun _ hx => hx.elim

end Oems
