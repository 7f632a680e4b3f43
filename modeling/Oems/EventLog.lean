import Oems.RunInvariants

namespace Oems

open Lib OrderManager

def eventsOf (events : List OrderEvent) (id : ℕ) : List OrderEvent :=
  events.filter fun event => event.orderId = id

section EventsOf

variable {events new : List OrderEvent} {id : ℕ}

theorem eventsOf_append_self (h : ∀ event ∈ new, event.orderId = id) :
    eventsOf (events ++ new) id = eventsOf events id ++ new := by
  rw [eventsOf, List.filter_append]
  congr 1
  rw [List.filter_eq_self]
  intro event he
  simpa using h event he

theorem eventsOf_append_of_ne (h : ∀ event ∈ new, event.orderId ≠ id) :
    eventsOf (events ++ new) id = eventsOf events id := by
  have hnil : new.filter (fun event => event.orderId = id) = [] := by
    rw [List.filter_eq_nil_iff]
    intro event he
    simpa using h event he
  rw [eventsOf, List.filter_append, hnil, List.append_nil]
  rfl

theorem eventsOf_eq_nil (h : ∀ event ∈ events, event.orderId < id) : eventsOf events id = [] := by
  have hnil : eventsOf ([] ++ events) id = eventsOf [] id :=
    eventsOf_append_of_ne fun event he => (h event he).ne
  exact hnil

theorem below_append {bound : ℕ} (h : ∀ event ∈ events, event.orderId < bound)
    (hnew : ∀ event ∈ new, event.orderId < bound) : ∀ event ∈ events ++ new, event.orderId < bound :=
  fun event he => (List.mem_append.mp he).elim (h event) (hnew event)

end EventsOf

/-- The events of each order of the table are related to it, and the log names
no order from `bound` on. -/
structure Logged (R : Order → List OrderEvent → Prop) (orders : OrderMap)
    (events : List OrderEvent) (bound : ℕ) : Prop where
  related : ∀ id o, orders.lookup id = some o → R o (eventsOf events id)
  below : ∀ event ∈ events, event.orderId < bound

namespace Logged

variable {R : Order → List OrderEvent → Prop} {orders : OrderMap} {events new : List OrderEvent}
  {bound id : ℕ} (h : Logged R orders events bound)
include h

theorem succ : Logged R orders events (bound + 1) :=
  ⟨h.related, fun event he => Nat.lt_succ_of_lt (h.below event he)⟩

theorem other (hnew : ∀ event ∈ new, event.orderId = id) (hl : orders.lookup id = none)
    (hlt : id < bound) : Logged R orders (events ++ new) bound where
  related := by
    intro id' o ho
    have hne : id ≠ id' := by
      rintro rfl
      simp [hl] at ho
    rw [eventsOf_append_of_ne fun event he => (hnew event he).trans_ne hne]
    exact h.related id' o ho
  below := below_append h.below fun event he => (hnew event he).trans_lt hlt

theorem insert {o : Order} (hnew : ∀ event ∈ new, event.orderId = id) (hlt : id < bound)
    (ho : R o (eventsOf events id ++ new)) :
    Logged R (orders.insert id o) (events ++ new) bound where
  related := by
    intro id' x hx
    by_cases he : id' = id
    · subst he
      rw [Finmap.lookup_insert] at hx
      cases hx
      rw [eventsOf_append_self hnew]
      exact ho
    · rw [Finmap.lookup_insert_of_ne _ he] at hx
      rw [eventsOf_append_of_ne fun event hmem => (hnew event hmem).trans_ne (Ne.symm he)]
      exact h.related id' x hx
  below := below_append h.below fun event he => (hnew event he).trans_lt hlt

end Logged

/-- What relates the events of an order to the order: `R` to an order of the
table, `R'` to one on its way through its fills. Each field is about the events
that one piece of code appends. -/
structure LogRule (C : OrderManager → Op → Prop) (R R' : Order → List OrderEvent → Prop) : Prop where
  rejected : ∀ req id created updated e e', e.type = .newRequested → e'.type = .rejected →
    R (newOrder req id .rejected created updated) [e, e']
  accepted : ∀ req id created updated e e', 0 < req.quantity → e.type = .newRequested →
    e'.type = .accepted → R' (newOrder req id .accepted created updated) [e, e']
  passive : ∀ start m order fill passive events e now, FillStep start m order fill passive →
    e.type = fillEvent (passive.remainingQty - fill.quantity) → e.detail = fill.detail →
      R passive events → R (passiveAfter passive fill now) (events ++ [e])
  aggressor : ∀ start m order fill passive events e, FillStep start m order fill passive →
    e.type = fillEvent (order.remainingQty - fill.quantity) → e.detail = fill.detail →
      R' order events → R' (fillOrder order fill) (events ++ [e])
  leftover : ∀ m check req risk m' order events e now, Agrees m → C m (.submit check req) →
    validate req = .ok () → check m.risk (riskRequest req) = (.ok (), risk) →
      Landed { m with risk } req m' order → order.remainingQty ≠ 0 → order.type = .market →
        ¬ 0 < order.filledQty → e.type = .rejected → R' order events →
          R (settledOrder order now) (events ++ [e])
  settled : ∀ m req m' order events now, Landed m req m' order → 0 < req.quantity →
    ¬ (order.remainingQty ≠ 0 ∧ order.type = .market ∧ ¬ 0 < order.filledQty) →
      R' order events → R (settledOrder order now) events
  notResting : ∀ m order events e, Agrees m → C m (.cancel ⟨order.internalId⟩) →
    m.orders.lookup order.internalId = some order → order.status.live → order.type = .market →
      e.type = .cancelRequested → R order events → R order (events ++ [e])
  withdrawn : ∀ order events e e' now, order.status.live → e.type = .cancelRequested →
    e'.type = .cancelled → R order events → R (cancelledOrder order now) (events ++ [e, e'])

/-- The log during the fills of an order. -/
structure FlightLog (R R' : Order → List OrderEvent → Prop) (m : OrderManager) (order : Order) :
    Prop where
  logged : Logged R m.orders m.events (order.internalId + 1)
  own : R' order (eventsOf m.events order.internalId)

section LogRule

variable {C : OrderManager → Op → Prop} {R R' : Order → List OrderEvent → Prop}
  (hR : LogRule C R R')
include hR

theorem LogRule.start {m : OrderManager} (ha : Agrees m)
    (h : Logged R m.orders m.events m.nextOrderId) {req : NewOrderRequest} (hq : 0 < req.quantity)
    (engine : MatchingEngine) (created updated : ℤ) :
    FlightLog R R' (m.accepted req engine)
      (newOrder req m.nextOrderId .accepted created updated) := by
  obtain ⟨now, now', hevents⟩ := accepted_events m req engine
  constructor
  · rw [hevents, accepted_orders]
    exact h.succ.other (by simp) ha.filed.lookup_bound (Nat.lt_succ_self _)
  · change R' _ (eventsOf _ m.nextOrderId)
    rw [hevents, eventsOf_append_self (by simp), eventsOf_eq_nil h.below]
    exact hR.accepted req _ created updated _ _ hq rfl rfl

theorem LogRule.applyFill {start order passive : Order} {m : OrderManager} {fill : Fill}
    (hs : FillStep start m order fill passive) (h : FlightLog R R' m order) :
    FlightLog R R' (m.applyFill order fill).1 (m.applyFill order fill).2 := by
  obtain ⟨now, now', hevents⟩ := applyFill_events order hs.lookup
  have hid := hs.passive_id
  have hlt := hs.passive_lt
  have hne : passive.internalId ≠ order.internalId := by omega
  rw [List.append_cons] at hevents
  constructor
  · rw [hevents, applyFill_orders hs.lookup]
    have hpassive := hR.passive _ _ _ _ _ _ ⟨m.nextEventId, passive.internalId,
      fillEvent (passive.remainingQty - fill.quantity), now, fill.detail⟩ m.now hs rfl rfl
        (h.logged.related _ _ hs.lookup)
    have hlogged := h.logged.insert (by simpa using hid) (Nat.lt_succ_of_lt hlt) hpassive
    have hnone : (m.orders.insert fill.passiveOrderId (passiveAfter passive fill m.now)).lookup
        order.internalId = none := by
      rw [Finmap.lookup_insert_of_ne _ (by omega)]
      exact hs.filed.lookup_bound
    exact hlogged.other (by simp) hnone (Nat.lt_succ_self _)
  · change R' _ (eventsOf _ order.internalId)
    rw [hevents, eventsOf_append_self (by simp), eventsOf_append_of_ne (by simpa using hne)]
    exact hR.aggressor _ _ _ _ _ _ _ hs rfl rfl h.own

theorem LogRule.settle {m m' : OrderManager} {check : RiskCheck} {req : NewOrderRequest}
    {risk : RiskManager} {order : Order} (ha : Agrees m) (hc : C m (.submit check req))
    (hv : validate req = .ok ()) (hok : check m.risk (riskRequest req) = (.ok (), risk))
    (hland : Landed { m with risk } req m' order) (h : FlightLog R R' m' order) :
    Logged R (m'.settle order).2.orders (m'.settle order).2.events (m'.settle order).2.nextOrderId := by
  have hbound : m'.nextOrderId = order.internalId + 1 := by
    rw [hland.nextOrderId, hland.internalId]
  rw [settle_orders, settle_events, settle_nextOrderId, hbound]
  unfold OrderManager.leftover
  split_ifs with hleft
  · obtain ⟨hrem, htype, hnone⟩ := hleft
    rw [appendEvent_events]
    refine h.logged.insert (by simp) (Nat.lt_succ_self _) ?_
    exact hR.leftover _ check req risk m' _ _ _ _ ha hc hv hok hland hrem htype hnone rfl h.own
  · refine ⟨forall_lookup_insert h.logged.related ?_, h.logged.below⟩
    exact hR.settled _ _ _ _ _ _ hland (validate_ok hv).1 hleft h.own

theorem LogRule.rejectByRisk {m : OrderManager}
    (h : Logged R m.orders m.events m.nextOrderId) (req : NewOrderRequest) (err : OemsError) :
    Logged R (m.rejectByRisk req err).orders (m.rejectByRisk req err).events
      (m.rejectByRisk req err).nextOrderId := by
  obtain ⟨now, now', hevents⟩ := rejectByRisk_events m req err
  rw [hevents, rejectByRisk_orders, rejectByRisk_nextOrderId]
  refine h.succ.insert (by simp) (Nat.lt_succ_self _) ?_
  rw [eventsOf_eq_nil h.below]
  exact hR.rejected req _ _ _ _ _ rfl rfl

/-- A relation that every piece of code keeps holds along every run. -/
theorem LogRule.stepInvariant :
    StepInvariant C fun m => Logged R m.orders m.events m.nextOrderId where
  rejected := fun m _ req risk err _ h _ _ =>
    hR.rejectByRisk (m := { m with risk }) h req err
  placed := by
    intro m check req risk ha h hc hv hok
    have har := ha.withRisk risk
    obtain ⟨m', order, hplace, hland, hlog⟩ := har.place_rule hv (Q := FlightLog R R')
      (hR.start har h (validate_ok hv).1) fun _ _ _ _ _ hs hlog => hR.applyFill hs hlog
    rw [hplace]
    exact hR.settle ha hc hv hok hland hlog
  notResting := by
    intro m order ha h hc hl hs ht
    have hsay := hR.notResting m order _ ⟨m.nextEventId, order.internalId, .cancelRequested, m.now, []⟩
      ha hc hl hs ht rfl (h.related _ _ hl)
    rw [appendEvent_events, appendEvent_orders, appendEvent_nextOrderId, ← insert_of_lookup hl]
    exact h.insert (by simp) (ha.filed _ _ hl).2 hsay
  withdrawn := by
    intro m order engine ha h _ hl hs _ _
    obtain ⟨now, horders⟩ := withdraw_orders m order engine
    obtain ⟨now', now'', hevents⟩ := withdraw_events m order engine
    have hsay := hR.withdrawn order _ ⟨m.nextEventId, order.internalId, .cancelRequested, now', []⟩
      ⟨m.nextEventId + 1, order.internalId, .cancelled, now'', []⟩ now hs rfl rfl (h.related _ _ hl)
    rw [horders, hevents, withdraw_nextOrderId]
    exact h.insert (by simp) (ha.filed _ _ hl).2 hsay

end LogRule

theorem logged_new (R : Order → List OrderEvent → Prop) (risk : RiskManager) (db : Option Database)
    (clock : ℕ → ℤ) : Logged R (OrderManager.new risk MatchingEngine.new db clock).orders
      (OrderManager.new risk MatchingEngine.new db clock).events
      (OrderManager.new risk MatchingEngine.new db clock).nextOrderId where
  related := fun id o ho => by simp [OrderManager.new] at ho
  below := fun event he => by simp [OrderManager.new] at he

end Oems
