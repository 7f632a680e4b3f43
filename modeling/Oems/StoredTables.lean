import Oems.RunInvariants

namespace Oems

open Lib OrderManager

theorem exec_appendEvent_free {t : Tables} {event : OrderEvent}
    (h : t.orderEvents.find event.eventId = none) : t.exec (.appendEvent event) =
      { t with orderEvents := t.orderEvents.insert event.eventId event } := by
  rw [Tables.exec, h]

theorem exec_appendEvent_taken {t : Tables} {event e : OrderEvent}
    (h : t.orderEvents.find event.eventId = some e) : t.exec (.appendEvent event) = t := by
  rw [Tables.exec, h]

/-- The tables hold what the manager holds in memory. -/
structure Mirrors (t : Tables) (orders : OrderMap) (events : List OrderEvent)
    (executions : List Fill) : Prop where
  orders : ∀ id, t.orders.find id = orders.lookup id
  events : t.orderEvents.entries = events.map fun event => ⟨event.eventId, event⟩
  executions : t.executions.entries = executions.map fun fill => ⟨fill.executionId, fill⟩

section Mirrors

variable {t : Tables} {orders : OrderMap} {events : List OrderEvent} {executions : List Fill}
  (h : Mirrors t orders events executions)
include h

theorem Mirrors.saveOrder (order : Order) :
    Mirrors (t.exec (.saveOrder order)) (orders.insert order.internalId order) events
      executions where
  orders := by
    intro id
    change (t.orders.insert order.internalId order).find id = _
    by_cases hid : id = order.internalId
    · rw [hid, OrdMap.find_insert, Finmap.lookup_insert]
    · rw [OrdMap.find_insert_of_ne _ _ hid, Finmap.lookup_insert_of_ne _ hid]
      exact h.orders id
  events := h.events
  executions := h.executions

theorem Mirrors.event_keys_lt {bound : ℕ} (hid : ∀ e ∈ events, e.eventId < bound) :
    ∀ x ∈ t.orderEvents.entries.keys, x < bound := by
  intro x hx
  rw [h.events, List.keys, List.map_map] at hx
  obtain ⟨e, he, rfl⟩ := List.mem_map.mp hx
  exact hid e he

theorem Mirrors.execution_keys_lt {bound : ℕ} (hid : ∀ f ∈ executions, f.executionId < bound) :
    ∀ x ∈ t.executions.entries.keys, x < bound := by
  intro x hx
  rw [h.executions, List.keys, List.map_map] at hx
  obtain ⟨f, hf, rfl⟩ := List.mem_map.mp hx
  exact hid f hf

theorem Mirrors.appendEvent {event : OrderEvent} (hid : ∀ e ∈ events, e.eventId < event.eventId) :
    Mirrors (t.exec (.appendEvent event)) orders (events ++ [event]) executions := by
  have hkeys := h.event_keys_lt hid
  have hfree : t.orderEvents.find event.eventId = none :=
    OrdMap.find_eq_none_iff.mpr fun hx => absurd (hkeys _ hx) (lt_irrefl _)
  rw [exec_appendEvent_free hfree]
  refine ⟨h.orders, ?_, h.executions⟩
  rw [OrdMap.entries_insert_of_last _ hkeys, h.events, List.map_append]
  rfl

theorem Mirrors.saveExecution {fill : Fill}
    (hid : ∀ f ∈ executions, f.executionId < fill.executionId) :
    Mirrors (t.exec (.saveExecution fill)) orders events (executions ++ [fill]) := by
  have hkeys := h.execution_keys_lt hid
  refine ⟨h.orders, h.events, ?_⟩
  change (t.executions.insert fill.executionId fill).entries = _
  rw [OrdMap.entries_insert_of_last _ hkeys, h.executions, List.map_append]
  rfl

end Mirrors

theorem tables_exec (d : Database) (st : Statement) : (d.exec st).tables = d.tables.exec st :=
  List.foldl_concat ..

/-- Records numbered from 1 on. -/
def Consecutive (ids : List ℕ) : Prop := ids = List.range' 1 ids.length

theorem Consecutive.concat {ids : List ℕ} (h : Consecutive ids) {id : ℕ}
    (hid : id = ids.length + 1) : Consecutive (ids ++ [id]) := by
  have hlen : (ids ++ [id]).length = ids.length + 1 := List.length_append
  unfold Consecutive at h ⊢
  rw [hlen, List.range'_concat, ← h, hid, one_mul, add_comm 1]

theorem Consecutive.lt {ids : List ℕ} (h : Consecutive ids) {id : ℕ} (hid : id ∈ ids) :
    id < ids.length + 1 := by
  rw [h, List.mem_range'_1] at hid
  omega

structure Mirrored (orders : OrderMap) (m : OrderManager) : Prop where
  db : DbHolds (fun d => Mirrors d.tables orders m.events m.executions) m
  eventIds : Consecutive (m.events.map OrderEvent.eventId)
  nextEventId : m.nextEventId = m.events.length + 1
  executionIds : Consecutive (m.executions.map Fill.executionId)

namespace Mirrored

variable {orders : OrderMap} {m : OrderManager} (h : Mirrored orders m)
include h

theorem eventId_lt : ∀ e ∈ m.events, e.eventId < m.nextEventId := by
  intro e he
  have hlt := h.eventIds.lt (List.mem_map_of_mem he)
  rw [List.length_map, ← h.nextEventId] at hlt
  exact hlt

theorem executionId_lt : ∀ f ∈ m.executions, f.executionId < m.executions.length + 1 := by
  intro f hf
  have hlt := h.executionIds.lt (List.mem_map_of_mem hf)
  rw [List.length_map] at hlt
  exact hlt

theorem appendEvent (id : ℕ) (type : EventType) (detail : Str) :
    Mirrored orders (m.appendEvent id type detail) := by
  constructor
  · have hd : DbHolds (fun d => Mirrors d.tables orders
        (m.events ++ [⟨m.nextEventId, id, type, m.now, detail⟩]) m.executions)
        (m.appendEvent id type detail) := by
      refine DbHolds.write (m := { m.tick with nextEventId := m.nextEventId + 1, events := _ }) h.db ?_
      intro d hd
      rw [tables_exec]
      exact hd.appendEvent h.eventId_lt
    exact hd
  · rw [appendEvent_events, List.map_append]
    apply h.eventIds.concat
    rw [List.length_map]
    exact h.nextEventId
  · rw [appendEvent_nextEventId, appendEvent_events, List.length_append, h.nextEventId]
    rfl
  · exact h.executionIds

theorem saveOrder {id : ℕ} {order : Order} (hid : order.internalId = id) :
    Mirrored (orders.insert id order) (m.saveOrder order) where
  db := by
    subst hid
    refine DbHolds.saveOrder h.db fun d hd => ?_
    rw [tables_exec]
    exact hd.saveOrder order
  eventIds := h.eventIds
  nextEventId := h.nextEventId
  executionIds := h.executionIds

theorem saveExecution {fill : Fill} (hid : fill.executionId = m.executions.length + 1) :
    Mirrored orders ({ m with executions := m.executions ++ [fill] }.write (.saveExecution fill)) := by
  have hlt := h.executionId_lt
  rw [← hid] at hlt
  constructor
  · have hd : DbHolds (fun d => Mirrors d.tables orders m.events (m.executions ++ [fill]))
        ({ m with executions := m.executions ++ [fill] }.write (.saveExecution fill)) := by
      refine DbHolds.write (m := { m with executions := _ }) h.db ?_
      intro d hd
      rw [tables_exec]
      exact hd.saveExecution hlt
    exact hd
  · exact h.eventIds
  · exact h.nextEventId
  · rw [write_executions, List.map_append]
    apply h.executionIds.concat
    rw [List.length_map]
    exact hid

end Mirrored

/-- What the three writes have to keep of a database and an order table. Orders are only
stored anew or on the terms they have. -/
structure WriteRule (Q : OrderMap → OrderManager → Prop) : Prop where
  same : ∀ {orders m m'}, Q orders m → m'.db = m.db → m'.events = m.events →
    m'.nextEventId = m.nextEventId → m'.executions = m.executions → Q orders m'
  appendEvent : ∀ {orders m} id type detail, Q orders m → Q orders (m.appendEvent id type detail)
  saveOrder : ∀ {orders m} order, (∀ o, orders.lookup order.internalId = some o → SameTerms o order) →
    Q orders m → Q (orders.insert order.internalId order) (m.saveOrder order)
  saveExecution : ∀ {orders m fill}, fill.executionId = m.executions.length + 1 → Q orders m →
    Q orders ({ m with executions := m.executions ++ [fill] }.write (.saveExecution fill))

namespace WriteRule

variable {Q : OrderMap → OrderManager → Prop} (hQ : WriteRule Q) {m : OrderManager} {order : Order}
include hQ

theorem applyFill {start passive : Order} {fill : Fill} (hs : FillStep start m order fill passive)
    (h : Q m.orders m) : Q (m.applyFill order fill).1.orders (m.applyFill order fill).1 := by
  have hrecord := hQ.saveExecution hs.executionId h
  have hlookup := hs.lookup
  have hid := hs.passive_id
  rw [applyFill_orders hlookup, applyFill_eq hlookup]
  apply hQ.appendEvent
  rw [← hid] at hlookup ⊢
  refine hQ.saveOrder (passiveAfter passive fill m.now) ?_
    (hQ.appendEvent _ _ _ (hQ.same hrecord rfl rfl rfl rfl))
  intro o ho
  obtain rfl : passive = o := Option.some.inj (hlookup.symm.trans ho)
  exact sameTerms_passiveAfter passive fill m.now

theorem accepted (h : Q m.orders m) (req : NewOrderRequest) (engine : MatchingEngine) :
    Q (m.accepted req engine).orders (m.accepted req engine) := by
  have hticked : Q m.orders { m.tick with nextOrderId := m.nextOrderId + 1 } :=
    hQ.same h rfl rfl rfl rfl
  have hrequest : Q m.orders (m.request req).2 := hQ.appendEvent _ _ _ hticked
  have htaken : Q m.orders { (m.request req).2.tick with engine }.tick :=
    hQ.same hrequest rfl rfl rfl rfl
  exact hQ.appendEvent _ _ _ htaken

theorem leftover {orders : OrderMap} (h : Q orders m) (order : Order) :
    Q orders (m.leftover order) := by
  unfold OrderManager.leftover
  split_ifs
  · exact hQ.appendEvent _ _ _ h
  · exact h

theorem settle (hnew : m.orders.lookup order.internalId = none) (h : Q m.orders m) :
    Q (m.settle order).2.orders (m.settle order).2 := by
  rw [settle_orders, settle_eq]
  refine hQ.saveOrder (settledOrder order _) ?_
    (hQ.same (hQ.leftover h order) rfl rfl rfl rfl)
  intro o ho
  simp [settledOrder, hnew] at ho

theorem rejectByRisk (hnew : m.orders.lookup m.nextOrderId = none) (h : Q m.orders m)
    (req : NewOrderRequest) (err : OemsError) :
    Q (m.rejectByRisk req err).orders (m.rejectByRisk req err) := by
  rw [rejectByRisk_orders]
  unfold OrderManager.rejectByRisk
  refine hQ.saveOrder (newOrder req m.nextOrderId .rejected m.now m.tick.now) ?_
    (hQ.appendEvent _ _ _ (hQ.appendEvent _ _ _ (hQ.same h rfl rfl rfl rfl)))
  intro o ho
  simp [newOrder, hnew] at ho

theorem withdraw (hl : m.orders.lookup order.internalId = some order) (h : Q m.orders m)
    (engine : MatchingEngine) : Q (m.withdraw order engine).2.orders (m.withdraw order engine).2 := by
  have hrequested := hQ.appendEvent order.internalId .cancelRequested [] h
  change Q (m.orders.insert order.internalId (cancelledOrder order
    (m.appendEvent order.internalId .cancelRequested []).now)) _
  unfold OrderManager.withdraw
  refine hQ.saveOrder (cancelledOrder order _) ?_
    (hQ.appendEvent _ _ _ (hQ.same hrequested rfl rfl rfl rfl))
  intro o ho
  obtain rfl : order = o := Option.some.inj (hl.symm.trans ho)
  exact sameTerms_cancelledOrder order _

theorem stepInvariant : StepInvariant Always fun m => Q m.orders m where
  rejected := fun m _ req risk err ha h _ _ =>
    hQ.rejectByRisk (m := { m with risk }) ha.filed.lookup_bound (hQ.same h rfl rfl rfl rfl) req err
  placed := by
    intro m _ req risk ha h _ hv _
    have hr : Q m.orders { m with risk } := hQ.same h rfl rfl rfl rfl
    obtain ⟨m', order, hplace, hland, hq⟩ := (ha.withRisk risk).place_rule hv
      (Q := fun m' _ => Q m'.orders m')
      (fun engine _ _ => hQ.accepted (m := { m with risk }) hr req engine)
      fun _ _ _ _ _ hs hq => hQ.applyFill hs hq
    rw [hplace]
    exact hQ.settle hland.lookup_eq_none hq
  notResting := fun m order _ h _ _ _ _ => hQ.appendEvent _ _ _ h
  withdrawn := fun m order engine _ h _ hl _ _ _ => hQ.withdraw hl h engine

end WriteRule

theorem mirrored_writeRule : WriteRule Mirrored where
  same := by
    intro orders m m' h hdb hevents hnext hexecutions
    refine ⟨?_, ?_, ?_, ?_⟩
    · intro d hd
      rw [hdb] at hd
      rw [hevents, hexecutions]
      exact h.db d hd
    · rw [hevents]
      exact h.eventIds
    · rw [hnext, hevents]
      exact h.nextEventId
    · rw [hexecutions]
      exact h.executionIds
  appendEvent := fun id type detail h => h.appendEvent id type detail
  saveOrder := fun _ _ h => h.saveOrder rfl
  saveExecution := fun hid h => h.saveExecution hid

theorem mirrored_stepInvariant : StepInvariant Always fun m => Mirrored m.orders m :=
  mirrored_writeRule.stepInvariant

/-- The order before the next id is in the table. -/
def Tip (m : OrderManager) : Prop :=
  m.nextOrderId = 1 ∨ ∃ id o, m.nextOrderId = id + 1 ∧ m.orders.lookup id = some o

theorem Tip.of_insert {m : OrderManager} {orders : OrderMap} {id : ℕ} {o : Order}
    (hn : m.nextOrderId = id + 1) (ho : m.orders = orders.insert id o) : Tip m :=
  Or.inr ⟨id, o, hn, by rw [ho, Finmap.lookup_insert]⟩

theorem tip_stepInvariant : StepInvariant Always Tip where
  rejected := fun m _ req risk err _ _ _ _ =>
    Tip.of_insert (rejectByRisk_nextOrderId _ _ _) (rejectByRisk_orders _ _ _)
  placed := by
    intro m _ req risk ha _ _ hv _
    obtain ⟨m', order, hplace, hland, _⟩ := (ha.withRisk risk).place_rule hv
      (Q := fun _ _ => True) (fun _ _ _ => trivial) fun _ _ _ _ _ _ _ => trivial
    have hnext : (m'.settle order).2.nextOrderId = order.internalId + 1 := by
      rw [settle_nextOrderId, hland.nextOrderId, hland.internalId]
    rw [hplace]
    exact Tip.of_insert hnext (settle_orders _ _)
  notResting := fun _ _ _ h _ _ _ _ => h
  withdrawn := by
    intro m order engine _ h _ _ _ _ _
    obtain ⟨now, horders⟩ := withdraw_orders m order engine
    obtain h | ⟨id, o, hnext, ho⟩ := h
    · exact Or.inl h
    · unfold Tip
      rw [horders, withdraw_nextOrderId]
      by_cases hid : id = order.internalId
      · exact Or.inr ⟨id, _, hnext, by rw [hid, Finmap.lookup_insert]⟩
      · exact Or.inr ⟨id, o, hnext, by rw [Finmap.lookup_insert_of_ne _ hid, ho]⟩

end Oems
