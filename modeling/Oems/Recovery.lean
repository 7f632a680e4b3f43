import Oems.StoredTables

namespace Oems

open Lib OrderManager

/-- The order table that the loop over stored orders builds. -/
def orderTable (orders : OrderMap) (stored : List Order) : OrderMap :=
  stored.foldl (fun orders order => orders.insert order.internalId order) orders

theorem lookup_orderTable {stored : List Order} (hs : (stored.map Order.internalId).Nodup)
    (orders : OrderMap) (id : ℕ) (o : Order) :
    (orderTable orders stored).lookup id = some o ↔
      (o ∈ stored ∧ o.internalId = id) ∨
        (id ∉ stored.map Order.internalId ∧ orders.lookup id = some o) := by
  induction stored generalizing orders with
  | nil => simp [orderTable]
  | cons x stored ih =>
    obtain ⟨hx, hs⟩ := List.nodup_cons.mp hs
    change (orderTable (orders.insert x.internalId x) stored).lookup id = some o ↔ _
    rw [ih hs]
    by_cases he : id = x.internalId
    · subst he
      rw [Finmap.lookup_insert]
      constructor
      · rintro (⟨ho, hid⟩ | ⟨_, ho⟩)
        · exact Or.inl ⟨List.mem_cons_of_mem _ ho, hid⟩
        · cases ho
          exact Or.inl ⟨List.mem_cons_self, rfl⟩
      · rintro (⟨ho, hid⟩ | ⟨hn, _⟩)
        · obtain rfl | ho := List.mem_cons.mp ho
          · exact Or.inr ⟨hx, rfl⟩
          · exact absurd (hid ▸ List.mem_map_of_mem ho) hx
        · exact absurd List.mem_cons_self hn
    · rw [Finmap.lookup_insert_of_ne _ he]
      have hne : ¬ (o = x ∧ o.internalId = id) := by
        rintro ⟨rfl, hid⟩
        exact he hid.symm
      simp only [List.mem_cons, List.map_cons, not_or]
      tauto

theorem liveOrders_of_le {orders : OrderMap} {k bound : ℕ} (h : Filed orders k) (hle : k ≤ bound)
    (symbol : Symbol) : liveOrders orders bound symbol = liveOrders orders k symbol := by
  induction bound, hle using Nat.le_induction with
  | base => rfl
  | succ bound hle ih =>
    have hnone : orders.lookup bound = none := by
      cases hl : orders.lookup bound with
      | none => rfl
      | some o =>
        have hlt := (h _ _ hl).2
        omega
    rw [liveOrders_succ, hnone, Option.bind_none, Option.toList_none, List.append_nil, ih]

theorem restoreOrders_step {m : OrderManager} {k : ℕ} (hf : Filed m.orders k)
    (he : EngineRefines m.engine (liveOrders m.orders k)) {o : Order} (hk : Kept o)
    (hge : k ≤ o.internalId) (stored : List Order) :
    ∃ engine, m.restoreOrders (o :: stored) =
        { m with engine, orders := m.orders.insert o.internalId o }.restoreOrders stored ∧
      engine.nextExecutionId = m.engine.nextExecutionId ∧
      EngineRefines engine (liveOrders (m.orders.insert o.internalId o) (o.internalId + 1)) := by
  have hlive : ∀ s, liveOrders (m.orders.insert o.internalId o) (o.internalId + 1) s =
      liveOrders m.orders k s ++ (restingOf s o).toList := by
    intro s
    rw [liveOrders_succ, liveOrders_insert_new, Finmap.lookup_insert, Option.bind_some,
      liveOrders_of_le hf hge]
  by_cases hl : (o.status = .accepted ∨ o.status = .partiallyFilled) ∧ o.type = .limit ∧
      o.remainingQty > 0
  · obtain ⟨hlives, hlimit, hqty⟩ := hl
    have hnew : Keyed.find (fun r : RestingOrder => r.id) o.internalId
        (liveOrders m.orders k o.symbol) = none := by
      rw [← liveOrders_of_le hf hge, find_liveOrders (fun id x hx =>
        ⟨(hf id x hx).1, (hf id x hx).2.trans_le hge⟩)]
      cases hlook : m.orders.lookup o.internalId with
      | none => rfl
      | some x =>
        have hlt := (hf _ _ hlook).2
        omega
    obtain ⟨hok, hnext, hrefines⟩ := he.restoreRestingOrder hlimit hqty (hk.price_pos hlimit) hnew
    refine ⟨(m.engine.restoreRestingOrder o).2, ?_, hnext, ?_⟩
    · rw [OrderManager.restoreOrders, if_pos ⟨hlives, hlimit, hqty⟩]
      simp only [setOrder_engine]
      generalize m.engine.restoreRestingOrder o = r at hok
      obtain ⟨res, engine⟩ := r
      cases hok
      rfl
    · refine Eq.subst (motive := EngineRefines _) ?_ hrefines
      funext s
      rw [hlive s]
      by_cases hs : s = o.symbol
      · have hrest : restingOf o.symbol o =
            some ⟨⟨o.internalId, o.side, o.price, o.remainingQty⟩, hqty⟩ :=
          restingOf_eq_some_iff.mpr ⟨⟨rfl, hlimit, hlives⟩, rfl⟩
        rw [hs, Function.update_self, hrest]
        rfl
      · rw [Function.update_of_ne hs, restingOf_eq_none fun hc => hs hc.1.symm, Option.toList_none,
          List.append_nil]
  · refine ⟨m.engine, ?_, rfl, ?_⟩
    · rw [OrderManager.restoreOrders, if_neg hl]
      rfl
    · refine Eq.subst (motive := EngineRefines _) ?_ he
      funext s
      have hnone : restingOf s o = none := dif_neg fun hc => hl ⟨hc.2.2.1, hc.2.1, hc.2.2.2⟩
      rw [hlive s, hnone, Option.toList_none, List.append_nil]

theorem restoreOrders_ok (stored : List Order) {m : OrderManager} {k : ℕ} (hf : Filed m.orders k)
    (he : EngineRefines m.engine (liveOrders m.orders k))
    (hsorted : (stored.map Order.internalId).Pairwise (· < ·))
    (hge : ∀ o ∈ stored, k ≤ o.internalId) (hkept : ∀ o ∈ stored, Kept o) :
    ∃ engine k', m.restoreOrders stored =
        (.ok (), { m with engine, orders := orderTable m.orders stored }) ∧
      engine.nextExecutionId = m.engine.nextExecutionId ∧
      Filed (orderTable m.orders stored) k' ∧
      EngineRefines engine (liveOrders (orderTable m.orders stored) k') := by
  induction stored generalizing m k with
  | nil => exact ⟨m.engine, k, rfl, rfl, hf, he⟩
  | cons o stored ih =>
    obtain ⟨hlt, hsorted⟩ := List.pairwise_cons.mp hsorted
    have ho := hge o (by simp)
    obtain ⟨engine, hstep, hnext, hrefines⟩ :=
      restoreOrders_step hf he (hkept o (by simp)) ho stored
    have hf' : Filed (m.orders.insert o.internalId o) (o.internalId + 1) :=
      Filed.insert (fun id x hx => ⟨(hf id x hx).1, by have hid := (hf id x hx).2; omega⟩) rfl
        (Nat.lt_succ_self _)
    obtain ⟨engine', k', hrest, hnext', hfiled, hrefines'⟩ :=
      ih (m := { m with engine, orders := m.orders.insert o.internalId o }) hf' hrefines hsorted
        (fun x hx => hlt _ (List.mem_map_of_mem hx)) fun x hx => hkept x (by simp [hx])
    refine ⟨engine', k', ?_, hnext'.trans hnext, hfiled, hrefines'⟩
    rw [hstep, hrest]
    rfl

/-- What `RestoreFromDatabase` makes of a new manager, the engine aside. -/
def restored (risk : RiskManager) (clock : ℕ → ℤ) (d : Database) (engine : MatchingEngine) :
    OrderManager where
  risk := risk
  engine := engine
  db := some d
  nextOrderId := maxId (d.tables.orders.values.map Order.internalId) + 1
  nextEventId := maxId (d.tables.orderEvents.values.map OrderEvent.eventId) + 1
  orders := orderTable ∅ d.tables.orders.values
  events := d.tables.orderEvents.values
  executions := d.tables.executions.values
  clock := clock

theorem restoreFromDatabase_ok (risk : RiskManager) (clock : ℕ → ℤ) (d : Database)
    (hsorted : (d.tables.orders.values.map Order.internalId).Pairwise (· < ·))
    (hkept : ∀ o ∈ d.tables.orders.values, Kept o) :
    ∃ engine k, (OrderManager.new risk MatchingEngine.new (some d) clock).restoreFromDatabase =
        (.ok (), restored risk clock d engine) ∧
      engine.nextExecutionId = maxId (d.tables.executions.values.map Fill.executionId) + 1 ∧
      Filed (orderTable ∅ d.tables.orders.values) k ∧
      EngineRefines engine (liveOrders (orderTable ∅ d.tables.orders.values) k) := by
  obtain ⟨engine, k, hok, hnext, hfiled, hrefines⟩ :=
    restoreOrders_ok d.tables.orders.values (k := 0)
      (m := { OrderManager.new risk MatchingEngine.new (some d) clock with
        events := d.tables.orderEvents.values
        executions := d.tables.executions.values
        engine := MatchingEngine.new.seedNextExecutionId
          (maxId (d.tables.executions.values.map Fill.executionId) + 1) })
      (fun id o ho => by simp [OrderManager.new] at ho) EngineRefines.new hsorted
      (fun _ _ => Nat.zero_le _) hkept
  refine ⟨engine, k, ?_, hnext.trans (max_eq_right (by omega)), hfiled, hrefines⟩
  unfold OrderManager.restoreFromDatabase
  simp only [OrderManager.new, Database.loadOrders, Database.loadAllEvents, Database.loadExecutions]
  simp only [OrderManager.new] at hok
  rw [hok]
  rfl

theorem foldl_max_le_iff {ids : List ℕ} {a b : ℕ} :
    ids.foldl max a ≤ b ↔ a ≤ b ∧ ∀ id ∈ ids, id ≤ b := by
  induction ids generalizing a with
  | nil => simp
  | cons id ids ih => simp [ih, and_assoc]

theorem maxId_le_iff {ids : List ℕ} {b : ℕ} : maxId ids ≤ b ↔ ∀ id ∈ ids, id ≤ b := by
  rw [maxId, foldl_max_le_iff]
  exact and_iff_right (Nat.zero_le b)

theorem le_maxId {ids : List ℕ} {id : ℕ} (h : id ∈ ids) : id ≤ maxId ids :=
  maxId_le_iff.mp (le_refl _) id h

theorem Consecutive.maxId {ids : List ℕ} (h : Consecutive ids) : maxId ids = ids.length := by
  apply le_antisymm
  · rw [maxId_le_iff]
    intro id hid
    have hlt := h.lt hid
    omega
  · by_cases hnil : ids.length = 0
    · omega
    · apply le_maxId
      rw [h, List.length_range', List.mem_range'_1]
      omega

section Mirrors

variable {t : Tables} {orders : OrderMap} {events : List OrderEvent} {executions : List Fill}
  (h : Mirrors t orders events executions)
include h

theorem Mirrors.events_values : t.orderEvents.values = events := by
  rw [OrdMap.values, h.events, List.map_map]
  exact List.map_id _

theorem Mirrors.executions_values : t.executions.values = executions := by
  rw [OrdMap.values, h.executions, List.map_map]
  exact List.map_id _

theorem Mirrors.mem_orders {bound : ℕ} (hf : Filed orders bound) (o : Order) :
    o ∈ t.orders.values ↔ orders.lookup o.internalId = some o := by
  rw [OrdMap.mem_values_iff]
  constructor
  · rintro ⟨id, hl⟩
    rw [h.orders] at hl
    rw [(hf _ _ hl).1, hl]
  · intro hl
    exact ⟨_, (h.orders _).trans hl⟩

theorem Mirrors.ids_sorted {bound : ℕ} (hf : Filed orders bound) :
    (t.orders.values.map Order.internalId).Pairwise (· < ·) := by
  have hkeys : t.orders.values.map Order.internalId = t.orders.entries.keys := by
    rw [OrdMap.values, List.map_map, List.keys]
    apply List.map_congr_left
    rintro ⟨id, o⟩ he
    have hl := OrdMap.find_eq_some_iff.mpr he
    rw [h.orders] at hl
    exact (hf _ _ hl).1
  rw [hkeys]
  exact t.orders.sorted

theorem Mirrors.orderTable_eq {bound : ℕ} (hf : Filed orders bound) :
    orderTable ∅ t.orders.values = orders := by
  apply Finmap.ext_lookup
  intro id
  apply Option.ext
  intro o
  rw [lookup_orderTable ((h.ids_sorted hf).imp fun hlt => hlt.ne), h.mem_orders hf]
  constructor
  · rintro (⟨hl, rfl⟩ | ⟨_, hl⟩)
    · exact hl
    · simp at hl
  · intro hl
    have hid := (hf _ _ hl).1
    exact Or.inl ⟨hid ▸ hl, hid⟩

theorem Mirrors.maxId_orders {m : OrderManager} (hm : m.orders = orders)
    (hf : Filed orders m.nextOrderId) (ht : Tip m) :
    maxId (t.orders.values.map Order.internalId) + 1 = m.nextOrderId := by
  have hle : maxId (t.orders.values.map Order.internalId) ≤ m.nextOrderId - 1 := by
    rw [maxId_le_iff]
    intro id hid
    obtain ⟨o, ho, rfl⟩ := List.mem_map.mp hid
    have hlt := (hf _ _ ((h.mem_orders hf o).mp ho)).2
    omega
  obtain ht | ⟨id, o, ht, hl⟩ := ht
  · omega
  · rw [hm] at hl
    have hid := (hf _ _ hl).1
    rw [← hid] at hl
    have hge := le_maxId (List.mem_map_of_mem (f := Order.internalId) ((h.mem_orders hf o).mpr hl))
    omega

end Mirrors

/-- A manager whose database has seen all its writes. -/
structure Durable (m : OrderManager) : Prop where
  agrees : Agrees m
  mirrored : Mirrored m.orders m
  tip : Tip m

structure SameMemory (m m' : OrderManager) : Prop where
  orders : m'.orders = m.orders
  events : m'.events = m.events
  executions : m'.executions = m.executions
  nextOrderId : m'.nextOrderId = m.nextOrderId
  nextEventId : m'.nextEventId = m.nextEventId
  nextExecutionId : m'.engine.nextExecutionId = m.engine.nextExecutionId

/-- A restart of a manager: the tables, the log and the counters come back, and the
books hold the live orders of the table. -/
theorem Durable.restart {m : OrderManager} (h : Durable m) {d d' : Database} (hd : m.db = some d)
    (hd' : d'.tables = d.tables) (risk : RiskManager) (clock : ℕ → ℤ) :
    ∃ m', (OrderManager.new risk MatchingEngine.new (some d') clock).restoreFromDatabase =
        (.ok (), m') ∧ m'.db = some d' ∧ SameMemory m m' ∧ Durable m' := by
  have hmirror : Mirrors d.tables m.orders m.events m.executions := h.mirrored.db d hd
  have hfiled := h.agrees.filed
  rw [← hd'] at hmirror
  obtain ⟨engine, k, hok, hnext, hf, hrefines⟩ := restoreFromDatabase_ok risk clock d'
    (hmirror.ids_sorted hfiled) fun o ho => h.agrees.kept _ _ ((hmirror.mem_orders hfiled o).mp ho)
  have horders := hmirror.orderTable_eq hfiled
  have hexecutions := hmirror.executions_values
  have hevents := hmirror.events_values
  have horder := hmirror.maxId_orders rfl hfiled h.tip
  have hevent := h.mirrored.eventIds.maxId
  have hexecution := h.mirrored.executionIds.maxId
  rw [List.length_map] at hevent hexecution
  rw [hexecutions, hexecution, ← h.agrees.next] at hnext
  rw [horders] at hf hrefines
  have hsame : SameMemory m (restored risk clock d' engine) := by
    refine ⟨horders, hevents, hexecutions, horder, ?_, hnext⟩
    change maxId (d'.tables.orderEvents.values.map OrderEvent.eventId) + 1 = _
    rw [hevents, hevent]
    exact h.mirrored.nextEventId.symm
  refine ⟨_, hok, rfl, hsame, ⟨?_, ?_, ?_, ?_⟩, ⟨?_, ?_, ?_, ?_⟩, ?_⟩
  · rw [hsame.orders, hsame.nextOrderId]
    exact hfiled
  · rw [hsame.orders]
    exact h.agrees.kept
  · rw [hsame.orders, hsame.nextOrderId]
    change EngineRefines engine _
    refine Eq.subst (motive := EngineRefines _) ?_ hrefines
    funext s
    obtain hle | hle := le_total k m.nextOrderId
    · exact (liveOrders_of_le hf hle s).symm
    · exact liveOrders_of_le hfiled hle s
  · rw [hsame.nextExecutionId, hsame.executions]
    exact h.agrees.next
  · rw [hsame.orders, hsame.events, hsame.executions]
    intro x hx
    cases hx
    exact hmirror
  · rw [hsame.events]
    exact h.mirrored.eventIds
  · rw [hsame.events, hsame.nextEventId]
    exact h.mirrored.nextEventId
  · rw [hsame.executions]
    exact h.mirrored.executionIds
  · unfold Tip
    rw [hsame.orders, hsame.nextOrderId]
    exact h.tip

theorem Durable.run {m : OrderManager} (h : Durable m) (ops : List Op) : Durable (m.run ops) :=
  ⟨h.agrees.run ops, mirrored_stepInvariant.run_always h.agrees h.mirrored ops,
    tip_stepInvariant.run_always h.agrees h.tip ops⟩

theorem Durable.new (risk : RiskManager) (clock : ℕ → ℤ) :
    Durable (OrderManager.new risk MatchingEngine.new (some Database.empty) clock) where
  agrees := Agrees.new risk _ clock
  mirrored := by
    refine ⟨?_, rfl, rfl, rfl⟩
    intro d hd
    cases hd
    exact ⟨fun _ => rfl, rfl, rfl⟩
  tip := Or.inl rfl

end Oems
