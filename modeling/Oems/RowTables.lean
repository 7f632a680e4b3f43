import Oems.RestoreAtomic
import Oems.SqlRows

namespace Oems

open Lib Sql Sqlite OrderManager

section Stores

variable {α κ : Type} {rowOf : α → Row κ} {fits : α → Prop} {t : Table α} {rows : RowTable κ}

/-- A table of rows holds what a table of records does. The keys are below 2^63, where the
signed order of the rows is the order of the records. -/
structure Stores (rowOf : α → Row κ) (fits : α → Prop) (t : Table α) (rows : RowTable κ) : Prop where
  entries : rows.entries = t.entries.map fun e => ⟨toInt64 e.1, rowOf e.2⟩
  fits : ∀ e ∈ t.entries, e.1 < 2 ^ 63 ∧ fits e.2

theorem Stores.empty : Stores rowOf fits (OrdMap.empty : Table α) OrdMap.empty :=
  ⟨rfl, fun _ he => absurd he List.not_mem_nil⟩

theorem Stores.values (h : Stores rowOf fits t rows) : rows.values = t.values.map rowOf := by
  rw [OrdMap.values, h.entries, OrdMap.values, List.map_map, List.map_map]
  rfl

theorem Stores.insert (h : Stores rowOf fits t rows) {k : ℕ} {a : α} (hk : k < 2 ^ 63)
    (ha : fits a) : Stores rowOf fits (t.insert k a) (rows.insert (toInt64 k) (rowOf a)) := by
  have hcmp : ∀ e ∈ t.entries, (toInt64 k < toInt64 e.1 ↔ k < e.1) ∧
      (toInt64 k = toInt64 e.1 ↔ k = e.1) := by
    intro e he
    rw [toInt64_of_lt hk, toInt64_of_lt (h.fits e he).1]
    exact ⟨Int.ofNat_lt, Int.ofNat_inj⟩
  refine ⟨?_, fun e he => ?_⟩
  · change OrdMap.insertList _ _ _ rows.entries = _
    rw [h.entries]
    exact OrdMap.insertList_map hcmp
  · obtain rfl | he := OrdMap.mem_insertList he
    · exact ⟨hk, ha⟩
    · exact h.fits e he

theorem Stores.find (h : Stores rowOf fits t rows) {k : ℕ} (hk : k < 2 ^ 63) :
    rows.find (toInt64 k) = (t.find k).map rowOf := by
  rw [OrdMap.find, OrdMap.find, h.entries]
  apply OrdMap.dlookup_map
  intro e he
  rw [toInt64_of_lt hk, toInt64_of_lt (h.fits e he).1]
  exact Int.ofNat_inj

end Stores

/-- Records whose ids are in range and whose texts have no NUL. -/
def Order.Storable (order : Order) : Prop :=
  order.internalId < 2 ^ 63 ∧ 0 ∉ order.clientOrderId ∧ 0 ∉ order.symbol.value

def OrderEvent.Storable (event : OrderEvent) : Prop :=
  event.eventId < 2 ^ 63 ∧ event.orderId < 2 ^ 63 ∧ 0 ∉ event.detail

def Fill.Storable (fill : Fill) : Prop :=
  fill.executionId < 2 ^ 63 ∧ fill.aggressiveOrderId < 2 ^ 63 ∧ fill.passiveOrderId < 2 ^ 63 ∧
    0 ∉ fill.symbol.value

def Statement.Storable : Statement → Prop
  | saveOrder order => order.Storable
  | appendEvent event => event.Storable
  | saveExecution fill => fill.Storable

theorem Order.Storable.loads {order : Order} (h : order.Storable) :
    rowToOrder (select selectOrders (orderRow order)) = order := by
  obtain ⟨hid, hclient, hsymbol⟩ := h
  rw [rowToOrder_orderRow order (by omega), cString_eq_self_iff.mpr hclient,
    cString_eq_self_iff.mpr hsymbol]

theorem OrderEvent.Storable.loads {event : OrderEvent} (h : event.Storable) :
    rowToEvent (select selectEvents (eventRow event)) = event := by
  obtain ⟨hid, horder, hdetail⟩ := h
  rw [rowToEvent_eventRow event (by omega) (by omega), cString_eq_self_iff.mpr hdetail]

theorem Fill.Storable.loads {fill : Fill} (h : fill.Storable) :
    rowToFill (select selectExecutions (executionRow fill)) = fill := by
  obtain ⟨hid, haggressive, hpassive, hsymbol⟩ := h
  rw [rowToFill_executionRow fill (by omega) (by omega) (by omega), cString_eq_self_iff.mpr hsymbol]

structure Represents (t : Tables) (db : Sqlite) : Prop where
  orders : Stores orderRow Order.Storable t.orders db.orders
  orderEvents : Stores eventRow OrderEvent.Storable t.orderEvents db.orderEvents
  executions : Stores executionRow Fill.Storable t.executions db.executions

theorem Represents.empty : Represents Tables.empty Sqlite.empty :=
  ⟨Stores.empty, Stores.empty, Stores.empty⟩

def Sqlite.exec (db : Sqlite) : Statement → Sqlite
  | .saveOrder order => (db.saveOrder order).2
  | .appendEvent event => (db.appendEvent event).2
  | .saveExecution fill => (db.saveExecution fill).2

section Represents

variable {t : Tables} {db : Sqlite}

/-- The rows follow the records through every statement. -/
theorem Represents.exec (h : Represents t db) {st : Statement} (hst : st.Storable) :
    Represents (t.exec st) (db.exec st) := by
  cases st with
  | saveOrder order => exact ⟨h.orders.insert hst.1 hst, h.orderEvents, h.executions⟩
  | appendEvent event =>
    have hfind : db.orderEvents.find (eventRow event .eventId).int64 =
        (t.orderEvents.find event.eventId).map eventRow := h.orderEvents.find hst.1
    rw [eventRow] at hfind
    rw [Tables.exec, Sqlite.exec, Sqlite.appendEvent, hfind]
    cases t.orderEvents.find event.eventId with
    | some taken => exact h
    | none => exact ⟨h.orders, h.orderEvents.insert hst.1 hst, h.executions⟩
  | saveExecution fill => exact ⟨h.orders, h.orderEvents, h.executions.insert hst.1 hst⟩

theorem Represents.foldl (h : Represents t db) {sts : List Statement}
    (hsts : ∀ st ∈ sts, st.Storable) :
    Represents (sts.foldl Tables.exec t) (sts.foldl Sqlite.exec db) := by
  induction sts generalizing t db with
  | nil => exact h
  | cons st sts ih =>
    exact ih (h.exec (hsts st List.mem_cons_self)) fun st' hst' =>
      hsts st' (List.mem_cons_of_mem st hst')

theorem Stores.read {α κ : Type} {rowOf : α → Row κ} {fits : α → Prop} {t : Table α}
    {rows : RowTable κ} (h : Stores rowOf fits t rows) {read : Row κ → α}
    (hread : ∀ a, fits a → read (rowOf a) = a) : rows.values.map read = t.values := by
  rw [h.values, List.map_map]
  refine (List.map_congr_left fun a ha => ?_).trans (List.map_id _)
  obtain ⟨e, he, rfl⟩ := List.mem_map.mp ha
  exact hread e.2 (h.fits e he).2

theorem Represents.loadOrders (h : Represents t db) :
    Sqlite.loadOrders (some db.ordersCursor) = .ok t.orders.values := by
  rw [Sqlite.loadOrders, ordersCursor, loadAll_complete, h.orders.read fun _ ho => ho.loads]

theorem Represents.loadAllEvents (h : Represents t db) :
    Sqlite.loadAllEvents (some db.allEventsCursor) = .ok t.orderEvents.values := by
  rw [Sqlite.loadAllEvents, allEventsCursor, loadAll_complete, h.orderEvents.read fun _ he => he.loads]

theorem Represents.loadExecutions (h : Represents t db) :
    Sqlite.loadExecutions (some db.executionsCursor) = .ok t.executions.values := by
  rw [Sqlite.loadExecutions, executionsCursor, loadAll_complete, h.executions.read fun _ hf => hf.loads]

end Represents

theorem Stores.ids_lt {α κ : Type} {rowOf : α → Row κ} {fits : α → Prop} {t : Table α}
    {rows : RowTable κ} (h : Stores rowOf fits t rows) {id : α → ℕ}
    (hid : ∀ a, fits a → id a < 2 ^ 63) : ∀ x ∈ t.values.map id, x < 2 ^ 63 := by
  intro x hx
  obtain ⟨a, ha, rfl⟩ := List.mem_map.mp hx
  obtain ⟨e, he, rfl⟩ := List.mem_map.mp ha
  exact hid e.2 (h.fits e he).2

/-- A restore from the rows is a restore from the records that they represent. -/
theorem restoreRows_eq {m : OrderManager} {d : Database} {db : Sqlite} (hdb : m.db = some d)
    (h : Represents d.tables db) : m.restoreRows db = m.restoreFromDatabase := by
  have horders := nextId_eq (h.orders.ids_lt fun _ ho => ho.1)
  have hevents := nextId_eq (h.orderEvents.ids_lt fun _ he => he.1)
  have hexecutions := nextId_eq (h.executions.ids_lt fun _ hf => hf.1)
  rw [restoreRows, restoreCursors, h.loadOrders, h.loadAllEvents, h.loadExecutions, restoreLoaded]
  simp only [horders, hevents, hexecutions]
  obtain ⟨risk, engine, db, nextOrderId, nextEventId, orders, events, executions, clock⟩ := m
  obtain rfl : db = some d := hdb
  rfl

end Oems
