import Oems.Database
import Oems.Lib.Sql

namespace Oems

open Lib Sql

inductive OrderColumn where
  | internalId
  | clientOrderId
  | symbol
  | side
  | type
  | price
  | orderQty
  | filledQty
  | remainingQty
  | status
  | createdAtNs
  | updatedAtNs
  deriving DecidableEq

inductive EventColumn where
  | eventId
  | orderId
  | type
  | timestampNs
  | detail
  deriving DecidableEq

inductive ExecutionColumn where
  | executionId
  | symbol
  | aggressiveOrderId
  | passiveOrderId
  | aggressiveSide
  | price
  | quantity
  | timestampNs
  deriving DecidableEq

def sides : List Side := [.buy, .sell]

def orderTypes : List OrderType := [.limit, .market]

def orderStatuses : List OrderStatus :=
  [.pendingNew, .accepted, .partiallyFilled, .filled, .pendingCancel, .cancelled, .rejected]

def eventTypes : List EventType :=
  [.newRequested, .accepted, .rejected, .partialFill, .fill, .cancelRequested, .cancelled]

/-- Rows in the order of their `INTEGER PRIMARY KEY`. -/
abbrev RowTable (κ : Type) := OrdMap (κ := ℤ) (· < ·) (Row κ)

/-- The tables behind a connection, column by column. -/
structure Sqlite where
  orders : RowTable OrderColumn
  orderEvents : RowTable EventColumn
  executions : RowTable ExecutionColumn

namespace Sqlite

open Params

def empty : Sqlite := ⟨OrdMap.empty, OrdMap.empty, OrdMap.empty⟩

/-- The column lists of the statements on `orders`. -/
def insertOrders : List OrderColumn :=
  [.internalId, .clientOrderId, .symbol, .side, .type, .price, .orderQty, .filledQty,
    .remainingQty, .status, .createdAtNs, .updatedAtNs]

def selectOrders : List OrderColumn :=
  [.internalId, .clientOrderId, .symbol, .side, .type, .price, .orderQty, .filledQty,
    .remainingQty, .status, .createdAtNs, .updatedAtNs]

def bindOrder (order : Order) : Params :=
  unbound
    |>.bindInt 1 (toInt64 order.internalId)
    |>.bindText 2 order.clientOrderId
    |>.bindText 3 order.symbol.value
    |>.bindInt 4 (code sides order.side)
    |>.bindInt 5 (code orderTypes order.type)
    |>.bindInt 6 order.price
    |>.bindInt 7 order.orderQty
    |>.bindInt 8 order.filledQty
    |>.bindInt 9 order.remainingQty
    |>.bindInt 10 (code orderStatuses order.status)
    |>.bindInt 11 order.createdAt
    |>.bindInt 12 order.updatedAt

/-- The loop of the loads. A statement that cannot be prepared has no cursor. -/
def loadAll {α : Type} (record : Columns → α) : Option (Cursor Columns) → Result (List α)
  | none => .error .databaseError
  | some cursor => .ok (Cursor.fetch record cursor.steps)

/-- `INSERT OR REPLACE`. -/
def saveOrder (db : Sqlite) (order : Order) : Result Unit × Sqlite :=
  let row := insertRow insertOrders (bindOrder order)
  (.ok (), { db with orders := db.orders.insert (row .internalId).int64 row })

/-- A number that names no enumerator is no `kBuy` and no `kLimit`, which is all that is asked of
the side and the type of an order. -/
def rowToOrder (row : Columns) : Order where
  internalId := toUInt64 (row.int64 0)
  clientOrderId := row.text 1
  symbol := ⟨row.text 2⟩
  side := ofCode sides .sell (row.int 3)
  type := ofCode orderTypes .market (row.int 4)
  price := row.int64 5
  orderQty := row.int64 6
  filledQty := row.int64 7
  remainingQty := row.int64 8
  status := ofCode orderStatuses .pendingNew (row.int 9)
  createdAt := row.int64 10
  updatedAt := row.int64 11

def ordersCursor (db : Sqlite) : Cursor Columns :=
  .complete (db.orders.values.map (select selectOrders))

def loadOrders : Option (Cursor Columns) → Result (List Order) := loadAll rowToOrder

def orderCursor (db : Sqlite) (id : ℕ) : Cursor Columns :=
  .complete ((db.orders.find (toInt64 id)).toList.map (select selectOrders))

def loadOrder : Option (Cursor Columns) → Result Order
  | none => .error .databaseError
  | some cursor =>
    match cursor.steps with
    | .row row :: _ => .ok (rowToOrder row)
    | _ => .error .orderNotFound

def insertEvents : List EventColumn := [.eventId, .orderId, .type, .timestampNs, .detail]

def selectEvents : List EventColumn := [.eventId, .orderId, .type, .timestampNs, .detail]

def bindEvent (event : OrderEvent) : Params :=
  unbound
    |>.bindInt 1 (toInt64 event.eventId)
    |>.bindInt 2 (toInt64 event.orderId)
    |>.bindInt 3 (code eventTypes event.type)
    |>.bindInt 4 event.timestamp
    |>.bindText 5 event.detail

/-- A plain `INSERT`, which fails on an event id that is taken. -/
def appendEvent (db : Sqlite) (event : OrderEvent) : Result Unit × Sqlite :=
  let row := insertRow insertEvents (bindEvent event)
  match db.orderEvents.find (row .eventId).int64 with
  | some _ => (.error .databaseError, db)
  | none => (.ok (), { db with orderEvents := db.orderEvents.insert (row .eventId).int64 row })

def rowToEvent (row : Columns) : OrderEvent where
  eventId := toUInt64 (row.int64 0)
  orderId := toUInt64 (row.int64 1)
  type := ofCode eventTypes .newRequested (row.int 2)
  timestamp := row.int64 3
  detail := row.text 4

def eventsCursor (db : Sqlite) (id : ℕ) : Cursor Columns :=
  .complete ((db.orderEvents.values.filter fun row => row .orderId = .integer (toInt64 id)).map
    (select selectEvents))

def loadEvents : Option (Cursor Columns) → Result (List OrderEvent) := loadAll rowToEvent

def allEventsCursor (db : Sqlite) : Cursor Columns :=
  .complete (db.orderEvents.values.map (select selectEvents))

def loadAllEvents : Option (Cursor Columns) → Result (List OrderEvent) := loadAll rowToEvent

def insertExecutions : List ExecutionColumn :=
  [.executionId, .symbol, .aggressiveOrderId, .passiveOrderId, .aggressiveSide, .price, .quantity,
    .timestampNs]

def selectExecutions : List ExecutionColumn :=
  [.executionId, .symbol, .aggressiveOrderId, .passiveOrderId, .aggressiveSide, .price, .quantity,
    .timestampNs]

def bindExecution (fill : Fill) : Params :=
  unbound
    |>.bindInt 1 (toInt64 fill.executionId)
    |>.bindText 2 fill.symbol.value
    |>.bindInt 3 (toInt64 fill.aggressiveOrderId)
    |>.bindInt 4 (toInt64 fill.passiveOrderId)
    |>.bindInt 5 (code sides fill.aggressiveSide)
    |>.bindInt 6 fill.price
    |>.bindInt 7 fill.quantity
    |>.bindInt 8 fill.timestamp

def saveExecution (db : Sqlite) (fill : Fill) : Result Unit × Sqlite :=
  let row := insertRow insertExecutions (bindExecution fill)
  (.ok (), { db with executions := db.executions.insert (row .executionId).int64 row })

def rowToFill (row : Columns) : Fill where
  executionId := toUInt64 (row.int64 0)
  symbol := ⟨row.text 1⟩
  aggressiveOrderId := toUInt64 (row.int64 2)
  passiveOrderId := toUInt64 (row.int64 3)
  aggressiveSide := ofCode sides .sell (row.int 4)
  price := row.int64 5
  quantity := row.int64 6
  timestamp := row.int64 7

def executionsCursor (db : Sqlite) : Cursor Columns :=
  .complete (db.executions.values.map (select selectExecutions))

def loadExecutions : Option (Cursor Columns) → Result (List Fill) := loadAll rowToFill

section Records

variable (order : Order) (event : OrderEvent) (fill : Fill)

def orderRow : Row OrderColumn := insertRow insertOrders (bindOrder order)

def eventRow : Row EventColumn := insertRow insertEvents (bindEvent event)

def executionRow : Row ExecutionColumn := insertRow insertExecutions (bindExecution fill)

/-- The positions of the parameters and of the columns fit together: an order comes back,
its texts cut at their first NUL. -/
theorem rowToOrder_orderRow (h : order.internalId < 2 ^ 64) :
    rowToOrder (select selectOrders (orderRow order)) =
      { order with
        clientOrderId := cString order.clientOrderId
        symbol := ⟨cString order.symbol.value⟩ } := by
  have hrow : rowToOrder (select selectOrders (orderRow order)) =
      { order with
        internalId := toUInt64 (toInt64 order.internalId)
        clientOrderId := cString (cString order.clientOrderId)
        symbol := ⟨cString (cString order.symbol.value)⟩
        side := ofCode sides .sell (toInt32 (code sides order.side))
        type := ofCode orderTypes .market (toInt32 (code orderTypes order.type))
        status := ofCode orderStatuses .pendingNew (toInt32 (code orderStatuses order.status)) } :=
    rfl
  have hside : order.side ∈ sides := by cases order.side <;> decide
  have htype : order.type ∈ orderTypes := by cases order.type <;> decide
  have hstatus : order.status ∈ orderStatuses := by cases order.status <;> decide
  rw [hrow, toUInt64_toInt64 h, cString_cString, cString_cString, ofCode_code _ hside (by decide),
    ofCode_code _ htype (by decide), ofCode_code _ hstatus (by decide)]

theorem rowToEvent_eventRow (hid : event.eventId < 2 ^ 64) (horder : event.orderId < 2 ^ 64) :
    rowToEvent (select selectEvents (eventRow event)) =
      { event with detail := cString event.detail } := by
  have hrow : rowToEvent (select selectEvents (eventRow event)) =
      { event with
        eventId := toUInt64 (toInt64 event.eventId)
        orderId := toUInt64 (toInt64 event.orderId)
        type := ofCode eventTypes .newRequested (toInt32 (code eventTypes event.type))
        detail := cString (cString event.detail) } := rfl
  have htype : event.type ∈ eventTypes := by cases event.type <;> decide
  rw [hrow, toUInt64_toInt64 hid, toUInt64_toInt64 horder, cString_cString,
    ofCode_code _ htype (by decide)]

theorem rowToFill_executionRow (hid : fill.executionId < 2 ^ 64)
    (haggressive : fill.aggressiveOrderId < 2 ^ 64) (hpassive : fill.passiveOrderId < 2 ^ 64) :
    rowToFill (select selectExecutions (executionRow fill)) =
      { fill with symbol := ⟨cString fill.symbol.value⟩ } := by
  have hrow : rowToFill (select selectExecutions (executionRow fill)) =
      { fill with
        executionId := toUInt64 (toInt64 fill.executionId)
        symbol := ⟨cString (cString fill.symbol.value)⟩
        aggressiveOrderId := toUInt64 (toInt64 fill.aggressiveOrderId)
        passiveOrderId := toUInt64 (toInt64 fill.passiveOrderId)
        aggressiveSide := ofCode sides .sell (toInt32 (code sides fill.aggressiveSide)) } := rfl
  have hside : fill.aggressiveSide ∈ sides := by cases fill.aggressiveSide <;> decide
  rw [hrow, toUInt64_toInt64 hid, toUInt64_toInt64 haggressive, toUInt64_toInt64 hpassive,
    cString_cString, ofCode_code _ hside (by decide)]

end Records

section LoadAll

variable {α κ : Type} (record : Columns → α)

theorem loadAll_some (cursor : Cursor Columns) :
    loadAll record (some cursor) = .ok (cursor.delivered.map record) :=
  congrArg Except.ok (Cursor.fetch_steps record cursor)

theorem loadAll_complete (columns : List κ) (rows : List (Row κ)) :
    loadAll record (some (.complete (rows.map (select columns)))) =
      .ok (rows.map fun row => record (select columns row)) := by
  rw [loadAll_some]
  exact congrArg Except.ok List.map_map

theorem mem_loadAll (columns : List κ) {rows : List (Row κ)} {row : Row κ} (h : row ∈ rows) :
    ∃ records, loadAll record (some (.complete (rows.map (select columns)))) = .ok records ∧
      record (select columns row) ∈ records :=
  ⟨_, loadAll_complete record columns rows, List.mem_map_of_mem h⟩

theorem exists_row {prepared : Option (Cursor Columns)} {records : List α}
    (h : loadAll record prepared = .ok records) {a : α} (ha : a ∈ records) :
    ∃ row, record row = a := by
  cases prepared with
  | none => cases h
  | some cursor =>
    rw [loadAll_some] at h
    cases h
    obtain ⟨row, -, hrow⟩ := List.mem_map.mp ha
    exact ⟨row, hrow⟩

end LoadAll

theorem exists_cursor {α : Type} {record : Columns → α} {prepared : Option (Cursor Columns)}
    {records : List α} (h : loadAll record prepared = .ok records) :
    ∃ cursor, prepared = some cursor := by
  cases prepared with
  | none => cases h
  | some cursor => exact ⟨cursor, rfl⟩

theorem mem_values_insert {κ : Type} (t : RowTable κ) (k : ℤ) (row : Row κ) :
    row ∈ (t.insert k row).values :=
  OrdMap.mem_values_iff.mpr ⟨k, OrdMap.find_insert k row t⟩

theorem loadOrder_saveOrder (db : Sqlite) {order : Order} (h : order.internalId < 2 ^ 64) :
    loadOrder (some ((db.saveOrder order).2.orderCursor order.internalId)) =
      .ok { order with
        clientOrderId := cString order.clientOrderId
        symbol := ⟨cString order.symbol.value⟩ } := by
  have hfind : (db.saveOrder order).2.orders.find (toInt64 order.internalId) =
      some (orderRow order) := OrdMap.find_insert _ _ db.orders
  rw [orderCursor, hfind, ← rowToOrder_orderRow order h]
  rfl

theorem loadOrders_saveOrder (db : Sqlite) {order : Order} (h : order.internalId < 2 ^ 64) :
    ∃ orders, loadOrders (some (db.saveOrder order).2.ordersCursor) = .ok orders ∧
      { order with
        clientOrderId := cString order.clientOrderId
        symbol := ⟨cString order.symbol.value⟩ } ∈ orders := by
  have hmem : orderRow order ∈ (db.saveOrder order).2.orders.values :=
    mem_values_insert db.orders _ _
  rw [← rowToOrder_orderRow order h]
  exact mem_loadAll rowToOrder selectOrders hmem

theorem loadEvents_appendEvent {db db' : Sqlite} {event : OrderEvent}
    (hid : event.eventId < 2 ^ 64) (horder : event.orderId < 2 ^ 64)
    (h : db.appendEvent event = (.ok (), db')) :
    (∃ events, loadEvents (some (db'.eventsCursor event.orderId)) = .ok events ∧
      { event with detail := cString event.detail } ∈ events) ∧
    ∃ events, loadAllEvents (some db'.allEventsCursor) = .ok events ∧
      { event with detail := cString event.detail } ∈ events := by
  have hmem : eventRow event ∈ db'.orderEvents.values := by
    rw [appendEvent] at h
    cases hfind : db.orderEvents.find (eventRow event .eventId).int64 with
    | some row =>
      rw [eventRow] at hfind
      simp only [hfind] at h
      cases h
    | none =>
      rw [eventRow] at hfind
      simp only [hfind] at h
      cases h
      exact mem_values_insert db.orderEvents _ _
  have howner : eventRow event .orderId = .integer (toInt64 event.orderId) := rfl
  rw [← rowToEvent_eventRow event hid horder]
  exact ⟨mem_loadAll rowToEvent selectEvents (List.mem_filter.mpr ⟨hmem, by simp [howner]⟩),
    mem_loadAll rowToEvent selectEvents hmem⟩

theorem loadExecutions_saveExecution (db : Sqlite) {fill : Fill} (hid : fill.executionId < 2 ^ 64)
    (haggressive : fill.aggressiveOrderId < 2 ^ 64) (hpassive : fill.passiveOrderId < 2 ^ 64) :
    ∃ fills, loadExecutions (some (db.saveExecution fill).2.executionsCursor) = .ok fills ∧
      { fill with symbol := ⟨cString fill.symbol.value⟩ } ∈ fills := by
  have hmem : executionRow fill ∈ (db.saveExecution fill).2.executions.values :=
    mem_values_insert db.executions _ _
  rw [← rowToFill_executionRow fill hid haggressive hpassive]
  exact mem_loadAll rowToFill selectExecutions hmem

end Sqlite

open Sqlite

def OrderLoadsBack (order : Order) : Prop :=
  ∀ db db' : Sqlite, db.saveOrder order = (.ok (), db') →
    loadOrder (some (db'.orderCursor order.internalId)) = .ok order ∧
    ∃ orders, loadOrders (some db'.ordersCursor) = .ok orders ∧ order ∈ orders

def EventLoadsBack (event : OrderEvent) : Prop :=
  ∀ db db' : Sqlite, db.appendEvent event = (.ok (), db') →
    (∃ events, loadEvents (some (db'.eventsCursor event.orderId)) = .ok events ∧ event ∈ events) ∧
    ∃ events, loadAllEvents (some db'.allEventsCursor) = .ok events ∧ event ∈ events

def FillLoadsBack (fill : Fill) : Prop :=
  ∀ db db' : Sqlite, db.saveExecution fill = (.ok (), db') →
    ∃ fills, loadExecutions (some db'.executionsCursor) = .ok fills ∧ fill ∈ fills

/-- The ids of the records are `std::uint64_t`. -/
structure IdsFit (order : Order) (event : OrderEvent) (fill : Fill) : Prop where
  internalId : order.internalId < 2 ^ 64
  eventId : event.eventId < 2 ^ 64
  eventOrderId : event.orderId < 2 ^ 64
  executionId : fill.executionId < 2 ^ 64
  aggressiveOrderId : fill.aggressiveOrderId < 2 ^ 64
  passiveOrderId : fill.passiveOrderId < 2 ^ 64

theorem orderLoadsBack_iff {order : Order} (h : order.internalId < 2 ^ 64) :
    OrderLoadsBack order ↔ 0 ∉ order.clientOrderId ∧ 0 ∉ order.symbol.value := by
  constructor
  · intro hback
    have hload := (hback Sqlite.empty (Sqlite.empty.saveOrder order).2 rfl).1
    rw [loadOrder_saveOrder Sqlite.empty h] at hload
    have hsame := Except.ok.inj hload
    exact ⟨cString_eq_self_iff.mp (congrArg Order.clientOrderId hsame),
      cString_eq_self_iff.mp (congrArg (fun o : Order => o.symbol.value) hsame)⟩
  · rintro ⟨hclient, hsymbol⟩ db db' hsave
    obtain rfl : (db.saveOrder order).2 = db' := congrArg Prod.snd hsave
    have hload := loadOrder_saveOrder db h
    have hloads := loadOrders_saveOrder db h
    rw [cString_eq_self_iff.mpr hclient, cString_eq_self_iff.mpr hsymbol] at hload hloads
    exact ⟨hload, hloads⟩

theorem eventLoadsBack_iff {event : OrderEvent} (hid : event.eventId < 2 ^ 64)
    (horder : event.orderId < 2 ^ 64) : EventLoadsBack event ↔ 0 ∉ event.detail := by
  constructor
  · intro hback
    obtain ⟨-, events, hload, hmem⟩ := hback Sqlite.empty _ rfl
    obtain ⟨row, rfl⟩ := exists_row rowToEvent hload hmem
    exact row.zero_notMem_text 4
  · intro hdetail db db' happend
    have hloads := loadEvents_appendEvent hid horder happend
    rw [cString_eq_self_iff.mpr hdetail] at hloads
    exact hloads

theorem fillLoadsBack_iff {fill : Fill} (hid : fill.executionId < 2 ^ 64)
    (haggressive : fill.aggressiveOrderId < 2 ^ 64) (hpassive : fill.passiveOrderId < 2 ^ 64) :
    FillLoadsBack fill ↔ 0 ∉ fill.symbol.value := by
  constructor
  · intro hback
    obtain ⟨fills, hload, hmem⟩ := hback Sqlite.empty _ rfl
    obtain ⟨row, rfl⟩ := exists_row rowToFill hload hmem
    exact row.zero_notMem_text 1
  · intro hsymbol db db' hsave
    obtain rfl : (db.saveExecution fill).2 = db' := congrArg Prod.snd hsave
    have hloads := loadExecutions_saveExecution db hid haggressive hpassive
    rw [cString_eq_self_iff.mpr hsymbol] at hloads
    exact hloads

def nulSymbol : Order :=
  ⟨1, str "C1", ⟨[65, 0, 66]⟩, .buy, .limit, 99, 10, 0, 10, .accepted, 0, 0⟩

def firstEvent : OrderEvent := ⟨1, 1, .newRequested, 0, str "C1"⟩

def firstFill : Fill := ⟨1, ⟨str "AAPL"⟩, 2, 1, .sell, 99, 10, 0⟩

theorem nulSymbol_changes : ¬ ∀ order event fill, IdsFit order event fill →
    OrderLoadsBack order ∧ EventLoadsBack event ∧ FillLoadsBack fill := by
  intro h
  have hfit : IdsFit nulSymbol firstEvent firstFill := by
    constructor <;> decide
  have hback := (h nulSymbol firstEvent firstFill hfit).1
  exact absurd ((orderLoadsBack_iff hfit.internalId).mp hback).2 (by decide)

-- the order is restored under another symbol
example : loadOrder (some ((Sqlite.empty.saveOrder nulSymbol).2.orderCursor 1)) =
    .ok { nulSymbol with symbol := ⟨str "A"⟩ } := by
  decide

/-- Saved records load back unchanged exactly where their texts have no NUL. -/
theorem records_loadBack_iff (order : Order) (event : OrderEvent) (fill : Fill)
    (h : IdsFit order event fill) :
    (OrderLoadsBack order ↔ 0 ∉ order.clientOrderId ∧ 0 ∉ order.symbol.value) ∧
    (EventLoadsBack event ↔ 0 ∉ event.detail) ∧
    (FillLoadsBack fill ↔ 0 ∉ fill.symbol.value) :=
  ⟨orderLoadsBack_iff h.internalId, eventLoadsBack_iff h.eventId h.eventOrderId,
    fillLoadsBack_iff h.executionId h.aggressiveOrderId h.passiveOrderId⟩

theorem firstRecords_loadBack :
    (OrderLoadsBack nulSymbol ↔ 0 ∉ nulSymbol.clientOrderId ∧ 0 ∉ nulSymbol.symbol.value) ∧
    (EventLoadsBack firstEvent ↔ 0 ∉ firstEvent.detail) ∧
    (FillLoadsBack firstFill ↔ 0 ∉ firstFill.symbol.value) :=
  records_loadBack_iff nulSymbol firstEvent firstFill (by constructor <;> decide)

end Oems
