import Oems.SqlRows
import Mathlib.Data.Finmap

namespace Oems

open Lib Sql Sqlite

inductive AuditColumn where
  | id
  | category
  | message
  | timestampNs
  deriving DecidableEq

inductive StateColumn where
  | key
  | value
  deriving DecidableEq

/-- The statements of `kSchema`, each of which creates a table or an index. -/
inductive SchemaStatement where
  | orders
  | orderEvents
  | eventsByOrder
  | executions
  | auditLog
  | serviceState
  deriving DecidableEq

def kSchema : List SchemaStatement :=
  [.orders, .orderEvents, .eventsByOrder, .executions, .auditLog, .serviceState]

/-- The file behind a connection. A table that is not created yet is empty here. -/
structure StoreFile where
  created : Finset SchemaStatement
  records : Sqlite
  auditLog : RowTable AuditColumn
  /-- The highest id that `AUTOINCREMENT` has given out. -/
  auditSequence : ℕ
  serviceState : Finmap fun _ : Str => Row StateColumn

/-- The calls that write. -/
inductive StoreWrite where
  | migrate
  | saveOrder (order : Order)
  | appendEvent (event : OrderEvent)
  | saveExecution (fill : Fill)
  | appendAudit (category message : Str) (now : ℤ)
  | saveServiceState (key value : Str)

/-- A call, and how many of its SQL statements SQLite gets through before one fails. -/
structure StoreCall where
  write : StoreWrite
  through : ℕ

def bindAudit (category message : Str) (now : ℤ) : Params :=
  Params.unbound
    |>.bindText 1 category
    |>.bindText 2 message
    |>.bindInt 3 now

def insertAudit : List AuditColumn := [.category, .message, .timestampNs]

def auditRow (id : ℕ) (category message : Str) (now : ℤ) : Row AuditColumn :=
  Function.update (insertRow insertAudit (bindAudit category message now)) .id (.integer id)

def bindState (key value : Str) : Params :=
  Params.unbound
    |>.bindText 1 key
    |>.bindText 2 value

def insertState : List StateColumn := [.key, .value]

def selectState : List StateColumn := [.value]

def stateRow (key value : Str) : Row StateColumn := insertRow insertState (bindState key value)

namespace StoreFile

def new : StoreFile := ⟨∅, Sqlite.empty, OrdMap.empty, 0, ∅⟩

/-- `CREATE .. IF NOT EXISTS`, as far as it gets. -/
def migrate (f : StoreFile) (through : ℕ) : Result Unit × StoreFile :=
  (if kSchema.length ≤ through then .ok () else .error .databaseError,
    { f with created := f.created ∪ (kSchema.take through).toFinset })

/-- Prepare a statement on a table and step it. One that fails leaves nothing behind. -/
def execute (f : StoreFile) (table : SchemaStatement) (through : ℕ)
    (effect : Result Unit × StoreFile) : Result Unit × StoreFile :=
  if table ∈ f.created ∧ 0 < through then effect else (.error .databaseError, f)

/-- A statement on the tables of records. -/
def onRecords (f : StoreFile) (effect : Result Unit × Sqlite) : Result Unit × StoreFile :=
  (effect.1, { f with records := effect.2 })

/-- `AUTOINCREMENT` does not give an id out again, and there is none after the largest. -/
def appendAudit (f : StoreFile) (category message : Str) (now : ℤ) : Result Unit × StoreFile :=
  if f.auditSequence < 2 ^ 63 - 1 then
    (.ok (), { f with
      auditLog := f.auditLog.insert (f.auditSequence + 1)
        (auditRow (f.auditSequence + 1) category message now)
      auditSequence := f.auditSequence + 1 })
  else (.error .databaseError, f)

/-- `INSERT OR REPLACE`, where the key is what the key column holds. -/
def saveServiceState (f : StoreFile) (key value : Str) : Result Unit × StoreFile :=
  (.ok (), { f with serviceState := f.serviceState.insert (cString key) (stateRow key value) })

def call (f : StoreFile) (c : StoreCall) : Result Unit × StoreFile :=
  match c.write with
  | .migrate => f.migrate c.through
  | .saveOrder order => f.execute .orders c.through (f.onRecords (f.records.saveOrder order))
  | .appendEvent event =>
    f.execute .orderEvents c.through (f.onRecords (f.records.appendEvent event))
  | .saveExecution fill =>
    f.execute .executions c.through (f.onRecords (f.records.saveExecution fill))
  | .appendAudit category message now =>
    f.execute .auditLog c.through (f.appendAudit category message now)
  | .saveServiceState key value =>
    f.execute .serviceState c.through (f.saveServiceState key value)

/-- `sqlite3_prepare_v2` of a query, which needs its table. -/
def prepare (f : StoreFile) (table : SchemaStatement) (cursor : Cursor Columns) :
    Option (Cursor Columns) :=
  if table ∈ f.created then some cursor else none

def loadOrders (f : StoreFile) : Result (List Order) :=
  Sqlite.loadOrders (f.prepare .orders f.records.ordersCursor)

def loadOrder (f : StoreFile) (id : ℕ) : Result Order :=
  Sqlite.loadOrder (f.prepare .orders (f.records.orderCursor id))

def loadEvents (f : StoreFile) (id : ℕ) : Result (List OrderEvent) :=
  Sqlite.loadEvents (f.prepare .orderEvents (f.records.eventsCursor id))

def loadAllEvents (f : StoreFile) : Result (List OrderEvent) :=
  Sqlite.loadAllEvents (f.prepare .orderEvents f.records.allEventsCursor)

def loadExecutions (f : StoreFile) : Result (List Fill) :=
  Sqlite.loadExecutions (f.prepare .executions f.records.executionsCursor)

def stateCursor (f : StoreFile) (key : Str) : Cursor Columns :=
  .complete ((f.serviceState.lookup (cString key)).toList.map (select selectState))

/-- A query that ends without a row has found nothing, unless it has failed. -/
def readState : Option (Cursor Columns) → Result (Option Str)
  | none => .error .databaseError
  | some cursor =>
    match cursor.steps with
    | .row row :: _ => .ok (some (row.text 0))
    | .ended .done :: _ => .ok none
    | _ => .error .databaseError

def loadServiceState (f : StoreFile) (key : Str) : Result (Option Str) :=
  readState (f.prepare .serviceState (f.stateCursor key))

def after (f : StoreFile) (calls : List StoreCall) : StoreFile :=
  calls.foldl (fun f c => (f.call c).2) f

def acknowledged (f : StoreFile) : List StoreCall → List StoreWrite
  | [] => []
  | c :: calls =>
    match (f.call c).1 with
    | .ok _ => c.write :: (f.call c).2.acknowledged calls
    | .error _ => (f.call c).2.acknowledged calls

end StoreFile

end Oems
