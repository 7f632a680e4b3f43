import Oems.OrderBook

namespace Oems

open Lib

/-- The writes of the order manager, one SQL statement each. -/
inductive Statement where
  | saveOrder (order : Order)
  | appendEvent (event : OrderEvent)
  | saveExecution (fill : Fill)
  deriving DecidableEq

/-- A table with an `INTEGER PRIMARY KEY`: records in key order. For ids below `2 ^ 63` and texts
without NUL this is what its rows give back (`Represents`, `restoreRows_eq`). -/
abbrev Table (α : Type) := OrdMap (κ := ℕ) (· < ·) α

structure Tables where
  orders : Table Order
  orderEvents : Table OrderEvent
  executions : Table Fill

def Tables.empty : Tables := ⟨OrdMap.empty, OrdMap.empty, OrdMap.empty⟩

/-- `INSERT OR REPLACE` for orders and executions. A plain `INSERT` of an event
id that is taken is refused and changes nothing. -/
def Tables.exec (t : Tables) : Statement → Tables
  | .saveOrder order => { t with orders := t.orders.insert order.internalId order }
  | .appendEvent event =>
    match t.orderEvents.find event.eventId with
    | some _ => t
    | none => { t with orderEvents := t.orderEvents.insert event.eventId event }
  | .saveExecution fill => { t with executions := t.executions.insert fill.executionId fill }

/-- The tables found at opening and the statements executed since. Each
statement is atomic and durable, so a process that stops between two of them
leaves the tables after a prefix of the journal. -/
structure Database where
  stored : Tables
  journal : List Statement

namespace Database

def empty : Database := ⟨Tables.empty, []⟩

def tables (d : Database) : Tables := d.journal.foldl Tables.exec d.stored

def exec (d : Database) (st : Statement) : Database := { d with journal := d.journal ++ [st] }

def saveOrder (d : Database) (order : Order) : Database := d.exec (.saveOrder order)

def appendEvent (d : Database) (event : OrderEvent) : Database := d.exec (.appendEvent event)

def saveExecution (d : Database) (fill : Fill) : Database := d.exec (.saveExecution fill)

def reopen (d : Database) : Database := ⟨d.tables, []⟩

/-- `SELECT .. FROM orders ORDER BY internal_id`, and likewise below. -/
def loadOrders (d : Database) : Result (List Order) := .ok d.tables.orders.values

def loadAllEvents (d : Database) : Result (List OrderEvent) := .ok d.tables.orderEvents.values

def loadExecutions (d : Database) : Result (List Fill) := .ok d.tables.executions.values

end Database

end Oems
