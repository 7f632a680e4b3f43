import Oems.Placement
import Oems.Recovery
import Oems.SqlRows
import Oems.Lib.Checks

namespace Oems

open Lib Checks Sql Sqlite OrderManager

/-- A stored order that belongs into a book. -/
def Order.Rests (order : Order) : Prop :=
  (order.status = .accepted ∨ order.status = .partiallyFilled) ∧ order.type = .limit ∧
    order.remainingQty > 0

/-- A stored order that its book turns down when its turn comes, the orders before it
having been put back. -/
def TurnedDown (e : MatchingEngine) (before : List Order) (order : Order) : Prop :=
  order.Rests ∧ (order.price ≤ 0 ∨ order.internalId ∈ (e.bookOf order.symbol).idIndex ∨
    ∃ o ∈ before, o.Rests ∧ o.symbol = order.symbol ∧ o.internalId = order.internalId)

theorem turnedDown_nil {e : MatchingEngine} {order : Order} : TurnedDown e [] order ↔
    order.Rests ∧ (order.price ≤ 0 ∨ order.internalId ∈ (e.bookOf order.symbol).idIndex) := by
  simp [TurnedDown]

/-- The second engine has one more order in its books, if that order belongs there. -/
structure PutBack (order : Order) (e e' : MatchingEngine) : Prop where
  nextExecutionId : e'.nextExecutionId = e.nextExecutionId
  indexed : ∀ s x, x ∈ (e'.bookOf s).idIndex ↔
    x ∈ (e.bookOf s).idIndex ∨ (order.Rests ∧ order.symbol = s ∧ order.internalId = x)
  same : ¬ order.Rests → e' = e

theorem PutBack.turnedDown {order : Order} {e e' : MatchingEngine} (h : PutBack order e e')
    (before : List Order) (x : Order) :
    TurnedDown e' before x ↔ TurnedDown e (order :: before) x := by
  simp only [TurnedDown, h.indexed, List.mem_cons, exists_eq_or_imp]
  tauto

theorem PutBack.passes {order : Order} {e e' : MatchingEngine} (h : PutBack order e e')
    {orders : List Order} (hpasses : Passes (fun pre => TurnedDown e (order :: pre)) orders) :
    Passes (TurnedDown e') orders := by
  intro pre x post hsplit
  rw [h.turnedDown]
  exact hpasses pre x post hsplit

namespace MatchingEngine

variable {e : MatchingEngine} {order : Order}

theorem restoreRestingOrder_putBack (hrests : order.Rests) (h : ¬ TurnedDown e [] order) :
    ∃ e', e.restoreRestingOrder order = (.ok (), e') ∧ PutBack order e e' := by
  rw [turnedDown_nil] at h
  push Not at h
  obtain ⟨hprice, hid⟩ := h hrests
  have hlimit := hrests.2.1
  have hqty := hrests.2.2
  have hskip : ¬ (order.type ≠ .limit ∨ order.remainingQty ≤ 0) :=
    not_or.mpr ⟨not_not.mpr hlimit, not_le.mpr hqty⟩
  have hok : (e.bookOf order.symbol).restoreRestingOrder order.internalId order.side order.price
      order.remainingQty order.createdAt = (.ok (), ((e.bookOf order.symbol).rest order.internalId
        order.side order.price order.remainingQty order.createdAt).2) := by
    rw [OrderBook.restoreRestingOrder, if_neg (not_le.mpr hqty), if_neg (not_le.mpr hprice),
      if_neg hid]
  refine ⟨_, e.restoreRestingOrder_eq hskip _ hok.symm, rfl, fun s x => ?_, fun hn => ?_⟩
  · by_cases hs : s = order.symbol
    · rw [hs, bookOf_setBook_self, OrderBook.mem_rest]
      constructor
      · rintro (rfl | hx)
        · exact Or.inr ⟨hrests, rfl, rfl⟩
        · exact Or.inl hx
      · rintro (hx | ⟨-, -, rfl⟩)
        · exact Or.inr hx
        · exact Or.inl rfl
    · rw [bookOf_setBook_of_ne _ _ hs]
      exact ⟨Or.inl, fun h => h.elim id fun hr => absurd hr.2.1.symm hs⟩
  · exact absurd hrests hn

theorem restoreRestingOrder_turnedDown (h : TurnedDown e [] order) :
    ∃ err, e.restoreRestingOrder order =
      (.error err, e.setBook order.symbol (e.bookOf order.symbol)) := by
  obtain ⟨hrests, hbad⟩ := turnedDown_nil.mp h
  have hskip : ¬ (order.type ≠ .limit ∨ order.remainingQty ≤ 0) :=
    not_or.mpr ⟨not_not.mpr hrests.2.1, not_le.mpr hrests.2.2⟩
  obtain ⟨⟨-, hprice⟩, hid, -⟩ | ⟨-, err, herr⟩ :=
    (e.bookOf order.symbol).restoreRestingOrder_cases order.internalId order.side order.price
      order.remainingQty order.createdAt
  · obtain hle | hmem := hbad
    · exact absurd (hprice rfl) (not_lt.mpr hle)
    · exact absurd hmem hid
  · exact ⟨err, e.restoreRestingOrder_eq hskip _ herr.symm⟩

theorem setBook_bookOf_eq_iff (e : MatchingEngine) (symbol : Symbol) :
    e.setBook symbol (e.bookOf symbol) = e ↔ ∃ book, e.getBook symbol = .ok book := by
  rw [getBook]
  cases hbook : e.books.lookup symbol.value with
  | some book =>
    refine iff_of_true ?_ ⟨book, rfl⟩
    rw [bookOf, hbook]
    exact setBook_bookOf hbook
  | none =>
    refine iff_of_false (fun h => ?_) (by simp)
    have hlookup := congrArg (fun e : MatchingEngine => e.books.lookup symbol.value) h
    simp only [setBook, Finmap.lookup_insert, hbook] at hlookup
    cases hlookup

end MatchingEngine

theorem restoreOrders_passes {m : OrderManager} {order : Order}
    (h : ¬ TurnedDown m.engine [] order) (orders : List Order) :
    ∃ engine, PutBack order m.engine engine ∧ m.restoreOrders (order :: orders) =
      { m.setOrder order.internalId order with engine }.restoreOrders orders := by
  rw [restoreOrders]
  by_cases hrests : order.Rests
  · obtain ⟨engine, hok, hput⟩ := MatchingEngine.restoreRestingOrder_putBack hrests h
    refine ⟨engine, hput, ?_⟩
    rw [Order.Rests] at hrests
    simp only [if_pos hrests, setOrder_engine, hok]
  · refine ⟨m.engine, ⟨rfl, fun s x => ?_, fun _ => rfl⟩, ?_⟩
    · exact ⟨Or.inl, fun h => h.elim id fun hr => absurd hr.1 hrests⟩
    · rw [Order.Rests] at hrests
      exact if_neg hrests

theorem restoreOrders_ok_of_passes {m : OrderManager} {orders : List Order}
    (h : Passes (TurnedDown m.engine) orders) : ∃ m', m.restoreOrders orders = (.ok (), m') ∧
      m'.engine.nextExecutionId = m.engine.nextExecutionId := by
  induction orders generalizing m with
  | nil => exact ⟨m, rfl, rfl⟩
  | cons order orders ih =>
    obtain ⟨hfirst, hrest⟩ := passes_cons.mp h
    obtain ⟨engine, hput, hstep⟩ := restoreOrders_passes hfirst orders
    obtain ⟨m', hok, hnext⟩ :=
      ih (m := { m.setOrder order.internalId order with engine }) (hput.passes hrest)
    exact ⟨m', hstep.trans hok, hnext.trans hput.nextExecutionId⟩

/-- What a row that is turned down leaves of the engine, the rows `before` it having
gone through. -/
structure Stopped (before : List Order) (bad : Order) (e e' : MatchingEngine) : Prop where
  nextExecutionId : e'.nextExecutionId = e.nextExecutionId
  kept : ∀ s x, x ∈ (e.bookOf s).idIndex → x ∈ (e'.bookOf s).idIndex
  same_iff : e' = e ↔ (∀ o ∈ before, ¬ o.Rests) ∧ ∃ book, e.getBook bad.symbol = .ok book

theorem Stopped.nil (e : MatchingEngine) (bad : Order) :
    Stopped [] bad e (e.setBook bad.symbol (e.bookOf bad.symbol)) := by
  refine ⟨rfl, fun s x hx => ?_, ?_⟩
  · by_cases hs : s = bad.symbol
    · rw [hs] at hx ⊢
      rwa [MatchingEngine.bookOf_setBook_self]
    · rwa [MatchingEngine.bookOf_setBook_of_ne _ _ hs]
  · rw [e.setBook_bookOf_eq_iff]
    simp

theorem Stopped.cons {order bad : Order} {before : List Order} {e e₁ e' : MatchingEngine}
    (hfirst : ¬ TurnedDown e [] order) (hput : PutBack order e e₁) (h : Stopped before bad e₁ e') :
    Stopped (order :: before) bad e e' := by
  refine ⟨h.nextExecutionId.trans hput.nextExecutionId,
    fun s x hx => h.kept s x ((hput.indexed s x).mpr (Or.inl hx)), ?_⟩
  by_cases hrests : order.Rests
  · have hnew : order.internalId ∈ (e'.bookOf order.symbol).idIndex :=
      h.kept _ _ ((hput.indexed _ _).mpr (Or.inr ⟨hrests, rfl, rfl⟩))
    refine iff_of_false (fun heq => ?_) fun hall => hall.1 order List.mem_cons_self hrests
    rw [heq] at hnew
    exact hfirst (turnedDown_nil.mpr ⟨hrests, Or.inr hnew⟩)
  · obtain rfl := hput.same hrests
    rw [h.same_iff, List.forall_mem_cons, and_iff_right hrests]

/-- The loop files the rows up to the first that is turned down, and that row. -/
theorem restoreOrders_stops {m : OrderManager} {before : List Order} {bad : Order}
    (hbefore : Passes (TurnedDown m.engine) before) (hbad : TurnedDown m.engine before bad)
    (after : List Order) : ∃ err engine, Stopped before bad m.engine engine ∧
      m.restoreOrders (before ++ bad :: after) = (.error err,
        { m with engine, orders := orderTable m.orders (before ++ [bad]) }) := by
  induction before generalizing m with
  | nil =>
    obtain ⟨err, herr⟩ := MatchingEngine.restoreRestingOrder_turnedDown hbad
    have hrests := hbad.1
    refine ⟨err, _, Stopped.nil m.engine bad, ?_⟩
    rw [Order.Rests] at hrests
    rw [List.nil_append, restoreOrders]
    simp only [if_pos hrests, setOrder_engine, herr]
    rfl
  | cons order before ih =>
    obtain ⟨hfirst, hrest⟩ := passes_cons.mp hbefore
    obtain ⟨engine, hput, hstep⟩ := restoreOrders_passes hfirst (before ++ bad :: after)
    obtain ⟨err, engine', hstopped, heq⟩ :=
      ih (m := { m.setOrder order.internalId order with engine }) (hput.passes hrest)
        ((hput.turnedDown before bad).mpr hbad)
    exact ⟨err, engine', hstopped.cons hfirst hput, hstep.trans heq⟩

namespace OrderManager

/-- One more than the highest id, in 64 bits. -/
def nextId (ids : List ℕ) : ℕ := (maxId ids + 1) % 2 ^ 64

theorem nextId_eq {ids : List ℕ} (h : ∀ id ∈ ids, id < 2 ^ 63) : nextId ids = maxId ids + 1 := by
  have hle : maxId ids ≤ 2 ^ 63 - 1 := maxId_le_iff.mpr fun id hid => Nat.le_sub_one_of_lt (h id hid)
  exact Nat.mod_eq_of_lt (by omega)

/-- `RestoreFromDatabase` on what the three loads return. -/
def restoreLoaded (m : OrderManager) (orders : Result (List Order))
    (events : Result (List OrderEvent)) (executions : Result (List Fill)) :
    Result Unit × OrderManager :=
  match orders with
  | .error err => (.error err, m)
  | .ok orders =>
    match events with
    | .error err => (.error err, m)
    | .ok events =>
      match executions with
      | .error err => (.error err, m)
      | .ok executions =>
        let engine := m.engine.seedNextExecutionId (nextId (executions.map Fill.executionId))
        match { m with orders := ∅, events, executions, engine }.restoreOrders orders with
        | (.error err, m) => (.error err, m)
        | (.ok (), m) =>
          (.ok (), { m with
            nextOrderId := nextId (orders.map Order.internalId)
            nextEventId := nextId (events.map OrderEvent.eventId) })

/-- `RestoreFromDatabase` on what the queries of the three loads deliver. A query that cannot be
prepared has no cursor. -/
def restoreCursors (m : OrderManager) (orders events executions : Option (Cursor Columns)) :
    Result Unit × OrderManager :=
  m.restoreLoaded (loadOrders orders) (loadAllEvents events) (loadExecutions executions)

/-- `RestoreFromDatabase` on some tables, when nothing goes wrong with the queries. -/
def restoreRows (m : OrderManager) (db : Sqlite) : Result Unit × OrderManager :=
  m.restoreCursors (some db.ordersCursor) (some db.allEventsCursor) (some db.executionsCursor)

/-- A load that fails changes nothing. -/
theorem restoreLoaded_error (m : OrderManager) {orders : Result (List Order)}
    {events : Result (List OrderEvent)} {executions : Result (List Fill)}
    (h : ∀ os es fs, ¬ (orders = .ok os ∧ events = .ok es ∧ executions = .ok fs)) :
    ∃ err, m.restoreLoaded orders events executions = (.error err, m) := by
  cases orders with
  | error err => exact ⟨err, rfl⟩
  | ok os =>
    cases events with
    | error err => exact ⟨err, rfl⟩
    | ok es =>
      cases executions with
      | error err => exact ⟨err, rfl⟩
      | ok fs => exact absurd ⟨rfl, rfl, rfl⟩ (h os es fs)

theorem restoreLoaded_loads {m m' : OrderManager} {orders : Result (List Order)}
    {events : Result (List OrderEvent)} {executions : Result (List Fill)}
    (h : m.restoreLoaded orders events executions = (.ok (), m')) :
    ∃ os es fs, orders = .ok os ∧ events = .ok es ∧ executions = .ok fs := by
  by_contra hnot
  push Not at hnot
  obtain ⟨err, herr⟩ := m.restoreLoaded_error fun os es fs ⟨ho, he, hx⟩ => hnot os es fs ho he hx
  rw [herr] at h
  cases h

end OrderManager

/-- What a restore that stops at the row `bad` puts in place was in place before: the rows
up to it are the order table, none of those before it rests, its symbol has a book, and
events, executions and the execution counter are those of the database. -/
structure InPlace (m : OrderManager) (before : List Order) (bad : Order)
    (storedEvents : List OrderEvent) (storedExecutions : List Fill) : Prop where
  orders : m.orders = orderTable ∅ (before ++ [bad])
  events : m.events = storedEvents
  executions : m.executions = storedExecutions
  nextExecutionId :
    m.engine.nextExecutionId = max 1 (nextId (storedExecutions.map Fill.executionId))
  noneRests : ∀ o ∈ before, ¬ o.Rests
  book : ∃ book, m.engine.getBook bad.symbol = .ok book

theorem seedNextExecutionId_eq_self {e : MatchingEngine} {k : ℕ}
    (h : e.nextExecutionId = max 1 k) : e.seedNextExecutionId k = e := by
  rw [MatchingEngine.seedNextExecutionId, ← h]

theorem Stopped.eq_iff {before : List Order} {bad : Order} {e e' : MatchingEngine} {k : ℕ}
    (h : Stopped before bad (e.seedNextExecutionId k) e') :
    e' = e ↔ e.nextExecutionId = max 1 k ∧ (∀ o ∈ before, ¬ o.Rests) ∧
      ∃ book, e.getBook bad.symbol = .ok book := by
  by_cases hnext : e.nextExecutionId = max 1 k
  · rw [and_iff_right hnext]
    rw [seedNextExecutionId_eq_self hnext] at h
    exact h.same_iff
  · refine iff_of_false (fun heq => hnext ?_) fun hall => hnext hall.1
    rw [← heq, h.nextExecutionId]
    rfl

theorem restoreLoaded_stops (m : OrderManager) {before : List Order} {bad : Order}
    (hbefore : Passes (TurnedDown m.engine) before) (hbad : TurnedDown m.engine before bad)
    (after : List Order) (events : List OrderEvent) (executions : List Fill) :
    ∃ err m', m.restoreLoaded (.ok (before ++ bad :: after)) (.ok events) (.ok executions) =
      (.error err, m') ∧ (m' = m ↔ InPlace m before bad events executions) := by
  let engine := m.engine.seedNextExecutionId (nextId (executions.map Fill.executionId))
  obtain ⟨err, engine', hstopped, hstop⟩ := restoreOrders_stops
    (m := { m with orders := ∅, events, executions, engine })
    (hbefore : Passes (TurnedDown engine) before) (hbad : TurnedDown engine before bad) after
  have hloaded : m.restoreLoaded (.ok (before ++ bad :: after)) (.ok events) (.ok executions) =
      (.error err, { m with
        events, executions
        engine := engine'
        orders := orderTable ∅ (before ++ [bad]) }) := by
    rw [restoreLoaded]
    simp only [engine] at hstop
    simp only [hstop]
  refine ⟨err, _, hloaded, ?_⟩
  constructor
  · intro heq
    obtain ⟨hnext, hnone, hbook⟩ := hstopped.eq_iff.mp (congrArg OrderManager.engine heq)
    exact ⟨(congrArg OrderManager.orders heq).symm, (congrArg OrderManager.events heq).symm,
      (congrArg OrderManager.executions heq).symm, hnext, hnone, hbook⟩
  · rintro ⟨horders, hevents, hexecutions, hnext, hnone, hbook⟩
    rw [hstopped.eq_iff.mpr ⟨hnext, hnone, hbook⟩, ← horders, ← hevents, ← hexecutions]

theorem restoreLoaded_ok_of_passes (m : OrderManager) {orders : List Order}
    (h : Passes (TurnedDown m.engine) orders) (events : List OrderEvent) (executions : List Fill) :
    ∃ m', m.restoreLoaded (.ok orders) (.ok events) (.ok executions) = (.ok (), m') ∧
      m'.nextOrderId = nextId (orders.map Order.internalId) ∧
      m'.nextEventId = nextId (events.map OrderEvent.eventId) ∧
      m'.engine.nextExecutionId = max 1 (nextId (executions.map Fill.executionId)) := by
  let engine := m.engine.seedNextExecutionId (nextId (executions.map Fill.executionId))
  obtain ⟨m', hok, hnext⟩ := restoreOrders_ok_of_passes
    (m := { m with orders := ∅, events, executions, engine })
    (h : Passes (TurnedDown engine) orders)
  rw [restoreLoaded]
  simp only [engine] at hok
  simp only [hok]
  exact ⟨_, rfl, rfl, rfl, hnext⟩

theorem restoreLoaded_passes {m m' : OrderManager} {orders : List Order}
    {events : List OrderEvent} {executions : List Fill}
    (h : m.restoreLoaded (.ok orders) (.ok events) (.ok executions) = (.ok (), m')) :
    Passes (TurnedDown m.engine) orders := by
  obtain hpasses | ⟨before, bad, after, rfl, hbefore, hbad⟩ :=
    passes_or_first (TurnedDown m.engine) orders
  · exact hpasses
  · obtain ⟨err, m'', herr, -⟩ := restoreLoaded_stops m hbefore hbad after events executions
    rw [herr] at h
    cases h

def restingBid : Order :=
  ⟨1, str "C1", ⟨str "AAPL"⟩, .buy, .limit, 99, 10, 0, 10, .accepted, 0, 0⟩

def restingAsk : Order :=
  ⟨2, str "C2", ⟨str "AAPL"⟩, .sell, .limit, 101, 10, 0, 10, .accepted, 0, 0⟩

end Oems
