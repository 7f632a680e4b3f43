import Oems.RestoreAtomic

namespace Oems

open Lib Checks Sql Sqlite OrderManager

/-- A load succeeds when its cursor ends with `SQLITE_DONE`, with one record for each row in
order, and gives an error otherwise. -/
def LoadsWhole {α : Type} (record : Columns → α) (load : Option (Cursor Columns) → Result (List α))
    (prepared : Option (Cursor Columns)) : Prop :=
  match prepared with
  | none => ∃ err, load none = .error err
  | some cursor =>
    if cursor.ending = .done then load (some cursor) = .ok (cursor.delivered.map record)
    else ∃ err, load (some cursor) = .error err

/-- A cursor that was opened has ended with `SQLITE_DONE`. -/
def EndsDone (prepared : Option (Cursor Columns)) : Prop :=
  ∀ cursor, prepared = some cursor → cursor.ending = .done

theorem loadsWhole_iff {α : Type} (record : Columns → α) (prepared : Option (Cursor Columns)) :
    LoadsWhole record (loadAll record) prepared ↔ EndsDone prepared := by
  cases prepared with
  | none => exact iff_of_true ⟨_, rfl⟩ fun cursor hnone => nomatch hnone
  | some cursor =>
    have hends : EndsDone (some cursor) ↔ cursor.ending = .done :=
      ⟨fun hall => hall cursor rfl, fun hdone c hc => Option.some.inj hc ▸ hdone⟩
    rw [hends, LoadsWhole]
    split_ifs with hdone
    · exact iff_of_true (loadAll_some record cursor) hdone
    · refine iff_of_false (fun hfails => ?_) hdone
      obtain ⟨err, herr⟩ := hfails
      cases herr

def ids (id : Columns → ℕ) (cursor : Cursor Columns) : List ℕ := cursor.stored.map id

def orderIds : Cursor Columns → List ℕ := ids fun row => (rowToOrder row).internalId

def eventIds : Cursor Columns → List ℕ := ids fun row => (rowToEvent row).eventId

def executionIds : Cursor Columns → List ℕ := ids fun row => (rowToFill row).executionId

/-- A counter of 64 bits is above all ids. -/
def Above (counter : ℕ) (ids : List ℕ) : Prop := ∀ id ∈ ids, id < counter % 2 ^ 64

/-- A restore succeeds on complete tables only, and its counters exceed every stored id. -/
def RestoresWhole (m : OrderManager) (orders events executions : Option (Cursor Columns)) : Prop :=
  ∀ m', m.restoreLoaded (loadOrders orders) (loadAllEvents events) (loadExecutions executions) =
      (.ok (), m') →
    ∃ o e x, orders = some o ∧ events = some e ∧ executions = some x ∧
      (o.ending = .done ∧ e.ending = .done ∧ x.ending = .done) ∧
      Above m'.nextOrderId (orderIds o) ∧ Above m'.nextEventId (eventIds e) ∧
      Above m'.engine.nextExecutionId (executionIds x)

theorem above_iff {ids : List ℕ} (hlt : ∀ id ∈ ids, id < 2 ^ 64) :
    Above (nextId ids) ids ↔ 2 ^ 64 - 1 ∉ ids := by
  rw [nextId]
  constructor
  · intro habove hmem
    have hless := habove _ hmem
    omega
  · intro hnot id hid
    have hmax : maxId ids ≤ 2 ^ 64 - 2 := maxId_le_iff.mpr fun x hx => by
      have hne : x ≠ 2 ^ 64 - 1 := fun heq => hnot (heq ▸ hx)
      have := hlt x hx
      omega
    have hle := le_maxId hid
    omega

theorem above_seeded_iff {ids : List ℕ} (hlt : ∀ id ∈ ids, id < 2 ^ 64) :
    Above (max 1 (nextId ids)) ids ↔ 2 ^ 64 - 1 ∉ ids := by
  have hnext : nextId ids < 2 ^ 64 := Nat.mod_lt _ (by norm_num)
  have hmod : max 1 (nextId ids) % 2 ^ 64 = max 1 (nextId ids) := Nat.mod_eq_of_lt (by omega)
  constructor
  · intro habove hmem
    have hless := habove _ hmem
    omega
  · intro hnot id hid
    have hless := (above_iff hlt).mpr hnot id hid
    rw [Nat.mod_eq_of_lt hnext] at hless
    omega

theorem loadAll_whole {α : Type} (record : Columns → α) {cursor : Cursor Columns}
    (hdone : cursor.ending = .done) :
    loadAll record (some cursor) = .ok (cursor.stored.map record) := by
  rw [loadAll_some, cursor.whole hdone]

/-- The highest id of 64 bits is not among the stored ones. -/
def IdsLeft (orders events executions : Cursor Columns) : Prop :=
  2 ^ 64 - 1 ∉ orderIds orders ∧ 2 ^ 64 - 1 ∉ eventIds events ∧ 2 ^ 64 - 1 ∉ executionIds executions

theorem ids_lt {id : Columns → ℕ} (hid : ∀ row, id row < 2 ^ 64) (cursor : Cursor Columns) :
    ∀ x ∈ ids id cursor, x < 2 ^ 64 := by
  intro x hx
  obtain ⟨row, -, rfl⟩ := List.mem_map.mp hx
  exact hid row

theorem counters_above_iff {o e x : Cursor Columns} {m : OrderManager}
    (hnext : m.nextOrderId = nextId ((o.stored.map rowToOrder).map Order.internalId))
    (hevent : m.nextEventId = nextId ((e.stored.map rowToEvent).map OrderEvent.eventId))
    (hexec : m.engine.nextExecutionId =
      max 1 (nextId ((x.stored.map rowToFill).map Fill.executionId))) :
    (Above m.nextOrderId (orderIds o) ∧ Above m.nextEventId (eventIds e) ∧
      Above m.engine.nextExecutionId (executionIds x)) ↔ IdsLeft o e x := by
  rw [hnext, hevent, hexec, List.map_map, List.map_map, List.map_map]
  exact and_congr (above_iff (ids_lt (fun row => toUInt64_lt _) o))
    (and_congr (above_iff (ids_lt (fun row => toUInt64_lt _) e))
      (above_seeded_iff (ids_lt (fun row => toUInt64_lt _) x)))

section Restore

variable {m : OrderManager} {orders events executions : Option (Cursor Columns)}
  (horders : EndsDone orders) (hevents : EndsDone events) (hexecutions : EndsDone executions)
include horders hevents hexecutions

theorem restoreLoaded_whole {o e x : Cursor Columns} (ho : orders = some o) (he : events = some e)
    (hx : executions = some x) :
    m.restoreLoaded (loadOrders orders) (loadAllEvents events) (loadExecutions executions) =
      m.restoreLoaded (.ok (o.stored.map rowToOrder)) (.ok (e.stored.map rowToEvent))
        (.ok (x.stored.map rowToFill)) := by
  rw [ho, he, hx, loadOrders, loadAllEvents, loadExecutions, loadAll_whole _ (horders o ho),
    loadAll_whole _ (hevents e he), loadAll_whole _ (hexecutions x hx)]

/-- With whole cursors, a restore that goes through leaves counters above all ids, but for
the highest id of 64 bits. -/
theorem restoresWhole_iff : RestoresWhole m orders events executions ↔
    ∀ o e x, orders = some o → events = some e → executions = some x →
      Passes (TurnedDown m.engine) (o.stored.map rowToOrder) → IdsLeft o e x := by
  constructor
  · intro hwhole o e x ho he hx hpasses
    obtain ⟨m', hok, hnext, hevent, hexec⟩ :=
      restoreLoaded_ok_of_passes m hpasses (e.stored.map rowToEvent) (x.stored.map rowToFill)
    obtain ⟨o', e', x', ho', he', hx', -, hcounters⟩ :=
      hwhole m' ((restoreLoaded_whole horders hevents hexecutions ho he hx).trans hok)
    obtain rfl := Option.some.inj (ho.symm.trans ho')
    obtain rfl := Option.some.inj (he.symm.trans he')
    obtain rfl := Option.some.inj (hx.symm.trans hx')
    exact (counters_above_iff hnext hevent hexec).mp hcounters
  · intro hids m' hok
    obtain ⟨os, es, fs, hos, hes, hfs⟩ := restoreLoaded_loads hok
    obtain ⟨o, ho⟩ := exists_cursor hos
    obtain ⟨e, he⟩ := exists_cursor hes
    obtain ⟨x, hx⟩ := exists_cursor hfs
    rw [restoreLoaded_whole horders hevents hexecutions ho he hx] at hok
    have hpasses := restoreLoaded_passes hok
    obtain ⟨m'', hok', hnext, hevent, hexec⟩ :=
      restoreLoaded_ok_of_passes m hpasses (e.stored.map rowToEvent) (x.stored.map rowToFill)
    rw [hok] at hok'
    cases hok'
    exact ⟨o, e, x, ho, he, hx, ⟨horders o ho, hevents e he, hexecutions x hx⟩,
      (counters_above_iff hnext hevent hexec).mpr (hids o e x ho he hx hpasses)⟩

end Restore

/-- No part of a table is loaded as if it were all of it. -/
structure RecoversWhole (m : OrderManager) (orders orderEvents events executions :
    Option (Cursor Columns)) : Prop where
  loadOrders : LoadsWhole rowToOrder loadOrders orders
  loadEvents : LoadsWhole rowToEvent loadEvents orderEvents
  loadAllEvents : LoadsWhole rowToEvent loadAllEvents events
  loadExecutions : LoadsWhole rowToFill loadExecutions executions
  restore : RestoresWhole m orders events executions

def cutOrders : Cursor Columns :=
  .cut ((Sqlite.empty.saveOrder restingBid).2.saveOrder restingAsk).2.ordersCursor.stored 1 10

def restoredCut : Result Unit × OrderManager :=
  (OrderManager.new (RiskManager.new RiskLimits.default) MatchingEngine.new none
    fun _ => 0).restoreLoaded (loadOrders (some cutOrders)) (loadAllEvents (some (.complete [])))
      (loadExecutions (some (.complete [])))

theorem cutOrders_restored : ¬ ∀ m orders orderEvents events executions,
    RecoversWhole m orders orderEvents events executions := by
  intro h
  have hrestore := (h (OrderManager.new (RiskManager.new RiskLimits.default) MatchingEngine.new none
    fun _ => 0) (some cutOrders) none (some (.complete [])) (some (.complete []))).restore
  obtain ⟨o, e, x, ho, -, -, ⟨hdone, -⟩, -⟩ := hrestore restoredCut.2 rfl
  cases ho
  cases hdone

-- the next order will get the id of the second, and replace it in the table
example : restoredCut.2.nextOrderId = 2 ∧ 2 ∈ orderIds cutOrders := by decide

/-- The loads are whole exactly where every cursor ends with `SQLITE_DONE`. A restore then
has its counters above all stored ids, unless one is the highest of 64 bits. -/
theorem recoversWhole_iff (m : OrderManager)
    (orders orderEvents events executions : Option (Cursor Columns)) :
    RecoversWhole m orders orderEvents events executions ↔
      (EndsDone orders ∧ EndsDone orderEvents ∧ EndsDone events ∧ EndsDone executions) ∧
      ∀ o e x, orders = some o → events = some e → executions = some x →
        Passes (TurnedDown m.engine) (o.stored.map rowToOrder) → IdsLeft o e x := by
  have hall : (LoadsWhole rowToOrder loadOrders orders ∧
      LoadsWhole rowToEvent loadEvents orderEvents ∧ LoadsWhole rowToEvent loadAllEvents events ∧
      LoadsWhole rowToFill loadExecutions executions) ↔
      EndsDone orders ∧ EndsDone orderEvents ∧ EndsDone events ∧ EndsDone executions := by
    rw [loadOrders, loadEvents, loadAllEvents, loadExecutions, loadsWhole_iff, loadsWhole_iff,
      loadsWhole_iff, loadsWhole_iff]
  constructor
  · rintro ⟨horders, horderEvents, hevents, hexecutions, hrestore⟩
    obtain ⟨ho, hoe, he, hx⟩ := hall.mp ⟨horders, horderEvents, hevents, hexecutions⟩
    exact ⟨⟨ho, hoe, he, hx⟩, (restoresWhole_iff ho he hx).mp hrestore⟩
  · rintro ⟨hdone, hids⟩
    obtain ⟨horders, horderEvents, hevents, hexecutions⟩ := hall.mpr hdone
    obtain ⟨ho, -, he, hx⟩ := hdone
    exact ⟨horders, horderEvents, hevents, hexecutions, (restoresWhole_iff ho he hx).mpr hids⟩

end Oems
