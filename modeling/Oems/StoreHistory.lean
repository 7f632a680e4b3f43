import Oems.StoreFile
import Oems.Lib.Latest

namespace Oems

open Lib Sql Sqlite

/-- An order as it comes back: its texts end at their first NUL. -/
def Order.stored (order : Order) : Order :=
  { order with
    clientOrderId := cString order.clientOrderId
    symbol := ⟨cString order.symbol.value⟩ }

def OrderEvent.stored (event : OrderEvent) : OrderEvent :=
  { event with detail := cString event.detail }

def Fill.stored (fill : Fill) : Fill := { fill with symbol := ⟨cString fill.symbol.value⟩ }

namespace StoreWrite

def savedOrder : StoreWrite → Option Order
  | saveOrder order => some order
  | _ => none

def savedEvent : StoreWrite → Option OrderEvent
  | appendEvent event => some event
  | _ => none

def savedExecution : StoreWrite → Option Fill
  | saveExecution fill => some fill
  | _ => none

def savedAudit : StoreWrite → Option (Str × Str × ℤ)
  | appendAudit category message now => some (category, message, now)
  | _ => none

/-- What is written under a key of `service_state`. -/
def savedState (key : Str) : StoreWrite → Option Str
  | saveServiceState key' value => if cString key' = cString key then some (cString value) else none
  | _ => none

def Fits : StoreWrite → Prop
  | saveOrder order => order.internalId < 2 ^ 64
  | appendEvent event => event.eventId < 2 ^ 64 ∧ event.orderId < 2 ^ 64
  | saveExecution fill =>
    fill.executionId < 2 ^ 64 ∧ fill.aggressiveOrderId < 2 ^ 64 ∧ fill.passiveOrderId < 2 ^ 64
  | _ => True

end StoreWrite

theorem toInt64_inj {a b : ℕ} (ha : a < 2 ^ 64) (hb : b < 2 ^ 64) :
    toInt64 a = toInt64 b ↔ a = b := by
  refine ⟨fun h => ?_, congrArg toInt64⟩
  rw [← toUInt64_toInt64 ha, h, toUInt64_toInt64 hb]

/-- Records of one type: which writes save them, the rows that they are stored as, and what
comes back of them. -/
structure RecordKind (α κ : Type) where
  saved : StoreWrite → Option α
  id : α → ℕ
  row : α → Row κ
  read : Row κ → α
  stored : α → α
  Fits : α → Prop
  id_lt : ∀ a, Fits a → id a < 2 ^ 64
  id_stored : ∀ a, id (stored a) = id a
  read_row : ∀ a, Fits a → read (row a) = stored a

def orderKind : RecordKind Order OrderColumn where
  saved := StoreWrite.savedOrder
  id := Order.internalId
  row := orderRow
  read := fun row => rowToOrder (select selectOrders row)
  stored := Order.stored
  Fits := fun order => order.internalId < 2 ^ 64
  id_lt := fun _ h => h
  id_stored := fun _ => rfl
  read_row := rowToOrder_orderRow

def eventKind : RecordKind OrderEvent EventColumn where
  saved := StoreWrite.savedEvent
  id := OrderEvent.eventId
  row := eventRow
  read := fun row => rowToEvent (select selectEvents row)
  stored := OrderEvent.stored
  Fits := fun event => event.eventId < 2 ^ 64 ∧ event.orderId < 2 ^ 64
  id_lt := fun _ h => h.1
  id_stored := fun _ => rfl
  read_row := fun event h => rowToEvent_eventRow event h.1 h.2

def executionKind : RecordKind Fill ExecutionColumn where
  saved := StoreWrite.savedExecution
  id := Fill.executionId
  row := executionRow
  read := fun row => rowToFill (select selectExecutions row)
  stored := Fill.stored
  Fits := fun fill =>
    fill.executionId < 2 ^ 64 ∧ fill.aggressiveOrderId < 2 ^ 64 ∧ fill.passiveOrderId < 2 ^ 64
  id_lt := fun _ h => h.1
  id_stored := fun _ => rfl
  read_row := fun fill h => rowToFill_executionRow fill h.1 h.2.1 h.2.2

namespace RecordKind

variable {α κ : Type} {kind : RecordKind α κ} {t : RowTable κ} {writes : List StoreWrite}
  {w : StoreWrite} {a : α}

def savedAt (kind : RecordKind α κ) (id : ℕ) (w : StoreWrite) : Option α :=
  ((kind.saved w).filter fun a => kind.id a = id).map kind.stored

def savedKey (kind : RecordKind α κ) (key : ℤ) (w : StoreWrite) : Option α :=
  ((kind.saved w).filter fun a => toInt64 (kind.id a) = key).map kind.stored

/-- The records that some writes leave: the last one of each id, in the order of the
primary key. -/
structure Lists (kind : RecordKind α κ) (writes : List StoreWrite) (records : List α) : Prop where
  sorted : records.Pairwise fun a b => toInt64 (kind.id a) < toInt64 (kind.id b)
  mem_iff : ∀ a, a ∈ records ↔ latest (kind.savedAt (kind.id a)) writes = some a

/-- The rows of a table are what some writes leave. -/
structure Kept (kind : RecordKind α κ) (t : RowTable κ) (writes : List StoreWrite) : Prop where
  find : ∀ key, (t.find key).map kind.read = latest (kind.savedKey key) writes
  row : ∀ key row, t.find key = some row →
    ∃ a, kind.Fits a ∧ kind.row a = row ∧ toInt64 (kind.id a) = key
  fits : ∀ w ∈ writes, ∀ a, kind.saved w = some a → kind.Fits a

theorem Kept.empty (kind : RecordKind α κ) : kind.Kept OrdMap.empty [] where
  find := fun _ => rfl
  row := fun _ _ h => by cases h
  fits := fun _ h => absurd h List.not_mem_nil

theorem savedKey_some (hw : kind.saved w = some a) (key : ℤ) :
    kind.savedKey key w = if toInt64 (kind.id a) = key then some (kind.stored a) else none := by
  rw [savedKey, hw, Option.filter_some]
  by_cases hkey : toInt64 (kind.id a) = key
  · rw [if_pos (decide_eq_true hkey), if_pos hkey]
    rfl
  · rw [if_neg (by simp [hkey]), if_neg hkey]
    rfl

theorem Kept.insert (h : kind.Kept t writes) (hw : kind.saved w = some a) (ha : kind.Fits a) :
    kind.Kept (t.insert (toInt64 (kind.id a)) (kind.row a)) (writes ++ [w]) where
  find := by
    intro key
    rw [latest_concat, savedKey_some hw]
    by_cases hkey : toInt64 (kind.id a) = key
    · rw [if_pos hkey, ← hkey, OrdMap.find_insert, Option.map_some, kind.read_row a ha,
        Option.some_or]
    · rw [if_neg hkey, OrdMap.find_insert_of_ne _ _ (Ne.symm hkey), h.find, Option.none_or]
  row := by
    intro key row hfind
    by_cases hkey : toInt64 (kind.id a) = key
    · subst hkey
      rw [OrdMap.find_insert] at hfind
      exact ⟨a, ha, Option.some.inj hfind, rfl⟩
    · rw [OrdMap.find_insert_of_ne _ _ (Ne.symm hkey)] at hfind
      exact h.row key row hfind
  fits := by
    intro w' hw' b hb
    obtain hw' | hw' := List.mem_append.mp hw'
    · exact h.fits w' hw' b hb
    · rw [List.mem_singleton.mp hw', hw] at hb
      exact Option.some.inj hb ▸ ha

theorem Kept.other (h : kind.Kept t writes) (hw : kind.saved w = none) :
    kind.Kept t (writes ++ [w]) where
  find := by
    intro key
    rw [latest_concat, savedKey, hw, h.find]
    rfl
  row := h.row
  fits := by
    intro w' hw' b hb
    obtain hw' | hw' := List.mem_append.mp hw'
    · exact h.fits w' hw' b hb
    · rw [List.mem_singleton.mp hw', hw] at hb
      cases hb

theorem savedAt_eq_savedKey (hfits : ∀ a, kind.saved w = some a → kind.Fits a) {id : ℕ}
    (hid : id < 2 ^ 64) : kind.savedAt id w = kind.savedKey (toInt64 id) w := by
  rw [savedAt, savedKey]
  cases hw : kind.saved w with
  | none => rfl
  | some a =>
    have hsame : kind.id a = id ↔ toInt64 (kind.id a) = toInt64 id :=
      (toInt64_inj (kind.id_lt a (hfits a hw)) hid).symm
    simp only [Option.filter_some, hsame]

theorem Kept.find_id (h : kind.Kept t writes) {id : ℕ} (hid : id < 2 ^ 64) :
    (t.find (toInt64 id)).map kind.read = latest (kind.savedAt id) writes := by
  rw [h.find]
  apply latest_congr
  intro w hw
  exact (savedAt_eq_savedKey (h.fits w hw) hid).symm

theorem id_of_savedAt {id : ℕ} (h : kind.savedAt id w = some a) :
    ∃ b, kind.saved w = some b ∧ kind.id b = id ∧ kind.stored b = a := by
  obtain ⟨b, hb, rfl⟩ := Option.map_eq_some_iff.mp h
  obtain ⟨hsaved, hid⟩ := Option.filter_eq_some_iff.mp hb
  exact ⟨b, hsaved, of_decide_eq_true hid, rfl⟩

theorem Kept.key (h : kind.Kept t writes) {key : ℤ} {row : Row κ} (hfind : t.find key = some row) :
    toInt64 (kind.id (kind.read row)) = key ∧ kind.id (kind.read row) < 2 ^ 64 := by
  obtain ⟨a, ha, rfl, rfl⟩ := h.row key row hfind
  rw [kind.read_row a ha, kind.id_stored]
  exact ⟨rfl, kind.id_lt a ha⟩

theorem Kept.lists (h : kind.Kept t writes) : kind.Lists writes (t.values.map kind.read) where
  sorted := by
    have hkeys : (t.values.map kind.read).map (fun a => toInt64 (kind.id a)) = t.entries.keys := by
      rw [OrdMap.values, List.map_map, List.map_map]
      apply List.map_congr_left
      intro e he
      exact (h.key (OrdMap.find_eq_some_iff.mpr he)).1
    have hsorted := t.sorted
    rw [← hkeys] at hsorted
    exact List.pairwise_map.mp hsorted
  mem_iff := by
    intro a
    rw [List.mem_map]
    constructor
    · rintro ⟨row, hrow, rfl⟩
      obtain ⟨key, hfind⟩ := OrdMap.mem_values_iff.mp hrow
      obtain ⟨hkey, hlt⟩ := h.key hfind
      rw [← h.find_id hlt, hkey, hfind]
      rfl
    · intro hlatest
      obtain ⟨w, hw, hsaved⟩ := exists_of_latest _ hlatest
      obtain ⟨b, hb, hid, -⟩ := id_of_savedAt hsaved
      have hlt : kind.id a < 2 ^ 64 := hid ▸ kind.id_lt b (h.fits w hw b hb)
      rw [← h.find_id hlt] at hlatest
      obtain ⟨row, hfind, rfl⟩ := Option.map_eq_some_iff.mp hlatest
      exact ⟨row, OrdMap.mem_values_iff.mpr ⟨_, hfind⟩, rfl⟩

end RecordKind

def auditEntry (p : (Str × Str × ℤ) × ℕ) : Σ _ : ℤ, Row AuditColumn :=
  ⟨p.2, auditRow p.2 p.1.1 p.1.2.1 p.1.2.2⟩

/-- The entries that some writes leave in the audit log, numbered from 1 on. -/
def auditEntries (writes : List StoreWrite) : List (Σ _ : ℤ, Row AuditColumn) :=
  ((writes.filterMap StoreWrite.savedAudit).zipIdx 1).map auditEntry

theorem auditEntries_concat (writes : List StoreWrite) (category message : Str) (now : ℤ) :
    auditEntries (writes ++ [.appendAudit category message now]) = auditEntries writes ++
      [auditEntry ((category, message, now),
        (writes.filterMap StoreWrite.savedAudit).length + 1)] := by
  rw [auditEntries, List.filterMap_append, List.zipIdx_append, List.map_append, auditEntries,
    Nat.add_comm 1]
  rfl

theorem key_le_of_mem_auditEntries {writes : List StoreWrite} {key : ℤ}
    (h : key ∈ (auditEntries writes).keys) :
    key ≤ (writes.filterMap StoreWrite.savedAudit).length := by
  obtain ⟨e, he, rfl⟩ := List.mem_map.mp h
  obtain ⟨p, hp, rfl⟩ := List.mem_map.mp he
  have hlt := List.snd_lt_add_of_mem_zipIdx hp
  change (p.2 : ℤ) ≤ _
  omega

/-- The tables hold what some writes leave. -/
structure Told (f : StoreFile) (writes : List StoreWrite) : Prop where
  orders : orderKind.Kept f.records.orders writes
  events : eventKind.Kept f.records.orderEvents writes
  executions : executionKind.Kept f.records.executions writes
  state : ∀ key, (f.serviceState.lookup (cString key)).map
      (fun row => (select selectState row).text 0) =
    latest (StoreWrite.savedState key) writes
  sequence : f.auditSequence = (writes.filterMap StoreWrite.savedAudit).length
  audit : f.auditLog.entries = auditEntries writes

/-- A call that gets through to its table is refused only if it appends an event under an id
that is taken, or an audit entry when no id is left. -/
def Accepts (created : Finset SchemaStatement) (writes : List StoreWrite) (c : StoreCall) : Prop :=
  match c.write with
  | .migrate => kSchema.length ≤ c.through
  | .saveOrder _ => .orders ∈ created ∧ 0 < c.through
  | .appendEvent event => (.orderEvents ∈ created ∧ 0 < c.through) ∧
    latest (eventKind.savedAt event.eventId) writes = none
  | .saveExecution _ => .executions ∈ created ∧ 0 < c.through
  | .appendAudit _ _ _ => (.auditLog ∈ created ∧ 0 < c.through) ∧
    (writes.filterMap StoreWrite.savedAudit).length < 2 ^ 63 - 1
  | .saveServiceState _ _ => .serviceState ∈ created ∧ 0 < c.through

/-- The answer to a call and what it leaves: an accepted write is there, another is not. -/
structure Answers (f : StoreFile) (writes : List StoreWrite) (c : StoreCall)
    (r : Result Unit × StoreFile) : Prop where
  accepted : Accepts f.created writes c → r.1 = .ok () ∧ Told r.2 (writes ++ [c.write])
  refused : ¬ Accepts f.created writes c → r.1 = .error .databaseError ∧ Told r.2 writes ∧
    (c.write ≠ .migrate → r.2 = f)

namespace Told

variable {f : StoreFile} {writes : List StoreWrite} {w : StoreWrite}

theorem new : Told StoreFile.new [] where
  orders := .empty _
  events := .empty _
  executions := .empty _
  state := fun _ => rfl
  sequence := rfl
  audit := rfl

theorem audit_other (h : Told f writes) (hw : w.savedAudit = none) :
    f.auditSequence = ((writes ++ [w]).filterMap StoreWrite.savedAudit).length ∧
      f.auditLog.entries = auditEntries (writes ++ [w]) := by
  have hsame : (writes ++ [w]).filterMap StoreWrite.savedAudit =
      writes.filterMap StoreWrite.savedAudit := by
    rw [List.filterMap_append, List.filterMap_cons_none hw, List.filterMap_nil, List.append_nil]
  rw [auditEntries, hsame]
  exact ⟨h.sequence, h.audit⟩

theorem state_other (h : Told f writes) (hw : ∀ key, w.savedState key = none) (key : Str) :
    (f.serviceState.lookup (cString key)).map (fun row => (select selectState row).text 0) =
      latest (StoreWrite.savedState key) (writes ++ [w]) := by
  rw [latest_concat, hw, Option.none_or, h.state]

theorem saveOrder (h : Told f writes) {order : Order} (hfits : order.internalId < 2 ^ 64) :
    Told (f.onRecords (f.records.saveOrder order)).2 (writes ++ [.saveOrder order]) where
  orders := h.orders.insert rfl hfits
  events := h.events.other rfl
  executions := h.executions.other rfl
  state := h.state_other fun _ => rfl
  sequence := (h.audit_other rfl).1
  audit := (h.audit_other rfl).2

theorem saveExecution (h : Told f writes) {fill : Fill} (hfits : executionKind.Fits fill) :
    Told (f.onRecords (f.records.saveExecution fill)).2 (writes ++ [.saveExecution fill]) where
  orders := h.orders.other rfl
  events := h.events.other rfl
  executions := h.executions.insert rfl hfits
  state := h.state_other fun _ => rfl
  sequence := (h.audit_other rfl).1
  audit := (h.audit_other rfl).2

theorem migrate (h : Told f writes) (through : ℕ) :
    Told (f.migrate through).2 writes ∧ Told (f.migrate through).2 (writes ++ [.migrate]) := by
  constructor
  · exact ⟨h.orders, h.events, h.executions, h.state, h.sequence, h.audit⟩
  · exact ⟨h.orders.other rfl, h.events.other rfl, h.executions.other rfl,
      h.state_other fun _ => rfl, (h.audit_other rfl).1, (h.audit_other rfl).2⟩

theorem appendEvent (h : Told f writes) {event : OrderEvent} (hfits : eventKind.Fits event) :
    (latest (eventKind.savedAt event.eventId) writes = none →
      (f.records.appendEvent event).1 = .ok () ∧
        Told (f.onRecords (f.records.appendEvent event)).2 (writes ++ [.appendEvent event])) ∧
    (latest (eventKind.savedAt event.eventId) writes ≠ none →
      f.records.appendEvent event = (.error .databaseError, f.records)) := by
  have hfind : (f.records.orderEvents.find (toInt64 event.eventId)).map eventKind.read =
      latest (eventKind.savedAt event.eventId) writes :=
    h.events.find_id (eventKind.id_lt event hfits)
  have hrow : (insertRow insertEvents (bindEvent event) .eventId).int64 = toInt64 event.eventId :=
    rfl
  rw [← hfind, Sqlite.appendEvent]
  simp only [hrow]
  cases f.records.orderEvents.find (toInt64 event.eventId) with
  | some row => exact ⟨fun hnone => absurd hnone (Option.some_ne_none _), fun _ => rfl⟩
  | none =>
    refine ⟨fun _ => ⟨rfl, ?_⟩, fun hsome => absurd rfl hsome⟩
    exact ⟨h.orders.other rfl, h.events.insert rfl hfits, h.executions.other rfl,
      h.state_other fun _ => rfl, (h.audit_other rfl).1, (h.audit_other rfl).2⟩

theorem appendAudit (h : Told f writes) (category message : Str) (now : ℤ) :
    ((writes.filterMap StoreWrite.savedAudit).length < 2 ^ 63 - 1 →
      (f.appendAudit category message now).1 = .ok () ∧
        Told (f.appendAudit category message now).2
          (writes ++ [.appendAudit category message now])) ∧
    (¬ (writes.filterMap StoreWrite.savedAudit).length < 2 ^ 63 - 1 →
      f.appendAudit category message now = (.error .databaseError, f)) := by
  rw [StoreFile.appendAudit, ← h.sequence]
  constructor
  · intro hroom
    rw [if_pos hroom]
    refine ⟨rfl, h.orders.other rfl, h.events.other rfl, h.executions.other rfl,
      h.state_other fun _ => rfl, ?_, ?_⟩
    · change f.auditSequence + 1 = _
      rw [h.sequence, List.filterMap_append, List.length_append]
      rfl
    · have hlast : ∀ x ∈ f.auditLog.entries.keys, x < (f.auditSequence + 1 : ℤ) := by
        intro x hx
        rw [h.audit] at hx
        have hle := key_le_of_mem_auditEntries hx
        rw [← h.sequence] at hle
        omega
      rw [auditEntries_concat, ← h.sequence, ← h.audit]
      exact OrdMap.entries_insert_of_last _ hlast
  · intro hfull
    rw [if_neg hfull]

theorem saveServiceState (h : Told f writes) (key value : Str) :
    Told (f.saveServiceState key value).2 (writes ++ [.saveServiceState key value]) where
  orders := h.orders.other rfl
  events := h.events.other rfl
  executions := h.executions.other rfl
  state := by
    intro key'
    rw [latest_concat, StoreWrite.savedState]
    change ((f.serviceState.insert (cString key) (stateRow key value)).lookup
      (cString key')).map _ = _
    by_cases hkey : cString key = cString key'
    · rw [if_pos hkey, hkey, Finmap.lookup_insert, Option.map_some, Option.some_or]
      exact congrArg some (cString_cString value)
    · rw [if_neg hkey, Finmap.lookup_insert_of_ne _ (Ne.symm hkey), Option.none_or]
      exact h.state key'
  sequence := (h.audit_other rfl).1
  audit := (h.audit_other rfl).2

/-- What holds of the effect of a statement holds of the statement, when it has its table and
gets through. -/
theorem execute (h : Told f writes) {c : StoreCall} {table : SchemaStatement}
    {effect : Result Unit × StoreFile} {P : Prop}
    (haccepts : Accepts f.created writes c ↔ (table ∈ f.created ∧ 0 < c.through) ∧ P)
    (hdone : P → effect.1 = .ok () ∧ Told effect.2 (writes ++ [c.write]))
    (hrefused : ¬ P → effect = (.error .databaseError, f)) :
    Answers f writes c (f.execute table c.through effect) := by
  have hkept : (Except.error .databaseError : Result Unit) = .error .databaseError ∧
      Told f writes ∧ (c.write ≠ .migrate → f = f) := ⟨rfl, h, fun _ => rfl⟩
  rw [StoreFile.execute]
  by_cases hready : table ∈ f.created ∧ 0 < c.through
  · rw [if_pos hready]
    refine ⟨fun ha => hdone (haccepts.mp ha).2, fun hna => ?_⟩
    rw [hrefused fun hp => hna (haccepts.mpr ⟨hready, hp⟩)]
    exact hkept
  · rw [if_neg hready]
    exact ⟨fun ha => absurd (haccepts.mp ha).1 hready, fun _ => hkept⟩

theorem call (h : Told f writes) {c : StoreCall} (hfits : c.write.Fits) :
    Answers f writes c (f.call c) := by
  obtain ⟨w, through⟩ := c
  cases w with
  | migrate =>
    constructor
    · intro ha
      exact ⟨if_pos ha, (h.migrate through).2⟩
    · intro hna
      exact ⟨if_neg hna, (h.migrate through).1, fun hne => absurd rfl hne⟩
  | saveOrder order =>
    exact h.execute (iff_of_eq (and_true _)).symm (fun _ => ⟨rfl, h.saveOrder hfits⟩)
      fun hn => absurd trivial hn
  | appendEvent event =>
    refine h.execute Iff.rfl (h.appendEvent hfits).1 fun hn => ?_
    rw [(h.appendEvent hfits).2 hn]
    rfl
  | saveExecution fill =>
    exact h.execute (iff_of_eq (and_true _)).symm (fun _ => ⟨rfl, h.saveExecution hfits⟩)
      fun hn => absurd trivial hn
  | appendAudit category message now =>
    exact h.execute Iff.rfl (h.appendAudit category message now).1
      (h.appendAudit category message now).2
  | saveServiceState key value =>
    exact h.execute (iff_of_eq (and_true _)).symm
      (fun _ => ⟨rfl, h.saveServiceState key value⟩) fun hn => absurd trivial hn

theorem execute_created {table : SchemaStatement} {through : ℕ}
    {effect : Result Unit × StoreFile} (h : effect.2.created = f.created) :
    (f.execute table through effect).2.created = f.created := by
  rw [StoreFile.execute]
  split_ifs
  · exact h
  · rfl

theorem appendAudit_created (f : StoreFile) (category message : Str) (now : ℤ) :
    (f.appendAudit category message now).2.created = f.created := by
  rw [StoreFile.appendAudit]
  split_ifs <;> rfl

theorem call_created (f : StoreFile) (c : StoreCall) (table : SchemaStatement) :
    table ∈ (f.call c).2.created ↔
      table ∈ f.created ∨ c.write = .migrate ∧ table ∈ kSchema.take c.through := by
  obtain ⟨w, through⟩ := c
  have hother : w ≠ .migrate → (f.call ⟨w, through⟩).2.created = f.created →
      (table ∈ (f.call ⟨w, through⟩).2.created ↔
        table ∈ f.created ∨ w = .migrate ∧ table ∈ kSchema.take through) := by
    intro hne hsame
    rw [hsame]
    exact (or_iff_left fun h => hne h.1).symm
  cases w with
  | migrate =>
    change table ∈ f.created ∪ (kSchema.take through).toFinset ↔ _
    rw [Finset.mem_union, List.mem_toFinset]
    exact or_congr_right (and_iff_right rfl).symm
  | saveOrder order => exact hother (by simp) (execute_created rfl)
  | appendEvent event => exact hother (by simp) (execute_created rfl)
  | saveExecution fill => exact hother (by simp) (execute_created rfl)
  | appendAudit category message now =>
    exact hother (by simp) (execute_created (appendAudit_created f category message now))
  | saveServiceState key value => exact hother (by simp) (execute_created rfl)

theorem created_after (f : StoreFile) (calls : List StoreCall) (table : SchemaStatement) :
    table ∈ (f.after calls).created ↔ table ∈ f.created ∨
      ∃ c ∈ calls, c.write = .migrate ∧ table ∈ kSchema.take c.through := by
  induction calls generalizing f with
  | nil => simp [StoreFile.after]
  | cons c calls ih =>
    change table ∈ ((f.call c).2.after calls).created ↔ _
    rw [ih, call_created, List.exists_mem_cons_iff, or_assoc]

theorem after (h : Told f writes) {calls : List StoreCall} (hfits : ∀ c ∈ calls, c.write.Fits) :
    Told (f.after calls) (writes ++ f.acknowledged calls) := by
  induction calls generalizing f writes with
  | nil =>
    rw [StoreFile.acknowledged, List.append_nil]
    exact h
  | cons c calls ih =>
    have hanswers := h.call (hfits c List.mem_cons_self)
    have hrest : ∀ c' ∈ calls, c'.write.Fits := fun c' hc' => hfits c' (List.mem_cons_of_mem c hc')
    rw [StoreFile.acknowledged]
    by_cases ha : Accepts f.created writes c
    · obtain ⟨hok, htold⟩ := hanswers.accepted ha
      rw [hok, List.append_cons]
      exact ih htold hrest
    · obtain ⟨herror, htold, -⟩ := hanswers.refused ha
      rw [herror]
      exact ih htold hrest

end Told

/-- What a store answers after some calls, when these writes are the acknowledged ones. -/
structure Tells (calls : List StoreCall) (f : StoreFile) (writes : List StoreWrite) : Prop where
  created : ∀ table, table ∈ f.created ↔
    ∃ c ∈ calls, c.write = .migrate ∧ table ∈ kSchema.take c.through
  /-- Nothing is read from a table that is not created. -/
  missing : (.orders ∉ f.created → f.loadOrders = .error .databaseError ∧
      ∀ id, f.loadOrder id = .error .databaseError) ∧
    (.orderEvents ∉ f.created → f.loadAllEvents = .error .databaseError ∧
      ∀ id, f.loadEvents id = .error .databaseError) ∧
    (.executions ∉ f.created → f.loadExecutions = .error .databaseError) ∧
    (.serviceState ∉ f.created → ∀ key, f.loadServiceState key = .error .databaseError)
  orders : .orders ∈ f.created → ∃ orders, f.loadOrders = .ok orders ∧
    orderKind.Lists writes orders
  order : .orders ∈ f.created → ∀ id, id < 2 ^ 64 → f.loadOrder id =
    (latest (orderKind.savedAt id) writes).elim (.error .orderNotFound) .ok
  events : .orderEvents ∈ f.created → ∃ events, f.loadAllEvents = .ok events ∧
    eventKind.Lists writes events ∧ ∀ id, id < 2 ^ 64 →
      f.loadEvents id = .ok (events.filter fun event => event.orderId = id)
  executions : .executions ∈ f.created → ∃ fills, f.loadExecutions = .ok fills ∧
    executionKind.Lists writes fills
  state : .serviceState ∈ f.created → ∀ key,
    f.loadServiceState key = .ok (latest (StoreWrite.savedState key) writes)
  audit : f.auditLog.entries = auditEntries writes
  next : ∀ c, c.write.Fits →
    (Accepts f.created writes c → (f.call c).1 = .ok ()) ∧
    (¬ Accepts f.created writes c → (f.call c).1 = .error .databaseError ∧
      (c.write ≠ .migrate → (f.call c).2 = f))

section Loads

variable {f : StoreFile} {writes : List StoreWrite}

theorem prepare_created {table : SchemaStatement} (h : table ∈ f.created)
    (cursor : Cursor Columns) : f.prepare table cursor = some cursor := if_pos h

theorem prepare_missing {table : SchemaStatement} (h : table ∉ f.created)
    (cursor : Cursor Columns) : f.prepare table cursor = none := if_neg h

theorem Told.loadOrder (h : Told f writes) (hcreated : .orders ∈ f.created) {id : ℕ}
    (hid : id < 2 ^ 64) : f.loadOrder id =
      (latest (orderKind.savedAt id) writes).elim (.error .orderNotFound) .ok := by
  rw [← h.orders.find_id hid, StoreFile.loadOrder, prepare_created hcreated, Sqlite.orderCursor]
  cases f.records.orders.find (toInt64 id) <;> rfl

theorem Told.loadEvents (h : Told f writes) (hcreated : .orderEvents ∈ f.created) {id : ℕ}
    (hid : id < 2 ^ 64) : f.loadEvents id = .ok ((f.records.orderEvents.values.map
      eventKind.read).filter fun event => event.orderId = id) := by
  rw [StoreFile.loadEvents, prepare_created hcreated, Sqlite.loadEvents, Sqlite.eventsCursor,
    loadAll_complete, List.filter_map]
  apply congrArg fun rows : List (Row EventColumn) => Except.ok (rows.map eventKind.read)
  apply List.filter_congr
  intro row hrow
  obtain ⟨key, hfind⟩ := OrdMap.mem_values_iff.mp hrow
  obtain ⟨event, hfits, rfl, -⟩ := h.events.row key row hfind
  have howner : eventRow event .orderId = .integer (toInt64 event.orderId) := rfl
  have hread : (eventKind.read (eventKind.row event)).orderId = event.orderId := by
    rw [eventKind.read_row event hfits]
    rfl
  change decide (eventRow event .orderId = .integer (toInt64 id)) =
    decide ((eventKind.read (eventKind.row event)).orderId = id)
  rw [hread, howner]
  apply decide_eq_decide.mpr
  rw [Value.integer.injEq]
  exact toInt64_inj hfits.2 hid

theorem Told.loadServiceState (h : Told f writes) (hcreated : .serviceState ∈ f.created)
    (key : Str) : f.loadServiceState key = .ok (latest (StoreWrite.savedState key) writes) := by
  rw [← h.state, StoreFile.loadServiceState, prepare_created hcreated, StoreFile.stateCursor]
  cases f.serviceState.lookup (cString key) <;> rfl

end Loads

/-- A store tells what its acknowledged writes were, whichever statements fail, and whether or
not it is migrated in time. -/
theorem store_tells {calls : List StoreCall} (hfits : ∀ c ∈ calls, c.write.Fits) :
    Tells calls (StoreFile.new.after calls) (StoreFile.new.acknowledged calls) := by
  have h : Told (StoreFile.new.after calls) (StoreFile.new.acknowledged calls) :=
    Told.new.after hfits
  constructor
  · intro table
    rw [Told.created_after]
    exact or_iff_right (Finset.notMem_empty table)
  · refine ⟨fun hc => ⟨?_, fun id => ?_⟩, fun hc => ⟨?_, fun id => ?_⟩, fun hc => ?_,
      fun hc key => ?_⟩
    · rw [StoreFile.loadOrders, prepare_missing hc]
      rfl
    · rw [StoreFile.loadOrder, prepare_missing hc]
      rfl
    · rw [StoreFile.loadAllEvents, prepare_missing hc]
      rfl
    · rw [StoreFile.loadEvents, prepare_missing hc]
      rfl
    · rw [StoreFile.loadExecutions, prepare_missing hc]
      rfl
    · rw [StoreFile.loadServiceState, prepare_missing hc]
      rfl
  · intro hc
    refine ⟨_, ?_, h.orders.lists⟩
    rw [StoreFile.loadOrders, prepare_created hc]
    exact loadAll_complete rowToOrder selectOrders _
  · exact fun hc id hid => h.loadOrder hc hid
  · intro hc
    refine ⟨_, ?_, h.events.lists, fun id hid => h.loadEvents hc hid⟩
    rw [StoreFile.loadAllEvents, prepare_created hc]
    exact loadAll_complete rowToEvent selectEvents _
  · intro hc
    refine ⟨_, ?_, h.executions.lists⟩
    rw [StoreFile.loadExecutions, prepare_created hc]
    exact loadAll_complete rowToFill selectExecutions _
  · exact fun hc key => h.loadServiceState hc key
  · exact h.audit
  · intro c hc
    have hanswers := h.call hc
    refine ⟨fun ha => (hanswers.accepted ha).1, fun hna => ?_⟩
    obtain ⟨herror, -, hsame⟩ := hanswers.refused hna
    exact ⟨herror, hsame⟩

def halfMigrated : List StoreCall :=
  [⟨.saveServiceState (str "k") (str "v"), 1⟩, ⟨.migrate, 2⟩,
    ⟨.appendEvent ⟨1, 7, .accepted, 0, str "a"⟩, 1⟩, ⟨.appendEvent ⟨1, 7, .cancelled, 0, []⟩, 1⟩,
    ⟨.appendAudit (str "risk") (str "m") 0, 1⟩]

theorem halfMigrated_tells : Tells halfMigrated (StoreFile.new.after halfMigrated)
    (StoreFile.new.acknowledged halfMigrated) :=
  @store_tells halfMigrated (by simp [halfMigrated, StoreWrite.Fits])

example : StoreFile.new.acknowledged halfMigrated =
    [.appendEvent ⟨1, 7, .accepted, 0, str "a"⟩] := rfl

end Oems
