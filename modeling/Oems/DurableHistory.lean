import Oems.CrashRecovery

namespace Oems

open Lib OrderManager

/-- A statement that takes nothing from the tables: its event or execution has an id above
all stored ones, and its order is new or stored already on the same terms. -/
def Statement.Adds (t : Tables) : Statement → Prop
  | .saveOrder order => ∀ o, t.orders.find order.internalId = some o → SameTerms o order
  | .appendEvent event => ∀ id ∈ t.orderEvents.entries.keys, id < event.eventId
  | .saveExecution fill => ∀ id ∈ t.executions.entries.keys, id < fill.executionId

def Statement.event? : Statement → Option OrderEvent
  | .appendEvent event => some event
  | .saveOrder _ | .saveExecution _ => none

def Statement.execution? : Statement → Option Fill
  | .saveExecution fill => some fill
  | .saveOrder _ | .appendEvent _ => none

/-- Every statement of the journal added to what was stored before it. -/
def AddsOnly (d : Database) : Prop :=
  ∀ before st, before ++ [st] <+: d.journal → st.Adds (before.foldl Tables.exec d.stored)

theorem AddsOnly.exec {d : Database} (h : AddsOnly d) {st : Statement} (hst : st.Adds d.tables) :
    AddsOnly (d.exec st) := by
  intro before st' hpre
  obtain heq | hpre := List.prefix_concat_iff.mp hpre
  · obtain ⟨hbefore, hlast⟩ := List.append_inj' heq rfl
    obtain rfl : st' = st := List.singleton_inj.mp hlast
    rw [hbefore]
    exact hst
  · exact h before st' hpre

theorem exec_values {t : Tables} {st : Statement} (h : st.Adds t) :
    (t.exec st).orderEvents.values = t.orderEvents.values ++ st.event?.toList ∧
      (t.exec st).executions.values = t.executions.values ++ st.execution?.toList := by
  cases st with
  | saveOrder order => exact ⟨(List.append_nil _).symm, (List.append_nil _).symm⟩
  | appendEvent event =>
    have hfree : t.orderEvents.find event.eventId = none :=
      OrdMap.find_eq_none_iff.mpr fun hk => absurd (h _ hk) (lt_irrefl _)
    rw [exec_appendEvent_free hfree]
    refine ⟨?_, (List.append_nil _).symm⟩
    simp only [OrdMap.values]
    rw [OrdMap.entries_insert_of_last _ h, List.map_append]
    rfl
  | saveExecution fill =>
    refine ⟨(List.append_nil _).symm, ?_⟩
    simp only [OrdMap.values, Tables.exec]
    rw [OrdMap.entries_insert_of_last _ h, List.map_append]
    rfl

theorem AddsOnly.values {d : Database} (h : AddsOnly d) (before : List Statement)
    (hpre : before <+: d.journal) :
    (before.foldl Tables.exec d.stored).orderEvents.values =
        d.stored.orderEvents.values ++ before.filterMap Statement.event? ∧
      (before.foldl Tables.exec d.stored).executions.values =
        d.stored.executions.values ++ before.filterMap Statement.execution? := by
  induction before using List.reverseRecOn with
  | nil => exact ⟨(List.append_nil _).symm, (List.append_nil _).symm⟩
  | append_singleton before st ih =>
    obtain ⟨hevents, hexecutions⟩ := ih ((List.prefix_append before [st]).trans hpre)
    obtain ⟨hevent, hexecution⟩ := exec_values (h before st hpre)
    rw [List.foldl_concat, List.filterMap_append, List.filterMap_append, hevent, hexecution, hevents,
      hexecutions, List.append_assoc, List.append_assoc]
    constructor
    · cases st <;> rfl
    · cases st <;> rfl

/-- A manager whose database mirrors it and has only been added to. -/
structure Archived (orders : OrderMap) (m : OrderManager) : Prop where
  mirrored : Mirrored orders m
  added : DbHolds AddsOnly m

theorem Archived.write {orders : OrderMap} {m : OrderManager} (h : Archived orders m)
    {st : Statement} (hst : ∀ t, Mirrors t orders m.events m.executions → st.Adds t) :
    DbHolds AddsOnly (m.write st) := by
  have hboth : DbHolds (fun d => Mirrors d.tables orders m.events m.executions ∧ AddsOnly d) m :=
    fun d hd => ⟨h.mirrored.db d hd, h.added d hd⟩
  exact hboth.write fun d hd => hd.2.exec (hst d.tables hd.1)

theorem archived_writeRule : WriteRule Archived where
  same := by
    intro orders m m' h hdb hevents hnext hexecutions
    refine ⟨mirrored_writeRule.same h.mirrored hdb hevents hnext hexecutions, ?_⟩
    intro d hd
    rw [hdb] at hd
    exact h.added d hd
  appendEvent := by
    intro orders m id type detail h
    refine ⟨h.mirrored.appendEvent id type detail, ?_⟩
    exact h.write fun t ht => ht.event_keys_lt h.mirrored.eventId_lt
  saveOrder := by
    intro orders m order hterms h
    refine ⟨h.mirrored.saveOrder rfl, h.write fun t ht o ho => hterms o ?_⟩
    rw [← ht.orders]
    exact ho
  saveExecution := by
    intro orders m fill hid h
    refine ⟨h.mirrored.saveExecution hid, ?_⟩
    refine h.write fun t ht => ?_
    change ∀ id ∈ t.executions.entries.keys, id < fill.executionId
    rw [hid]
    exact ht.execution_keys_lt h.mirrored.executionId_lt

/-- What happens to an order manager whose processes end between two calls. -/
inductive Task where
  | call (op : Op)
  | restart (risk : RiskManager) (clock : ℕ → ℤ)

def OrderManager.task (m : OrderManager) : Task → Result OrderManager
  | .call op => .ok (m.step op).2
  | .restart risk clock => OrderManager.restart m.db risk clock

def service : Result OrderManager → Task → Unit × Result OrderManager
  | .error err, _ => ((), .error err)
  | .ok m, task => ((), m.task task)

/-- The state between two tasks: the process is up and its database, empty at the
start, has only been added to. -/
structure Serving (m : OrderManager) : Prop where
  durable : Durable m
  archived : Archived m.orders m
  db : ∃ d, m.db = some d ∧ d.stored = Tables.empty

theorem Serving.call {m : OrderManager} (h : Serving m) (op : Op) : Serving (m.step op).2 where
  durable := h.durable.run [op]
  archived := archived_writeRule.stepInvariant.step h.durable.agrees h.archived op trivial
  db := by
    obtain ⟨d, hd, hstored⟩ := h.db
    obtain ⟨writes, hw⟩ := h.durable.agrees.wrote op
    exact ⟨_, hw.exists_db hd, hstored⟩

theorem Serving.restart {m : OrderManager} (h : Serving m) (risk : RiskManager) (clock : ℕ → ℤ) :
    ∃ m', OrderManager.restart m.db risk clock = .ok m' ∧ Serving m' := by
  obtain ⟨d, hd, hstored⟩ := h.db
  obtain ⟨m', hok, hdb, _, hdurable⟩ := h.durable.restart hd rfl risk clock
  refine ⟨m', ?_, hdurable, ⟨hdurable.mirrored, ?_⟩, d, hdb, hstored⟩
  · rw [hd, OrderManager.restart, hok]
  · intro d' hd'
    rw [hdb, ← hd] at hd'
    exact h.archived.added d' hd'

theorem Serving.run {m : OrderManager} (h : Serving m) (tasks : List Task) :
    ∃ m', (Machine.run service (.ok m) tasks).2 = .ok m' ∧ Serving m' := by
  refine Machine.invariant (I := fun s : Result OrderManager => ∃ m', s = .ok m' ∧ Serving m') ?_
    ⟨m, rfl, h⟩ tasks
  rintro _ task ⟨m', rfl, h'⟩
  cases task with
  | call op => exact ⟨_, rfl, h'.call op⟩
  | restart risk clock => exact h'.restart risk clock

theorem Serving.new (risk : RiskManager) (clock : ℕ → ℤ) :
    Serving (OrderManager.new risk MatchingEngine.new (some Database.empty) clock) where
  durable := Durable.new risk clock
  archived := by
    refine ⟨(Durable.new risk clock).mirrored, ?_⟩
    intro d hd before st hpre
    cases hd
    have hlen := hpre.length_le
    simp [Database.empty] at hlen
  db := ⟨_, rfl, rfl⟩

/-- In every sequence of submits, cancels and restarts on one database, empty at the
start, no restart fails and every statement only adds to what is stored: the
event log and the executions are at any time the rows written so far. -/
theorem history_append_only (risk : RiskManager) (clock : ℕ → ℤ) (tasks : List Task) :
    ∃ m d, (Machine.run service (.ok (OrderManager.new risk MatchingEngine.new
        (some Database.empty) clock)) tasks).2 = .ok m ∧ m.db = some d ∧ d.stored = Tables.empty ∧
      (∀ before st, before ++ [st] <+: d.journal → st.Adds (before.foldl Tables.exec Tables.empty)) ∧
      ∀ before, before <+: d.journal →
        (before.foldl Tables.exec Tables.empty).orderEvents.values =
            before.filterMap Statement.event? ∧
          (before.foldl Tables.exec Tables.empty).executions.values =
            before.filterMap Statement.execution? := by
  obtain ⟨m, hrun, h⟩ := (Serving.new risk clock).run tasks
  obtain ⟨d, hd, hstored⟩ := h.db
  have hadds : AddsOnly d := h.archived.added d hd
  have hvalues := hadds.values
  unfold AddsOnly at hadds
  rw [hstored] at hadds hvalues
  exact ⟨m, d, hrun, hd, hstored, hadds, hvalues⟩

end Oems
