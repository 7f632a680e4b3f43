import Oems.RestartEquivalence
import Oems.RowServer
import Oems.StoreHistory

namespace Oems

open Lib Sql Sqlite OrderManager

def StoreCall.statement (c : StoreCall) : Option Statement :=
  match c.write with
  | .saveOrder order => some (.saveOrder order)
  | .appendEvent event => some (.appendEvent event)
  | .saveExecution fill => some (.saveExecution fill)
  | .migrate | .appendAudit _ _ _ | .saveServiceState _ _ => none

/-- The calls of a server on its file: a migration, then the statements of its manager, none of
which fails, among any other calls. -/
structure ServesFrom (d : Database) (calls : List StoreCall) : Prop where
  migrated : ∃ rest, calls = ⟨.migrate, kSchema.length⟩ :: rest
  statements : calls.filterMap StoreCall.statement = d.journal
  through : ∀ c ∈ calls, c.statement ≠ none → 0 < c.through

def Sqlite.runs (db : Sqlite) : Statement → Result Unit × Sqlite
  | .saveOrder order => db.saveOrder order
  | .appendEvent event => db.appendEvent event
  | .saveExecution fill => db.saveExecution fill

theorem Sqlite.runs_snd (db : Sqlite) (st : Statement) : (db.runs st).2 = db.exec st := by
  cases st <;> rfl

theorem Represents.runs {t : Tables} {db : Sqlite} (h : Represents t db) {st : Statement}
    (hst : st.Storable) (hadds : st.Adds t) : (db.runs st).1 = .ok () := by
  cases st with
  | saveOrder order => rfl
  | appendEvent event =>
    have hfree : t.orderEvents.find event.eventId = none :=
      OrdMap.find_eq_none_iff.mpr fun hk => absurd (hadds _ hk) (lt_irrefl _)
    have hfind := h.orderEvents.find hst.1
    have hrow : (insertRow insertEvents (bindEvent event) .eventId).int64 =
        toInt64 event.eventId := rfl
    rw [hfree] at hfind
    rw [Sqlite.runs, Sqlite.appendEvent]
    simp only [hrow, hfind]
    rfl
  | saveExecution fill => rfl

/-- The tables of records are there, and hold what some statements leave. -/
structure StoreFile.Holds (f : StoreFile) (statements : List Statement) : Prop where
  created : .orders ∈ f.created ∧ .orderEvents ∈ f.created ∧ .executions ∈ f.created
  records : f.records = statements.foldl Sqlite.exec Sqlite.empty

namespace StoreFile.Holds

variable {f : StoreFile} {statements : List Statement} {c : StoreCall} {st : Statement}

theorem call_statement (h : f.Holds statements) (hst : c.statement = some st)
    (hthrough : 0 < c.through) : f.call c = f.onRecords (f.records.runs st) := by
  obtain ⟨w, through⟩ := c
  obtain ⟨horders, hevents, hexecutions⟩ := h.created
  cases w with
  | migrate => cases hst
  | saveOrder order =>
    cases hst
    exact if_pos ⟨horders, hthrough⟩
  | appendEvent event =>
    cases hst
    exact if_pos ⟨hevents, hthrough⟩
  | saveExecution fill =>
    cases hst
    exact if_pos ⟨hexecutions, hthrough⟩
  | appendAudit category message now => cases hst
  | saveServiceState key value => cases hst

theorem call_other (hst : c.statement = none) : (f.call c).2.records = f.records := by
  obtain ⟨w, through⟩ := c
  have hother : ∀ {table : SchemaStatement} {effect : Result Unit × StoreFile},
      effect.2.records = f.records → (f.execute table through effect).2.records = f.records := by
    intro table effect heffect
    rw [StoreFile.execute]
    split_ifs
    · exact heffect
    · rfl
  cases w with
  | migrate => rfl
  | saveOrder order => cases hst
  | appendEvent event => cases hst
  | saveExecution fill => cases hst
  | appendAudit category message now =>
    apply hother
    rw [StoreFile.appendAudit]
    split_ifs <;> rfl
  | saveServiceState key value => exact hother rfl

theorem call (h : f.Holds statements) (hthrough : c.statement ≠ none → 0 < c.through) :
    (f.call c).2.Holds (statements ++ c.statement.toList) where
  created := by
    obtain ⟨horders, hevents, hexecutions⟩ := h.created
    simp only [Told.call_created]
    exact ⟨Or.inl horders, Or.inl hevents, Or.inl hexecutions⟩
  records := by
    cases hst : c.statement with
    | none =>
      rw [call_other hst, h.records]
      exact congrArg (List.foldl Sqlite.exec Sqlite.empty) (List.append_nil _).symm
    | some st =>
      have hready := hthrough (by simp [hst])
      rw [h.call_statement hst hready, Option.toList_some, List.foldl_concat, ← h.records,
        ← Sqlite.runs_snd]
      rfl

theorem after (h : f.Holds statements) {calls : List StoreCall}
    (hthrough : ∀ c ∈ calls, c.statement ≠ none → 0 < c.through) :
    (f.after calls).Holds (statements ++ calls.filterMap StoreCall.statement) := by
  induction calls generalizing f statements with
  | nil => rwa [List.filterMap_nil, List.append_nil]
  | cons c calls ih =>
    have hrest := ih (h.call (hthrough c List.mem_cons_self)) fun c' hc' =>
      hthrough c' (List.mem_cons_of_mem c hc')
    have hsame : c.statement.toList ++ calls.filterMap StoreCall.statement =
        (c :: calls).filterMap StoreCall.statement := by
      rw [List.filterMap_cons]
      cases c.statement <;> rfl
    rw [List.append_assoc, hsame] at hrest
    exact hrest

end StoreFile.Holds

theorem holds_migrated : (StoreFile.new.call ⟨.migrate, kSchema.length⟩).2.Holds [] :=
  ⟨by decide, rfl⟩

/-- What a file tells of the manager that it belongs to. -/
structure FileTells (m : OrderManager) (f : StoreFile) : Prop where
  orders : ∃ orders, f.loadOrders = .ok orders ∧
    (orders.map Order.internalId).Pairwise (· < ·) ∧
    (orders : Multiset Order) = tableOrders m.orders
  order : ∀ id, id < 2 ^ 63 → f.loadOrder id = m.getOrder id
  events : f.loadAllEvents = .ok m.events
  history : ∀ id, id < 2 ^ 63 → f.loadEvents id = .ok (m.getEvents id)
  executions : f.loadExecutions = .ok m.getAllExecutions
  /-- A new process that reads the file has the same memory and the same books, and answers
  the same calls in the same way. -/
  restart : ∀ risk clock, ∃ m', (OrderManager.new risk MatchingEngine.new m.db clock).restoreLoaded
      f.loadOrders f.loadAllEvents f.loadExecutions = (.ok (), m') ∧ SameMemory m m' ∧
    (∀ s side, (m'.engine.bookOf s).levels side = (m.engine.bookOf s).levels side) ∧
    ∀ later later', List.Forall₂ SameCall later later' →
      List.Forall₂ (fun call r => SameResult call.1 call.2 r)
        (later.zip (Machine.run OrderManager.step m later).1)
        (Machine.run OrderManager.step m' later').1

theorem Mirrors.values_eq_tableOrders {t : Tables} {orders : OrderMap} {events : List OrderEvent}
    {executions : List Fill} (h : Mirrors t orders events executions) {bound : ℕ}
    (hfiled : Filed orders bound) : (t.orders.values : Multiset Order) = tableOrders orders := by
  have hnodup : t.orders.values.Nodup :=
    List.Nodup.of_map Order.internalId ((h.ids_sorted hfiled).imp fun hlt => hlt.ne)
  apply (Multiset.Nodup.ext (Multiset.coe_nodup.mpr hnodup) hfiled.nodup_tableOrders).mpr
  intro o
  rw [Multiset.mem_coe, h.mem_orders hfiled]
  constructor
  · exact fun ho => mem_tableOrders.mpr ⟨_, ho⟩
  · exact hfiled.lookup

section Reads

variable {t : Tables} {f : StoreFile}

theorem Represents.loadOrder (h : Represents t f.records) (hcreated : .orders ∈ f.created) {id : ℕ}
    (hid : id < 2 ^ 63) :
    f.loadOrder id = (t.orders.find id).elim (.error .orderNotFound) .ok := by
  rw [StoreFile.loadOrder, prepare_created hcreated, Sqlite.orderCursor, h.orders.find hid]
  cases hfind : t.orders.find id with
  | none => rfl
  | some o =>
    have hfits := (h.orders.fits _ (OrdMap.find_eq_some_iff.mp hfind)).2
    exact congrArg Except.ok hfits.loads

theorem Represents.loadEvents (h : Represents t f.records) (hcreated : .orderEvents ∈ f.created)
    {id : ℕ} (hid : id < 2 ^ 63) : f.loadEvents id =
      .ok (t.orderEvents.values.filter fun event => event.orderId = id) := by
  rw [StoreFile.loadEvents, prepare_created hcreated, Sqlite.loadEvents, Sqlite.eventsCursor,
    loadAll_complete, h.orderEvents.values, List.filter_map, List.map_map]
  have hfits : ∀ event ∈ t.orderEvents.values, event.Storable := by
    intro event hevent
    obtain ⟨key, hfind⟩ := OrdMap.mem_values_iff.mp hevent
    exact (h.orderEvents.fits _ (OrdMap.find_eq_some_iff.mp hfind)).2
  have howner : t.orderEvents.values.filter ((fun row : Row EventColumn =>
      decide (row .orderId = .integer (toInt64 id))) ∘ eventRow) =
      t.orderEvents.values.filter fun event => event.orderId = id := by
    apply List.filter_congr
    intro event hevent
    have hlt : event.orderId < 2 ^ 64 := (hfits event hevent).2.1.trans (by norm_num)
    have hrow : eventRow event .orderId = .integer (toInt64 event.orderId) := rfl
    apply decide_eq_decide.mpr
    rw [hrow, Value.integer.injEq]
    exact toInt64_inj hlt (hid.trans (by norm_num))
  rw [howner]
  apply congrArg Except.ok
  refine (List.map_congr_left fun event hevent => ?_).trans (List.map_id _)
  exact (hfits event (List.mem_of_mem_filter hevent)).loads

end Reads

theorem Hosting.tells {m : OrderManager} (h : Hosting m) (hbacked : Backed m.orders m)
    (hfits : m.FitsColumns) {d : Database} (hd : m.db = some d) {f : StoreFile}
    (hf : f.Holds d.journal) : FileTells m f := by
  have hrecords : f.records = d.rows := hf.records
  have hrows := h.represents hbacked hfits hd
  rw [← hrecords] at hrows
  have hmirror : Mirrors d.tables m.orders m.events m.executions :=
    h.serving.durable.mirrored.db d hd
  have hfiled := h.agrees.filed
  obtain ⟨horders, hevents, hexecutions⟩ := hf.created
  have hloadOrders : f.loadOrders = .ok d.tables.orders.values := by
    rw [StoreFile.loadOrders, prepare_created horders]
    exact hrows.loadOrders
  have hloadEvents : f.loadAllEvents = .ok d.tables.orderEvents.values := by
    rw [StoreFile.loadAllEvents, prepare_created hevents]
    exact hrows.loadAllEvents
  have hloadExecutions : f.loadExecutions = .ok d.tables.executions.values := by
    rw [StoreFile.loadExecutions, prepare_created hexecutions]
    exact hrows.loadExecutions
  constructor
  · exact ⟨_, hloadOrders, hmirror.ids_sorted hfiled, hmirror.values_eq_tableOrders hfiled⟩
  · intro id hid
    rw [hrows.loadOrder horders hid, hmirror.orders, OrderManager.getOrder]
    cases m.orders.lookup id <;> rfl
  · rw [hloadEvents, hmirror.events_values]
  · intro id hid
    rw [hrows.loadEvents hevents hid, hmirror.events_values, OrderManager.getEvents]
  · rw [hloadExecutions, hmirror.executions_values, OrderManager.getAllExecutions]
  · intro risk clock
    obtain ⟨m', hrestore, -, hsame, hdurable⟩ := h.serving.durable.restart hd rfl risk clock
    refine ⟨m', ?_, hsame, hsame.levels_eq h.agrees hdurable.agrees,
      fun _ _ hcalls => hsame.later h.agrees hdurable.agrees hcalls⟩
    have hsaved := restoreRows_eq (m := OrderManager.new risk MatchingEngine.new (some d) clock)
      rfl hrows
    rw [hd, ← hrestore, ← hsaved, hloadOrders, hloadEvents, hloadExecutions, restoreRows,
      restoreCursors, hrows.loadOrders, hrows.loadAllEvents, hrows.loadExecutions]

theorem Hosting.accepted {m : OrderManager} (h : Hosting m) (hbacked : Backed m.orders m)
    (hfits : m.FitsColumns) {d : Database} (hd : m.db = some d) {before : List Statement}
    {st : Statement} (hpre : before ++ [st] <+: d.journal) {f : StoreFile} (hf : f.Holds before)
    {c : StoreCall} (hst : c.statement = some st) (hthrough : 0 < c.through) : (f.call c).1 = .ok () := by
  obtain ⟨d', hd', hstored⟩ := h.serving.db
  obtain rfl : d' = d := Option.some.inj (hd'.symm.trans hd)
  have hstorable := hbacked.storable hfits hd
  have hadds := h.serving.archived.added d' hd before st hpre
  have hrows : Represents (before.foldl Tables.exec d'.stored) f.records := by
    rw [hstored, hf.records]
    apply Represents.empty.foldl
    intro st' hst'
    exact hstorable st' (hpre.subset (List.mem_append_left _ hst'))
  rw [hf.call_statement hst hthrough]
  exact hrows.runs (hstorable st (hpre.subset List.mem_concat_self)) hadds

/-- At any time in the life of a server its database file tells what the server has in memory,
whatever else is called on the file, and no statement of the server has been refused. -/
theorem file_tells_server (risk : RiskManager) (clock : ℕ → ℤ) {tasks : List ServerTask}
    (htasks : PlainTasks tasks) :
    ∃ m d, (Machine.run hostRows (.ok (boot risk clock)) tasks).2 = .ok m ∧ m.db = some d ∧
      ∀ calls, ServesFrom d calls →
        FileTells m (StoreFile.new.after calls) ∧
        ∀ before c after, calls = before ++ c :: after → c.statement ≠ none →
          ((StoreFile.new.after before).call c).1 = .ok () := by
  obtain ⟨m, hok, hserves⟩ := htasks.servesRows risk clock
  have h := hserves.hosting
  have hbacked := hserves.backed
  have hfits := hserves.fitsColumns (by rw [zero_add]; exact htasks.length)
  obtain ⟨d, hd, -⟩ := h.serving.db
  refine ⟨m, d, hok, hd, fun calls hcalls => ?_⟩
  obtain ⟨⟨rest, rfl⟩, hstatements, hthrough⟩ := hcalls
  have hrest : ∀ c ∈ rest, c.statement ≠ none → 0 < c.through := fun c hc =>
    hthrough c (List.mem_cons_of_mem _ hc)
  constructor
  · have hholds := holds_migrated.after hrest
    rw [List.nil_append] at hholds
    exact h.tells hbacked hfits hd (hstatements ▸ hholds)
  · intro before c after hsplit hc
    cases before with
    | nil =>
      obtain ⟨rfl, -⟩ := List.cons.inj hsplit
      exact absurd rfl hc
    | cons first before =>
      obtain ⟨rfl, rfl⟩ := List.cons.inj hsplit
      obtain ⟨st, hst⟩ := Option.ne_none_iff_exists'.mp hc
      have hholds := holds_migrated.after fun c' hc' => hrest c' (List.mem_append_left _ hc')
      have hpre : before.filterMap StoreCall.statement ++ [st] <+: d.journal := by
        refine ⟨after.filterMap StoreCall.statement, ?_⟩
        rw [← hstatements]
        change _ = (before ++ c :: after).filterMap StoreCall.statement
        rw [List.filterMap_append, List.filterMap_cons_some hst, List.append_assoc]
        rfl
      exact h.accepted hbacked hfits hd hpre hholds hst (hrest c List.mem_append_cons_self hc)

def Statement.call : Statement → StoreCall
  | .saveOrder order => ⟨.saveOrder order, 1⟩
  | .appendEvent event => ⟨.appendEvent event, 1⟩
  | .saveExecution fill => ⟨.saveExecution fill, 1⟩

theorem Statement.call_statement (st : Statement) :
    st.call.statement = some st ∧ 0 < st.call.through := by
  cases st <;> exact ⟨rfl, Nat.one_pos⟩

/-- What `main` calls before it restores. -/
def startup : List StoreCall :=
  [⟨.migrate, kSchema.length⟩, ⟨.appendAudit (str "startup") (str "opened oems.db") 0, 1⟩]

/-- The calls of two processes, the second of which writes nothing more. -/
def callsOfTwo (d : Database) : List StoreCall :=
  startup ++ d.journal.map Statement.call ++ startup

theorem startup_statement {c : StoreCall} (hc : c ∈ startup) : c.statement = none := by
  simp only [startup, List.mem_cons, List.not_mem_nil, or_false] at hc
  obtain rfl | rfl := hc <;> rfl

theorem callsOfTwo_servesFrom (d : Database) : ServesFrom d (callsOfTwo d) where
  migrated := ⟨_, rfl⟩
  statements := by
    have hnone : startup.filterMap StoreCall.statement = [] := rfl
    have hall : StoreCall.statement ∘ Statement.call = some :=
      funext fun st => st.call_statement.1
    rw [callsOfTwo, List.filterMap_append, List.filterMap_append, hnone, List.filterMap_map, hall,
      List.filterMap_some, List.append_nil, List.nil_append]
  through := by
    intro c hc hst
    obtain hc | hc := List.mem_append.mp hc
    · obtain hc | hc := List.mem_append.mp hc
      · exact absurd (startup_statement hc) hst
      · obtain ⟨st, -, rfl⟩ := List.mem_map.mp hc
        exact st.call_statement.2
    · exact absurd (startup_statement hc) hst

theorem tradeThenRestart_tells : ∃ m d, (Machine.run hostRows
    (.ok (boot (RiskManager.new RiskLimits.default) fun _ => 0)) tradeThenRestart).2 = .ok m ∧
      m.db = some d ∧ ServesFrom d (callsOfTwo d) ∧
        FileTells m (StoreFile.new.after (callsOfTwo d)) ∧
          ∀ before c after, callsOfTwo d = before ++ c :: after → c.statement ≠ none →
            ((StoreFile.new.after before).call c).1 = .ok () := by
  have htasks : PlainTasks tradeThenRestart := ⟨by decide, by decide⟩
  obtain ⟨m, d, hok, hd, htells⟩ :=
    file_tells_server (RiskManager.new RiskLimits.default) (fun _ => 0) htasks
  exact ⟨m, d, hok, hd, callsOfTwo_servesFrom d, htells _ (callsOfTwo_servesFrom d)⟩

end Oems
