import Oems.EventLog
import Oems.Journal
import Oems.QuantityLedger
import Oems.Recovery

namespace Oems

open Lib OrderManager

/-- No row of the tables names an order from `bound` on. -/
structure Tables.IdsBelow (t : Tables) (bound : ℕ) : Prop where
  orders : ∀ o ∈ t.orders.values, o.internalId < bound
  orderEvents : ∀ event ∈ t.orderEvents.values, event.orderId < bound
  executions : ∀ fill ∈ t.executions.values,
    fill.aggressiveOrderId < bound ∧ fill.passiveOrderId < bound

/-- What a restart has to bring back. -/
structure Sound (m : OrderManager) : Prop where
  filled : ∀ id o, m.orders.lookup id = some o → o.filledQty = filledIn m.executions id
  ledger : ∀ id o, m.orders.lookup id = some o → o.orderQty = o.filledQty + o.remainingQty
  ids : ∀ d, m.db = some d → d.tables.IdsBelow m.nextOrderId

/-- A process that starts on a database, and stops at once when the restore fails. -/
def OrderManager.restart (db : Option Database) (risk : RiskManager) (clock : ℕ → ℤ) :
    Result OrderManager :=
  match (OrderManager.new risk MatchingEngine.new db clock).restoreFromDatabase with
  | (.error err, _) => .error err
  | (.ok (), m) => .ok m

def OrderManager.journal (m : OrderManager) : List Statement := (m.db.map Database.journal).getD []

def OrderManager.writesOf (m : OrderManager) (op : Op) : List Statement :=
  (m.step op).2.journal.drop m.journal.length

/-- The database of a process that stops after `point` of the writes of a call. -/
def OrderManager.stopIn (m : OrderManager) (op : Op) (point : ℕ) : Option Database :=
  m.db.map fun d => Database.reopen { d with journal := d.journal ++ (m.writesOf op).take point }

/-- What happens to an order manager: a call, or a stop of its process after
some of the writes of a call and a restart on the database it leaves. -/
inductive Act where
  | call (op : Op)
  | crash (op : Op) (point : ℕ) (risk : RiskManager) (clock : ℕ → ℤ)

def OrderManager.act (m : OrderManager) : Act → Result OrderManager
  | .call op => .ok (m.step op).2
  | .crash op point risk clock => OrderManager.restart (m.stopIn op point) risk clock

/-- The life of an order manager over its processes. -/
def life : Result OrderManager → Act → Unit × Result OrderManager
  | .error err, _ => ((), .error err)
  | .ok m, a => ((), m.act a)

/-- The process is up and its state is sound. -/
def Recovered (s : Result OrderManager) : Prop := ∃ m, s = .ok m ∧ Sound m

/-- A stop is harmless in a cancel, and elsewhere before the first write of the
call or after its last. -/
def Act.Harmless (m : OrderManager) : Act → Prop
  | .call _ => True
  | .crash (.cancel _) _ _ _ => True
  | .crash (.submit check req) point _ _ =>
    point = 0 ∨ (m.writesOf (.submit check req)).length ≤ point

section WritesOf

variable {m m' : OrderManager} {d : Database} {writes : List Statement}

theorem journal_eq (hd : m.db = some d) : m.journal = d.journal := by
  rw [OrderManager.journal, hd]
  rfl

theorem Wrote.writesOf_eq {op : Op} (h : Wrote m (m.step op).2 writes) (hd : m.db = some d) :
    m.writesOf op = writes := by
  rw [writesOf, journal_eq hd, journal_eq (h.exists_db hd), List.drop_left]

theorem Wrote.stopIn_eq {op : Op} {point : ℕ} (h : Wrote m m' ((m.writesOf op).take point)) :
    m.stopIn op point = m'.db.map Database.reopen := by
  unfold Wrote at h
  rw [h, Option.map_map]
  rfl

end WritesOf

/-- A manager that can be stopped between two calls without harm. -/
structure Intact (m : OrderManager) : Prop where
  durable : Durable m
  ledger : Ledger m
  events : ∀ event ∈ m.events, event.orderId < m.nextOrderId
  db : ∃ d, m.db = some d

theorem anyLog_logRule : LogRule Always (fun _ _ => True) fun _ _ => True := by
  constructor <;> intros <;> trivial

namespace Intact

variable {m : OrderManager}

theorem new (risk : RiskManager) (clock : ℕ → ℤ) :
    Intact (OrderManager.new risk MatchingEngine.new (some Database.empty) clock) where
  durable := Durable.new risk clock
  ledger := Ledger.new risk _ clock
  events := fun event he => by simp [OrderManager.new] at he
  db := ⟨_, rfl⟩

theorem step (h : Intact m) (op : Op) : Intact (m.step op).2 := by
  have hlog : Logged (fun _ _ => True) m.orders m.events m.nextOrderId :=
    ⟨fun _ _ _ => trivial, h.events⟩
  exact ⟨h.durable.run [op], ledger_stepInvariant.step h.durable.agrees h.ledger op trivial,
    (anyLog_logRule.stepInvariant.step h.durable.agrees hlog op trivial).below,
    h.durable.agrees.exists_db h.db [op]⟩

theorem tick (h : Intact m) : Intact m.tick := by
  obtain ⟨⟨ha, hm, ht⟩, hl, he, hd⟩ := h
  exact ⟨⟨⟨ha.filed, ha.kept, ha.engine, ha.next⟩, ⟨hm.db, hm.eventIds, hm.nextEventId,
    hm.executionIds⟩, ht⟩, hl, he, hd⟩

theorem appendEvent (h : Intact m) {id : ℕ} (hid : id < m.nextOrderId) (type : EventType)
    (detail : Str) : Intact (m.appendEvent id type detail) where
  durable := ⟨h.durable.agrees.appendEvent id type detail,
    h.durable.mirrored.appendEvent id type detail, h.durable.tip⟩
  ledger := h.ledger
  events := below_append h.events (by simpa using hid)
  db := by
    obtain ⟨d, hd⟩ := h.db
    exact ⟨_, ((Wrote.nothing rfl).appendEvent id type detail).exists_db hd⟩

theorem sound (h : Intact m) : Sound m where
  filled := h.ledger.filled
  ledger := fun id o ho => (h.durable.agrees.kept id o ho).ledger
  ids := by
    intro d hd
    have hmirror : Mirrors d.tables m.orders m.events m.executions := h.durable.mirrored.db d hd
    have hfiled := h.durable.agrees.filed
    constructor
    · intro o ho
      exact (hfiled _ _ ((hmirror.mem_orders hfiled o).mp ho)).2
    · rw [hmirror.events_values]
      exact h.events
    · rw [hmirror.executions_values]
      exact h.ledger.named

theorem restart (h : Intact m) (risk : RiskManager) (clock : ℕ → ℤ) :
    ∃ m', OrderManager.restart (m.db.map Database.reopen) risk clock = .ok m' ∧ Intact m' := by
  obtain ⟨d, hd⟩ := h.db
  obtain ⟨m', hok, hdb, hsame, hdurable⟩ :=
    h.durable.restart hd (show d.reopen.tables = d.tables from rfl) risk clock
  refine ⟨m', ?_, hdurable, ?_, ?_, _, hdb⟩
  · rw [hd, Option.map_some, OrderManager.restart, hok]
  · rw [Ledger, hsame.orders, hsame.executions, hsame.nextOrderId]
    exact h.ledger
  · rw [hsame.events, hsame.nextOrderId]
    exact h.events

end Intact

/-- After any number of these writes the database is that of an intact manager. -/
def Stoppable (m : OrderManager) (writes : List Statement) : Prop :=
  ∀ k, ∃ m', Intact m' ∧ Wrote m m' (writes.take k)

theorem Stoppable.nil {m : OrderManager} (h : Intact m) : Stoppable m [] := fun k =>
  ⟨m, h, by rw [List.take_nil]; exact Wrote.nothing rfl⟩

theorem Stoppable.concat {m m' : OrderManager} {writes : List Statement} {st : Statement}
    (h : Stoppable m writes) (hm : Intact m') (hw : Wrote m m' (writes ++ [st])) :
    Stoppable m (writes ++ [st]) := by
  intro k
  by_cases hk : k ≤ writes.length
  · rw [List.take_append_of_le_length hk]
    exact h k
  · rw [List.take_of_length_le (by rw [List.length_append, List.length_singleton]; omega)]
    exact ⟨m', hm, hw⟩

theorem Intact.cancel_stoppable {m : OrderManager} (h : Intact m) (req : CancelOrderRequest) :
    ∃ writes, Wrote m (m.step (.cancel req)).2 writes ∧ Stoppable m writes := by
  have hstep := h.durable.agrees.cancelStep req
  have hend := h.step (.cancel req)
  change ∃ writes, Wrote m (m.cancelOrder req).2 writes ∧ Stoppable m writes
  change Intact (m.cancelOrder req).2 at hend
  generalize m.cancelOrder req = r at hstep hend
  cases hstep with
  | unknown _ => exact ⟨[], Wrote.nothing rfl, Stoppable.nil h⟩
  | closed order _ _ => exact ⟨[], Wrote.nothing rfl, Stoppable.nil h⟩
  | notResting order err _ _ _ _ =>
    have hw := (Wrote.nothing (m := m) rfl).appendEvent req.orderId .cancelRequested []
    exact ⟨_, hw, (Stoppable.nil h).concat hend hw⟩
  | done order engine hl hid _ _ _ _ _ =>
    have hlt : order.internalId < m.nextOrderId := by
      rw [hid]
      exact (h.durable.agrees.filed _ _ hl).2
    have hw := wrote_withdraw m order engine
    -- a stop between the two events leaves a log that is ahead of the order
    have hrequested : Intact (m.appendEvent order.internalId .cancelRequested []) :=
      h.appendEvent hlt _ _
    have hw₁ := (Wrote.nothing (m := m) rfl).appendEvent order.internalId .cancelRequested []
    have hcancelled : Intact ((m.appendEvent order.internalId .cancelRequested []).tick.appendEvent
        order.internalId .cancelled []) := hrequested.tick.appendEvent hlt _ _
    have hw₂ := Wrote.appendEvent (n := (m.appendEvent order.internalId .cancelRequested []).tick)
      hw₁ order.internalId .cancelled []
    have hstop := ((Stoppable.nil h).concat hrequested hw₁).concat hcancelled hw₂
    exact ⟨_, hw, hstop.concat hend hw⟩

theorem Intact.harmless {m : OrderManager} (h : Intact m) {a : Act} (ha : a.Harmless m) :
    ∃ m', m.act a = .ok m' ∧ Intact m' := by
  obtain ⟨d, hd⟩ := h.db
  have hstop : ∀ op point risk clock, (∃ m', Intact m' ∧ Wrote m m' ((m.writesOf op).take point)) →
      ∃ m', m.act (.crash op point risk clock) = .ok m' ∧ Intact m' := by
    rintro op point risk clock ⟨m', hm', hw⟩
    obtain ⟨m'', hok, hintact⟩ := hm'.restart risk clock
    refine ⟨m'', ?_, hintact⟩
    rw [OrderManager.act, hw.stopIn_eq, hok]
  cases a with
  | call op => exact ⟨_, rfl, h.step op⟩
  | crash op point risk clock =>
    apply hstop
    cases op with
    | cancel req =>
      obtain ⟨writes, hw, hstoppable⟩ := h.cancel_stoppable req
      rw [hw.writesOf_eq hd]
      exact hstoppable point
    | submit check req =>
      obtain rfl | hle := ha
      · exact ⟨m, h, Wrote.nothing rfl⟩
      · obtain ⟨writes, hw⟩ := h.durable.agrees.wrote (.submit check req)
        have heq := hw.writesOf_eq hd
        rw [List.take_of_length_le hle, heq]
        exact ⟨_, h.step _, hw⟩

def Tables.OrdersBelow (t : Tables) (bound : ℕ) : Prop :=
  ∀ id o, t.orders.find id = some o → o.internalId < bound

theorem Tables.OrdersBelow.exec {t : Tables} {bound : ℕ} (h : t.OrdersBelow bound) {st : Statement}
    (hst : ∀ o, st = .saveOrder o → o.internalId < bound) : (t.exec st).OrdersBelow bound := by
  cases st with
  | saveOrder order =>
    intro id o ho
    change (t.orders.insert order.internalId order).find id = some o at ho
    by_cases he : id = order.internalId
    · rw [he, OrdMap.find_insert] at ho
      cases ho
      exact hst order rfl
    · rw [OrdMap.find_insert_of_ne _ _ he] at ho
      exact h id o ho
  | appendEvent event =>
    cases hf : t.orderEvents.find event.eventId with
    | some e =>
      rw [exec_appendEvent_taken hf]
      exact h
    | none =>
      rw [exec_appendEvent_free hf]
      exact h
  | saveExecution fill => exact h

theorem find_event_exec {t : Tables} {eventId : ℕ} {event : OrderEvent}
    (h : t.orderEvents.find eventId = some event) (st : Statement) :
    (t.exec st).orderEvents.find eventId = some event := by
  cases st with
  | saveOrder order => exact h
  | saveExecution fill => exact h
  | appendEvent e =>
    cases hf : t.orderEvents.find e.eventId with
    | some _ =>
      rw [exec_appendEvent_taken hf]
      exact h
    | none =>
      have hne : eventId ≠ e.eventId := by
        rintro rfl
        simp [h] at hf
      rw [exec_appendEvent_free hf]
      exact (OrdMap.find_insert_of_ne _ _ hne).trans h

theorem Opened.tables {id eventId : ℕ} {writes : List Statement} (h : Opened id eventId writes)
    {t : Tables} (ht : t.OrdersBelow id) (hfree : t.orderEvents.find eventId = none) :
    (writes.foldl Tables.exec t).OrdersBelow id ∧ ∃ event,
      (writes.foldl Tables.exec t).orderEvents.find eventId = some event ∧ event.orderId = id := by
  have hbelow : ∀ (ws : List Statement) (t : Tables), t.OrdersBelow id →
      (∀ o, .saveOrder o ∈ ws → o.internalId < id) → (ws.foldl Tables.exec t).OrdersBelow id := by
    intro ws
    induction ws with
    | nil => exact fun _ ht _ => ht
    | cons st ws ih =>
      intro t ht hsaved
      exact ih _ (ht.exec fun o ho => hsaved o (by simp [ho])) fun o ho => hsaved o (by simp [ho])
  have hkeep : ∀ (ws : List Statement) (t : Tables) (event : OrderEvent),
      t.orderEvents.find eventId = some event →
        (ws.foldl Tables.exec t).orderEvents.find eventId = some event := by
    intro ws
    induction ws with
    | nil => exact fun _ _ hf => hf
    | cons st ws ih => exact fun t event hf => ih _ event (find_event_exec hf st)
  refine ⟨hbelow writes t ht h.saved, ?_⟩
  obtain ⟨event, hhead, hid, rfl⟩ := h.head
  obtain ⟨rest, rfl⟩ : ∃ rest, writes = .appendEvent event :: rest := List.head?_eq_some_iff.mp hhead
  refine ⟨event, hkeep rest _ event ?_, hid⟩
  rw [exec_appendEvent_free hfree]
  exact OrdMap.find_insert _ _ _

theorem restoreOrders_db (stored : List Order) (m : OrderManager) :
    (m.restoreOrders stored).2.db = m.db := by
  induction stored generalizing m with
  | nil => rfl
  | cons o stored ih =>
    rw [OrderManager.restoreOrders]
    split_ifs
    · cases (m.setOrder o.internalId o).engine.restoreRestingOrder o with
      | mk res engine =>
        cases res with
        | error err => rfl
        | ok u => exact ih _
    · exact ih _

theorem restart_ok {d : Database} {risk : RiskManager} {clock : ℕ → ℤ} {m : OrderManager}
    (h : OrderManager.restart (some d) risk clock = .ok m) :
    m.db = some d ∧ m.nextOrderId = maxId (d.tables.orders.values.map Order.internalId) + 1 := by
  unfold OrderManager.restart OrderManager.restoreFromDatabase at h
  simp only [OrderManager.new, Database.loadOrders, Database.loadAllEvents,
    Database.loadExecutions] at h
  generalize hr : OrderManager.restoreOrders _ _ = r at h
  have hdb : r.2.db = some d := by
    rw [← hr, restoreOrders_db]
  obtain ⟨res, m'⟩ := r
  cases res with
  | error err => cases h
  | ok u =>
    cases h
    exact ⟨hdb, rfl⟩

theorem Intact.tablesBelow {m : OrderManager} (h : Intact m) {d : Database} (hd : m.db = some d) :
    d.tables.OrdersBelow m.nextOrderId ∧ d.tables.orderEvents.find m.nextEventId = none ∧
      0 < m.nextOrderId := by
  have hmirror : Mirrors d.tables m.orders m.events m.executions := h.durable.mirrored.db d hd
  refine ⟨fun id o ho => ?_, ?_, ?_⟩
  · rw [hmirror.orders] at ho
    obtain ⟨hid, hlt⟩ := h.durable.agrees.filed id o ho
    rw [hid]
    exact hlt
  · rw [OrdMap.find_eq_none_iff, hmirror.events, List.keys, List.map_map]
    intro hmem
    have hlt := h.durable.mirrored.eventIds.lt hmem
    rw [List.length_map, h.durable.mirrored.nextEventId] at hlt
    omega
  · obtain hone | ⟨id, _, hnext, _⟩ := h.durable.tip
    · omega
    · omega

/-- A stop in a submit leaves the id of its order to be handed out again. -/
theorem Intact.harmful {m : OrderManager} (h : Intact m) {a : Act} (ha : ¬ a.Harmless m)
    {m' : OrderManager} (hm' : m.act a = .ok m') : ¬ Sound m' := by
  obtain ⟨d, hd⟩ := h.db
  cases a with
  | call op => exact absurd trivial ha
  | crash op point risk clock =>
    cases op with
    | cancel req => exact absurd trivial ha
    | submit check req =>
      obtain ⟨hpos, hlt⟩ := not_or.mp ha
      rw [not_le] at hlt
      obtain hw | ⟨writes, order, hw, hopen⟩ := h.durable.agrees.submitted check req
      · change Wrote m (m.step (.submit check req)).2 _ at hw
        have heq := hw.writesOf_eq hd
        simp [heq] at hlt
      · change Wrote m (m.step (.submit check req)).2 _ at hw
        have heq := hw.writesOf_eq hd
        rw [heq, List.length_append, List.length_singleton] at hlt
        have hstop : m.stopIn (.submit check req) point =
            some (Database.reopen { d with journal := d.journal ++ writes.take point }) := by
          rw [stopIn, hd, heq, List.take_append_of_le_length (by omega)]
          rfl
        rw [OrderManager.act, hstop] at hm'
        obtain ⟨hdb, hnext⟩ := restart_ok hm'
        intro hsound
        have hids := hsound.ids _ hdb
        have htables : (Database.reopen { d with journal := d.journal ++ writes.take point }).tables =
            (writes.take point).foldl Tables.exec d.tables := List.foldl_append ..
        rw [htables] at hids hnext
        obtain ⟨hbelow, hfree, hone⟩ := h.tablesBelow hd
        obtain ⟨hbelow', event, hevent, hid⟩ :=
          (hopen.take (Nat.pos_of_ne_zero hpos)).tables hbelow hfree
        have hlt' := hids.orderEvents event (OrdMap.mem_values_iff.mpr ⟨_, hevent⟩)
        have hmax : maxId (((writes.take point).foldl Tables.exec d.tables).orders.values.map
            Order.internalId) ≤ m.nextOrderId - 1 := by
          rw [maxId_le_iff]
          intro id hmem
          obtain ⟨o, ho, rfl⟩ := List.mem_map.mp hmem
          obtain ⟨k, hk⟩ := OrdMap.mem_values_iff.mp ho
          have hlt'' := hbelow' k o hk
          omega
        omega

/-- In the life of an order manager on a new database every restart succeeds and
brings back a sound state exactly when no stop falls between two writes of a submit. -/
theorem crashes_recover_iff (risk : RiskManager) (clock : ℕ → ℤ) (acts : List Act) :
    Machine.Along life (fun s a => ∀ m, s = .ok m → a.Harmless m)
        (.ok (OrderManager.new risk MatchingEngine.new (some Database.empty) clock)) acts ↔
      ∀ past, past <+: acts → Recovered (Machine.run life (.ok (OrderManager.new risk
        MatchingEngine.new (some Database.empty) clock)) past).2 := by
  apply Machine.along_iff (I := fun s : Result OrderManager => ∃ m, s = .ok m ∧ Intact m)
    (G := Recovered)
  · rintro _ a ha ⟨m, rfl, h⟩
    exact h.harmless (ha m rfl)
  · rintro _ ⟨m, rfl, h⟩
    exact ⟨m, rfl, h.sound⟩
  · rintro _ a ⟨m, rfl, h⟩ ha ⟨m', hm', hsound⟩
    refine h.harmful (fun hc => ha ?_) hm' hsound
    intro x hx
    cases hx
    exact hc
  · exact ⟨_, rfl, Intact.new risk clock⟩

def firstSubmit : Op :=
  .submit (RiskCheck.at 0) ⟨str "first", ⟨str "AAPL"⟩, .buy, .limit, 100, 5⟩

/-- A process that stops after the first write of its first submit: the restored
manager will hand out the id 1, which the event log names. -/
theorem firstSubmit_not_recovered : ¬ Recovered (Machine.run life (.ok (OrderManager.new
    (RiskManager.new RiskLimits.default) MatchingEngine.new (some Database.empty) fun _ => 0))
      [.crash firstSubmit 1 (RiskManager.new RiskLimits.default) fun _ => 0]).2 := by
  rintro ⟨m, hm, hsound⟩
  have hstop : (OrderManager.new (RiskManager.new RiskLimits.default) MatchingEngine.new
      (some Database.empty) fun _ => 0).stopIn firstSubmit 1 = some (Database.reopen
        ⟨Tables.empty, [.appendEvent ⟨1, 1, .newRequested, 0, str "first"⟩]⟩) := rfl
  have hrun : (Machine.run life (.ok (OrderManager.new (RiskManager.new RiskLimits.default)
      MatchingEngine.new (some Database.empty) fun _ => 0))
        [.crash firstSubmit 1 (RiskManager.new RiskLimits.default) fun _ => 0]).2 =
      OrderManager.restart ((OrderManager.new (RiskManager.new RiskLimits.default)
        MatchingEngine.new (some Database.empty) fun _ => 0).stopIn firstSubmit 1)
          (RiskManager.new RiskLimits.default) fun _ => 0 := rfl
  rw [hrun, hstop] at hm
  obtain ⟨hdb, hnext⟩ := restart_ok hm
  have hids := hsound.ids _ hdb
  rw [hnext] at hids
  have hlt := hids.orderEvents ⟨1, 1, .newRequested, 0, str "first"⟩ (by decide)
  exact absurd hlt (by decide)

end Oems
