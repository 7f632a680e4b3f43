import Oems.ApiServer
import Oems.FairTrades
import Oems.RecordBounds
import Oems.RowTables

namespace Oems

open Lib Sql Sqlite OrderManager

/-- What a statement writes is a record of the manager, or an earlier state of one. -/
def Statement.RecordOf (orders : OrderMap) (m : OrderManager) : Statement → Prop
  | .saveOrder order => ∃ o, orders.lookup order.internalId = some o ∧ SameTerms order o
  | .appendEvent event => event ∈ m.events
  | .saveExecution fill => fill ∈ m.executions

/-- A manager has whatever it has written. -/
def Backed (orders : OrderMap) (m : OrderManager) : Prop :=
  DbHolds (fun d => ∀ st ∈ d.journal, st.RecordOf orders m) m

theorem Statement.RecordOf.mono {orders orders' : OrderMap} {m m' : OrderManager} {st : Statement}
    (h : st.RecordOf orders m)
    (horders : TermsKept orders orders') (hevents : m.events ⊆ m'.events)
    (hexecutions : m.executions ⊆ m'.executions) :
    st.RecordOf orders' m' := by
  cases st with
  | saveOrder order =>
    obtain ⟨o, ho, hterms⟩ := h
    obtain ⟨o', ho', hterms'⟩ := horders _ o ho
    exact ⟨o', ho', hterms.trans hterms'⟩
  | appendEvent event => exact hevents h
  | saveExecution fill => exact hexecutions h

/-- One more statement, whose record the manager has. -/
theorem recordOf_exec {orders orders' : OrderMap} {m m' : OrderManager} {d : Database}
    {st : Statement} (hd : ∀ st ∈ d.journal, st.RecordOf orders m)
    (horders : TermsKept orders orders') (hevents : m.events ⊆ m'.events)
    (hexecutions : m.executions ⊆ m'.executions)
    (hst : st.RecordOf orders' m') : ∀ st' ∈ (d.exec st).journal, st'.RecordOf orders' m' := by
  intro st' hst'
  obtain hst' | hst' := List.mem_append.mp hst'
  · exact (hd st' hst').mono horders hevents hexecutions
  · rw [List.mem_singleton.mp hst']
    exact hst

theorem backed_writeRule : WriteRule Backed where
  same := by
    intro orders m m' h hdb hevents _ hexecutions d hd st hst
    rw [hdb] at hd
    exact (h d hd st hst).mono (TermsKept.refl orders) (hevents ▸ List.Subset.refl _)
      (hexecutions ▸ List.Subset.refl _)
  appendEvent := by
    intro orders m id type detail h
    refine DbHolds.write (m := { m.tick with nextEventId := m.nextEventId + 1, events := _ }) h ?_
    intro d hd
    refine recordOf_exec hd (TermsKept.refl orders) ?_ (List.Subset.refl _) ?_
    · rw [appendEvent_events]
      exact List.subset_append_left _ _
    · change _ ∈ (m.appendEvent id type detail).events
      rw [appendEvent_events]
      exact List.mem_append_right _ (List.mem_singleton_self _)
  saveOrder := by
    intro orders m order hterms h
    refine DbHolds.saveOrder h fun d hd => ?_
    refine recordOf_exec hd ?_ (List.Subset.refl _) (List.Subset.refl _)
      ⟨order, Finmap.lookup_insert _, SameTerms.refl order⟩
    exact exists_lookup_insert SameTerms.refl hterms
  saveExecution := by
    intro orders m fill _ h
    refine DbHolds.write (m := { m with executions := m.executions ++ [fill] }) h ?_
    intro d hd
    refine recordOf_exec hd (TermsKept.refl orders) (List.Subset.refl _)
      (List.subset_append_left _ _) ?_
    change _ ∈ m.executions ++ [fill]
    exact List.mem_append_right _ (List.mem_singleton_self fill)

theorem backed_hostInvariant : HostInvariant fun m => Backed m.orders m where
  step := fun _ op hm h => backed_writeRule.stepInvariant.step hm.agrees h op trivial
  restart := by
    intro m m' risk clock hm h hok hsame d hd st hst
    obtain ⟨d', hd', -⟩ := hm.serving.db
    obtain ⟨m'', hrestore, hdb, -, -⟩ := hm.serving.durable.restart hd' rfl risk clock
    have hrestart : OrderManager.restart m.db risk clock = .ok m'' := by
      rw [hd', OrderManager.restart, hrestore]
    obtain rfl : m'' = m' := Except.ok.inj (hrestart.symm.trans hok)
    rw [hdb, ← hd'] at hd
    refine (h d hd st hst).mono ?_ ?_ ?_
    · rw [hsame.orders]
      exact TermsKept.refl m.orders
    · rw [hsame.events]
      exact List.Subset.refl _
    · rw [hsame.executions]
      exact List.Subset.refl _

/-- Every record fits its columns: the ids are below 2^63 and no text has a NUL. -/
structure OrderManager.FitsColumns (m : OrderManager) : Prop where
  orders : ∀ o ∈ tableOrders m.orders, o.Storable
  events : ∀ event ∈ m.events, event.Storable
  executions : ∀ fill ∈ m.executions, fill.Storable

theorem Backed.storable {m : OrderManager} (h : Backed m.orders m) (hfits : m.FitsColumns)
    {d : Database} (hd : m.db = some d) : ∀ st ∈ d.journal, st.Storable := by
  intro st hst
  have hrecord := h d hd st hst
  cases st with
  | saveOrder order =>
    obtain ⟨o, ho, hterms⟩ := hrecord
    obtain ⟨hid, hclient, hsymbol⟩ := hfits.orders o (mem_tableOrders.mpr ⟨_, ho⟩)
    rw [hterms.internalId] at hid
    rw [hterms.clientOrderId] at hclient
    rw [hterms.symbol] at hsymbol
    exact ⟨hid, hclient, hsymbol⟩
  | appendEvent event => exact hfits.events event hrecord
  | saveExecution fill => exact hfits.executions fill hrecord

/-- The rows that the statements of a manager leave in a new file. -/
def Database.rows (d : Database) : Sqlite := d.journal.foldl Sqlite.exec Sqlite.empty

theorem Hosting.represents {m : OrderManager} (hm : Hosting m) (h : Backed m.orders m)
    (hfits : m.FitsColumns) {d : Database} (hd : m.db = some d) : Represents d.tables d.rows := by
  obtain ⟨d', hd', hstored⟩ := hm.serving.db
  obtain rfl : d' = d := Option.some.inj (hd'.symm.trans hd)
  rw [Database.tables, hstored]
  exact Represents.empty.foldl (h.storable hfits hd)

/-- A process that starts on the rows of a file, as `main` does, and stops when the restore
fails. -/
def OrderManager.restartRows (db : Option Database) (risk : RiskManager) (clock : ℕ → ℤ) :
    Result OrderManager :=
  match (OrderManager.new risk MatchingEngine.new db clock).restoreRows
      (db.elim Sqlite.empty Database.rows) with
  | (.error err, _) => .error err
  | (.ok (), m) => .ok m

/-- The life of a server whose restarts read the rows of its file. -/
def hostRows : Result OrderManager → ServerTask → Option ApiResponse × Result OrderManager
  | .error err, _ => (none, .error err)
  | .ok m, .request r => (some (m.serve r).1, .ok (m.serve r).2)
  | .ok m, .restart risk clock => (none, OrderManager.restartRows m.db risk clock)

theorem Hosting.restartRows {m : OrderManager} (hm : Hosting m) (h : Backed m.orders m)
    (hfits : m.FitsColumns) (risk : RiskManager) (clock : ℕ → ℤ) :
    OrderManager.restartRows m.db risk clock = OrderManager.restart m.db risk clock := by
  obtain ⟨d, hd, -⟩ := hm.serving.db
  have hrows := hm.represents h hfits hd
  rw [hd, OrderManager.restartRows, Option.elim_some, restoreRows_eq rfl hrows]
  rfl

def NewOrderRequestDto.Plain (dto : NewOrderRequestDto) : Prop :=
  (∀ s ∈ dto.clientOrderId, 0 ∉ s) ∧ ∀ s ∈ dto.symbol, 0 ∉ s

def ApiRequest.Plain : ApiRequest → Prop
  | .submitOrder _ body => ∀ dto ∈ body, dto.Plain
  | .getHealth | .cancelOrder _ | .getOrder _ | .listOrders _ _ | .getBook _ | .listExecutions =>
    True

def ServerTask.Plain : ServerTask → Prop
  | .request r => r.Plain
  | .restart _ _ => True

/-- Tasks whose texts have no NUL, and not more of them than there are ids. -/
structure PlainTasks (tasks : List ServerTask) : Prop where
  texts : ∀ task ∈ tasks, task.Plain
  length : tasks.length ≤ 2 ^ 60

instance (dto : NewOrderRequestDto) : Decidable dto.Plain := inferInstanceAs (Decidable (_ ∧ _))

instance : DecidablePred ServerTask.Plain
  | .request (.submitOrder _ body) => inferInstanceAs (Decidable (∀ dto ∈ body, dto.Plain))
  | .request .getHealth => isTrue trivial
  | .request (.cancelOrder _) => isTrue trivial
  | .request (.getOrder _) => isTrue trivial
  | .request (.listOrders _ _) => isTrue trivial
  | .request (.getBook _) => isTrue trivial
  | .request .listExecutions => isTrue trivial
  | .restart _ _ => isTrue trivial

theorem newOrderRequest_nulFree {dto : NewOrderRequestDto} (h : dto.Plain) {req : NewOrderRequest}
    (hreq : OrdersController.newOrderRequest (some dto) = .ok req) :
    0 ∉ req.clientOrderId ∧ 0 ∉ req.symbol.value := by
  obtain ⟨hsymbol, hclient⟩ := OrdersController.newOrderRequest_ok hreq
  refine ⟨?_, h.2 _ hsymbol⟩
  rw [hclient]
  cases hid : dto.clientOrderId with
  | none => exact List.not_mem_nil
  | some s => exact h.1 s hid

theorem ApiRequest.Plain.op {r : ApiRequest} (h : r.Plain) : ∀ op ∈ r.op, op.Plain := by
  intro op hop
  cases r with
  | submitOrder check body =>
    rw [ApiRequest.op] at hop
    cases hreq : OrdersController.newOrderRequest body with
    | error message =>
      rw [hreq] at hop
      cases hop
    | ok req =>
      rw [hreq] at hop
      cases hop
      cases body with
      | none => cases hreq
      | some dto => exact newOrderRequest_nulFree (h dto rfl) hreq
  | cancelOrder id =>
    cases id with
    | none => cases hop
    | some id =>
      cases hop
      trivial
  | getHealth => cases hop
  | getOrder id => cases hop
  | listOrders symbol status => cases hop
  | getBook symbol => cases hop
  | listExecutions => cases hop

def tradeThenRestart : List ServerTask :=
  [.request (.submitOrder (fun risk _ => (.ok (), risk))
      (some ⟨none, some (str "AAPL"), some (str "sell"), some (str "limit"), some 100, some 5⟩)),
    .request (.submitOrder (fun risk _ => (.ok (), risk))
      (some ⟨none, some (str "AAPL"), some (str "buy"), some (str "limit"), some 100, some 3⟩)),
    .restart (RiskManager.new RiskLimits.default) fun _ => 0]

/-- A server after `n` tasks at most, none of which brought a NUL. -/
structure ServesRows (n : ℕ) (m : OrderManager) : Prop where
  hosting : Hosting m
  backed : Backed m.orders m
  named : ∀ event ∈ m.events, event.orderId < m.nextOrderId
  texts : m.PlainTexts
  counted : Counted n m

namespace ServesRows

variable {n : ℕ} {m : OrderManager}

theorem boot (risk : RiskManager) (clock : ℕ → ℤ) : ServesRows 0 (boot risk clock) where
  hosting := Hosting.boot risk clock
  backed := by
    intro d hd st hst
    cases hd
    cases hst
  named := fun event hevent => by cases hevent
  texts := by
    refine ⟨fun id o ho => ?_, fun event hevent => ?_, fun fill hfill => ?_⟩
    · simp [Oems.boot, OrderManager.new] at ho
    · cases hevent
    · cases hfill
  counted := Counted.new risk _ clock

theorem mono (h : ServesRows n m) {n' : ℕ} (hle : n ≤ n') : ServesRows n' m :=
  { h with counted := h.counted.mono hle }

theorem step (h : ServesRows n m) {op : Op} (hop : op.Plain) :
    ServesRows (n + 1) (m.step op).2 where
  hosting := h.hosting.step op
  backed := backed_hostInvariant.step m op h.hosting h.backed
  named := by
    have hlog : Logged (fun _ _ => True) m.orders m.events m.nextOrderId :=
      ⟨fun _ _ _ => trivial, h.named⟩
    exact (anyLog_logRule.stepInvariant.step h.hosting.agrees hlog op trivial).below
  texts := plainTexts_stepInvariant.step h.hosting.agrees h.texts op hop
  counted := h.counted.step h.hosting.agrees op

theorem serve (h : ServesRows n m) {r : ApiRequest} (hr : r.Plain) :
    ServesRows (n + 1) (m.serve r).2 := by
  rw [serve_manager]
  cases hop : r.op with
  | none => exact h.mono (Nat.le_succ n)
  | some op => exact h.step (hr.op op hop)

theorem restart (h : ServesRows n m) {risk : RiskManager} {clock : ℕ → ℤ} {m' : OrderManager}
    (hok : OrderManager.restart m.db risk clock = .ok m') : ServesRows (n + 1) m' := by
  obtain ⟨m'', hok', hsame, hm'⟩ := h.hosting.restart risk clock
  obtain rfl : m'' = m' := Except.ok.inj (hok'.symm.trans hok)
  obtain ⟨horders, hexecutions, hevents⟩ := h.counted.mono (Nat.le_succ n)
  refine ⟨hm', backed_hostInvariant.restart m m'' risk clock h.hosting h.backed hok hsame, ?_,
    ⟨?_, ?_, ?_⟩, ?_, ?_, ?_⟩
  · rw [hsame.events, hsame.nextOrderId]
    exact h.named
  · rw [hsame.orders]
    exact h.texts.orders
  · rw [hsame.events]
    exact h.texts.events
  · rw [hsame.executions]
    exact h.texts.executions
  · rw [hsame.nextOrderId]
    exact horders
  · rw [hsame.executions, hsame.orders, hsame.nextOrderId]
    exact hexecutions
  · rw [hsame.nextEventId, hsame.executions]
    exact hevents

theorem fitsColumns (h : ServesRows n m) (hn : n ≤ 2 ^ 60) : m.FitsColumns := by
  have hmirrored := h.hosting.serving.durable.mirrored
  obtain ⟨horders, hexecutions, hevents⟩ := h.counted.ids_lt h.hosting.agrees hn
  refine ⟨fun o ho => ?_, fun event hevent => ?_, fun fill hfill => ?_⟩
  · have hlookup := h.hosting.agrees.filed.lookup ho
    exact ⟨(h.hosting.agrees.filed _ _ hlookup).2.trans horders, h.texts.orders _ _ hlookup⟩
  · exact ⟨(hmirrored.eventId_lt event hevent).trans hevents,
      (h.named event hevent).trans horders, h.texts.events event hevent⟩
  · have hid := hmirrored.executionId_lt fill hfill
    obtain ⟨haggressive, hpassive⟩ := h.hosting.ledger.named fill hfill
    exact ⟨by omega, haggressive.trans horders, hpassive.trans horders,
      h.texts.executions fill hfill⟩

theorem hostRows (h : ServesRows n m) {tasks : List ServerTask}
    (htexts : ∀ task ∈ tasks, task.Plain) (hn : n + tasks.length ≤ 2 ^ 60) :
    Machine.run Oems.hostRows (.ok m) tasks = Machine.run Oems.host (.ok m) tasks ∧
      ∃ m', (Machine.run Oems.host (.ok m) tasks).2 = .ok m' ∧ ServesRows (n + tasks.length) m' := by
  induction tasks generalizing m n with
  | nil => exact ⟨rfl, m, rfl, h⟩
  | cons task tasks ih =>
    have hrest : ∀ task' ∈ tasks, task'.Plain := fun task' ht =>
      htexts task' (List.mem_cons_of_mem _ ht)
    have hlength : n + (task :: tasks).length = n + 1 + tasks.length := by
      rw [List.length_cons]
      omega
    rw [hlength] at hn ⊢
    have hstep : Oems.hostRows (.ok m) task = Oems.host (.ok m) task ∧
        ∃ m', (Oems.host (.ok m) task).2 = .ok m' ∧ ServesRows (n + 1) m' := by
      cases task with
      | request r => exact ⟨rfl, _, rfl, h.serve (htexts _ List.mem_cons_self)⟩
      | restart risk clock =>
        obtain ⟨m', hok, -⟩ := h.hosting.restart risk clock
        refine ⟨?_, m', hok, h.restart hok⟩
        have hrows := h.hosting.restartRows h.backed (h.fitsColumns (by omega)) risk clock
        rw [Oems.hostRows, Oems.host, hrows]
    obtain ⟨hsame, m', hok, hnext⟩ := hstep
    obtain ⟨hrun, hend⟩ := ih hnext hrest hn
    rw [Machine.run, Machine.run, hsame, hok, hrun]
    exact ⟨rfl, hend⟩

end ServesRows

section PlainTasks

variable {tasks : List ServerTask} (h : PlainTasks tasks) (risk : RiskManager) (clock : ℕ → ℤ)
include h

/-- For tasks without a NUL the tables of records stand for the rows of the file. -/
theorem PlainTasks.hostRows_eq : Machine.run hostRows (.ok (boot risk clock)) tasks =
    Machine.run host (.ok (boot risk clock)) tasks :=
  ((ServesRows.boot risk clock).hostRows h.texts (by rw [zero_add]; exact h.length)).1

theorem PlainTasks.servesRows : ∃ m, (Machine.run hostRows (.ok (boot risk clock)) tasks).2 = .ok m ∧
    ServesRows (0 + tasks.length) m := by
  rw [h.hostRows_eq]
  exact ((ServesRows.boot risk clock).hostRows h.texts (by rw [zero_add]; exact h.length)).2

/-- What calls and restarts keep holds at any time in the life of a server on its rows. -/
theorem HostInvariant.hostRows {I : OrderManager → Prop} (hI : HostInvariant I)
    (hstart : I (boot risk clock)) :
    ∃ m, (Machine.run Oems.hostRows (.ok (boot risk clock)) tasks).2 = .ok m ∧ Hosting m ∧ I m := by
  rw [h.hostRows_eq]
  exact hI.host (Hosting.boot risk clock) hstart tasks

end PlainTasks

end Oems
