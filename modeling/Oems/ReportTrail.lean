import Oems.ExecutionReport
import Oems.FixNumbers
import Oems.Lifecycle

namespace Oems

open Lib OrderManager

/-- A gateway and the sessions that it serves, beside other callers of its order manager. -/
structure FixDesk (ι : Type) where
  sessions : ι → FixSession
  gateway : FixGateway

namespace FixDesk

variable {ι : Type} [DecidableEq ι]

/-- A call on one of the sessions, on the gateway for it, or on the order manager. -/
inductive Event (ι : Type) where
  | session (i : ι) (op : FixSession.Op)
  | newOrderSingle (i : ι) (check : RiskCheck) (msg : FixMessage)
  | orderCancelRequest (i : ι) (msg : FixMessage)
  | direct (op : OrderManager.Op)

def new (sessions : ι → FixSession) (om : OrderManager) : FixDesk ι :=
  ⟨sessions, FixGateway.new om⟩

def handled (d : FixDesk ι) (i : ι) (r : Result FixMessage × FixSession × FixGateway) :
    List FixMessage × FixDesk ι :=
  (r.1.toOption.toList, ⟨Function.update d.sessions i r.2.1, r.2.2⟩)

def step (d : FixDesk ι) : Event ι → List FixMessage × FixDesk ι
  | .session i op =>
    ([], { d with sessions := Function.update d.sessions i ((d.sessions i).step op).2 })
  | .newOrderSingle i check msg =>
    d.handled i (d.gateway.handleNewOrderSingle check msg (d.sessions i))
  | .orderCancelRequest i msg =>
    d.handled i (d.gateway.handleOrderCancelRequest msg (d.sessions i))
  | .direct op => ([], { d with gateway := { d.gateway with om := (d.gateway.om.step op).2 } })

/-- The reports that a run hands out, to whichever session, in their order. -/
def reports (d : FixDesk ι) (events : List (Event ι)) : List FixMessage :=
  (Machine.run step d events).1.flatten

abbrev run (d : FixDesk ι) (events : List (Event ι)) : FixDesk ι := (Machine.run step d events).2

end FixDesk

/-- What a report says: the order as it was, the number of the report, and what it is
about. -/
structure Account where
  order : Order
  execId : ℕ
  execType : Str

structure Account.ToldBy (report : FixMessage) (a : Account) : Prop where
  order : Reports report a.order
  execID : report.get FixTag.execID = some (Decimal.ofNat a.execId)
  execType : report.get FixTag.execType = some a.execType

def Account.Cancels (a : Account) : Prop := a.execType = str "4"

/-- Of two accounts under one order id the first is of an order, the second of its
cancel. -/
def Account.Precedes (a b : Account) : Prop :=
  a.order.internalId = b.order.internalId → ¬ a.Cancels ∧ b.Cancels ∧ Move a.order b.order

/-- The order of an account, as the table has it now. -/
def Account.Stored (orders : OrderMap) (a : Account) : Prop :=
  ∃ o, orders.lookup a.order.internalId = some o ∧ (o = a.order ∨ Move a.order o) ∧
    (a.Cancels → o.status = .cancelled)

theorem Account.Stored.evolves {orders orders' : OrderMap} {a : Account} (h : a.Stored orders)
    (he : Evolves orders orders') : a.Stored orders' := by
  obtain ⟨o, ho, hsame, hcancelled⟩ := h
  obtain ⟨o', ho', hsame'⟩ := he _ o ho
  refine ⟨o', ho', ?_, fun hc => ?_⟩
  · obtain rfl | hmove' := hsame'
    · exact hsame
    · obtain rfl | hmove := hsame
      · exact Or.inr hmove'
      · exact Or.inr (hmove.trans hmove')
  · obtain rfl | hmove' := hsame'
    · exact hcancelled hc
    · -- a cancelled order does not move
      have hlive := hmove'.status.live
      rw [hcancelled hc] at hlive
      obtain hlive | hlive := hlive <;> cases hlive

namespace FixGateway

theorem execTypeOf_ne (order : Order) : execTypeOf order ≠ str "4" := by
  unfold execTypeOf
  split_ifs <;> decide

theorem buildExecutionReport_told (g : FixGateway) (order : Order) (session : FixSession)
    (execType : Str) :
    Account.ToldBy (g.buildExecutionReport order session execType).1
      ⟨order, g.nextExecId, execType⟩ := by
  have hget : ∀ tag, tag ∉ headerTags → tag ≠ FixTag.price →
      (g.buildExecutionReport order session execType).1.get tag =
        (reportFields { order with type := .market } g.nextExecId execType).get tag :=
    fun tag hheader hprice => (get_header _ _ hheader).trans (get_reportFields _ _ _ hprice)
  refine ⟨g.buildExecutionReport_reports order session execType, ?_, ?_⟩
  all_goals
    rw [hget _ (by decide) (by decide), reportFields]
    simp [FixMessage.get_set, FixTag.execID, FixTag.symbol, FixTag.side, FixTag.orderQty,
      FixTag.leavesQty, FixTag.cumQty, FixTag.ordStatus, FixTag.execType]

/-- What a call does to a gateway and its order manager: it hands out no report, or one on an
order that it files, that it refuses, or that it cancels. -/
inductive Handles (g g' : FixGateway) : List FixMessage → Prop where
  | none (exec : g'.nextExecId = g.nextExecId)
    (synthetic : g'.nextSyntheticOrderId = g.nextSyntheticOrderId) : Handles g g' []
  | placed (report : FixMessage) (a : Account) (told : a.ToldBy report)
    (number : a.execId = g.nextExecId) (exec : g'.nextExecId = g.nextExecId + 1)
    (synthetic : g'.nextSyntheticOrderId = g.nextSyntheticOrderId)
    (id : a.order.internalId = g.om.nextOrderId)
    (stored : g'.om.orders.lookup a.order.internalId = some a.order) (type : ¬ a.Cancels) :
    Handles g g' [report]
  | refused (report : FixMessage) (a : Account) (told : a.ToldBy report)
    (number : a.execId = g.nextExecId) (exec : g'.nextExecId = g.nextExecId + 1)
    (synthetic : g'.nextSyntheticOrderId = (g.nextSyntheticOrderId + (2 ^ 64 - 1)) % 2 ^ 64)
    (id : a.order.internalId = g.nextSyntheticOrderId) (status : a.order.status = .rejected) :
    Handles g g' [report]
  | cancelled (report : FixMessage) (a : Account) (told : a.ToldBy report)
    (number : a.execId = g.nextExecId) (exec : g'.nextExecId = g.nextExecId + 1)
    (synthetic : g'.nextSyntheticOrderId = g.nextSyntheticOrderId) (o : Order)
    (before : g.om.orders.lookup a.order.internalId = some o) (move : Move o a.order)
    (stored : g'.om.orders.lookup a.order.internalId = some a.order)
    (status : a.order.status = .cancelled) (type : a.Cancels) : Handles g g' [report]

theorem handleNewOrderSingle_calls (check : RiskCheck) (g : FixGateway) (msg : FixMessage)
    (session : FixSession) : (g.handleNewOrderSingle check msg session).2.2.om = g.om ∨
      ∃ op, (g.handleNewOrderSingle check msg session).2.2.om = (g.om.step op).2 := by
  rw [handleNewOrderSingle_om]
  split_ifs
  · cases newOrderRequest msg with
    | error err => exact Or.inl rfl
    | ok req => exact Or.inr ⟨.submit check req, rfl⟩
  · exact Or.inl rfl

theorem handleOrderCancelRequest_calls (g : FixGateway) (msg : FixMessage)
    (session : FixSession) : (g.handleOrderCancelRequest msg session).2.2.om = g.om ∨
      ∃ op, (g.handleOrderCancelRequest msg session).2.2.om = (g.om.step op).2 := by
  rw [handleOrderCancelRequest_om]
  split_ifs
  · exact Or.inr ⟨.cancel ⟨cancelOrderId msg⟩, rfl⟩
  · exact Or.inl rfl

theorem handleNewOrderSingle_handles (check : RiskCheck) (g : FixGateway) (msg : FixMessage)
    (session : FixSession) :
    Handles g (g.handleNewOrderSingle check msg session).2.2
      (g.handleNewOrderSingle check msg session).1.toOption.toList := by
  obtain ⟨err, hres⟩ | ⟨req, -, -, ⟨err, om, -, hres⟩ | ⟨order, om, hsubmit, hres⟩⟩ :=
    g.handleNewOrderSingle_cases check msg session
  · rw [hres]
    exact .none rfl rfl
  · rw [hres]
    exact .refused _ ⟨rejectedOrder req g.nextSyntheticOrderId, g.nextExecId, str "8"⟩
      (buildExecutionReport_told _ _ session _) rfl rfl rfl rfl rfl
  · rw [hres]
    have hrecords : Records g.om om order := by
      cases hv : validate req with
      | error err =>
        rw [submitOrder_invalid hv] at hsubmit
        cases hsubmit
      | ok u =>
        obtain ⟨-, order', m', hok, hrec⟩ | ⟨-, err', m', created, updated, herr, -⟩ :=
          submitOrder_records check g.om hv
        · rw [hsubmit] at hok
          cases hok
          exact hrec
        · rw [hsubmit] at herr
          cases herr
    have hstored : om.orders.lookup order.internalId = some order := by
      rw [hrecords.internalId]
      exact hrecords.lookup
    exact .placed _ ⟨order, g.nextExecId, execTypeOf order⟩
      (buildExecutionReport_told { g with om } order session _) rfl rfl rfl hrecords.internalId
      hstored (execTypeOf_ne order)

theorem handleOrderCancelRequest_handles {g : FixGateway} (h : Agrees g.om) (msg : FixMessage)
    (session : FixSession) :
    Handles g (g.handleOrderCancelRequest msg session).2.2
      (g.handleOrderCancelRequest msg session).1.toOption.toList := by
  obtain ⟨err, om, hres⟩ | ⟨order, om, hcancel, hres⟩ :=
    g.handleOrderCancelRequest_cases msg session
  · rw [hres]
    exact .none rfl rfl
  · rw [hres]
    have hstep := h.cancelStep ⟨cancelOrderId msg⟩
    rw [hcancel] at hstep
    generalize hr : (Except.ok order, om) = r at hstep
    cases hstep with
    | unknown hl => cases hr
    | closed o hl hs => cases hr
    | notResting o err hl hs ht he => cases hr
    | done o engine hl hid hs ht hc hn he =>
      obtain ⟨horder, rfl⟩ := Prod.mk.inj hr
      obtain rfl := Except.ok.inj horder
      obtain ⟨now, hcancelled, horders⟩ : ∃ now, (g.om.withdraw o engine).1 = cancelledOrder o now ∧
          (g.om.withdraw o engine).2.orders =
            g.om.orders.insert o.internalId (cancelledOrder o now) := ⟨_, rfl, rfl⟩
      rw [hcancelled]
      refine .cancelled _ ⟨cancelledOrder o now, g.nextExecId, str "4"⟩
        (buildExecutionReport_told _ _ session _) rfl rfl rfl o ?_ (move_cancelledOrder hs now) ?_
        rfl rfl
      · exact hid ▸ hl
      · change (g.om.withdraw o engine).2.orders.lookup o.internalId = _
        rw [horders, Finmap.lookup_insert]

end FixGateway

structure Passes (g g' : FixGateway) : Prop where
  agrees : Agrees g'.om
  evolves : Evolves g.om.orders g'.om.orders
  nextOrderId : g'.om.nextOrderId ≤ g.om.nextOrderId + 1

/-- The reports of a gateway so far, after some calls, tell of the orders of its manager. -/
structure Trail (g : FixGateway) (trail : List Account) (calls : ℕ) : Prop where
  agrees : Agrees g.om
  numbered : trail.map Account.execId = List.range' 1 trail.length
  exec : g.nextExecId = trail.length + 1
  known : ∀ a ∈ trail, a.Stored g.om.orders ∨
    g.nextSyntheticOrderId < a.order.internalId ∧ a.order.status = .rejected
  ordered : trail.Pairwise Account.Precedes
  nextOrderId : g.om.nextOrderId ≤ calls + 1
  synthetic : g.nextSyntheticOrderId < 2 ^ 64 ∧ 2 ^ 64 ≤ g.nextSyntheticOrderId + calls + 1

namespace Trail

variable {g g' : FixGateway} {trail : List Account} {calls : ℕ}

theorem new (risk : RiskManager) (db : Option Database) (clock : ℕ → ℤ) :
    Trail (FixGateway.new (OrderManager.new risk MatchingEngine.new db clock)) [] 0 where
  agrees := Agrees.new risk db clock
  numbered := rfl
  exec := rfl
  known := fun _ h => absurd h List.not_mem_nil
  ordered := .nil
  nextOrderId := le_rfl
  synthetic := ⟨by change 2 ^ 64 - 1 < 2 ^ 64; omega, by change 2 ^ 64 ≤ 2 ^ 64 - 1 + 0 + 1; omega⟩

theorem id_lt (h : Trail g trail calls) {id : ℕ} {o : Order} (ho : g.om.orders.lookup id = some o) :
    id < g.om.nextOrderId := (h.agrees.filed id o ho).2

theorem append (h : Trail g trail calls) (hp : Passes g g') {a : Account}
    (hnumber : a.execId = g.nextExecId) (hexec : g'.nextExecId = g.nextExecId + 1)
    (hsynthetic : g'.nextSyntheticOrderId ≤ g.nextSyntheticOrderId ∧
      g.nextSyntheticOrderId ≤ g'.nextSyntheticOrderId + 1)
    (hknown : a.Stored g'.om.orders ∨
      g'.nextSyntheticOrderId < a.order.internalId ∧ a.order.status = .rejected)
    (hprecedes : ∀ b ∈ trail, b.Precedes a) : Trail g' (trail ++ [a]) (calls + 1) where
  agrees := hp.agrees
  numbered := by
    rw [List.map_append, h.numbered, List.length_append, List.map_singleton, hnumber, h.exec,
      List.length_singleton, List.range'_concat, Nat.one_mul, Nat.add_comm 1]
  exec := by rw [hexec, h.exec, List.length_append, List.length_singleton]
  known := by
    intro b hb
    obtain hb | hb := List.mem_append.mp hb
    · obtain hstored | ⟨hid, hstatus⟩ := h.known b hb
      · exact Or.inl (hstored.evolves hp.evolves)
      · exact Or.inr ⟨by omega, hstatus⟩
    · rw [List.mem_singleton.mp hb]
      exact hknown
  ordered := by
    apply List.pairwise_append.mpr
    refine ⟨h.ordered, List.pairwise_singleton _ a, fun b hb c hc => ?_⟩
    rw [List.mem_singleton.mp hc]
    exact hprecedes b hb
  nextOrderId := by
    have hnext := hp.nextOrderId
    have hbefore := h.nextOrderId
    omega
  synthetic := by
    have hbefore := h.synthetic
    omega

theorem nothing (h : Trail g trail calls) (hp : Passes g g') (hexec : g'.nextExecId = g.nextExecId)
    (hsynthetic : g'.nextSyntheticOrderId = g.nextSyntheticOrderId) :
    Trail g' trail (calls + 1) where
  agrees := hp.agrees
  numbered := h.numbered
  exec := hexec.trans h.exec
  known := by
    rw [hsynthetic]
    exact fun a ha => (h.known a ha).imp (fun hstored => hstored.evolves hp.evolves) id
  ordered := h.ordered
  nextOrderId := by
    have hnext := hp.nextOrderId
    have hbefore := h.nextOrderId
    omega
  synthetic := by
    have hbefore := h.synthetic
    omega

theorem step (h : Trail g trail calls) (hcalls : calls < 2 ^ 63) (hp : Passes g g')
    {reports : List FixMessage} (hh : FixGateway.Handles g g' reports) :
    ∃ told, List.Forall₂ (fun r a => Account.ToldBy r a) reports told ∧
      Trail g' (trail ++ told) (calls + 1) := by
  have hnext := h.nextOrderId
  obtain ⟨hlt, hapart⟩ := h.synthetic
  cases hh with
  | none hexec hsynthetic =>
    refine ⟨[], .nil, ?_⟩
    rw [List.append_nil]
    exact h.nothing hp hexec hsynthetic
  | placed report a htold hnumber hexec hsynthetic hid hstored htype =>
    refine ⟨[a], .cons htold .nil, h.append hp hnumber hexec (by omega)
      (Or.inl ⟨_, hstored, Or.inl rfl, fun hc => absurd hc htype⟩) ?_⟩
    intro b hb hsame
    rw [hid] at hsame
    obtain ⟨o, ho, -⟩ | ⟨hrefused, -⟩ := h.known b hb
    · have hold := h.id_lt ho
      omega
    · omega
  | refused report a htold hnumber hexec hsynthetic hid hstatus =>
    refine ⟨[a], .cons htold .nil, h.append hp hnumber hexec (by omega)
      (Or.inr ⟨by omega, hstatus⟩) ?_⟩
    intro b hb hsame
    rw [hid] at hsame
    obtain ⟨o, ho, -⟩ | ⟨hrefused, -⟩ := h.known b hb
    · have hold := h.id_lt ho
      omega
    · omega
  | cancelled report a htold hnumber hexec hsynthetic o hbefore hmove hstored hstatus htype =>
    refine ⟨[a], .cons htold .nil, h.append hp hnumber hexec (by omega)
      (Or.inl ⟨_, hstored, Or.inl rfl, fun _ => hstatus⟩) ?_⟩
    intro b hb hsame
    obtain ⟨x, hx, hsince, hcancelled⟩ | ⟨hrefused, -⟩ := h.known b hb
    · rw [hsame, hbefore] at hx
      obtain rfl := Option.some.inj hx
      have hlive := hmove.status.live
      refine ⟨fun hc => ?_, htype, ?_⟩
      · rw [hcancelled hc] at hlive
        obtain hlive | hlive := hlive <;> cases hlive
      · obtain rfl | hsince := hsince
        · exact hmove
        · exact hsince.trans hmove
    · have hold := h.id_lt hbefore
      omega

end Trail

theorem Passes.refl {g g' : FixGateway} (h : Agrees g.om) (hsame : g'.om = g.om) : Passes g g' := by
  refine ⟨hsame ▸ h, ?_, ?_⟩
  · rw [hsame]
    exact Evolves.refl _
  · rw [hsame]
    exact Nat.le_succ _

theorem step_nextOrderId_le {m : OrderManager} (h : Agrees m) (op : Op) :
    (m.step op).2.nextOrderId ≤ m.nextOrderId + 1 := by
  cases op with
  | submit check req =>
    cases hv : validate req with
    | error err =>
      change (m.submitOrder check req).2.nextOrderId ≤ _
      rw [submitOrder_invalid hv]
      exact Nat.le_succ _
    | ok u =>
      obtain ⟨order, t, hrec, -⟩ := submitOrder_files check m hv
      exact hrec.nextOrderId.le
  | cancel req =>
    have hstep := h.cancelStep req
    change (m.cancelOrder req).2.nextOrderId ≤ _
    generalize m.cancelOrder req = r at hstep ⊢
    cases hstep <;> exact Nat.le_succ _

theorem Passes.step {g g' : FixGateway} (h : Agrees g.om) {op : Op}
    (hop : g'.om = (g.om.step op).2) : Passes g g' := by
  refine ⟨hop ▸ h.step op, ?_, ?_⟩
  · rw [hop]
    exact (h.turns op).evolves
  · rw [hop]
    exact step_nextOrderId_le h op

theorem Passes.of_calls {g g' : FixGateway} (h : Agrees g.om)
    (hcalls : g'.om = g.om ∨ ∃ op, g'.om = (g.om.step op).2) : Passes g g' := by
  obtain hsame | ⟨op, hop⟩ := hcalls
  · exact Passes.refl h hsame
  · exact Passes.step h hop

namespace FixDesk

variable {ι : Type} [DecidableEq ι]

theorem step_handles {d : FixDesk ι} (h : Agrees d.gateway.om) (e : Event ι) :
    Passes d.gateway (d.step e).2.gateway ∧
      FixGateway.Handles d.gateway (d.step e).2.gateway (d.step e).1 := by
  cases e with
  | session i op => exact ⟨Passes.refl h rfl, .none rfl rfl⟩
  | newOrderSingle i check msg =>
    exact ⟨Passes.of_calls h (d.gateway.handleNewOrderSingle_calls check msg (d.sessions i)),
      d.gateway.handleNewOrderSingle_handles check msg (d.sessions i)⟩
  | orderCancelRequest i msg =>
    exact ⟨Passes.of_calls h (d.gateway.handleOrderCancelRequest_calls msg (d.sessions i)),
      FixGateway.handleOrderCancelRequest_handles h msg (d.sessions i)⟩
  | direct op => exact ⟨Passes.step h rfl, .none rfl rfl⟩

theorem reports_cons (d : FixDesk ι) (e : Event ι) (events : List (Event ι)) :
    d.reports (e :: events) = (d.step e).1 ++ (d.step e).2.reports events := by
  rw [reports, Machine.run, List.flatten_cons, reports]

theorem run_trail {d : FixDesk ι} {trail : List Account} {calls : ℕ}
    (h : Trail d.gateway trail calls) {events : List (Event ι)}
    (hcalls : calls + events.length < 2 ^ 63) :
    ∃ told, List.Forall₂ (fun r a => Account.ToldBy r a) (d.reports events) told ∧
      Trail (d.run events).gateway (trail ++ told) (calls + events.length) := by
  induction events generalizing d trail calls with
  | nil => exact ⟨[], .nil, by rwa [List.append_nil]⟩
  | cons e events ih =>
    rw [List.length_cons] at hcalls
    obtain ⟨hp, hh⟩ := step_handles h.agrees e
    obtain ⟨told, htold, hnext⟩ := h.step (by omega) hp hh
    obtain ⟨later, hlater, hend⟩ := ih hnext (by omega)
    refine ⟨told ++ later, ?_, ?_⟩
    · rw [reports_cons]
      exact List.rel_append htold hlater
    · rw [← List.append_assoc, List.length_cons, Nat.add_comm events.length, ← Nat.add_assoc]
      exact hend

/-- What reports tell of a table of orders: their numbers count up from 1, an order id stands for
one order or one refused request, and an order has one report and then one on its cancel. -/
structure Identifies (orders : OrderMap) (reports : List FixMessage) (trail : List Account) :
    Prop where
  told : List.Forall₂ (fun r a => Account.ToldBy r a) reports trail
  numbered : trail.map Account.execId = List.range' 1 trail.length
  ordered : trail.Pairwise Account.Precedes
  known : ∀ a ∈ trail, a.Stored orders ∨
    a.order.status = .rejected ∧ a.order.internalId ∉ orders

end FixDesk

/-- Whatever sessions and other callers do, and in which order, the reports of one gateway are
told apart by their numbers, and the orders by the ids that they carry. -/
theorem report_ids_identify {ι : Type} [DecidableEq ι] (sessions : ι → FixSession)
    (risk : RiskManager) (db : Option Database) (clock : ℕ → ℤ) {events : List (FixDesk.Event ι)}
    (hlen : events.length < 2 ^ 63) :
    let d := FixDesk.new sessions (OrderManager.new risk MatchingEngine.new db clock)
    ∃ trail, FixDesk.Identifies (d.run events).gateway.om.orders (d.reports events) trail := by
  intro d
  have hstart : Trail d.gateway [] 0 := Trail.new risk db clock
  obtain ⟨trail, htold, hend⟩ := FixDesk.run_trail hstart (by rwa [Nat.zero_add])
  refine ⟨trail, htold, hend.numbered, hend.ordered, fun a ha => ?_⟩
  refine (hend.known a ha).imp id ?_
  rintro ⟨hid, hstatus⟩
  refine ⟨hstatus, fun hmem => ?_⟩
  obtain ⟨o, ho⟩ := Option.isSome_iff_exists.mp (Finmap.lookup_isSome.mpr hmem)
  have hlt := hend.id_lt ho
  have hnext := hend.nextOrderId
  obtain ⟨-, hapart⟩ := hend.synthetic
  omega

def crossSession : List (FixDesk.Event Bool) :=
  [.newOrderSingle true (RiskCheck.at 0) ⟨[(FixTag.msgType, str "D"), (FixTag.clOrdID, str "C1"),
      (FixTag.symbol, str "AAPL"), (FixTag.side, str "1"), (FixTag.ordType, str "2"),
      (FixTag.orderQty, str "5"), (FixTag.price, str "100")]⟩,
    .orderCancelRequest false ⟨[(FixTag.msgType, str "F"), (FixTag.orderID, str "1")]⟩,
    .newOrderSingle true (RiskCheck.at 0) tooLarge]

theorem crossSession_identified :
    let d := FixDesk.new (fun _ : Bool => FixSession.new (str "OEMS") (str "CPTY") (str "FIX.4.4")
      fun _ => []) (OrderManager.new (RiskManager.new RiskLimits.default) MatchingEngine.new none
        fun _ => 0)
    ∃ trail, FixDesk.Identifies (d.run crossSession).gateway.om.orders (d.reports crossSession)
      trail :=
  report_ids_identify (fun _ : Bool => FixSession.new (str "OEMS") (str "CPTY") (str "FIX.4.4")
    fun _ => []) (RiskManager.new RiskLimits.default) none (fun _ => 0)
    (by decide : crossSession.length < 2 ^ 63)

end Oems
