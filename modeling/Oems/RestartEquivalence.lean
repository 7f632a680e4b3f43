import Oems.Journal
import Oems.Recovery
import Oems.SameBook

namespace Oems

open Lib OrderManager

theorem EngineRefines.levels_eq {e e' : MatchingEngine} {live : Symbol → List RestingOrder}
    (h : EngineRefines e live) (h' : EngineRefines e' live) (s : Symbol) (side : Side) :
    (e.bookOf s).levels side = (e'.bookOf s).levels side := by
  obtain ⟨_, hb⟩ := h s
  obtain ⟨_, hb'⟩ := h' s
  exact hb.levels_eq hb' rfl side

def Order.stripped (o : Order) : Order := { o with createdAt := 0, updatedAt := 0 }

theorem Order.stripped_field {α : Type*} {o o' : Order} (h : o.stripped = o'.stripped)
    (f : Order → α) (hf : ∀ x : Order, f x.stripped = f x) : f o = f o' := by
  rw [← hf, ← hf o', h]

def SameOrders (orders orders' : OrderMap) : Prop :=
  ∀ id, (orders.lookup id).map Order.stripped = (orders'.lookup id).map Order.stripped

section SameOrders

variable {orders orders' : OrderMap} (h : SameOrders orders orders')
include h

theorem SameOrders.insert (id : ℕ) {o o' : Order} (ho : o.stripped = o'.stripped) :
    SameOrders (orders.insert id o) (orders'.insert id o') := by
  intro id'
  by_cases he : id' = id
  · rw [he, Finmap.lookup_insert, Finmap.lookup_insert, Option.map_some, Option.map_some, ho]
  · rw [Finmap.lookup_insert_of_ne _ he, Finmap.lookup_insert_of_ne _ he]
    exact h id'

theorem SameOrders.lookup {id : ℕ} {o : Order} (ho : orders.lookup id = some o) :
    ∃ o', orders'.lookup id = some o' ∧ o.stripped = o'.stripped := by
  have hid := h id
  rw [ho] at hid
  obtain ⟨o', ho', hs⟩ := Option.map_eq_some_iff.mp hid.symm
  exact ⟨o', ho', hs.symm⟩

theorem SameOrders.lookup_none {id : ℕ} (ho : orders.lookup id = none) :
    orders'.lookup id = none := by
  have hid := h id
  rw [ho] at hid
  exact Option.map_eq_none_iff.mp hid.symm

theorem SameOrders.liveOrders (bound : ℕ) (s : Symbol) :
    Oems.liveOrders orders bound s = Oems.liveOrders orders' bound s := by
  apply liveOrders_congr
  intro id _
  have hid := congrArg (fun x => Option.bind x (restingOf s)) (h id)
  rw [Option.bind_map, Option.bind_map] at hid
  exact hid

end SameOrders

theorem passiveAfter_stripped {o o' : Order} {fill fill' : Fill} (ho : o.stripped = o'.stripped)
    (hf : fill.trade = fill'.trade) (now now' : ℤ) :
    (passiveAfter o fill now).stripped = (passiveAfter o' fill' now').stripped := by
  have hq : fill.quantity = fill'.quantity := congrArg Trade.quantity hf
  have hpassive : ∀ (x : Order) (f : Fill) (t : ℤ), (passiveAfter x f t).stripped =
      (passiveAfter x.stripped f 0).stripped := fun _ _ _ => rfl
  rw [hpassive, hpassive o', ho]
  unfold passiveAfter fillOrder
  rw [hq]

structure FlightTwin (m : OrderManager) (order : Order) (m' : OrderManager) (order' : Order) :
    Prop where
  orders : SameOrders m.orders m'.orders
  order : order.stripped = order'.stripped
  executions : m.executions.map Fill.trade = m'.executions.map Fill.trade

theorem FlightTwin.applyFill {m m' : OrderManager} {order order' : Order} {fill fill' : Fill}
    (h : FlightTwin m order m' order') (hf : fill.trade = fill'.trade) :
    FlightTwin (m.applyFill order fill).1 (m.applyFill order fill).2 (m'.applyFill order' fill').1
      (m'.applyFill order' fill').2 := by
  have hid : fill.passiveOrderId = fill'.passiveOrderId := congrArg Trade.passiveOrderId hf
  have hq : fill.quantity = fill'.quantity := congrArg Trade.quantity hf
  unfold OrderManager.applyFill
  constructor
  · rw [appendEvent_orders, appendEvent_orders, fillPassive_orders, fillPassive_orders]
    simp only [write_orders]
    cases hl : m.orders.lookup fill.passiveOrderId with
    | none =>
      have hl' := h.orders.lookup_none hl
      rw [hid] at hl'
      rw [hl']
      exact h.orders
    | some passive =>
      obtain ⟨passive', hl', hs⟩ := h.orders.lookup hl
      rw [hid] at hl' ⊢
      rw [hl']
      exact h.orders.insert _ (passiveAfter_stripped hs hf _ _)
  · have hfilled : ∀ x : Order, ∀ f : Fill, (fillOrder x f).stripped =
        fillOrder x.stripped f := fun _ _ => rfl
    dsimp only
    rw [hfilled, hfilled order', h.order]
    unfold fillOrder
    rw [hq]
  · rw [appendEvent_executions, appendEvent_executions, fillPassive_executions,
      fillPassive_executions]
    simp only [write_executions, List.map_append, List.map_cons, List.map_nil, h.executions, hf]

theorem FlightTwin.applyFills {m m' : OrderManager} {order order' : Order} {fills fills' : List Fill}
    (h : FlightTwin m order m' order') (hf : fills.map Fill.trade = fills'.map Fill.trade) :
    FlightTwin (m.applyFills order fills).1 (m.applyFills order fills).2
      (m'.applyFills order' fills').1 (m'.applyFills order' fills').2 := by
  induction fills generalizing m order m' order' fills' with
  | nil =>
    rw [List.map_nil, eq_comm, List.map_eq_nil_iff] at hf
    rw [hf]
    exact h
  | cons fill fills ih =>
    cases fills' with
    | nil => simp at hf
    | cons fill' fills' =>
      obtain ⟨hhead, htail⟩ := List.cons.inj hf
      have hnext := ih (h.applyFill hhead) htail
      exact hnext

theorem settledOrder_stripped {o o' : Order} (h : o.stripped = o'.stripped) (now now' : ℤ) :
    (settledOrder o now).stripped = (settledOrder o' now').stripped := by
  have hsettled : ∀ (x : Order) (t : ℤ), (settledOrder x t).stripped =
      (settledOrder x.stripped 0).stripped := fun _ _ => rfl
  rw [hsettled, hsettled o', h]

theorem cancelledOrder_stripped {o o' : Order} (h : o.stripped = o'.stripped) (now now' : ℤ) :
    (cancelledOrder o now).stripped = (cancelledOrder o' now').stripped := by
  have hcancelled : ∀ (x : Order) (t : ℤ), (cancelledOrder x t).stripped =
      cancelledOrder x.stripped 0 := fun _ _ => rfl
  rw [hcancelled, hcancelled o', h]

/-- Two managers in the same state, timestamps and audit logs aside. -/
structure Twin (m m' : OrderManager) : Prop where
  agrees : Agrees m
  agrees' : Agrees m'
  nextOrderId : m.nextOrderId = m'.nextOrderId
  orders : SameOrders m.orders m'.orders
  executions : m.executions.map Fill.trade = m'.executions.map Fill.trade

/-- The same result of the same call, timestamps and the kind of a not-found error
of a cancel aside. -/
inductive SameResult : Op → Result Order → Result Order → Prop where
  | ok (op : Op) (o o' : Order) (h : o.stripped = o'.stripped) : SameResult op (.ok o) (.ok o')
  | error (op : Op) (err : OemsError) : SameResult op (.error err) (.error err)
  | notFound (req : CancelOrderRequest) (err err' : OemsError)
    (h : err = .bookNotFound ∨ err = .orderNotFound)
    (h' : err' = .bookNotFound ∨ err' = .orderNotFound) :
    SameResult (.cancel req) (.error err) (.error err')

inductive SameCall : Op → Op → Prop where
  | submit (check check' : RiskCheck) (req : NewOrderRequest)
    (h : ∀ risk risk', (check risk (riskRequest req)).1 = (check' risk' (riskRequest req)).1) :
    SameCall (.submit check req) (.submit check' req)
  | cancel (req : CancelOrderRequest) : SameCall (.cancel req) (.cancel req)

section Twin

variable {m m' : OrderManager} (h : Twin m m')
include h

theorem Twin.withRisk (risk risk' : RiskManager) : Twin { m with risk } { m' with risk := risk' } :=
  ⟨h.agrees.withRisk risk, h.agrees'.withRisk risk', h.nextOrderId, h.orders, h.executions⟩

theorem Twin.flatBook (s : Symbol) : m.flatBook s = m'.flatBook s := by
  have hlen := congrArg List.length h.executions
  rw [List.length_map, List.length_map] at hlen
  rw [OrderManager.flatBook, OrderManager.flatBook, h.agrees.next, h.agrees'.next, hlen,
    h.nextOrderId, h.orders.liveOrders]

theorem Twin.place {req : NewOrderRequest} (hv : validate req = .ok ()) (op : Op) :
    SameResult op (m.place req).1 (m'.place req).1 ∧ Twin (m.place req).2 (m'.place req).2 := by
  have ht := h.agrees.takeoff hv
  have ht' := h.agrees'.takeoff hv
  have hend := h.agrees.place hv
  have hend' := h.agrees'.place hv
  obtain ⟨_, hfly, _⟩ := h.agrees.land hv
  obtain ⟨_, hfly', _⟩ := h.agrees'.land hv
  obtain ⟨created, updated, ho⟩ := ht.order
  obtain ⟨created', updated', ho'⟩ := ht'.order
  have hfills : (m.flightOf req).fills.map Fill.trade = (m'.flightOf req).fills.map Fill.trade := by
    rw [ht.fills, ht'.fills, h.flatBook, h.nextOrderId]
  have hstart : FlightTwin (m.flightOf req).manager (m.flightOf req).order
      (m'.flightOf req).manager (m'.flightOf req).order := by
    refine ⟨?_, ?_, ?_⟩
    · rw [ht.orders, ht'.orders]
      exact h.orders
    · rw [ho, ho', h.nextOrderId]
      rfl
    · rw [ht.executions, ht'.executions]
      exact h.executions
  have hland : FlightTwin (m.flightOf req).land.1 (m.flightOf req).land.2
      (m'.flightOf req).land.1 (m'.flightOf req).land.2 := hstart.applyFills hfills
  have hid : (m.flightOf req).land.2.internalId = (m'.flightOf req).land.2.internalId :=
    Order.stripped_field hland.order Order.internalId fun _ => rfl
  have hstored := fun now now' => settledOrder_stripped hland.order now now'
  have hnext : (m.flightOf req).land.1.nextOrderId = (m'.flightOf req).land.1.nextOrderId := by
    rw [hfly.nextOrderId, hfly'.nextOrderId, ho, ho']
    exact congrArg (· + 1) h.nextOrderId
  rw [ht.place] at hend ⊢
  rw [ht'.place] at hend' ⊢
  refine ⟨SameResult.ok op _ _ (hstored _ _), hend, hend', ?_, ?_, ?_⟩
  · rw [settle_nextOrderId, settle_nextOrderId, hnext]
  · rw [settle_orders, settle_orders, hid]
    exact hland.orders.insert _ (hstored _ _)
  · rw [settle_executions, settle_executions]
    exact hland.executions

theorem Twin.rejectByRisk {req : NewOrderRequest} (hv : validate req = .ok ()) (err : OemsError) :
    Twin (m.rejectByRisk req err) (m'.rejectByRisk req err) where
  agrees := h.agrees.rejectByRisk hv err
  agrees' := h.agrees'.rejectByRisk hv err
  nextOrderId := by
    rw [rejectByRisk_nextOrderId, rejectByRisk_nextOrderId, h.nextOrderId]
  orders := by
    rw [rejectByRisk_orders, rejectByRisk_orders, h.nextOrderId]
    exact h.orders.insert _ rfl
  executions := by
    rw [rejectByRisk_executions, rejectByRisk_executions]
    exact h.executions

theorem Twin.submitOrder {check check' : RiskCheck} {req : NewOrderRequest}
    (hc : ∀ risk risk', (check risk (riskRequest req)).1 = (check' risk' (riskRequest req)).1) :
    SameResult (.submit check req) (m.submitOrder check req).1 (m'.submitOrder check' req).1 ∧
      Twin (m.submitOrder check req).2 (m'.submitOrder check' req).2 := by
  have hverdict := hc m.risk m'.risk
  unfold OrderManager.submitOrder
  cases hv : validate req with
  | error err => exact ⟨SameResult.error _ err, h⟩
  | ok u =>
    generalize check m.risk (riskRequest req) = verdict at hverdict
    generalize check' m'.risk (riskRequest req) = verdict' at hverdict
    obtain ⟨res, risk⟩ := verdict
    obtain ⟨res', risk'⟩ := verdict'
    dsimp only at hverdict
    subst hverdict
    cases res with
    | error err => exact ⟨SameResult.error _ err, (h.withRisk risk risk').rejectByRisk hv err⟩
    | ok u => exact (h.withRisk risk risk').place hv _

theorem Twin.cancelOrder (req : CancelOrderRequest) :
    SameResult (.cancel req) (m.cancelOrder req).1 (m'.cancelOrder req).1 ∧
      Twin (m.cancelOrder req).2 (m'.cancelOrder req).2 := by
  have hend := h.agrees.cancelOrder req
  have hend' := h.agrees'.cancelOrder req
  have hstep := h.agrees.cancelStep req
  obtain ⟨id⟩ := req
  generalize m.cancelOrder ⟨id⟩ = r at hstep hend
  cases hstep with
  | unknown hl =>
    rw [cancelOrder_unknown (h.orders.lookup_none hl)]
    exact ⟨SameResult.error _ _, h⟩
  | closed o hl hs =>
    obtain ⟨o', hl', hsame⟩ := h.orders.lookup hl
    rw [Order.stripped_field hsame Order.status fun _ => rfl] at hs
    rw [h.agrees'.cancelOrder_closed hl' hs]
    exact ⟨SameResult.error _ _, h⟩
  | notResting o err hl hs ht he =>
    obtain ⟨o', hl', hsame⟩ := h.orders.lookup hl
    rw [Order.stripped_field hsame Order.status fun _ => rfl] at hs
    rw [Order.stripped_field hsame Order.type fun _ => rfl] at ht
    obtain ⟨err', he', hr⟩ := h.agrees'.cancelOrder_notResting hl' hs ht
    rw [hr] at hend' ⊢
    exact ⟨SameResult.notFound _ _ _ he he', hend, hend', h.nextOrderId, h.orders, h.executions⟩
  | done o engine hl hid hs ht _ _ _ =>
    obtain ⟨o', hl', hsame⟩ := h.orders.lookup hl
    rw [Order.stripped_field hsame Order.status fun _ => rfl] at hs
    rw [Order.stripped_field hsame Order.type fun _ => rfl] at ht
    obtain ⟨engine', _, _, _, hr⟩ := h.agrees'.cancelOrder_done hl' hs ht
    have hid' : o'.internalId = id := (h.agrees'.filed _ _ hl').1
    have hclosed := fun now now' => cancelledOrder_stripped hsame now now'
    rw [hr] at hend' ⊢
    refine ⟨SameResult.ok _ _ _ (hclosed _ _), hend, hend', h.nextOrderId, ?_, h.executions⟩
    obtain ⟨now, horders⟩ := withdraw_orders m o engine
    obtain ⟨now', horders'⟩ := withdraw_orders m' o' engine'
    rw [horders, horders', hid, hid']
    exact h.orders.insert _ (hclosed _ _)

end Twin

theorem Twin.step {m m' : OrderManager} {op op' : Op} (hc : SameCall op op') (h : Twin m m') :
    SameResult op (m.step op).1 (m'.step op').1 ∧ Twin (m.step op).2 (m'.step op').2 := by
  cases hc with
  | submit check check' req hc => exact h.submitOrder hc
  | cancel req => exact h.cancelOrder req

section SameMemory

variable {m m' : OrderManager} (hsame : SameMemory m m') (h : Agrees m) (h' : Agrees m')
include hsame h h'

/-- The memory decides the books, level by level. -/
theorem SameMemory.levels_eq (s : Symbol) (side : Side) :
    (m'.engine.bookOf s).levels side = (m.engine.bookOf s).levels side := by
  have hengine := h'.engine
  rw [hsame.orders, hsame.nextOrderId] at hengine
  exact hengine.levels_eq h.engine s side

theorem SameMemory.twin : Twin m m' := by
  refine ⟨h, h', hsame.nextOrderId.symm, ?_, ?_⟩
  · rw [hsame.orders]
    exact fun _ => rfl
  · rw [hsame.executions]

theorem SameMemory.later {later later' : List Op} (hcalls : List.Forall₂ SameCall later later') :
    List.Forall₂ (fun call r => SameResult call.1 call.2 r)
      (later.zip (Machine.run OrderManager.step m later).1)
      (Machine.run OrderManager.step m' later').1 :=
  (Machine.simulation_inputs (C := SameCall) (R := Twin) (O := SameResult)
    (fun _ _ _ _ hc ht => Twin.step hc ht) (hsame.twin h h') hcalls).1

end SameMemory

/-- After every run a restart on the database succeeds and gives the same orders,
log, executions, counters and books, and from there on the same calls with the
same risk verdicts have the same results. -/
theorem restart_equivalence (risk risk' : RiskManager) (clock clock' : ℕ → ℤ) (ops : List Op) :
    let m := (OrderManager.new risk MatchingEngine.new (some Database.empty) clock).run ops
    ∃ d m', m.db = some d ∧
      (OrderManager.new risk' MatchingEngine.new (some d.reopen) clock').restoreFromDatabase =
        (.ok (), m') ∧
      (m'.orders = m.orders ∧ m'.events = m.events ∧ m'.executions = m.executions ∧
        m'.nextOrderId = m.nextOrderId ∧ m'.nextEventId = m.nextEventId ∧
        m'.engine.nextExecutionId = m.engine.nextExecutionId) ∧
      (∀ s side, (m'.engine.bookOf s).levels side = (m.engine.bookOf s).levels side) ∧
      ∀ later later', List.Forall₂ SameCall later later' →
        List.Forall₂ (fun call r => SameResult call.1 call.2 r)
          (later.zip (Machine.run OrderManager.step m later).1)
          (Machine.run OrderManager.step m' later').1 := by
  intro m
  have h : Durable m := (Durable.new risk clock).run ops
  obtain ⟨d, hd⟩ := (Agrees.new risk (some Database.empty) clock).exists_db ⟨_, rfl⟩ ops
  obtain ⟨m', hok, _, hsame, hdurable⟩ :=
    h.restart hd (show d.reopen.tables = d.tables from rfl) risk' clock'
  exact ⟨d, m', hd, hok, ⟨hsame.orders, hsame.events, hsame.executions, hsame.nextOrderId,
    hsame.nextEventId, hsame.nextExecutionId⟩, hsame.levels_eq h.agrees hdurable.agrees,
    fun _ _ hcalls => hsame.later h.agrees hdurable.agrees hcalls⟩

end Oems
