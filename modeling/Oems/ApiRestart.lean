import Oems.ApiConsistency
import Oems.RestartEquivalence

namespace Oems

open Lib OrderManager

/-- The same request with the same risk verdict. -/
inductive SameRequest : ApiRequest → ApiRequest → Prop where
  | submitOrder (check check' : RiskCheck) (body : Option NewOrderRequestDto)
    (h : ∀ req, OrdersController.newOrderRequest body = .ok req → ∀ risk risk',
      (check risk (riskRequest req)).1 = (check' risk' (riskRequest req)).1) :
    SameRequest (.submitOrder check body) (.submitOrder check' body)
  | getHealth : SameRequest .getHealth .getHealth
  | cancelOrder (id : Option ℤ) : SameRequest (.cancelOrder id) (.cancelOrder id)
  | getOrder (id : Option ℤ) : SameRequest (.getOrder id) (.getOrder id)
  | listOrders (symbol status : Option Str) :
    SameRequest (.listOrders symbol status) (.listOrders symbol status)
  | getBook (symbol : Option Str) : SameRequest (.getBook symbol) (.getBook symbol)
  | listExecutions : SameRequest .listExecutions .listExecutions

/-- The same answer, up to what a client may see of a restart: the text of a not-found
error, and no book in the place of an empty one. -/
inductive SameResponse : ApiResponse → ApiResponse → Prop where
  | same (x : ApiResponse) : SameResponse x x
  | notFound (err err' : OemsError) (h : err = .bookNotFound ∨ err = .orderNotFound)
    (h' : err' = .bookNotFound ∨ err' = .orderNotFound) :
    SameResponse (.error 404 (errorName err)) (.error 404 (errorName err'))
  | emptyBook (symbol : Str) :
    SameResponse (.error 404 (errorName .bookNotFound)) (.book ⟨symbol, [], []⟩)
  | emptyBook' (symbol : Str) :
    SameResponse (.book ⟨symbol, [], []⟩) (.error 404 (errorName .bookNotFound))

def ServerTask.IsRequest : ServerTask → Prop
  | .request _ => True
  | .restart _ _ => False

instance : DecidablePred ServerTask.IsRequest
  | .request _ => isTrue trivial
  | .restart _ _ => isFalse id

inductive Makes : ServerTask → ApiRequest → Prop where
  | request (r r' : ApiRequest) (h : SameRequest r r') : Makes (.request r) r'

def Alike (answer : Option ApiResponse) (x : ApiResponse) : Prop :=
  ∃ x', answer = some x' ∧ SameResponse x' x

theorem toDto_eq {o o' : Order} (h : o.stripped = o'.stripped) : o.toDto = o'.toDto :=
  Order.stripped_field h Order.toDto fun _ => rfl

theorem SameResult.orderResponse {op : Op} {res res' : Result Order} (h : SameResult op res res') :
    SameResponse (OrdersController.orderResponse res) (OrdersController.orderResponse res') := by
  cases h with
  | ok _ o o' h =>
    rw [OrdersController.orderResponse, OrdersController.orderResponse, toDto_eq h]
    exact SameResponse.same _
  | error err => exact SameResponse.same _
  | notFound req err err' h h' =>
    have hnotFound : ∀ e : OemsError, e = .bookNotFound ∨ e = .orderNotFound →
        errorToStatus e = 404 := by
      rintro e (rfl | rfl) <;> rfl
    rw [OrdersController.orderResponse, OrdersController.orderResponse, hnotFound err h,
      hnotFound err' h']
    exact SameResponse.notFound err err' h h'

theorem submitOrder_toApi (check : RiskCheck) (m : OrderManager) {req : NewOrderRequest}
    {body : Option NewOrderRequestDto} (hbody : OrdersController.newOrderRequest body = .ok req) :
    (m.serve (.submitOrder check body)).1 = match (m.submitOrder check req).1 with
      | .error err => .error (errorToStatus err) (errorName err)
      | .ok order => .order 201 order.toDto := by
  rw [serve, OrdersController.submitOrder, hbody]
  dsimp only
  generalize m.submitOrder check req = r
  obtain ⟨err | order, m'⟩ := r <;> rfl

theorem Twin.symm {m m' : OrderManager} (h : Twin m m') : Twin m' m :=
  ⟨h.agrees', h.agrees, h.nextOrderId.symm, fun id => (h.orders id).symm, h.executions.symm⟩

theorem Agrees.nodup_allOrders {m : OrderManager} (h : Agrees m) : m.allOrders.Nodup := by
  apply Multiset.Nodup.map_on _ h.filed.nodup_tableOrders
  intro o ho o' ho' hdto
  have hid : (o.internalId : ℤ) = o'.internalId := congrArg OrderDto.internalId hdto
  have hlookup := h.filed.lookup ho
  rw [Nat.cast_inj.mp hid, h.filed.lookup ho'] at hlookup
  exact (Option.some.inj hlookup).symm

/-- The levels that are shown are those of the book, timestamps aside. -/
theorem priceLevels_toDto {side : Side} (levels : BookSide side) :
    (OrderBook.priceLevels levels).map PriceLevel.toDto =
      (levels.entries.map fun l => (l.1, l.2.map BookEntry.quote)).map fun l =>
        ⟨l.1, wrapInt64 (l.2.map Quote.qty).sum, l.2.length⟩ := by
  rw [OrderBook.priceLevels, List.map_map, List.map_map]
  apply List.map_congr_left
  intro l _
  simp only [Function.comp_apply, PriceLevel.toDto, List.map_map, List.length_map]
  rfl

section Twin

variable {m m' : OrderManager} (h : Twin m m')
include h

theorem Twin.mem_allOrders {dto : OrderDto} (hdto : dto ∈ m.allOrders) : dto ∈ m'.allOrders := by
  obtain ⟨o, ho, rfl⟩ := Multiset.mem_map.mp hdto
  obtain ⟨id, hid⟩ := mem_tableOrders.mp ho
  obtain ⟨o', ho', hsame⟩ := h.orders.lookup hid
  exact Multiset.mem_map.mpr ⟨o', mem_tableOrders.mpr ⟨id, ho'⟩, (toDto_eq hsame).symm⟩

theorem Twin.allOrders : m.allOrders = m'.allOrders := by
  apply (Multiset.Nodup.ext h.agrees.nodup_allOrders h.agrees'.nodup_allOrders).mpr
  exact fun dto => ⟨h.mem_allOrders, h.symm.mem_allOrders⟩

theorem Twin.listOrders (symbol status : Option Str) :
    OrdersController.listOrders m symbol status =
      OrdersController.listOrders m' symbol status := by
  by_cases hnamed : ∀ s ∈ OrdersController.given status, ∃ st, orderStatusName st = s
  · rw [listOrders_named hnamed, listOrders_named hnamed, h.allOrders]
  · push Not at hnamed
    obtain ⟨s, hs, hunknown⟩ := hnamed
    rw [listOrders_unknown hs hunknown, listOrders_unknown hs hunknown]

theorem Twin.getOrder (id : Option ℤ) :
    OrdersController.getOrder m id = OrdersController.getOrder m' id := by
  cases id with
  | none => rfl
  | some id =>
    rw [OrdersController.getOrder, OrdersController.getOrder, OrderManager.getOrder,
      OrderManager.getOrder]
    cases hlookup : m.orders.lookup (toOrderId id) with
    | none => rw [h.orders.lookup_none hlookup]
    | some o =>
      obtain ⟨o', ho', hsame⟩ := h.orders.lookup hlookup
      rw [ho']
      exact congrArg (ApiResponse.order 200) (toDto_eq hsame)

theorem Twin.listExecutions :
    ExecutionsController.listExecutions m = ExecutionsController.listExecutions m' := by
  have hdto : ∀ fs : List Fill, fs.map Fill.toDto = (fs.map Fill.trade).map fun t =>
      ⟨t.executionId, t.symbol.value, t.aggressiveOrderId, t.passiveOrderId,
        domainToDtoSide t.aggressiveSide, t.price, t.quantity⟩ := by
    intro fs
    rw [List.map_map]
    rfl
  rw [ExecutionsController.listExecutions, ExecutionsController.listExecutions, getAllExecutions,
    getAllExecutions, hdto, hdto, h.executions]

theorem Twin.bookLevels (s : Symbol) :
    (m.engine.bookOf s).bidLevels.map PriceLevel.toDto =
        (m'.engine.bookOf s).bidLevels.map PriceLevel.toDto ∧
      (m.engine.bookOf s).askLevels.map PriceLevel.toDto =
        (m'.engine.bookOf s).askLevels.map PriceLevel.toDto := by
  have hlive : liveOrders m.orders m.nextOrderId = liveOrders m'.orders m'.nextOrderId := by
    funext s
    rw [h.nextOrderId, h.orders.liveOrders]
  have hengine := h.agrees.engine
  rw [hlive] at hengine
  have hlevels := hengine.levels_eq h.agrees'.engine s
  have hbuy := hlevels .buy
  have hsell := hlevels .sell
  simp only [OrderBook.levels] at hbuy hsell
  rw [OrderBook.bidLevels, OrderBook.bidLevels, OrderBook.askLevels, OrderBook.askLevels,
    priceLevels_toDto, priceLevels_toDto, priceLevels_toDto, priceLevels_toDto, hbuy, hsell]
  exact ⟨rfl, rfl⟩

theorem Twin.getBook (symbol : Option Str) :
    SameResponse (BooksController.getBook m.engine symbol)
      (BooksController.getBook m'.engine symbol) := by
  cases symbol with
  | none => exact SameResponse.same _
  | some symbol =>
    by_cases hsymbol : symbol = []
    · rw [hsymbol]
      exact SameResponse.same _
    · obtain ⟨hbids, hasks⟩ := h.bookLevels ⟨symbol⟩
      obtain ⟨hres, hnew⟩ | hres := getBook_eq m.engine hsymbol
      · obtain ⟨hres', -⟩ | hres' := getBook_eq m'.engine hsymbol
        · rw [hres, hres']
          exact SameResponse.same _
        · -- a book that one of the two has and the other has not is empty
          rw [hnew] at hbids hasks
          rw [hres, hres', ← hbids, ← hasks]
          exact SameResponse.emptyBook symbol
      · obtain ⟨hres', hnew⟩ | hres' := getBook_eq m'.engine hsymbol
        · rw [hnew] at hbids hasks
          rw [hres, hres', hbids, hasks]
          exact SameResponse.emptyBook' symbol
        · rw [hres, hres', hbids, hasks]
          exact SameResponse.same _

end Twin

theorem Twin.submitRequest {m m' : OrderManager} (h : Twin m m') {check check' : RiskCheck}
    {body : Option NewOrderRequestDto} (hverdict : ∀ req,
      OrdersController.newOrderRequest body = .ok req → ∀ risk risk',
        (check risk (riskRequest req)).1 = (check' risk' (riskRequest req)).1) :
    SameResponse (m.serve (.submitOrder check body)).1 (m'.serve (.submitOrder check' body)).1 ∧
      Twin (m.serve (.submitOrder check body)).2 (m'.serve (.submitOrder check' body)).2 := by
  cases hbody : OrdersController.newOrderRequest body with
  | error message =>
    have hsame : ∀ (c : RiskCheck) (x : OrderManager),
        x.serve (.submitOrder c body) = (.error 400 message, x) := by
      intro c x
      rw [serve, OrdersController.submitOrder, hbody]
      rfl
    rw [hsame, hsame]
    exact ⟨SameResponse.same _, h⟩
  | ok req =>
    obtain ⟨hres, hend⟩ := h.submitOrder (hverdict req hbody)
    have hmanager : ∀ (c : RiskCheck) (x : OrderManager),
        (x.serve (.submitOrder c body)).2 = (x.submitOrder c req).2 := by
      intro c x
      rw [serve_manager, ApiRequest.op, hbody]
      rfl
    rw [hmanager, hmanager, submitOrder_toApi check m hbody, submitOrder_toApi check' m' hbody]
    refine ⟨?_, hend⟩
    generalize (m.submitOrder check req).1 = res at hres
    generalize (m'.submitOrder check' req).1 = res' at hres
    cases hres with
    | ok _ o o' hsame =>
      dsimp only
      rw [toDto_eq hsame]
      exact SameResponse.same _
    | error _ err => exact SameResponse.same _

/-- Servers in the same state answer the same request alike and stay in the same state. -/
theorem Twin.serve {m m' : OrderManager} (h : Twin m m') {r r' : ApiRequest}
    (hr : SameRequest r r') :
    SameResponse (m.serve r).1 (m'.serve r').1 ∧ Twin (m.serve r).2 (m'.serve r').2 := by
  cases hr with
  | submitOrder check check' body hverdict => exact h.submitRequest hverdict
  | getHealth => exact ⟨SameResponse.same _, h⟩
  | cancelOrder id =>
    cases id with
    | none => exact ⟨SameResponse.same _, h⟩
    | some id =>
      obtain ⟨hres, hend⟩ := h.cancelOrder ⟨toOrderId id⟩
      exact ⟨hres.orderResponse, hend⟩
  | getOrder id =>
    refine ⟨?_, h⟩
    rw [OrderManager.serve, OrderManager.serve, h.getOrder]
    exact SameResponse.same _
  | listOrders symbol status =>
    refine ⟨?_, h⟩
    rw [OrderManager.serve, OrderManager.serve, h.listOrders]
    exact SameResponse.same _
  | getBook symbol => exact ⟨h.getBook symbol, h⟩
  | listExecutions =>
    refine ⟨?_, h⟩
    rw [OrderManager.serve, OrderManager.serve, h.listExecutions]
    exact SameResponse.same _

def Shadows (s : Result OrderManager) (m' : OrderManager) : Prop :=
  ∃ m, s = .ok m ∧ Hosting m ∧ Twin m m'

theorem Shadows.restart {s : Result OrderManager} {m' : OrderManager} {task : ServerTask}
    (h : Shadows s m') (htask : ¬ task.IsRequest) : Shadows (host s task).2 m' := by
  obtain ⟨m, rfl, hm, htwin⟩ := h
  cases task with
  | request r => exact absurd trivial htask
  | restart risk clock =>
    obtain ⟨m'', hok, hsame, hm''⟩ := hm.restart risk clock
    refine ⟨m'', hok, hm'', hm''.agrees, htwin.agrees', ?_, ?_, ?_⟩
    · rw [hsame.nextOrderId, htwin.nextOrderId]
    · rw [hsame.orders]
      exact htwin.orders
    · rw [hsame.executions, htwin.executions]

theorem Shadows.request {s : Result OrderManager} {m' : OrderManager} {task : ServerTask}
    {r' : ApiRequest} (h : Shadows s m') (hmakes : Makes task r') :
    Alike (host s task).1 (m'.serve r').1 ∧ Shadows (host s task).2 (m'.serve r').2 := by
  obtain ⟨m, rfl, hm, htwin⟩ := h
  cases hmakes with
  | request r _ hr =>
    obtain ⟨hres, hend⟩ := htwin.serve hr
    exact ⟨⟨_, rfl, hres⟩, _, rfl, hm.serve r, hend⟩

/-- Restarts are transparent to clients: a server that is stopped and started again on its
database file, any number of times and between any requests, answers each request as one that
runs on does, given the same risk verdicts. What a client may notice is the text of a
not-found error and that an empty book is gone. -/
theorem api_restart_transparent (risk risk' : RiskManager) (clock clock' : ℕ → ℤ)
    {tasks : List ServerTask} (hplain : PlainTasks tasks) (requests : List ApiRequest)
    (h : List.Forall₂ Makes (tasks.filter fun task => task.IsRequest) requests) :
    List.Forall₂ Alike
      (Machine.outputsOf ServerTask.IsRequest tasks
        (Machine.run hostRows (.ok (boot risk clock)) tasks).1)
      (Machine.run OrderManager.serve (boot risk' clock') requests).1 := by
  rw [hplain.hostRows_eq]
  have hstart : Shadows (.ok (boot risk clock)) (boot risk' clock') := by
    have hm := Hosting.boot risk clock
    have hm' := Hosting.boot risk' clock'
    exact ⟨_, rfl, hm, hm.agrees, hm'.agrees, rfl, fun _ => rfl, rfl⟩
  exact (Machine.projection (p := ServerTask.IsRequest) (R := Shadows) (C := Makes) (O := Alike)
    (fun _ _ _ htask hs => hs.restart htask)
    (fun _ _ _ _ _ hmakes hs => hs.request hmakes) hstart h).1

def overnight : List ServerTask :=
  [.request (.submitOrder (fun risk _ => (.ok (), risk))
      (some ⟨none, some (str "AAPL"), some (str "buy"), some (str "limit"), some 100, some 5⟩)),
    .restart (RiskManager.new RiskLimits.default) fun _ => 0,
    .request (.listOrders none none)]

theorem overnight_transparent : List.Forall₂ Alike
    (Machine.outputsOf ServerTask.IsRequest overnight (Machine.run hostRows
      (.ok (boot (RiskManager.new RiskLimits.default) fun _ => 0)) overnight).1)
    (Machine.run OrderManager.serve (boot (RiskManager.new RiskLimits.default) fun _ => 0)
      [.submitOrder (fun risk _ => (.ok (), risk))
        (some ⟨none, some (str "AAPL"), some (str "buy"), some (str "limit"), some 100, some 5⟩),
        .listOrders none none]).1 :=
  api_restart_transparent _ _ _ _ ⟨by decide, by decide⟩ _
    (List.Forall₂.cons (Makes.request _ _ (SameRequest.submitOrder _ _ _ fun _ _ _ _ => rfl))
      (List.Forall₂.cons (Makes.request _ _ (SameRequest.listOrders none none))
        List.Forall₂.nil))

end Oems
