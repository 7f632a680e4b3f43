import Oems.BookAgreement

namespace Oems

open Lib OrderManager

/-- The state in which the fills of a request leave the manager and the order. -/
structure Landed (m : OrderManager) (req : NewOrderRequest) (m' : OrderManager) (order : Order) :
    Prop where
  terms : ∃ created updated,
    SameTerms (newOrder req m.nextOrderId .accepted created updated) order
  running : Running order order
  filed : Filed m'.orders m.nextOrderId
  kept : ∀ id o, m'.orders.lookup id = some o → Kept o
  nextOrderId : m'.nextOrderId = m.nextOrderId + 1
  next : m'.engine.nextExecutionId = m'.executions.length + 1
  remaining : order.remainingQty = ((m.flatBook req.symbol).sweep
    ⟨m.nextOrderId, req.side, req.type, req.price⟩ req.quantity).2.1

namespace Landed

variable {m m' : OrderManager} {req : NewOrderRequest} {order : Order}
  (h : Landed m req m' order)
include h

theorem internalId : order.internalId = m.nextOrderId := by
  obtain ⟨_, _, ht⟩ := h.terms
  exact ht.internalId

theorem type : order.type = req.type := by
  obtain ⟨_, _, ht⟩ := h.terms
  exact ht.type

theorem orderQty : order.orderQty = req.quantity := by
  obtain ⟨_, _, ht⟩ := h.terms
  exact ht.orderQty

theorem settled (hv : validate req = .ok ()) (now : ℤ) : Kept (settledOrder order now) := by
  obtain ⟨_, hp, _⟩ := validate_ok hv
  obtain ⟨_, _, ht⟩ := h.terms
  refine h.running.settled ?_ now
  rw [ht.type, ht.price]
  exact hp

theorem lookup_eq_none : m'.orders.lookup order.internalId = none := by
  rw [h.internalId]
  exact h.filed.lookup_bound

end Landed

/-- What a submit does from its first event to the storing of its order: `Q` is
to hold at the first fill and to be kept by each fill. -/
theorem Agrees.place_rule {m : OrderManager} (h : Agrees m) {req : NewOrderRequest}
    (hv : validate req = .ok ()) {Q : OrderManager → Order → Prop}
    (hstart : ∀ engine created updated,
      Q (m.accepted req engine) (newOrder req m.nextOrderId .accepted created updated))
    (hfill : ∀ start m' order fill passive, FillStep start m' order fill passive → Q m' order →
      Q (m'.applyFill order fill).1 (m'.applyFill order fill).2) :
    ∃ m' order, m.place req = (.ok (m'.settle order).1, (m'.settle order).2) ∧
      Landed m req m' order ∧ Q m' order := by
  have ht := h.takeoff hv
  obtain ⟨hsteps, hfly, hleft⟩ := h.land hv
  obtain ⟨engine, hm⟩ := ht.manager
  obtain ⟨created, updated, ho⟩ := ht.order
  have hq : Q (m.flightOf req).manager (m.flightOf req).order := by
    rw [hm, ho]
    exact hstart engine created updated
  have hkeep := hsteps.keeps (Q := Q) (fun m' order fill hstep hq => by
    obtain ⟨passive, hstep⟩ := hstep
    exact hfill _ _ _ _ _ hstep hq) hq
  refine ⟨(m.flightOf req).land.1, (m.flightOf req).land.2, ht.place, ?_, hkeep.2⟩
  rw [ho] at hfly
  have hrun := hfly.running
  refine ⟨⟨created, updated, hrun.terms⟩, ⟨SameTerms.refl _, hrun.status, hrun.ledger,
    hrun.filled_nonneg, hrun.remaining_nonneg⟩, hfly.filed, hfly.kept, hfly.nextOrderId, ?_, hleft⟩
  rw [hfly.engine, ht.next]
  exact hfly.next

/-- What the operations have to keep for a property to hold after every run
whose operations meet a condition. -/
structure StepInvariant (C : OrderManager → Op → Prop) (I : OrderManager → Prop) : Prop where
  rejected : ∀ m check req risk err, Agrees m → I m → C m (.submit check req) →
    validate req = .ok () → I ({ m with risk }.rejectByRisk req err)
  placed : ∀ m check req risk, Agrees m → I m → C m (.submit check req) → validate req = .ok () →
    check m.risk (riskRequest req) = (.ok (), risk) → I ({ m with risk }.place req).2
  notResting : ∀ m order, Agrees m → I m → C m (.cancel ⟨order.internalId⟩) →
    m.orders.lookup order.internalId = some order → order.status.live → order.type = .market →
      I (m.appendEvent order.internalId .cancelRequested [])
  withdrawn : ∀ m order engine, Agrees m → I m → C m (.cancel ⟨order.internalId⟩) →
    m.orders.lookup order.internalId = some order → order.status.live → order.type = .limit →
      engine.nextExecutionId = m.engine.nextExecutionId → I (m.withdraw order engine).2

def Always : OrderManager → Op → Prop := fun _ _ => True

section

variable {C : OrderManager → Op → Prop} {I : OrderManager → Prop} (hI : StepInvariant C I)
include hI

theorem StepInvariant.step {m : OrderManager} (h : Agrees m) (hm : I m) (op : Op) (hc : C m op) :
    I (m.step op).2 := by
  cases op with
  | submit check req =>
    have hstep := submitStep check m req
    change I (m.submitOrder check req).2
    generalize m.submitOrder check req = r at hstep
    cases hstep with
    | invalid err _ => exact hm
    | refused risk err hv _ => exact hI.rejected m check req risk err h hm hc hv
    | placed risk hv hok => exact hI.placed m check req risk h hm hc hv hok
  | cancel req =>
    have hstep := h.cancelStep req
    change I (m.cancelOrder req).2
    generalize m.cancelOrder req = r at hstep
    obtain ⟨id⟩ := req
    cases hstep with
    | unknown _ => exact hm
    | closed order _ _ => exact hm
    | notResting order err hl hs ht _ =>
      obtain rfl : order.internalId = id := (h.filed _ _ hl).1
      exact hI.notResting m order h hm hc hl hs ht
    | done order engine hl hid hs ht _ hn _ =>
      dsimp only at hl hid
      subst hid
      exact hI.withdrawn m order engine h hm hc hl hs ht hn

theorem StepInvariant.run {m : OrderManager} (h : Agrees m) (hm : I m) {ops : List Op}
    (hops : Machine.Along OrderManager.step C m ops) : I (m.run ops) :=
  (Machine.invariant_along (I := fun m => Agrees m ∧ I m)
    (fun _ op hc ⟨ha, hi⟩ => ⟨ha.step op, hI.step ha hi op hc⟩) ⟨h, hm⟩ hops).2

end

theorem StepInvariant.run_always {I : OrderManager → Prop} (hI : StepInvariant Always I)
    {m : OrderManager} (h : Agrees m) (hm : I m) (ops : List Op) : I (m.run ops) :=
  hI.run h hm (Machine.along_of_mem (fun _ _ _ => trivial) m)

theorem StepInvariant.and {C : OrderManager → Op → Prop} {I J : OrderManager → Prop}
    (hI : StepInvariant C I) (hJ : StepInvariant C J) : StepInvariant C fun m => I m ∧ J m where
  rejected := fun m check req risk err ha h hc hv =>
    ⟨hI.rejected m check req risk err ha h.1 hc hv, hJ.rejected m check req risk err ha h.2 hc hv⟩
  placed := fun m check req risk ha h hc hv hok =>
    ⟨hI.placed m check req risk ha h.1 hc hv hok, hJ.placed m check req risk ha h.2 hc hv hok⟩
  notResting := fun m order ha h hc hl hs ht =>
    ⟨hI.notResting m order ha h.1 hc hl hs ht, hJ.notResting m order ha h.2 hc hl hs ht⟩
  withdrawn := fun m order engine ha h hc hl hs ht hn =>
    ⟨hI.withdrawn m order engine ha h.1 hc hl hs ht hn,
      hJ.withdrawn m order engine ha h.2 hc hl hs ht hn⟩

/-- A property of the database, if there is one. -/
def DbHolds (P : Database → Prop) (m : OrderManager) : Prop := ∀ d, m.db = some d → P d

section DbHolds

variable {P P' P'' : Database → Prop} {m : OrderManager}

theorem DbHolds.write {st : Statement} (h : DbHolds P m) (hst : ∀ d, P d → P' (d.exec st)) :
    DbHolds P' (m.write st) := by
  intro d hd
  obtain ⟨d', hd', rfl⟩ := Option.map_eq_some_iff.mp hd
  exact hst d' (h d' hd')

theorem DbHolds.saveOrder {order : Order} (h : DbHolds P m)
    (hst : ∀ d, P d → P' (d.exec (.saveOrder order))) : DbHolds P' (m.saveOrder order) :=
  h.write hst

theorem DbHolds.appendEvent {id : ℕ} {type : EventType} {detail : Str} (h : DbHolds P m)
    (hst : ∀ d now, P d → P' (d.exec (.appendEvent ⟨m.nextEventId, id, type, now, detail⟩))) :
    DbHolds P' (m.appendEvent id type detail) := by
  have hm : DbHolds P { m.tick with
      nextEventId := m.nextEventId + 1
      events := m.events ++ [⟨m.nextEventId, id, type, m.now, detail⟩] } := h
  exact hm.write fun d hd => hst d m.now hd

end DbHolds

end Oems
