import Oems.StoredTables

namespace Oems

open Lib OrderManager

/-- `n` has a database iff `m` has, and has written these statements since. -/
def Wrote (m n : OrderManager) (writes : List Statement) : Prop :=
  n.db = m.db.map fun d => { d with journal := d.journal ++ writes }

namespace Wrote

variable {m n : OrderManager} {writes : List Statement}

theorem nothing (h : n.db = m.db) : Wrote m n [] := by
  unfold Wrote
  rw [h]
  cases m.db with
  | none => rfl
  | some d => simp

theorem write (h : Wrote m n writes) (st : Statement) :
    Wrote m (n.write st) (writes ++ [st]) := by
  unfold Wrote at h ⊢
  rw [write_db, h, Option.map_map]
  cases m.db with
  | none => rfl
  | some d => simp [Database.exec]

theorem appendEvent (h : Wrote m n writes) (id : ℕ) (type : EventType) (detail : Str) :
    Wrote m (n.appendEvent id type detail)
      (writes ++ [.appendEvent ⟨n.nextEventId, id, type, n.now, detail⟩]) := by
  refine write (n := { n.tick with nextEventId := n.nextEventId + 1, events := _ }) ?_ _
  exact h

theorem exists_db (h : Wrote m n writes) {d : Database} (hd : m.db = some d) :
    n.db = some { d with journal := d.journal ++ writes } := by
  unfold Wrote at h
  rw [h, hd]
  rfl

end Wrote

/-- The writes of a submit up to the storing of its order: the event of the
request comes first, and only orders before `id` are stored. -/
structure Opened (id eventId : ℕ) (writes : List Statement) : Prop where
  head : ∃ event : OrderEvent, writes.head? = some (.appendEvent event) ∧ event.orderId = id ∧
    event.eventId = eventId
  saved : ∀ o, .saveOrder o ∈ writes → o.internalId < id

namespace Opened

variable {id eventId : ℕ} {writes : List Statement}

theorem concat (h : Opened id eventId writes) {st : Statement}
    (hst : ∀ o, st = .saveOrder o → o.internalId < id) : Opened id eventId (writes ++ [st]) where
  head := by
    obtain ⟨event, hhead, hevent⟩ := h.head
    refine ⟨event, ?_, hevent⟩
    rw [List.head?_append, hhead]
    rfl
  saved := by
    intro o ho
    obtain ho | ho := List.mem_append.mp ho
    · exact h.saved o ho
    · exact hst o (List.mem_singleton.mp ho).symm

theorem concat_event (h : Opened id eventId writes) (event : OrderEvent) :
    Opened id eventId (writes ++ [.appendEvent event]) :=
  h.concat fun _ ho => by cases ho

theorem take (h : Opened id eventId writes) {k : ℕ} (hk : 0 < k) :
    Opened id eventId (writes.take k) where
  head := by
    obtain ⟨event, hhead, hevent⟩ := h.head
    refine ⟨event, ?_, hevent⟩
    rw [List.head?_take, if_neg hk.ne', hhead]
  saved := fun o ho => h.saved o (List.mem_of_mem_take ho)

end Opened

/-- A submit that is under way has only made the writes that open it. -/
def Opening (m n : OrderManager) : Prop :=
  ∃ writes, Wrote m n writes ∧ Opened m.nextOrderId m.nextEventId writes

namespace Opening

variable {m n : OrderManager}

theorem appendEvent (h : Opening m n) (id : ℕ) (type : EventType) (detail : Str) :
    Opening m (n.appendEvent id type detail) := by
  obtain ⟨writes, hw, ho⟩ := h
  exact ⟨_, hw.appendEvent id type detail, ho.concat_event _⟩

theorem request (m : OrderManager) (req : NewOrderRequest) : Opening m (m.request req).2 := by
  have hw : Wrote m { m.tick with nextOrderId := m.nextOrderId + 1 } [] := Wrote.nothing rfl
  refine ⟨_, hw.appendEvent m.nextOrderId .newRequested req.clientOrderId, ⟨_, rfl, rfl, rfl⟩, ?_⟩
  intro o ho
  simp at ho

theorem accepted (m : OrderManager) (req : NewOrderRequest) (engine : MatchingEngine) :
    Opening m (m.accepted req engine) := by
  have hr : Opening m { (m.request req).2.tick with engine }.tick := request m req
  exact hr.appendEvent _ _ _

theorem applyFill {start order passive : Order} {fill : Fill} (h : Opening m n)
    (hs : FillStep start n order fill passive) (hid : order.internalId = m.nextOrderId) :
    Opening m (n.applyFill order fill).1 := by
  obtain ⟨writes, hw, ho⟩ := h
  have hsaved : passive.internalId < m.nextOrderId := by
    have hlt := hs.passive_lt
    rw [hs.passive_id]
    omega
  have hrecord : Opening m ({ n with executions := n.executions ++ [fill] }.write
      (.saveExecution fill)) :=
    ⟨_, Wrote.write (n := { n with executions := _ }) hw _, ho.concat fun _ hst => by cases hst⟩
  rw [applyFill_eq hs.lookup]
  apply appendEvent
  obtain ⟨writes', hw', ho'⟩ := appendEvent (n := ({ n with executions := n.executions ++ [fill]
    }.write (.saveExecution fill)).tick.setOrder fill.passiveOrderId (passiveAfter passive fill n.now))
    hrecord passive.internalId (fillEvent (passive.remainingQty - fill.quantity)) fill.detail
  refine ⟨_, hw'.write _, ho'.concat fun o hst => ?_⟩
  cases hst
  exact hsaved

theorem leftover (h : Opening m n) (order : Order) : Opening m (n.leftover order) := by
  unfold OrderManager.leftover
  split_ifs
  · exact h.appendEvent _ _ _
  · exact h

end Opening

/-- The writes of a submit: none, or those that open it and the order itself at the end. -/
def Submitted (m n : OrderManager) : Prop :=
  Wrote m n [] ∨ ∃ writes order, Wrote m n (writes ++ [.saveOrder order]) ∧
    Opened m.nextOrderId m.nextEventId writes

theorem Opening.saveOrder {m n : OrderManager} (h : Opening m n) (order : Order) :
    Submitted m (n.saveOrder order) := by
  obtain ⟨writes, hw, ho⟩ := h
  exact Or.inr ⟨writes, order, hw.write _, ho⟩

theorem Agrees.submitted {m : OrderManager} (h : Agrees m) (check : RiskCheck)
    (req : NewOrderRequest) : Submitted m (m.submitOrder check req).2 := by
  have hstep := submitStep check m req
  generalize m.submitOrder check req = r at hstep
  cases hstep with
  | invalid err _ => exact Or.inl (Wrote.nothing rfl)
  | refused risk err _ _ =>
    have hw : Wrote m ({ { m with risk }.tick.tick with nextOrderId := m.nextOrderId + 1 }.setOrder
      m.nextOrderId (newOrder req m.nextOrderId .rejected m.now m.tick.now)) [] := Wrote.nothing rfl
    have hopen : Opening m (OrderManager.appendEvent ({ { m with risk }.tick.tick with
        nextOrderId := m.nextOrderId + 1 }.setOrder m.nextOrderId (newOrder req m.nextOrderId
          .rejected m.now m.tick.now)) m.nextOrderId .newRequested req.clientOrderId) := by
      refine ⟨_, hw.appendEvent m.nextOrderId .newRequested req.clientOrderId, ⟨_, rfl, rfl, rfl⟩, ?_⟩
      intro o ho
      simp at ho
    exact (hopen.appendEvent _ _ _).saveOrder _
  | placed risk hv _ =>
    obtain ⟨n, order, hplace, hland, hopen, hid⟩ := (h.withRisk risk).place_rule hv
      (Q := fun n order => Opening { m with risk } n ∧ order.internalId = m.nextOrderId)
      (fun engine _ _ => ⟨Opening.accepted { m with risk } req engine, rfl⟩)
      fun _ _ _ _ _ hs hq => ⟨hq.1.applyFill hs hq.2, hq.2⟩
    rw [hplace, settle_eq]
    exact Opening.saveOrder (n := (n.leftover order).tick.setOrder _ _) (hopen.leftover order) _

theorem wrote_withdraw (m : OrderManager) (order : Order) (engine : MatchingEngine) :
    Wrote m (m.withdraw order engine).2
      [.appendEvent ⟨m.nextEventId, order.internalId, .cancelRequested, m.now, []⟩,
        .appendEvent ⟨m.nextEventId + 1, order.internalId, .cancelled, m.tick.tick.now, []⟩,
        .saveOrder (cancelledOrder order m.tick.now)] := by
  have hrequested := (Wrote.nothing (m := m) rfl).appendEvent order.internalId .cancelRequested []
  have hcancelled := Wrote.appendEvent (n := OrderManager.setOrder { (m.appendEvent
    order.internalId .cancelRequested []).tick with engine } order.internalId (cancelledOrder order
      m.tick.now)) hrequested order.internalId .cancelled []
  exact hcancelled.write _

theorem Agrees.wrote {m : OrderManager} (h : Agrees m) (op : Op) :
    ∃ writes, Wrote m (m.step op).2 writes := by
  cases op with
  | submit check req =>
    obtain hw | ⟨writes, order, hw, _⟩ := h.submitted check req
    · exact ⟨_, hw⟩
    · exact ⟨_, hw⟩
  | cancel req =>
    have hstep := h.cancelStep req
    change ∃ writes, Wrote m (m.cancelOrder req).2 writes
    generalize m.cancelOrder req = r at hstep
    cases hstep with
    | unknown _ => exact ⟨_, Wrote.nothing rfl⟩
    | closed order _ _ => exact ⟨_, Wrote.nothing rfl⟩
    | notResting order err _ _ _ _ => exact ⟨_, (Wrote.nothing rfl).appendEvent _ _ _⟩
    | done order engine _ _ _ _ _ _ _ => exact ⟨_, wrote_withdraw m order engine⟩

theorem Agrees.exists_db {m : OrderManager} (h : Agrees m) (hd : ∃ d, m.db = some d)
    (ops : List Op) : ∃ d, (m.run ops).db = some d :=
  (Machine.invariant (I := fun m => Agrees m ∧ ∃ d, m.db = some d) (fun m op ⟨ha, d, hd⟩ => by
    obtain ⟨writes, hw⟩ := ha.wrote op
    exact ⟨ha.step op, _, hw.exists_db hd⟩) ⟨h, hd⟩ ops).2

end Oems
