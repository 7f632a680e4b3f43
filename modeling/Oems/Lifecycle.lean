import Oems.RunInvariants

namespace Oems

open Lib OrderManager

/-- The statuses with which an order enters the table. -/
def OrderStatus.entering (status : OrderStatus) : Prop :=
  status = .accepted ∨ status = .partiallyFilled ∨ status = .filled ∨ status = .rejected

/-- The moves of the status of a stored order. -/
inductive StatusMove : OrderStatus → OrderStatus → Prop where
  | acceptedPartiallyFilled : StatusMove .accepted .partiallyFilled
  | acceptedFilled : StatusMove .accepted .filled
  | acceptedCancelled : StatusMove .accepted .cancelled
  | partiallyFilledAgain : StatusMove .partiallyFilled .partiallyFilled
  | partiallyFilledFilled : StatusMove .partiallyFilled .filled
  | partiallyFilledCancelled : StatusMove .partiallyFilled .cancelled

structure Move (o o' : Order) : Prop where
  status : StatusMove o.status o'.status
  terms : SameTerms o o'
  filled : o.filledQty ≤ o'.filledQty

theorem StatusMove.live {s s' : OrderStatus} (h : StatusMove s s') : s.live := by
  cases h with
  | acceptedPartiallyFilled => exact Or.inl rfl
  | acceptedFilled => exact Or.inl rfl
  | acceptedCancelled => exact Or.inl rfl
  | partiallyFilledAgain => exact Or.inr rfl
  | partiallyFilledFilled => exact Or.inr rfl
  | partiallyFilledCancelled => exact Or.inr rfl

theorem StatusMove.trans {s s' s'' : OrderStatus} (h : StatusMove s s') (h' : StatusMove s' s'') :
    StatusMove s s'' := by
  cases h <;> cases h' <;> constructor

theorem statusMove_cancelled {s : OrderStatus} (h : s.live) : StatusMove s .cancelled := by
  obtain h | h := h
  · rw [h]
    exact .acceptedCancelled
  · rw [h]
    exact .partiallyFilledCancelled

theorem Move.trans {o o' o'' : Order} (h : Move o o') (h' : Move o' o'') : Move o o'' :=
  ⟨h.status.trans h'.status, h.terms.trans h'.terms, h.filled.trans h'.filled⟩

theorem FillStep.move {start order passive : Order} {m : OrderManager} {fill : Fill}
    (h : FillStep start m order fill passive) (now : ℤ) :
    Move passive (passiveAfter passive fill now) := by
  have hpos := h.quantity_pos
  refine ⟨?_, sameTerms_passiveAfter passive fill now, ?_⟩
  · change StatusMove passive.status
      (if passive.remainingQty - fill.quantity = 0 then .filled else .partiallyFilled)
    obtain hl | hl := h.live
    · rw [hl]
      split_ifs <;> constructor
    · rw [hl]
      split_ifs <;> constructor
  · change passive.filledQty ≤ passive.filledQty + fill.quantity
    omega

theorem move_cancelledOrder {o : Order} (h : o.status.live) (now : ℤ) :
    Move o (cancelledOrder o now) :=
  ⟨statusMove_cancelled h, sameTerms_cancelledOrder o now, le_refl _⟩

theorem Running.entering {start order : Order} (h : Running start order) (now : ℤ) :
    (settledOrder order now).status.entering := by
  change (settledStatus order).entering
  rw [settledStatus_accepted h.status]
  unfold OrderStatus.entering
  split_ifs <;> simp

/-- Every order of a table is still there in a later one, as it was or moved on. -/
def Evolves (orders orders' : OrderMap) : Prop :=
  ∀ id o, orders.lookup id = some o →
    ∃ o', orders'.lookup id = some o' ∧ (o' = o ∨ Move o o')

namespace Evolves

variable {orders orders' orders'' : OrderMap}

theorem refl (orders : OrderMap) : Evolves orders orders := fun _ o ho => ⟨o, ho, Or.inl rfl⟩

theorem trans (h : Evolves orders orders') (h' : Evolves orders' orders'') :
    Evolves orders orders'' := by
  intro id o ho
  obtain ⟨o', ho', hmove⟩ := h id o ho
  obtain ⟨o'', ho'', hmove'⟩ := h' id o' ho'
  refine ⟨o'', ho'', ?_⟩
  obtain rfl | hmove := hmove
  · exact hmove'
  · obtain rfl | hmove' := hmove'
    · exact Or.inr hmove
    · exact Or.inr (hmove.trans hmove')

theorem insert_move {id : ℕ} {o o' : Order} (hl : orders.lookup id = some o) (hm : Move o o') :
    Evolves orders (orders.insert id o') := by
  refine exists_lookup_insert (R := fun o o' => o' = o ∨ Move o o') (fun _ => Or.inl rfl) ?_
  intro x hx
  obtain rfl : o = x := Option.some.inj (hl.symm.trans hx)
  exact Or.inr hm

theorem insert_new {id : ℕ} (o' : Order) (hl : orders.lookup id = none) :
    Evolves orders (orders.insert id o') := by
  refine exists_lookup_insert (R := fun o o' => o' = o ∨ Move o o') (fun _ => Or.inl rfl) ?_
  intro x hx
  simp [hl] at hx

end Evolves

/-- The orders of a later table come from the earlier one, or they have just entered. -/
def Entered (orders orders' : OrderMap) : Prop :=
  ∀ id o', orders.lookup id = none → orders'.lookup id = some o' → o'.status.entering

theorem entered_insert {orders orders' : OrderMap} {id : ℕ} {o : Order}
    (h : ∀ id, orders.lookup id = none → orders'.lookup id = none)
    (ho : orders.lookup id = none → o.status.entering) :
    Entered orders (orders'.insert id o) := by
  intro id' x hn hx
  by_cases he : id' = id
  · subst he
    rw [Finmap.lookup_insert] at hx
    cases hx
    exact ho hn
  · rw [Finmap.lookup_insert_of_ne _ he, h id' hn] at hx
    simp at hx

structure Turns (orders orders' : OrderMap) : Prop where
  evolves : Evolves orders orders'
  entered : Entered orders orders'

theorem Agrees.place_turns {m : OrderManager} (h : Agrees m) {req : NewOrderRequest}
    (hv : validate req = .ok ()) : Turns m.orders (m.place req).2.orders := by
  obtain ⟨m', order, hplace, hland, hq, hnone⟩ := h.place_rule hv
    (Q := fun m' _ => Evolves m.orders m'.orders ∧
      ∀ id, m.orders.lookup id = none → m'.orders.lookup id = none)
    (fun _ _ _ => ⟨Evolves.refl _, fun _ hn => hn⟩)
    (fun start m' order fill passive hs hq => by
      obtain ⟨hq, hnone⟩ := hq
      rw [applyFill_orders hs.lookup]
      refine ⟨hq.trans (Evolves.insert_move hs.lookup (hs.move _)), fun id hn => ?_⟩
      have hne : id ≠ fill.passiveOrderId := by
        rintro rfl
        exact absurd hs.lookup (by simp [hnone _ hn])
      rw [Finmap.lookup_insert_of_ne _ hne]
      exact hnone id hn)
  rw [hplace, settle_orders]
  constructor
  · exact hq.trans (Evolves.insert_new _ hland.lookup_eq_none)
  · exact entered_insert hnone fun _ => hland.running.entering _

theorem Agrees.turns {m : OrderManager} (h : Agrees m) (op : Op) :
    Turns m.orders (m.step op).2.orders := by
  have hsame : Turns m.orders m.orders :=
    ⟨Evolves.refl _, fun id o hn ho => by simp [hn] at ho⟩
  cases op with
  | submit check req =>
    have hstep := submitStep check m req
    change Turns m.orders (m.submitOrder check req).2.orders
    generalize m.submitOrder check req = r at hstep
    cases hstep with
    | invalid err _ => exact hsame
    | refused risk err _ _ =>
      rw [rejectByRisk_orders]
      constructor
      · exact Evolves.insert_new _ h.filed.lookup_bound
      · exact entered_insert (fun _ hn => hn) fun _ => Or.inr (Or.inr (Or.inr rfl))
    | placed risk hv _ => exact (h.withRisk risk).place_turns hv
  | cancel req =>
    have hstep := h.cancelStep req
    change Turns m.orders (m.cancelOrder req).2.orders
    generalize m.cancelOrder req = r at hstep
    cases hstep with
    | unknown _ => exact hsame
    | closed order _ _ => exact hsame
    | notResting order err _ _ _ _ => exact hsame
    | done order engine hl hid hs _ _ _ _ =>
      rw [← hid] at hl
      change Turns m.orders (m.orders.insert order.internalId (cancelledOrder order _))
      constructor
      · exact Evolves.insert_move hl (move_cancelledOrder hs _)
      · exact entered_insert (fun _ hn => hn) fun hn => by simp [hl] at hn

theorem Agrees.evolves {m : OrderManager} (h : Agrees m) (ops : List Op) :
    Evolves m.orders (m.run ops).orders := by
  induction ops generalizing m with
  | nil => exact Evolves.refl _
  | cons op ops ih => exact (h.turns op).evolves.trans (ih (h.step op))

def snapshots (id : ℕ) (journal : List Statement) : List Order :=
  journal.filterMap fun
    | .saveOrder order => if order.internalId = id then some order else none
    | _ => none

/-- The snapshots of each order form a chain of moves that starts with an
entering status and ends with the order of the table. -/
structure Chained (journal : List Statement) (orders : OrderMap) : Prop where
  chain : ∀ id, (snapshots id journal).IsChain Move
  head : ∀ id, ∀ o ∈ (snapshots id journal).head?, o.status.entering
  last : ∀ id, (snapshots id journal).getLast? = orders.lookup id

namespace Chained

variable {journal : List Statement} {orders : OrderMap}

theorem other (h : Chained journal orders) {st : Statement} (hst : ∀ o, st ≠ .saveOrder o) :
    Chained (journal ++ [st]) orders := by
  have hsame : ∀ id, snapshots id (journal ++ [st]) = snapshots id journal := by
    intro id
    rw [snapshots, List.filterMap_append]
    cases st with
    | saveOrder o => exact absurd rfl (hst o)
    | appendEvent event => exact List.append_nil _
    | saveExecution fill => exact List.append_nil _
  constructor
  · intro id
    rw [hsame]
    exact h.chain id
  · intro id
    rw [hsame]
    exact h.head id
  · intro id
    rw [hsame]
    exact h.last id

theorem save (h : Chained journal orders) {o : Order}
    (hmove : ∀ o', orders.lookup o.internalId = some o' → Move o' o)
    (henter : orders.lookup o.internalId = none → o.status.entering) :
    Chained (journal ++ [.saveOrder o]) (orders.insert o.internalId o) := by
  have hself : snapshots o.internalId (journal ++ [.saveOrder o]) =
      snapshots o.internalId journal ++ [o] := by
    rw [snapshots, List.filterMap_append]
    simp [snapshots]
  have hother : ∀ id, id ≠ o.internalId →
      snapshots id (journal ++ [.saveOrder o]) = snapshots id journal := by
    intro id hne
    rw [snapshots, List.filterMap_append]
    simp [snapshots, Ne.symm hne]
  have hlast := h.last o.internalId
  constructor
  · intro id
    by_cases he : id = o.internalId
    · subst he
      rw [hself, List.isChain_append]
      refine ⟨h.chain _, List.isChain_singleton _, fun x hx y hy => ?_⟩
      obtain rfl : o = y := by simpa using hy
      rw [hlast] at hx
      exact hmove x hx
    · rw [hother id he]
      exact h.chain id
  · intro id
    by_cases he : id = o.internalId
    · subst he
      rw [hself]
      intro x hx
      cases hs : snapshots o.internalId journal with
      | nil =>
        rw [hs] at hlast hx
        obtain rfl : o = x := by simpa using hx
        exact henter hlast.symm
      | cons y l =>
        rw [hs] at hx
        apply h.head o.internalId
        rw [hs]
        exact hx
    · rw [hother id he]
      exact h.head id
  · intro id
    by_cases he : id = o.internalId
    · subst he
      rw [hself, Finmap.lookup_insert, List.getLast?_concat]
    · rw [hother id he, Finmap.lookup_insert_of_ne _ he]
      exact h.last id

end Chained

abbrev ChainedIn (orders : OrderMap) : OrderManager → Prop :=
  DbHolds fun d => Chained d.journal orders

namespace ChainedIn

variable {orders : OrderMap} {m : OrderManager}

theorem appendEvent (h : ChainedIn orders m) (id : ℕ) (type : EventType) (detail : Str) :
    ChainedIn orders (m.appendEvent id type detail) :=
  DbHolds.appendEvent h fun _ _ hd => hd.other (by simp)

theorem saveOrder (h : ChainedIn orders m) {o : Order}
    (hmove : ∀ o', orders.lookup o.internalId = some o' → Move o' o)
    (henter : orders.lookup o.internalId = none → o.status.entering) :
    ChainedIn (orders.insert o.internalId o) (m.saveOrder o) :=
  DbHolds.saveOrder h fun _ hd => hd.save hmove henter

theorem saveNew (h : ChainedIn orders m) {id : ℕ} {o : Order} (hid : o.internalId = id)
    (hl : orders.lookup id = none) (henter : o.status.entering) :
    ChainedIn (orders.insert id o) (m.saveOrder o) := by
  subst hid
  exact h.saveOrder (fun o' ho' => by simp [hl] at ho') fun _ => henter

theorem saveMove (h : ChainedIn orders m) {id : ℕ} {o o' : Order} (hid : o'.internalId = id)
    (hl : orders.lookup id = some o) (hm : Move o o') :
    ChainedIn (orders.insert id o') (m.saveOrder o') := by
  subst hid
  refine h.saveOrder (fun x hx => ?_) fun hn => by simp [hl] at hn
  obtain rfl : o = x := Option.some.inj (hl.symm.trans hx)
  exact hm

theorem applyFill {start order passive : Order} {fill : Fill}
    (hs : FillStep start m order fill passive) (h : ChainedIn m.orders m) :
    ChainedIn (m.applyFill order fill).1.orders (m.applyFill order fill).1 := by
  have hrecord : ChainedIn m.orders
      ({ m with executions := m.executions ++ [fill] }.write (.saveExecution fill)) :=
    DbHolds.write h fun _ hd => hd.other (by simp)
  rw [applyFill_orders hs.lookup, applyFill_eq hs.lookup]
  apply appendEvent
  refine saveMove ?_ hs.passive_id hs.lookup (hs.move _)
  apply appendEvent
  exact hrecord

end ChainedIn

theorem chained_stepInvariant : StepInvariant Always fun m => ChainedIn m.orders m where
  rejected := by
    intro m _ req risk err ha h _ _
    rw [rejectByRisk_orders]
    unfold OrderManager.rejectByRisk
    refine ChainedIn.saveNew ?_ rfl ha.filed.lookup_bound (Or.inr (Or.inr (Or.inr rfl)))
    apply ChainedIn.appendEvent
    apply ChainedIn.appendEvent
    exact h
  placed := by
    intro m _ req risk ha h _ hv _
    obtain ⟨m', order, hplace, hland, hq⟩ := (ha.withRisk risk).place_rule hv
      (Q := fun m' _ => ChainedIn m'.orders m')
      (fun engine created updated => by
        have hrequest : ChainedIn m.orders ({ m with risk }.request req).2 :=
          ChainedIn.appendEvent (m := { { m with risk }.tick with nextOrderId := m.nextOrderId + 1 })
            h _ _ _
        exact ChainedIn.appendEvent (m := { ({ m with risk }.request req).2.tick with engine }.tick)
          hrequest _ _ _)
      fun start m' order fill passive hs hq => ChainedIn.applyFill hs hq
    rw [hplace, settle_orders, settle_eq]
    refine ChainedIn.saveNew ?_ rfl hland.lookup_eq_none (hland.running.entering _)
    unfold OrderManager.leftover
    split_ifs
    · exact ChainedIn.appendEvent hq _ _ _
    · exact hq
  notResting := fun m order _ h _ _ _ _ => ChainedIn.appendEvent h _ _ _
  withdrawn := by
    intro m order engine _ h _ hl hs _ _
    change ChainedIn (m.orders.insert order.internalId
      (cancelledOrder order (m.appendEvent order.internalId .cancelRequested []).now)) _
    unfold OrderManager.withdraw
    refine ChainedIn.saveMove ?_ rfl hl (move_cancelledOrder hs _)
    apply ChainedIn.appendEvent
    exact ChainedIn.appendEvent h _ _ _

structure StatusFacts (o : Order) : Prop where
  filled : o.status = .filled ↔ o.remainingQty = 0
  partiallyFilled : o.status = .partiallyFilled → 0 < o.filledQty ∧ o.filledQty < o.orderQty
  untouched : o.status = .accepted ∨ o.status = .rejected → o.filledQty = 0

theorem Kept.statusFacts {o : Order} (h : Kept o) : StatusFacts o where
  filled := h.filled_iff
  partiallyFilled := by
    intro hs
    have hledger := h.ledger
    have hrem := h.remaining_pos (Or.inr hs)
    exact ⟨h.partly hs, by omega⟩
  untouched := h.untouched

/-- In every run the snapshots of an order, both the ones written to a database
and the ones in memory from call to call, follow the moves of the status. The
terms of an order stay, its filled quantity never falls, and once filled,
cancelled or rejected it stays as it is. -/
theorem order_lifecycle (risk : RiskManager) (stored : Option Tables) (clock : ℕ → ℤ)
    (ops : List Op) :
    let m := (OrderManager.new risk MatchingEngine.new (stored.map fun t => ⟨t, []⟩) clock).run ops
    (∀ d, m.db = some d → ∀ id, (snapshots id d.journal).IsChain Move ∧
      (∀ o ∈ (snapshots id d.journal).head?, o.status.entering) ∧
      (snapshots id d.journal).getLast? = m.orders.lookup id) ∧
    (∀ op, Turns m.orders (m.step op).2.orders) ∧
    (∀ later id o, m.orders.lookup id = some o → ∃ o', (m.run later).orders.lookup id = some o' ∧
      SameTerms o o' ∧ o.filledQty ≤ o'.filledQty ∧
      (o.status = .filled ∨ o.status = .cancelled ∨ o.status = .rejected → o' = o)) ∧
    ∀ id o, m.orders.lookup id = some o → StatusFacts o := by
  intro m
  have hnew := Agrees.new risk (stored.map fun t => ⟨t, []⟩) clock
  have h : Agrees m := hnew.run ops
  have hstart : ChainedIn ∅ (OrderManager.new risk MatchingEngine.new
      (stored.map fun t => ⟨t, []⟩) clock) := by
    intro d hd
    obtain ⟨t, _, rfl⟩ := Option.map_eq_some_iff.mp hd
    exact ⟨fun _ => List.IsChain.nil, fun _ _ ho => by simp [snapshots] at ho, fun _ => rfl⟩
  have hchain : ChainedIn m.orders m := chained_stepInvariant.run_always hnew hstart ops
  refine ⟨fun d hd id => ?_, fun op => h.turns op, fun later id o ho => ?_, fun id o ho => ?_⟩
  · have hd := hchain d hd
    exact ⟨hd.chain id, hd.head id, hd.last id⟩
  · obtain ⟨o', ho', hmove⟩ := h.evolves later id o ho
    refine ⟨o', ho', ?_⟩
    obtain rfl | hmove := hmove
    · exact ⟨SameTerms.refl _, le_refl _, fun _ => rfl⟩
    · refine ⟨hmove.terms, hmove.filled, fun hs => ?_⟩
      exact absurd hmove.status.live ((h.kept id o ho).closed_iff.mp hs)
  · exact (h.kept id o ho).statusFacts

end Oems
