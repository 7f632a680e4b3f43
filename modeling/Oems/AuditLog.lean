import Oems.EventLog

namespace Oems

open Lib OrderManager

/-- Read the text of a fill event, `exec=<id> qty=<quantity>`. -/
def parseFill (detail : Str) : Option (ℕ × ℤ) :=
  let digits := (detail.drop 5).takeWhile Decimal.isDigit
  let rest := ((detail.drop 5).dropWhile Decimal.isDigit).drop 5
  if detail = str "exec=" ++ digits ++ str " qty=" ++ rest then
    (Decimal.toNat? digits).bind fun id => (Decimal.toInt? rest).map fun qty => (id, qty)
  else none

theorem parseFill_detail (fill : Fill) :
    parseFill fill.detail = some (fill.executionId, fill.quantity) := by
  have hdrop : fill.detail.drop 5 =
      Decimal.ofNat fill.executionId ++ (str " qty=" ++ Decimal.ofInt fill.quantity) := by
    rw [Fill.detail, List.append_assoc, List.append_assoc]
    rfl
  have hdigits : ∀ b ∈ Decimal.ofNat fill.executionId, Decimal.isDigit b = true :=
    fun b hb => Decimal.isDigit_of_mem_ofNat hb
  have htake : (fill.detail.drop 5).takeWhile Decimal.isDigit = Decimal.ofNat fill.executionId := by
    rw [hdrop, List.takeWhile_append_of_pos hdigits]
    exact List.append_nil _
  have hrest : ((fill.detail.drop 5).dropWhile Decimal.isDigit).drop 5 =
      Decimal.ofInt fill.quantity := by
    rw [hdrop, List.dropWhile_append_of_pos hdigits]
    rfl
  have hform : fill.detail = str "exec=" ++ Decimal.ofNat fill.executionId ++ str " qty=" ++
      Decimal.ofInt fill.quantity := rfl
  unfold parseFill
  rw [htake, hrest]
  simp only
  rw [if_pos hform, Decimal.toNat?_ofNat, Decimal.toInt?_ofInt]
  rfl

def fillQty (detail : Str) : ℤ := ((parseFill detail).map Prod.snd).getD 0

theorem fillQty_detail (fill : Fill) : fillQty fill.detail = fill.quantity := by
  rw [fillQty, parseFill_detail]
  rfl

/-- What an event makes of the status and the filled quantity of its order. -/
def replayEvent (r : OrderStatus × ℤ) (event : OrderEvent) : OrderStatus × ℤ :=
  match event.type with
  | .newRequested => (.pendingNew, 0)
  | .accepted => (.accepted, r.2)
  | .rejected => (.rejected, r.2)
  | .partialFill => (.partiallyFilled, r.2 + fillQty event.detail)
  | .fill => (.filled, r.2 + fillQty event.detail)
  | .cancelRequested => r
  | .cancelled => (.cancelled, r.2)

def replay (events : List OrderEvent) : OrderStatus × ℤ :=
  events.foldl replayEvent (.pendingNew, 0)

theorem replay_concat (events : List OrderEvent) (event : OrderEvent) :
    replay (events ++ [event]) = replayEvent (replay events) event :=
  List.foldl_concat ..

/-- A fill event gives the status that the remaining quantity calls for. -/
theorem replayEvent_fill (r : OrderStatus × ℤ) {event : OrderEvent} {remainingQty : ℤ} {fill : Fill}
    (ht : event.type = fillEvent remainingQty) (hd : event.detail = fill.detail) :
    replayEvent r event =
      (if remainingQty = 0 then .filled else .partiallyFilled, r.2 + fill.quantity) := by
  unfold replayEvent
  rw [ht, hd, fillQty_detail]
  unfold fillEvent
  split_ifs <;> rfl

/-- Replaying the events gives the stored order. -/
def Replays (o : Order) (events : List OrderEvent) : Prop := replay events = (o.status, o.filledQty)

/-- Replaying the events of an accepted order on its way through its fills. -/
def ReplaysRunning (o : Order) (events : List OrderEvent) : Prop :=
  replay events = (if o.filledQty = 0 then .accepted
    else if o.remainingQty = 0 then .filled else .partiallyFilled, o.filledQty)

theorem replays_logRule : LogRule Always Replays ReplaysRunning where
  rejected := by
    intro req id created updated e e' he he'
    simp [Replays, replay, replayEvent, he, he', newOrder]
  accepted := by
    intro req id created updated e e' _ he he'
    simp [ReplaysRunning, replay, replayEvent, he, he', newOrder]
  passive := by
    intro start m order fill passive events e now _ ht hd h
    unfold Replays
    rw [replay_concat, replayEvent_fill _ ht hd, h]
    rfl
  aggressor := by
    intro start m order fill passive events e hs ht hd h
    have hpos := hs.quantity_pos
    have hfilled := hs.running.filled_nonneg
    have hsome : ¬ order.filledQty + fill.quantity = 0 := by omega
    change _ = (if order.filledQty + fill.quantity = 0 then _
      else if order.remainingQty - fill.quantity = 0 then _ else _, order.filledQty + fill.quantity)
    rw [replay_concat, replayEvent_fill _ ht hd, h, if_neg hsome]
  leftover := by
    intro m check req risk m' order events e now _ _ _ _ hland hrem hmarket hnone he h
    change _ = (settledStatus order, order.filledQty)
    rw [settledStatus_accepted hland.running.status, if_neg hrem, if_neg hnone, if_pos hmarket,
      replay_concat, replayEvent, he, h]
  settled := by
    intro m req m' order events now hland hq hleft h
    have hledger := hland.running.ledger
    have hfilled := hland.running.filled_nonneg
    rw [hland.orderQty] at hledger
    change _ = (settledStatus order, order.filledQty)
    rw [h, settledStatus_accepted hland.running.status]
    by_cases hz : order.filledQty = 0
    · have hrem : order.remainingQty ≠ 0 := by omega
      have hnone : ¬ 0 < order.filledQty := by omega
      have htype : order.type ≠ .market := fun ht => hleft ⟨hrem, ht, hnone⟩
      rw [if_pos hz, if_neg hrem, if_neg hnone, if_neg htype]
    · have hsome : 0 < order.filledQty := by omega
      rw [if_neg hz, if_pos hsome]
  notResting := by
    intro m order events e _ _ _ _ _ he h
    unfold Replays
    rw [replay_concat, replayEvent, he]
    exact h
  withdrawn := by
    intro order events e e' now _ he he' h
    unfold Replays
    rw [List.append_cons, replay_concat, replay_concat, h, replayEvent, he', replayEvent, he]
    rfl

def naming (executionId : ℕ) (event : OrderEvent) : Option (ℕ × ℤ) :=
  if event.type = .fill ∨ event.type = .partialFill then
    (parseFill event.detail).bind fun p =>
      if p.1 = executionId then some (event.orderId, p.2) else none
  else none

def namings (events : List OrderEvent) (executionId : ℕ) : List (ℕ × ℤ) :=
  events.filterMap (naming executionId)

theorem naming_other {event : OrderEvent} (h : ¬ (event.type = .fill ∨ event.type = .partialFill))
    (executionId : ℕ) : naming executionId event = none :=
  if_neg h

theorem naming_fillEvent (executionId eventId id : ℕ) (remainingQty now : ℤ) (fill : Fill) :
    naming executionId ⟨eventId, id, fillEvent remainingQty, now, fill.detail⟩ =
      if fill.executionId = executionId then some (id, fill.quantity) else none := by
  have htype : fillEvent remainingQty = .fill ∨ fillEvent remainingQty = .partialFill := by
    unfold fillEvent
    split_ifs <;> simp
  rw [naming, if_pos htype, parseFill_detail]
  rfl

/-- Each execution is named by two fill events, the one of its passive and the
one of its aggressive order. -/
structure Named (events : List OrderEvent) (executions : List Fill) : Prop where
  twice : ∀ fill ∈ executions, namings events fill.executionId =
    [(fill.passiveOrderId, fill.quantity), (fill.aggressiveOrderId, fill.quantity)]
  numbered : ∀ fill ∈ executions, fill.executionId ≤ executions.length
  fresh : ∀ x, executions.length < x → namings events x = []

namespace Named

variable {events : List OrderEvent} {executions : List Fill}

theorem other (h : Named events executions) {new : List OrderEvent}
    (ht : ∀ event ∈ new, ¬ (event.type = .fill ∨ event.type = .partialFill)) :
    Named (events ++ new) executions := by
  have hsame : ∀ x, namings (events ++ new) x = namings events x := by
    intro x
    have hnil : new.filterMap (naming x) = [] := by
      rw [List.filterMap_eq_nil_iff]
      exact fun event he => naming_other (ht event he) x
    rw [namings, List.filterMap_append, hnil, List.append_nil]
    rfl
  constructor
  · intro fill hf
    rw [hsame]
    exact h.twice fill hf
  · exact h.numbered
  · intro x hx
    rw [hsame]
    exact h.fresh x hx

theorem fill (h : Named events executions) {fill : Fill}
    (hid : fill.executionId = executions.length + 1) (e e' : ℕ) (r r' now now' : ℤ) :
    Named (events ++ [⟨e, fill.passiveOrderId, fillEvent r, now, fill.detail⟩,
      ⟨e', fill.aggressiveOrderId, fillEvent r', now', fill.detail⟩]) (executions ++ [fill]) := by
  have hnamings : ∀ x, namings (events ++ [⟨e, fill.passiveOrderId, fillEvent r, now, fill.detail⟩,
      ⟨e', fill.aggressiveOrderId, fillEvent r', now', fill.detail⟩]) x =
        namings events x ++ if fill.executionId = x then
          [(fill.passiveOrderId, fill.quantity), (fill.aggressiveOrderId, fill.quantity)] else [] := by
    intro x
    rw [namings, List.filterMap_append, List.filterMap_cons, List.filterMap_cons, naming_fillEvent,
      naming_fillEvent]
    split_ifs <;> rfl
  constructor
  · intro f hf
    rw [hnamings]
    obtain hf | hf := List.mem_append.mp hf
    · have hle := h.numbered f hf
      rw [if_neg (by omega), List.append_nil]
      exact h.twice f hf
    · obtain rfl := List.mem_singleton.mp hf
      rw [if_pos rfl, h.fresh _ (by omega)]
      rfl
  · intro f hf
    rw [List.length_append, List.length_singleton]
    obtain hf | hf := List.mem_append.mp hf
    · exact Nat.le_succ_of_le (h.numbered f hf)
    · rw [List.mem_singleton.mp hf, hid]
  · intro x hx
    rw [List.length_append, List.length_singleton] at hx
    rw [hnamings, if_neg (by omega), List.append_nil]
    exact h.fresh x (by omega)

end Named

theorem named_applyFill {start order passive : Order} {m : OrderManager} {fill : Fill}
    (hs : FillStep start m order fill passive) (h : Named m.events m.executions) :
    Named (m.applyFill order fill).1.events (m.applyFill order fill).1.executions := by
  obtain ⟨now, now', hevents⟩ := applyFill_events order hs.lookup
  rw [hevents, applyFill_executions hs.lookup, hs.passive_id, ← hs.aggressive]
  exact h.fill hs.executionId _ _ _ _ _ _

theorem named_stepInvariant : StepInvariant Always fun m => Named m.events m.executions where
  rejected := by
    intro m _ req risk err _ h _ _
    obtain ⟨now, now', hevents⟩ := rejectByRisk_events { m with risk } req err
    rw [hevents, rejectByRisk_executions]
    exact Named.other h (by simp)
  placed := by
    intro m _ req risk ha h _ hv _
    obtain ⟨m', order, hplace, _, hq⟩ := (ha.withRisk risk).place_rule hv
      (Q := fun m' _ => Named m'.events m'.executions)
      (fun engine created updated => by
        obtain ⟨now, now', hevents⟩ := accepted_events { m with risk } req engine
        rw [hevents, accepted_executions]
        exact Named.other h (by simp))
      fun _ _ _ _ _ hs hq => named_applyFill hs hq
    rw [hplace, settle_events, settle_executions]
    unfold OrderManager.leftover
    split_ifs
    · exact hq.other (by simp)
    · exact hq
  notResting := fun m order _ h _ _ _ _ => h.other (by simp)
  withdrawn := by
    intro m order engine _ h _ _ _ _ _
    obtain ⟨now, now', hevents⟩ := withdraw_events m order engine
    rw [hevents, withdraw_executions]
    exact h.other (by simp)

/-- In every reachable state replaying the events of an order gives its stored
status and filled quantity, and each execution is named, with its quantity, by
one fill event of its passive and one of its aggressive order, and by no other. -/
theorem auditLog_replayable (risk : RiskManager) (db : Option Database) (clock : ℕ → ℤ)
    (ops : List Op) :
    let m := (OrderManager.new risk MatchingEngine.new db clock).run ops
    (∀ id o, m.orders.lookup id = some o →
      replay (m.getEvents o.internalId) = (o.status, o.filledQty)) ∧
    ∀ fill ∈ m.executions, namings m.events fill.executionId =
      [(fill.passiveOrderId, fill.quantity), (fill.aggressiveOrderId, fill.quantity)] := by
  intro m
  have hnew := Agrees.new risk db clock
  have h : Agrees m := hnew.run ops
  have hlog : Logged Replays m.orders m.events m.nextOrderId :=
    replays_logRule.stepInvariant.run_always hnew (logged_new _ risk db clock) ops
  have hnamed : Named m.events m.executions := by
    apply named_stepInvariant.run_always hnew
    constructor
    · intro fill hf
      simp [OrderManager.new] at hf
    · intro fill hf
      simp [OrderManager.new] at hf
    · exact fun _ _ => rfl
  refine ⟨fun id o ho => ?_, hnamed.twice⟩
  rw [(h.filed id o ho).1]
  exact hlog.related id o ho

end Oems
