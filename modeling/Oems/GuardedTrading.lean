import Oems.MarketData
import Oems.Lifecycle
import Oems.SubmitFootprint
import Oems.RiskSpec

namespace Oems

open Lib OrderManager

/-- The order manager and the market data handler over the one risk manager that both
refer to. -/
structure Desk where
  manager : OrderManager
  snapshots : Finmap fun _ : Str => MarketSnapshot

namespace Desk

inductive Event where
  | submit (now : ℤ) (req : NewOrderRequest)
  | cancel (req : CancelOrderRequest)
  | market (u : MarketUpdate)
  | setLimits (limits : RiskLimits)
  | setReferencePrice (symbol : Symbol) (price : ℤ)
  | setSymbolConfig (symbol : Symbol) (config : SymbolConfig)

def new (risk : RiskManager) (db : Option Database) (clock : ℕ → ℤ) : Desk :=
  ⟨OrderManager.new risk MatchingEngine.new db clock, ∅⟩

def marketData (d : Desk) : MarketDataHandler := ⟨d.manager.risk, d.snapshots⟩

def withRisk (d : Desk) (risk : RiskManager) : Desk := { d with manager := { d.manager with risk } }

def step (d : Desk) : Event → Option Desk
  | .submit now req =>
    some { d with manager := (d.manager.submitOrder (RiskCheck.at now) req).2 }
  | .cancel req => some { d with manager := (d.manager.cancelOrder req).2 }
  | .market u =>
    (d.marketData.step u).map fun h => { d.withRisk h.risk with snapshots := h.snapshots }
  | .setLimits limits => some (d.withRisk (d.manager.risk.setLimits limits))
  | .setReferencePrice symbol price =>
    some (d.withRisk (d.manager.risk.setReferencePrice symbol price))
  | .setSymbolConfig symbol config =>
    some (d.withRisk (d.manager.risk.setSymbolConfig symbol config))

/-- A run has no result when one of its market updates has none. -/
def run (d : Desk) (events : List Event) : Option Desk := events.foldlM step d

theorem run_concat (d : Desk) (events : List Event) (e : Event) :
    d.run (events ++ [e]) = (d.run events).bind fun d' => d'.step e := by
  rw [run, List.foldlM_append, run]
  cases events.foldlM step d with
  | none => rfl
  | some d' =>
    change (step d' e).bind some = step d' e
    exact Option.bind_fun_some _

namespace Event

def limits : Event → Option RiskLimits
  | .setLimits limits => some limits
  | _ => none

def referenceOf (s : Symbol) : Event → Option ℤ
  | .market u => MarketUpdate.priceOf s u
  | .setReferencePrice symbol price => if symbol = s then some price else none
  | _ => none

def configOf (s : Symbol) : Event → Option SymbolConfig
  | .setSymbolConfig symbol config => if symbol = s then some { config with symbol } else none
  | _ => none

def Files : Event → Prop
  | .submit _ req => validate req = .ok ()
  | _ => False

instance : DecidablePred Files
  | .submit _ req => inferInstanceAs (Decidable (validate req = .ok ()))
  | .cancel _ | .market _ | .setLimits _ | .setReferencePrice .. | .setSymbolConfig .. =>
    inferInstanceAs (Decidable False)

end Event

/-- The gate goes by the limits, the reference prices and the instruments that were set
last. -/
structure InForce (risk : RiskManager) (events : List Event) (r : RiskManager) : Prop where
  limits : r.limits = (latest Event.limits events).getD risk.limits
  reference : ∀ s, r.getReferencePrice s =
    (latest (Event.referenceOf s) events).or (risk.getReferencePrice s)
  config : ∀ s, r.getSymbolConfig s =
    (latest (Event.configOf s) events).or (risk.getSymbolConfig s)

structure Sets (e : Event) (r r' : RiskManager) : Prop where
  limits : r'.limits = e.limits.getD r.limits
  reference : ∀ s, r'.getReferencePrice s = (e.referenceOf s).or (r.getReferencePrice s)
  config : ∀ s, r'.getSymbolConfig s = (e.configOf s).or (r.getSymbolConfig s)

theorem InForce.concat {risk r r' : RiskManager} {events : List Event} {e : Event}
    (h : InForce risk events r) (he : Sets e r r') : InForce risk (events ++ [e]) r' where
  limits := by
    rw [he.limits, h.limits, latest_concat]
    cases e.limits <;> rfl
  reference := fun s => by rw [he.reference, h.reference, latest_concat, Option.or_assoc]
  config := fun s => by rw [he.config, h.config, latest_concat, Option.or_assoc]

theorem Sets.check (now : ℤ) (req : NewOrderRequest) (r : RiskManager) (rreq : RiskRequest) :
    Sets (.submit now req) r (r.check now rreq).2 := by
  obtain ⟨_, -, hcheck⟩ | ⟨-, -, hcheck⟩ | ⟨-, -, hcheck⟩ := r.check_cases now rreq
  · rw [hcheck]
    exact ⟨rfl, fun _ => rfl, fun _ => rfl⟩
  · rw [hcheck]
    exact ⟨rfl, fun _ => rfl, fun _ => rfl⟩
  · rw [hcheck]
    exact ⟨rfl, fun _ => rfl, fun _ => rfl⟩

theorem Sets.setReferencePrice (symbol : Symbol) (price : ℤ) (r : RiskManager) :
    Sets (.setReferencePrice symbol price) r (r.setReferencePrice symbol price) where
  limits := rfl
  reference := by
    intro s
    rw [Event.referenceOf]
    by_cases hs : symbol = s
    · rw [if_pos hs, ← hs]
      exact Finmap.lookup_insert _
    · have hne : s.value ≠ symbol.value := fun hv => hs (congrArg Symbol.mk hv.symm)
      rw [if_neg hs]
      exact Finmap.lookup_insert_of_ne _ hne
  config := fun _ => rfl

theorem Sets.setSymbolConfig (symbol : Symbol) (config : SymbolConfig) (r : RiskManager) :
    Sets (.setSymbolConfig symbol config) r (r.setSymbolConfig symbol config) where
  limits := rfl
  reference := fun _ => rfl
  config := by
    intro s
    rw [Event.configOf]
    by_cases hs : symbol = s
    · rw [if_pos hs, ← hs]
      exact Finmap.lookup_insert _
    · have hne : s.value ≠ symbol.value := fun hv => hs (congrArg Symbol.mk hv.symm)
      rw [if_neg hs]
      exact Finmap.lookup_insert_of_ne _ hne

theorem Sets.market {u : MarketUpdate} (h : MarketDataHandler) :
    Sets (.market u) h.risk (h.takes u).risk where
  limits := by
    rw [MarketDataHandler.takes]
    cases u.price <;> rfl
  reference := h.takes_reference u
  config := by
    intro s
    rw [MarketDataHandler.takes]
    cases u.price <;> rfl

end Desk

section Risk

variable (m : OrderManager)

theorem fillPassive_risk (fill : Fill) : (m.fillPassive fill).risk = m.risk := by
  rw [OrderManager.fillPassive]
  cases m.orders.lookup fill.passiveOrderId <;> rfl

theorem applyFills_risk (order : Order) (fills : List Fill) :
    (m.applyFills order fills).1.risk = m.risk := by
  induction fills generalizing m order with
  | nil => rfl
  | cons fill fills ih =>
    rw [OrderManager.applyFills, ih]
    exact fillPassive_risk ({ m with executions := m.executions ++ [fill] }.write
      (.saveExecution fill)) fill

theorem settle_risk (order : Order) : (m.settle order).2.risk = m.risk := by
  rw [settle_eq]
  change (m.leftover order).risk = m.risk
  rw [OrderManager.leftover]
  split_ifs <;> rfl

theorem place_risk (req : NewOrderRequest) : (m.place req).2.risk = m.risk := by
  rw [OrderManager.place]
  dsimp only
  cases (m.request req).2.engine.addOrder req.symbol (m.request req).1.internalId req.side req.type
      req.price req.quantity (m.request req).2.now with
  | mk res engine =>
    cases res with
    | error err => rfl
    | ok result =>
      dsimp only
      rw [settle_risk, applyFills_risk]
      rfl

theorem cancelOrder_risk (req : CancelOrderRequest) : (m.cancelOrder req).2.risk = m.risk := by
  rw [OrderManager.cancelOrder]
  cases m.orders.lookup req.orderId with
  | none => rfl
  | some order =>
    dsimp only
    split_ifs with hclosed
    · rfl
    · cases (m.appendEvent order.internalId .cancelRequested []).engine.cancelOrder order.symbol
          order.internalId with
      | mk res engine => cases res <;> rfl

end Risk

namespace Desk

/-- The gate, as it stands at a moment, lets a request through. -/
structure Admits (r : RiskManager) (now : ℤ) (req : NewOrderRequest) : Prop where
  rules : ∀ rule ∈ RiskRule.all, rule.Holds r (riskRequest req)
  room : r.HasRoom now

open Classical in
theorem admits_iff {r : RiskManager} {now : ℤ} {req : NewOrderRequest} :
    Admits r now req ↔ (r.check now (riskRequest req)).1 = .ok () := by
  have hrules : r.checkRules (riskRequest req) = .ok () ↔
      ∀ rule ∈ RiskRule.all, rule.Holds r (riskRequest req) := by
    rw [RiskManager.checkRules_eq]
    exact Checks.firstError_eq_ok_iff
  obtain ⟨err, hfails, hcheck⟩ | ⟨hok, hfull, hcheck⟩ | ⟨hok, hroom, hcheck⟩ :=
    r.check_cases now (riskRequest req)
  · rw [hcheck]
    apply iff_of_false
    · intro h
      rw [hrules.mpr h.rules] at hfails
      cases hfails
    · intro h
      cases h
  · rw [hcheck]
    apply iff_of_false
    · exact fun h => hfull h.room
    · intro h
      cases h
  · rw [hcheck]
    exact iff_of_true ⟨hrules.mp hok, hroom⟩ rfl

/-- What becomes of a request: an order on its terms, which trades only if the gate let the
request through, and which is refused, if it has a price, only if the gate did not. -/
structure Verdict (r : RiskManager) (now : ℤ) (req : NewOrderRequest) (id : ℕ) (o : Order) :
    Prop where
  terms : ∃ t, SameTerms (newOrder req id .pendingNew t t) o
  admitted : o.status ≠ .rejected → Admits r now req
  limit : req.type = .limit → Admits r now req → o.status ≠ .rejected

theorem Verdict.move {r : RiskManager} {now : ℤ} {req : NewOrderRequest} {id : ℕ} {o o' : Order}
    (h : Verdict r now req id o) (hmove : o' = o ∨ Move o o') : Verdict r now req id o' := by
  obtain rfl | hmove := hmove
  · exact h
  · have hkept : o.status ≠ .rejected ∧ o'.status ≠ .rejected := by
      obtain ⟨hstatus, -, -⟩ := hmove
      generalize o.status = before at hstatus
      generalize o'.status = after at hstatus
      cases hstatus <;> decide
    obtain ⟨t, hterms⟩ := h.terms
    exact ⟨⟨t, hterms.trans hmove.terms⟩, fun _ => h.admitted hkept.1, fun _ _ => hkept.2⟩

theorem Verdict.refused {m : OrderManager} {now : ℤ} {req : NewOrderRequest} {err : OemsError}
    {risk : RiskManager} (hcheck : m.risk.check now (riskRequest req) = (.error err, risk)) :
    ∃ o, ({ m with risk }.rejectByRisk req err).orders.lookup m.nextOrderId = some o ∧
      Verdict m.risk now req m.nextOrderId o := by
  rw [rejectByRisk_orders]
  refine ⟨_, Finmap.lookup_insert _, ⟨m.now, rfl, rfl, rfl, rfl, rfl, rfl, rfl, rfl⟩,
    fun h => absurd rfl h, fun _ h => ?_⟩
  rw [admits_iff, hcheck] at h
  cases h

theorem Verdict.placed {m : OrderManager} (hm : Agrees m) {now : ℤ} {req : NewOrderRequest}
    {risk : RiskManager} (hv : validate req = .ok ())
    (hcheck : m.risk.check now (riskRequest req) = (.ok (), risk)) :
    ∃ o, ({ m with risk }.place req).2.orders.lookup m.nextOrderId = some o ∧
      Verdict m.risk now req m.nextOrderId o := by
  obtain ⟨m', order, hplace, hland, -⟩ := (hm.withRisk risk).place_rule hv (Q := fun _ _ => True)
    (fun _ _ _ => trivial) (fun _ _ _ _ _ _ _ => trivial)
  have hadmits : Admits m.risk now req := admits_iff.mpr (by rw [hcheck])
  obtain ⟨created, updated, hterms⟩ := hland.terms
  rw [hplace, settle_orders, hland.internalId]
  refine ⟨_, Finmap.lookup_insert _, ⟨created, ?_⟩, fun _ => hadmits, fun hlimit _ => ?_⟩
  · have hstart : SameTerms (newOrder req m.nextOrderId .pendingNew created created)
        (newOrder req m.nextOrderId .accepted created updated) :=
      ⟨rfl, rfl, rfl, rfl, rfl, rfl, rfl, rfl⟩
    exact (hstart.trans hterms).trans (sameTerms_settledOrder order _)
  · have hnot : order.type ≠ .market := by
      rw [hland.type, hlimit]
      decide
    change settledStatus order ≠ .rejected
    rw [settledStatus_accepted hland.running.status, if_neg hnot]
    split_ifs <;> decide

structure Advances (d : Desk) (e : Event) (d' : Desk) : Prop where
  agrees : Agrees d'.manager
  evolves : Evolves d.manager.orders d'.manager.orders
  sets : Sets e d.manager.risk d'.manager.risk
  nextOrderId : d'.manager.nextOrderId = d.manager.nextOrderId + if e.Files then 1 else 0
  known : ∀ id ∈ d'.manager.orders, id ∈ d.manager.orders ∨ e.Files ∧ id = d.manager.nextOrderId
  verdict : ∀ now req, e = .submit now req → validate req = .ok () →
    ∃ o, d'.manager.orders.lookup d.manager.nextOrderId = some o ∧
      Verdict d.manager.risk now req d.manager.nextOrderId o

theorem Advances.withRisk {d : Desk} (h : Agrees d.manager) {e : Event} (he : ¬ e.Files)
    {risk : RiskManager} (hsets : Sets e d.manager.risk risk)
    (snapshots : Finmap fun _ : Str => MarketSnapshot) :
    Advances d e { d.withRisk risk with snapshots } where
  agrees := h.withRisk risk
  evolves := Evolves.refl _
  sets := hsets
  nextOrderId := by
    rw [if_neg he]
    rfl
  known := fun _ hid => Or.inl hid
  verdict := by
    rintro now req rfl hv
    exact absurd hv he

theorem Advances.submit {d : Desk} (h : Agrees d.manager) (now : ℤ) (req : NewOrderRequest) :
    Advances d (.submit now req)
      { d with manager := (d.manager.submitOrder (RiskCheck.at now) req).2 } := by
  have hevolves := (h.turns (.submit (RiskCheck.at now) req)).evolves
  have hagrees := h.submitOrder (RiskCheck.at now) req
  have hstep := submitStep (RiskCheck.at now) d.manager req
  change Evolves _ (d.manager.submitOrder (RiskCheck.at now) req).2.orders at hevolves
  by_cases hv : validate req = .ok ()
  · have hfiles : (Event.submit now req).Files := hv
    obtain ⟨order, t, hrec, -⟩ := submitOrder_files (RiskCheck.at now) d.manager hv
    have hrisk : (d.manager.submitOrder (RiskCheck.at now) req).2.risk =
        (d.manager.risk.check now (riskRequest req)).2 := by
      generalize d.manager.submitOrder (RiskCheck.at now) req = r at hstep
      cases hstep with
      | invalid err hv' => exact absurd (hv'.symm.trans hv) (by simp)
      | refused risk err _ hc =>
        rw [RiskCheck.at] at hc
        rw [hc]
        rfl
      | placed risk _ hc =>
        rw [RiskCheck.at] at hc
        rw [hc, place_risk]
    refine ⟨hagrees, hevolves, ?_, ?_, fun id hid => ?_, ?_⟩
    · dsimp only
      rw [hrisk]
      exact Sets.check now req d.manager.risk _
    · rw [if_pos hfiles]
      exact hrec.nextOrderId
    · exact (hrec.known id hid).elim (fun hnew => Or.inr ⟨hv, hnew⟩) Or.inl
    · rintro _ _ ⟨⟩ _
      dsimp only
      generalize d.manager.submitOrder (RiskCheck.at now) req = r at hstep
      cases hstep with
      | invalid err hv' => exact absurd (hv'.symm.trans hv) (by simp)
      | refused risk err _ hc => exact Verdict.refused hc
      | placed risk _ hc => exact Verdict.placed h hv hc
  · generalize d.manager.submitOrder (RiskCheck.at now) req = r at hstep
    cases hstep with
    | invalid err _ =>
      refine ⟨h, Evolves.refl _, ⟨rfl, fun _ => rfl, fun _ => rfl⟩, ?_, fun _ hid => Or.inl hid, ?_⟩
      · rw [if_neg (show ¬ (Event.submit now req).Files from hv)]
        rfl
      · rintro _ _ ⟨⟩ hv'
        exact absurd hv' hv
    | refused _ _ hv' _ => exact absurd hv' hv
    | placed _ hv' _ => exact absurd hv' hv

theorem Advances.cancel {d : Desk} (h : Agrees d.manager) (req : CancelOrderRequest) :
    Advances d (.cancel req) { d with manager := (d.manager.cancelOrder req).2 } where
  agrees := h.cancelOrder req
  evolves := (h.turns (.cancel req)).evolves
  sets := by
    rw [cancelOrder_risk]
    exact ⟨rfl, fun _ => rfl, fun _ => rfl⟩
  nextOrderId := by
    rw [if_neg (show ¬ (Event.cancel req).Files from id)]
    have hstep := h.cancelStep req
    generalize d.manager.cancelOrder req = r at hstep ⊢
    cases hstep <;> rfl
  known := by
    intro id hid
    left
    obtain ⟨-, o, t, ho, -, horders⟩ | ⟨-, horders⟩ :=
      OrderManager.cancelOrder_cases d.manager req.orderId
    · dsimp only at hid
      rw [horders, Finmap.mem_insert] at hid
      obtain rfl | hid := hid
      · exact Finmap.mem_of_lookup_eq_some ho
      · exact hid
    · dsimp only at hid
      rwa [horders] at hid
  verdict := by
    rintro _ _ ⟨⟩

theorem advances {d d' : Desk} (h : Agrees d.manager) {e : Event} (hstep : d.step e = some d') :
    Advances d e d' := by
  cases e with
  | submit now req =>
    cases hstep
    exact Advances.submit h now req
  | cancel req =>
    cases hstep
    exact Advances.cancel h req
  | market u =>
    obtain ⟨data, hdata, rfl⟩ := Option.map_eq_some_iff.mp hstep
    by_cases hu : u.Fits
    · rw [MarketDataHandler.step_eq _ hu] at hdata
      cases hdata
      exact Advances.withRisk h id (Sets.market d.marketData) _
    · rw [MarketDataHandler.step_eq_none _ hu] at hdata
      cases hdata
  | setLimits limits =>
    cases hstep
    exact Advances.withRisk h id ⟨rfl, fun _ => rfl, fun _ => rfl⟩ _
  | setReferencePrice symbol price =>
    cases hstep
    exact Advances.withRisk h id (Sets.setReferencePrice symbol price _) _
  | setSymbolConfig symbol config =>
    cases hstep
    exact Advances.withRisk h id (Sets.setSymbolConfig symbol config _) _

def filed (events : List Event) : ℕ := events.countP fun e => e.Files

theorem filed_concat (events : List Event) (e : Event) :
    filed (events ++ [e]) = filed events + if e.Files then 1 else 0 := by
  rw [filed, List.countP_append, List.countP_singleton, filed]
  simp only [decide_eq_true_eq]

def Asked (events pre : List Event) (now : ℤ) (req : NewOrderRequest) : Prop :=
  pre ++ [.submit now req] <+: events ∧ validate req = .ok ()

/-- A desk whose orders are the requests of its history, each with the verdict of its moment. -/
structure Gated (start : Desk) (events : List Event) (d : Desk) : Prop where
  agrees : Agrees d.manager
  inForce : InForce start.manager.risk events d.manager.risk
  nextOrderId : d.manager.nextOrderId = filed events + 1
  verdicts : ∀ pre now req, Asked events pre now req → ∃ before o, start.run pre = some before ∧
    InForce start.manager.risk pre before.manager.risk ∧
    d.manager.orders.lookup (filed pre + 1) = some o ∧
    Verdict before.manager.risk now req (filed pre + 1) o
  asked : ∀ id ∈ d.manager.orders, ∃ pre now req, Asked events pre now req ∧ id = filed pre + 1

theorem Gated.step {start d d' : Desk} {events : List Event} {e : Event}
    (h : Gated start events d) (hrun : start.run events = some d) (ht : Advances d e d') :
    Gated start (events ++ [e]) d' where
  agrees := ht.agrees
  inForce := h.inForce.concat ht.sets
  nextOrderId := by
    rw [ht.nextOrderId, h.nextOrderId, filed_concat]
    omega
  verdicts := by
    rintro pre now req ⟨hpre, hv⟩
    obtain heq | hpre := List.prefix_concat_iff.mp hpre
    · -- the request of this very step
      obtain ⟨rfl, hlast⟩ := List.append_inj' heq rfl
      obtain ⟨o, ho, hverdict⟩ := ht.verdict now req (List.singleton_inj.mp hlast).symm hv
      rw [h.nextOrderId] at ho hverdict
      exact ⟨d, o, hrun, h.inForce, ho, hverdict⟩
    · obtain ⟨before, o, hbefore, hforce, ho, hverdict⟩ := h.verdicts pre now req ⟨hpre, hv⟩
      obtain ⟨o', ho', hmove⟩ := ht.evolves _ o ho
      exact ⟨before, o', hbefore, hforce, ho', hverdict.move hmove⟩
  asked := by
    intro id hid
    obtain hid | ⟨hf, rfl⟩ := ht.known id hid
    · obtain ⟨pre, now, req, ⟨hpre, hv⟩, hnumber⟩ := h.asked id hid
      exact ⟨pre, now, req, ⟨hpre.trans (List.prefix_append _ _), hv⟩, hnumber⟩
    · cases e with
      | submit now req => exact ⟨events, now, req, ⟨List.prefix_rfl, hf⟩, h.nextOrderId⟩
      | cancel _ | market _ | setLimits _ | setReferencePrice _ _ | setSymbolConfig _ _ =>
        exact hf.elim

theorem gated (risk : RiskManager) (db : Option Database) (clock : ℕ → ℤ) {events : List Event}
    {d : Desk} (hrun : (new risk db clock).run events = some d) :
    Gated (new risk db clock) events d := by
  induction events using List.reverseRecOn generalizing d with
  | nil =>
    cases hrun
    refine ⟨Agrees.new risk db clock, ⟨rfl, fun _ => rfl, fun _ => rfl⟩, rfl, ?_, ?_⟩
    · rintro pre now req ⟨hpre, -⟩
      have hlen := hpre.length_le
      rw [List.length_append] at hlen
      exact absurd hlen (by simp)
    · exact fun id hid => absurd hid Finmap.notMem_empty
  | append_singleton events e ih =>
    rw [run_concat] at hrun
    obtain ⟨d', hrun', hstep⟩ := Option.bind_eq_some_iff.mp hrun
    have hgated := ih hrun'
    exact hgated.step hrun' (advances hgated.agrees hstep)

end Desk

/-- The orders of a desk are its valid requests, numbered in the order in which they came, and
each has the verdict of the gate as it stood then, under the limits, the reference prices of
the market data and the instruments that were last set before it. -/
theorem orders_gated (risk : RiskManager) (db : Option Database) (clock : ℕ → ℤ)
    {events : List Desk.Event} {d : Desk} (hrun : (Desk.new risk db clock).run events = some d) :
    (∀ pre now req, Desk.Asked events pre now req → ∃ before o,
      (Desk.new risk db clock).run pre = some before ∧
      Desk.InForce risk pre before.manager.risk ∧
      d.manager.orders.lookup (Desk.filed pre + 1) = some o ∧
      Desk.Verdict before.manager.risk now req (Desk.filed pre + 1) o) ∧
    ∀ id ∈ d.manager.orders, ∃ pre now req,
      Desk.Asked events pre now req ∧ id = Desk.filed pre + 1 :=
  ⟨(Desk.gated risk db clock hrun).verdicts, (Desk.gated risk db clock hrun).asked⟩

def afterTrade : List Desk.Event :=
  [.market (.trade ⟨str "AAPL"⟩ 100 1 0), .submit 0 ⟨str "C1", ⟨str "AAPL"⟩, .buy, .limit, 105, 1⟩,
    .submit 0 ⟨str "C2", ⟨str "AAPL"⟩, .buy, .limit, 500, 1⟩]

theorem afterTrade_gated : ∃ d, (Desk.new (RiskManager.new RiskLimits.default) none fun _ => 0).run
      afterTrade = some d ∧
    (∀ pre now req, Desk.Asked afterTrade pre now req → ∃ before o,
      (Desk.new (RiskManager.new RiskLimits.default) none fun _ => 0).run pre = some before ∧
      Desk.InForce (RiskManager.new RiskLimits.default) pre before.manager.risk ∧
      d.manager.orders.lookup (Desk.filed pre + 1) = some o ∧
      Desk.Verdict before.manager.risk now req (Desk.filed pre + 1) o) ∧
    ∀ id ∈ d.manager.orders, ∃ pre now req,
      Desk.Asked afterTrade pre now req ∧ id = Desk.filed pre + 1 :=
  ⟨_, rfl, orders_gated (RiskManager.new RiskLimits.default) none (fun _ => 0) rfl⟩

end Oems
