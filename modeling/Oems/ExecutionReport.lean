import Oems.FixGateway
import Oems.Placement

namespace Oems

open Lib OrderManager

/-- A report shows an order. -/
structure Reports (report : FixMessage) (order : Order) : Prop where
  orderID : report.get FixTag.orderID = some (Decimal.ofNat order.internalId)
  clOrdID : report.get FixTag.clOrdID = some order.clientOrderId
  symbol : report.get FixTag.symbol = some order.symbol.value
  side : report.get FixTag.side = some (fixSideChar order.side)
  orderQty : report.get FixTag.orderQty = some (Decimal.ofInt order.orderQty)
  leavesQty : report.get FixTag.leavesQty = some (Decimal.ofInt order.remainingQty)
  cumQty : report.get FixTag.cumQty = some (Decimal.ofInt order.filledQty)
  ordStatus : report.get FixTag.ordStatus = some (fixOrdStatusChar order.status)

/-- The quantities of a report: what is filled and what is left make the order. -/
def AddsUp (report : FixMessage) : Prop :=
  ∃ cum leaves qty : ℤ, report.get FixTag.cumQty = some (Decimal.ofInt cum) ∧
    report.get FixTag.leavesQty = some (Decimal.ofInt leaves) ∧
    report.get FixTag.orderQty = some (Decimal.ofInt qty) ∧ cum + leaves = qty

namespace FixGateway

/-- The tags of the session's header. -/
def headerTags : List ℤ :=
  [FixTag.beginString, FixTag.senderCompId, FixTag.targetCompId, FixTag.msgSeqNum,
    FixTag.sendingTime]

theorem get_header (s : FixSession) (msg : FixMessage) {tag : ℤ} (h : tag ∉ headerTags) :
    (s.header msg).get tag = msg.get tag := by
  simp only [headerTags, List.mem_cons, List.not_mem_nil, or_false, not_or] at h
  obtain ⟨hbegin, hsender, htarget, hseq, htime⟩ := h
  simp only [FixSession.header, FixMessage.setInt, FixMessage.get_set, if_neg hbegin,
    if_neg hsender, if_neg htarget, if_neg hseq, if_neg htime]

variable (g : FixGateway) (order : Order) (session : FixSession) (execType : Str)

theorem get_reportFields (execId : ℕ) {tag : ℤ} (h : tag ≠ FixTag.price) :
    (reportFields order execId execType).get tag =
      (reportFields { order with type := .market } execId execType).get tag := by
  rw [reportFields, reportFields]
  by_cases htype : order.type = .limit
  · rw [if_pos htype, FixMessage.get_set_of_ne _ h]
    rfl
  · rw [if_neg htype]
    rfl

theorem buildExecutionReport_reports :
    Reports (g.buildExecutionReport order session execType).1 order := by
  have hget : ∀ tag, tag ∉ headerTags → tag ≠ FixTag.price →
      (g.buildExecutionReport order session execType).1.get tag =
        (reportFields { order with type := .market } g.nextExecId execType).get tag :=
    fun tag hheader hprice => (get_header _ _ hheader).trans (get_reportFields _ _ _ hprice)
  constructor
  all_goals
    rw [hget _ (by decide) (by decide), reportFields]
    simp [FixMessage.get_set, FixTag.msgType, FixTag.orderID, FixTag.clOrdID, FixTag.execID,
      FixTag.symbol, FixTag.side, FixTag.orderQty, FixTag.leavesQty, FixTag.cumQty,
      FixTag.ordStatus, FixTag.execType]

end FixGateway

theorem Reports.addsUp {report : FixMessage} {order : Order} (h : Reports report order)
    (hsum : order.filledQty + order.remainingQty = order.orderQty) : AddsUp report :=
  ⟨_, _, _, h.cumQty, h.leavesQty, h.orderQty, hsum⟩

/-- If the manager recorded an order, the report shows the one it then returns. -/
def ReportsRecorded (m m' : OrderManager) (report : FixMessage) : Prop :=
  m'.nextOrderId ≠ m.nextOrderId →
    ∃ order, m'.getOrder m.nextOrderId = .ok order ∧ Reports report order

/-- Whatever report the handler returns agrees with the order manager, and adds up. -/
def ReportAgrees (check : RiskCheck) (g : FixGateway) (msg : FixMessage) (session : FixSession) :
    Prop :=
  ∀ report session' g', g.handleNewOrderSingle check msg session = (.ok report, session', g') →
    ReportsRecorded g.om g'.om report ∧ AddsUp report

namespace Records

variable {m m' : OrderManager} {order : Order} {report : FixMessage}

theorem getOrder (h : Records m m' order) : m'.getOrder m.nextOrderId = .ok order := by
  rw [OrderManager.getOrder, h.lookup]

theorem reportsRecorded (h : Records m m' order) (hreport : Reports report order) :
    ReportsRecorded m m' report :=
  fun _ => ⟨order, h.getOrder, hreport⟩

theorem reports (h : Records m m' order) (hrecorded : ReportsRecorded m m' report) :
    Reports report order := by
  have hne : m'.nextOrderId ≠ m.nextOrderId := by
    rw [h.nextOrderId]
    exact Nat.succ_ne_self _
  obtain ⟨stored, hget, hreport⟩ := hrecorded hne
  rw [h.getOrder] at hget
  exact Except.ok.inj hget ▸ hreport

end Records

theorem rejectedOrder_reports {req : NewOrderRequest} {id id' : ℕ} {created updated : ℤ}
    {report : FixMessage} (h : Reports report (FixGateway.rejectedOrder req id)) :
    Reports report (newOrder req id' .rejected created updated) ↔ id = id' := by
  constructor
  · intro h'
    have htext : Decimal.ofNat id = Decimal.ofNat id' :=
      Option.some.inj (h.orderID.symm.trans h'.orderID)
    rw [← Decimal.value_ofNat id, htext, Decimal.value_ofNat]
  · rintro rfl
    exact ⟨h.orderID, h.clOrdID, h.symbol, h.side, h.orderQty, h.leavesQty, h.cumQty, h.ordStatus⟩

theorem not_reportAgrees {check : RiskCheck} {g : FixGateway} {msg : FixMessage}
    {req : NewOrderRequest} (htype : msg.msgType = FixMsgType.newOrderSingle)
    (hreq : FixGateway.newOrderRequest msg = .ok req) (hv : validate req = .ok ())
    (hopposed : ¬ Unopposed check g.om req) (hid : g.nextSyntheticOrderId ≠ g.om.nextOrderId)
    (session : FixSession) : ¬ ReportAgrees check g msg session := by
  intro hagrees
  obtain ⟨hun, -⟩ | ⟨-, err, m', created, updated, hsubmit, hrec⟩ :=
    submitOrder_records check g.om hv
  · exact hopposed hun
  · obtain ⟨hrecorded, -⟩ := hagrees _ _ _
      (FixGateway.handleNewOrderSingle_refused htype hreq hsubmit session)
    have hreport := FixGateway.buildExecutionReport_reports
      ({ g with om := m' } : FixGateway).takeSyntheticOrderId.2
      (FixGateway.rejectedOrder req g.nextSyntheticOrderId) session (str "8")
    exact hid ((rejectedOrder_reports hreport).mp (hrec.reports hrecorded))

/-- An order for one more than the risk limit allows. -/
def tooLarge : FixMessage :=
  ⟨[(FixTag.msgType, str "D"), (FixTag.clOrdID, str "C1"), (FixTag.symbol, str "AAPL"),
    (FixTag.side, str "1"), (FixTag.ordType, str "2"), (FixTag.orderQty, str "10001"),
    (FixTag.price, str "1")]⟩

def freshGateway : FixGateway :=
  FixGateway.new (OrderManager.new (RiskManager.new RiskLimits.default) MatchingEngine.new none
    fun _ => 0)

theorem tooLarge_disagrees (session : FixSession) :
    ¬ ReportAgrees (RiskCheck.at 0) freshGateway tooLarge session := by
  have hopposed : ¬ Unopposed (RiskCheck.at 0) freshGateway.om
      ⟨str "C1", ⟨str "AAPL"⟩, .buy, .limit, 1, 10001⟩ := by
    rintro ⟨hok, -⟩
    cases hok
  exact not_reportAgrees rfl rfl rfl hopposed (by decide) session

theorem reportAgrees_fails : ¬ ∀ check g msg session, ReportAgrees check g msg session :=
  fun h => tooLarge_disagrees (FixSession.new [] [] [] fun _ => []) (h _ _ _ _)

/-- The report on a NewOrderSingle agrees with the order manager unless the order is
recorded and refused, by the risk gate or by a book. -/
theorem reportAgrees_iff (check : RiskCheck) (g : FixGateway) (msg : FixMessage)
    (session : FixSession) : ReportAgrees check g msg session ↔
      ∀ req, msg.msgType = FixMsgType.newOrderSingle → FixGateway.newOrderRequest msg = .ok req →
        validate req = .ok () →
          Unopposed check g.om req ∨ g.nextSyntheticOrderId = g.om.nextOrderId := by
  constructor
  · intro hagrees req htype hreq hv
    by_contra hnot
    obtain ⟨hopposed, hid⟩ := not_or.mp hnot
    exact not_reportAgrees htype hreq hv hopposed hid session hagrees
  · intro hcond report session' g' hhandle
    obtain ⟨err, hres⟩ | ⟨req, htype, hreq, ⟨err, om, hsubmit, hres⟩ | ⟨order, om, hsubmit, hres⟩⟩ :=
      g.handleNewOrderSingle_cases check msg session
    · rw [hres] at hhandle
      cases hhandle
    · rw [hres] at hhandle
      cases hhandle
      have hreport := FixGateway.buildExecutionReport_reports
        ({ g with om } : FixGateway).takeSyntheticOrderId.2
        (FixGateway.rejectedOrder req g.nextSyntheticOrderId) session (str "8")
      refine ⟨?_, hreport.addsUp (zero_add _)⟩
      cases hv : validate req with
      | error err' =>
        have hsame : om = g.om := by
          rw [submitOrder_invalid hv] at hsubmit
          cases hsubmit
          rfl
        exact fun hne => absurd (congrArg OrderManager.nextOrderId hsame) hne
      | ok u =>
        obtain ⟨-, order, m', hok, -⟩ | ⟨hopposed, err', m', created, updated, herr, hrec⟩ :=
          submitOrder_records check g.om hv
        · rw [hsubmit] at hok
          cases hok
        · rw [hsubmit] at herr
          cases herr
          have hid := (hcond req htype hreq hv).resolve_left hopposed
          exact hrec.reportsRecorded ((rejectedOrder_reports hreport).mpr hid)
    · rw [hres] at hhandle
      cases hhandle
      have hreport := FixGateway.buildExecutionReport_reports { g with om } order session
        (FixGateway.execTypeOf order)
      cases hv : validate req with
      | error err =>
        rw [submitOrder_invalid hv] at hsubmit
        cases hsubmit
      | ok u =>
        obtain ⟨-, order', m', hok, hrec⟩ | ⟨-, err', m', created, updated, herr, -⟩ :=
          submitOrder_records check g.om hv
        · rw [hsubmit] at hok
          cases hok
          exact ⟨hrec.reportsRecorded hreport, hreport.addsUp hrec.addsUp⟩
        · rw [hsubmit] at herr
          cases herr

end Oems
