import Oems.FixNumbers
import Oems.FixRoundTrip
import Oems.OrdersController
import Oems.TwapRun

namespace Oems

open Lib Lib.Delimited OrderManager

theorem soh_notMem_of_parse {raw : Str} {r : FixMessage} (h : FixMessage.parse raw = .ok r) :
    ∀ f ∈ r.fields, soh ∉ f.2 := by
  obtain ⟨ps, -, hall⟩ := parse_eq_ok_iff.mp h
  generalize r.fields = fields at hall
  induction hall with
  | nil => exact fun f hf => absurd hf List.not_mem_nil
  | @cons p f ps fields hread _ ih =>
    intro g hg
    obtain rfl | hg := List.mem_cons.mp hg
    · obtain ⟨n, -, rfl⟩ := hread
      exact p.stop_notMem
    · exact ih g hg

theorem soh_notMem_ofNat (n : ℕ) : soh ∉ Decimal.ofNat n :=
  soh_notMem_of_digits fun _ => Decimal.isDigit_of_mem_ofNat

theorem soh_notMem_ofInt (z : ℤ) : soh ∉ Decimal.ofInt z := by
  cases z with
  | ofNat n => exact soh_notMem_ofNat n
  | negSucc n =>
    intro h
    obtain h | h := List.mem_cons.mp h
    · exact absurd h (by decide)
    · exact soh_notMem_ofNat (n + 1) h

namespace FixMessage

theorem set_of_notMem {fields : List (ℤ × Str)} {tag : ℤ} (value : Str)
    (h : tag ∉ fields.map Prod.fst) : (FixMessage.mk fields).set tag value =
      ⟨fields ++ [(tag, value)]⟩ := by
  induction fields with
  | nil => rfl
  | cons f fields ih =>
    rw [List.map_cons, List.mem_cons, not_or] at h
    have hrest := congrArg FixMessage.fields (ih h.2)
    rw [set, setField, if_neg (Ne.symm h.1)]
    exact congrArg (fun rest => FixMessage.mk (f :: rest)) hrest

/-- The wire form of a message is read back as its fields, each of them once and with its
value, and the length and the checksum that `Serialize` puts in. -/
def Intact (m : FixMessage) : Prop :=
  ∃ r length checkSum, FixMessage.parse m.serialize = .ok r ∧ (r.fields.map Prod.fst).Nodup ∧
    r.fields.Perm ((FixTag.bodyLength, length) :: (FixTag.checkSum, checkSum) :: m.fields)

/-- A message type first, a begin string further on, and no other field that `Serialize`
writes itself: the fields of the wire form are those of the message, but for their order. -/
theorem framed_perm {m : FixMessage} {t b : Str} {mid tail : List (ℤ × Str)}
    (hm : m.fields = (FixTag.msgType, t) :: (mid ++ (FixTag.beginString, b) :: tail))
    (hmid : ∀ f ∈ mid, isFramed f.1 = false) (htail : ∀ f ∈ tail, isFramed f.1 = false)
    (trailer : Str) : (m.framed trailer).fields.Perm
      ((FixTag.bodyLength, Decimal.ofNat m.body.length) :: (FixTag.checkSum, trailer) :: m.fields) := by
  have hfind : (mid.find? fun f => f.1 = FixTag.beginString) = none := by
    apply List.find?_eq_none.mpr
    intro f hf heq
    have htag : f.1 = FixTag.beginString := by simpa using heq
    have hframed := hmid f hf
    rw [htag] at hframed
    exact absurd hframed (by decide)
  have hbegin : m.begin = b := by
    rw [begin, get, hm, List.find?_cons_of_neg (by simp [FixTag.msgType, FixTag.beginString]),
      List.find?_append, hfind]
    rfl
  have hmtype : m.mtype = t := by
    rw [mtype, get, hm]
    rfl
  have hothers : m.others = mid ++ tail := by
    have hkeep : ∀ fields : List (ℤ × Str), (∀ f ∈ fields, isFramed f.1 = false) →
        (fields.filter fun f => ¬ isFramed f.1) = fields := by
      intro fields h
      apply List.filter_eq_self.mpr
      intro f hf
      simpa using h f hf
    rw [others, hm, List.filter_cons_of_neg (by simp [isFramed]), List.filter_append, hkeep mid hmid,
      List.filter_cons_of_neg (by simp [isFramed]), hkeep tail htail]
  rw [framed, hbegin, hmtype, hothers, hm]
  apply List.perm_iff_count.mpr
  intro f
  simp only [List.count_cons, List.count_append, List.count_nil]
  omega

end FixMessage

def orderFields (order : Order) (execId : ℕ) (execType : Str) : List (ℤ × Str) :=
  [(FixTag.orderID, Decimal.ofNat order.internalId), (FixTag.clOrdID, order.clientOrderId),
    (FixTag.execID, Decimal.ofNat execId), (FixTag.symbol, order.symbol.value),
    (FixTag.side, fixSideChar order.side), (FixTag.orderQty, Decimal.ofInt order.orderQty),
    (FixTag.leavesQty, Decimal.ofInt order.remainingQty),
    (FixTag.cumQty, Decimal.ofInt order.filledQty),
    (FixTag.ordStatus, fixOrdStatusChar order.status), (FixTag.execType, execType)] ++
  if order.type = .limit then [(FixTag.price, Decimal.ofInt order.price)] else []

def stampFields (s : FixSession) : List (ℤ × Str) :=
  [(FixTag.senderCompId, s.sender), (FixTag.targetCompId, s.target),
    (FixTag.msgSeqNum, Decimal.ofInt (s.outboundSeq + 1 : ℕ)), (FixTag.sendingTime, s.times 0)]

variable (g : FixGateway) (order : Order) (session : FixSession) (execType : Str)

theorem report_fields : (g.buildExecutionReport order session execType).1.fields =
    (FixTag.msgType, FixMsgType.executionReport) ::
      (orderFields order g.nextExecId execType ++
        (FixTag.beginString, session.beginString) :: stampFields session) := by
  rw [FixGateway.buildExecutionReport, FixGateway.reportFields, orderFields]
  split_ifs <;>
    simp [FixSession.stampOutbound, FixSession.header, FixMessage.setInt, FixMessage.empty,
      FixMessage.set_of_notMem, stampFields, FixTag.beginString, FixTag.msgType,
      FixTag.senderCompId, FixTag.targetCompId, FixTag.msgSeqNum, FixTag.sendingTime,
      FixTag.clOrdID, FixTag.orderID, FixTag.execID, FixTag.symbol, FixTag.side, FixTag.orderQty,
      FixTag.price, FixTag.ordStatus, FixTag.execType, FixTag.leavesQty, FixTag.cumQty]

def orderTags (type : OrderType) : List ℤ :=
  [FixTag.orderID, FixTag.clOrdID, FixTag.execID, FixTag.symbol, FixTag.side, FixTag.orderQty,
    FixTag.leavesQty, FixTag.cumQty, FixTag.ordStatus, FixTag.execType] ++
  if type = .limit then [FixTag.price] else []

def stampTags : List ℤ :=
  [FixTag.senderCompId, FixTag.targetCompId, FixTag.msgSeqNum, FixTag.sendingTime]

def reportTags (type : OrderType) : List ℤ :=
  FixTag.msgType :: (orderTags type ++ FixTag.beginString :: stampTags)

theorem orderFields_tags (execId : ℕ) :
    (orderFields order execId execType).map Prod.fst = orderTags order.type := by
  rw [orderFields, orderTags]
  split_ifs
  · rfl
  · rfl

theorem report_tags : (g.buildExecutionReport order session execType).1.fields.map Prod.fst =
    reportTags order.type := by
  rw [report_fields, List.map_cons, List.map_append, orderFields_tags]
  rfl

theorem orderFields_unframed (execId : ℕ) :
    ∀ f ∈ orderFields order execId execType, FixMessage.isFramed f.1 = false := by
  have htags : ∀ tag ∈ orderTags order.type, FixMessage.isFramed tag = false := by
    cases order.type <;> decide
  rw [← orderFields_tags order execType execId] at htags
  exact fun f hf => htags f.1 (List.mem_map_of_mem hf)

theorem stampFields_unframed : ∀ f ∈ stampFields session, FixMessage.isFramed f.1 = false := by
  have htags : ∀ tag ∈ stampTags, FixMessage.isFramed tag = false := by decide
  exact fun f hf => htags f.1 (List.mem_map_of_mem (f := Prod.fst) hf)

theorem reportTags_nodup (type : OrderType) :
    (FixTag.bodyLength :: FixTag.checkSum :: reportTags type).Nodup := by
  cases type <;> decide

theorem reportTags_range (type : OrderType) : ∀ tag ∈ reportTags type, 0 < tag ∧ tag < 2 ^ 31 := by
  cases type <;> decide

/-- A client order id and a symbol without SOH. -/
def PlainText (clientOrderId : Str) (symbol : Symbol) : Prop :=
  soh ∉ clientOrderId ∧ soh ∉ symbol.value

instance (clientOrderId : Str) (symbol : Symbol) : Decidable (PlainText clientOrderId symbol) :=
  inferInstanceAs (Decidable (_ ∧ _))

theorem newOrderRequest_plain {raw : Str} {msg : FixMessage} {req : NewOrderRequest}
    (hparse : FixMessage.parse raw = .ok msg) (hreq : FixGateway.newOrderRequest msg = .ok req) :
    PlainText req.clientOrderId req.symbol := by
  have hget : ∀ tag, soh ∉ (msg.get tag).getD [] := by
    intro tag
    cases htag : msg.get tag with
    | none => exact List.not_mem_nil
    | some v =>
      obtain ⟨f, hf, rfl⟩ := Option.map_eq_some_iff.mp htag
      exact soh_notMem_of_parse hparse f (List.mem_of_find?_eq_some hf)
  obtain ⟨side, type, -, -, rfl⟩ := (FixGateway.newOrderRequest_ok_iff msg).mp hreq
  exact ⟨hget FixTag.clOrdID, hget FixTag.symbol⟩

def PlainHeader (session : FixSession) (execType : Str) : Prop :=
  soh ∉ session.beginString ∧ soh ∉ session.sender ∧ soh ∉ session.target ∧
    soh ∉ session.times 0 ∧ soh ∉ execType

theorem soh_notMem_fixSideChar (side : Side) : soh ∉ fixSideChar side := by
  cases side <;> decide

theorem soh_notMem_fixOrdStatusChar (status : OrderStatus) : soh ∉ fixOrdStatusChar status := by
  cases status <;> decide

theorem report_plain_iff :
    (∀ f ∈ (g.buildExecutionReport order session execType).1.fields, soh ∉ f.2) ↔
      PlainText order.clientOrderId order.symbol ∧ PlainHeader session execType := by
  have hprice : ∀ f ∈ if order.type = .limit then [(FixTag.price, Decimal.ofInt order.price)] else [],
      soh ∉ f.2 := by
    intro f hf
    split_ifs at hf
    · rw [List.mem_singleton.mp hf]
      exact soh_notMem_ofInt order.price
    · exact absurd hf List.not_mem_nil
  have hcode : soh ∉ FixMsgType.executionReport := by decide
  rw [report_fields, orderFields, stampFields, PlainText, PlainHeader]
  simp only [List.forall_mem_cons, List.forall_mem_append, soh_notMem_ofNat,
    soh_notMem_ofInt, soh_notMem_fixSideChar, soh_notMem_fixOrdStatusChar, hcode,
    not_false_eq_true, true_and]
  tauto

theorem report_intact_iff : (g.buildExecutionReport order session execType).1.Intact ↔
    PlainText order.clientOrderId order.symbol ∧ PlainHeader session execType := by
  rw [← report_plain_iff g order session execType]
  constructor
  · rintro ⟨r, length, checkSum, hparse, -, hperm⟩ f hf
    exact soh_notMem_of_parse hparse f
      (hperm.mem_iff.mpr (List.mem_cons_of_mem _ (List.mem_cons_of_mem _ hf)))
  · intro h
    have htags := reportTags_range order.type
    rw [← report_tags g order session execType] at htags
    have hwell : (g.buildExecutionReport order session execType).1.WellFormed := fun f hf =>
      ⟨(htags f.1 (List.mem_map_of_mem hf)).1, (htags f.1 (List.mem_map_of_mem hf)).2, h f hf⟩
    obtain ⟨L⟩ := hwell.exists_layout
    have hperm := FixMessage.framed_perm (report_fields g order session execType)
      (orderFields_unframed order execType g.nextExecId) (stampFields_unframed session)
      (FixMessage.threeDigits (computeCheckSum
        (g.buildExecutionReport order session execType).1.withoutChecksum))
    refine ⟨_, _, _, L.parse, ?_, hperm⟩
    rw [(hperm.map Prod.fst).nodup_iff, List.map_cons, List.map_cons, report_tags]
    exact reportTags_nodup order.type

/-- Every order of a table has a plain client order id and a plain symbol. -/
def PlainOrders (orders : OrderMap) : Prop :=
  ∀ id o, orders.lookup id = some o → PlainText o.clientOrderId o.symbol

def PlainOp : Op → Prop
  | .submit _ req => ¬ Malformed req → PlainText req.clientOrderId req.symbol
  | .cancel _ => True

theorem SameTerms.plainText_iff {o o' : Order} (h : SameTerms o o') :
    PlainText o'.clientOrderId o'.symbol ↔ PlainText o.clientOrderId o.symbol := by
  rw [h.clientOrderId, h.symbol]

theorem TermsKept.plainOrders {orders orders' : OrderMap} (h : TermsKept orders orders')
    (hplain : PlainOrders orders') : PlainOrders orders := by
  intro id o ho
  obtain ⟨o', ho', hterms⟩ := h id o ho
  exact hterms.plainText_iff.mp (hplain id o' ho')

theorem TermsKept.plainText {orders orders' : OrderMap} (h : TermsKept orders orders')
    (hplain : PlainOrders orders) {id : ℕ} (hid : id ∈ orders) {o' : Order}
    (ho' : orders'.lookup id = some o') : PlainText o'.clientOrderId o'.symbol := by
  obtain ⟨o, ho⟩ := Option.isSome_iff_exists.mp (Finmap.lookup_isSome.mpr hid)
  obtain ⟨x, hx, hterms⟩ := h id o ho
  rw [ho'] at hx
  obtain rfl := Option.some.inj hx
  exact hterms.plainText_iff.mpr (hplain id o ho)

theorem Below.submitOrder_plain_iff {m : OrderManager} (h : Below m) (check : RiskCheck)
    (req : NewOrderRequest) : PlainOrders (m.submitOrder check req).2.orders ↔
      PlainOrders m.orders ∧ PlainOp (.submit check req) := by
  by_cases hbad : Malformed req
  · obtain ⟨err, hv⟩ := validate_malformed hbad
    rw [submitOrder_invalid hv]
    exact ⟨fun hplain => ⟨hplain, fun hgood => absurd hbad hgood⟩, And.left⟩
  · obtain ⟨order, t, hrec, hterms⟩ := submitOrder_files check m (validate_wellFormed hbad)
    have hkept := (submitOrder_stored h check req).kept
    constructor
    · intro hplain
      exact ⟨hkept.plainOrders hplain,
        fun _ => hterms.plainText_iff.mp (hplain m.nextOrderId order hrec.lookup)⟩
    · rintro ⟨hplain, hop⟩ id o ho
      obtain rfl | hid := hrec.known id (Finmap.mem_of_lookup_eq_some ho)
      · rw [hrec.lookup] at ho
        obtain rfl := Option.some.inj ho
        exact hterms.plainText_iff.mpr (hop hbad)
      · exact hkept.plainText hplain hid ho

theorem cancelOrder_plain_iff (m : OrderManager) (req : CancelOrderRequest) :
    PlainOrders (m.cancelOrder req).2.orders ↔ PlainOrders m.orders := by
  obtain ⟨id⟩ := req
  obtain ⟨-, o, t, ho, -, horders⟩ | ⟨-, hsame⟩ := m.cancelOrder_cases id
  · have hkept : TermsKept m.orders (m.cancelOrder ⟨id⟩).2.orders := by
      rw [horders]
      exact TermsKept.insert ho (sameTerms_cancelledOrder o t)
    refine ⟨hkept.plainOrders, fun hplain id' o' ho' => hkept.plainText hplain ?_ ho'⟩
    have hmem := Finmap.mem_of_lookup_eq_some ho'
    rw [horders] at hmem
    obtain rfl | hmem := Finmap.mem_insert.mp hmem
    · exact Finmap.mem_of_lookup_eq_some ho
    · exact hmem
  · rw [hsame]

theorem Below.step {m : OrderManager} (h : Below m) (op : Op) : Below (m.step op).2 := by
  cases op with
  | submit check req => exact h.submitOrder check req
  | cancel req => exact h.cancelOrder req

theorem Below.run_plain_iff {m : OrderManager} (h : Below m) (ops : List Op) :
    PlainOrders (m.run ops).orders ↔ PlainOrders m.orders ∧ ∀ op ∈ ops, PlainOp op := by
  induction ops generalizing m with
  | nil => exact (and_iff_left fun op hop => absurd hop List.not_mem_nil).symm
  | cons op ops ih =>
    have hstep : PlainOrders (m.step op).2.orders ↔ PlainOrders m.orders ∧ PlainOp op := by
      cases op with
      | submit check req => exact h.submitOrder_plain_iff check req
      | cancel req => exact (cancelOrder_plain_iff m req).trans (and_iff_left trivial).symm
    change PlainOrders ((m.step op).2.run ops).orders ↔ _
    rw [ih (h.step op), hstep, List.forall_mem_cons, and_assoc]

/-- Every report on an order of a manager is read back as the gateway made it. -/
def ReportsIntact (m : OrderManager) (g : FixGateway) (session : FixSession) (execType : Str) :
    Prop :=
  ∀ id o, m.orders.lookup id = some o → (g.buildExecutionReport o session execType).1.Intact

def forgingBody : NewOrderRequestDto :=
  ⟨some (str "X\x0155=EVIL"), some (str "AAPL"), some (str "buy"), some (str "limit"), some 1,
    some 100⟩

/-- What the server files for that body cannot be reported. -/
theorem forgingBody_not_intact (check : RiskCheck) {m : OrderManager} (h : Reachable m)
    (g : FixGateway) (session : FixSession) (execType : Str) :
    ¬ ReportsIntact (OrdersController.submitOrder check m (some forgingBody)).2 g session
      execType := by
  intro hintact
  have hplain : PlainOrders (OrdersController.submitOrder check m (some forgingBody)).2.orders :=
    fun id o ho => ((report_intact_iff g o session execType).mp (hintact id o ho)).1
  obtain ⟨message, hreq, -⟩ | ⟨req, hreq, hsubmit⟩ :=
    OrdersController.submitOrder_manager check m (some forgingBody)
  · cases hreq
  · rw [hsubmit] at hplain
    obtain ⟨-, hop⟩ := ((below_of_reachable h).submitOrder_plain_iff check req).mp hplain
    cases hreq
    exact absurd (hop (by decide)) (by decide)

theorem reportsIntact_fails : ¬ ∀ check m dto g session execType, Reachable m →
    PlainOrders m.orders → PlainHeader session execType →
      ReportsIntact (OrdersController.submitOrder check m dto).2 g session execType := by
  intro h
  refine forgingBody_not_intact (RiskCheck.at 0) (Reachable.new _ _ _) freshGateway
    (FixSession.new (str "OEMS") (str "CLIENT") (str "FIX.4.4") fun _ => []) (str "0")
    (h _ _ _ _ _ _ (Reachable.new (RiskManager.new RiskLimits.default) none fun _ => 0) ?_ ?_)
  · intro id o ho
    rw [OrderManager.new, Finmap.lookup_empty] at ho
    cases ho
  · exact ⟨by decide, by decide, by decide, by decide, by decide⟩

/-- Orders forge no field of a report, whatever is submitted and cancelled, unless a client
order id or a symbol with SOH in it is filed. -/
theorem reportsIntact_iff {m : OrderManager} (h : Reachable m) (ops : List Op) (g : FixGateway)
    (session : FixSession) (execType : Str) : ReportsIntact (m.run ops) g session execType ↔
      PlainOrders m.orders ∧ (∀ op ∈ ops, PlainOp op) ∧
        ((∃ id, id ∈ (m.run ops).orders) → PlainHeader session execType) := by
  rw [← and_assoc, ← (below_of_reachable h).run_plain_iff ops]
  constructor
  · intro hintact
    refine ⟨fun id o ho => ?_, ?_⟩
    · exact ((report_intact_iff g o session execType).mp (hintact id o ho)).1
    · rintro ⟨id, hid⟩
      obtain ⟨o, ho⟩ := Option.isSome_iff_exists.mp (Finmap.lookup_isSome.mpr hid)
      exact ((report_intact_iff g o session execType).mp (hintact id o ho)).2
  · rintro ⟨hplain, hheader⟩ id o ho
    exact (report_intact_iff g o session execType).mpr
      ⟨hplain id o ho, hheader ⟨id, Finmap.mem_of_lookup_eq_some ho⟩⟩

/-- A new manager that has filed one order, which risk refuses. -/
theorem oversized_reportsIntact : ReportsIntact
    ((OrderManager.new (RiskManager.new RiskLimits.default) MatchingEngine.new none fun _ => 0).run
      [.submit (RiskCheck.at 0) oversized]) freshGateway
    (FixSession.new (str "OEMS") (str "CLIENT") (str "FIX.4.4") fun _ => []) (str "8") := by
  apply (reportsIntact_iff (Reachable.new _ _ _) _ _ _ _).mpr
  refine ⟨fun id o ho => ?_, fun op hop => ?_, fun _ => ?_⟩
  · rw [OrderManager.new, Finmap.lookup_empty] at ho
    cases ho
  · rw [List.mem_singleton.mp hop]
    exact fun _ => by decide
  · exact ⟨by decide, by decide, by decide, by decide, by decide⟩

end Oems
