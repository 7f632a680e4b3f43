import Oems.BookInvariant
import Oems.ExecutionReport
import Oems.SubmitFootprint

namespace Oems

open Lib OrderManager

namespace FixMessage

/-- The number that the value of a tag is the decimal text of, as a whole. Leading
zeros make no difference. -/
def statedInt (m : FixMessage) (tag : ℤ) : Option ℤ := (m.get tag).bind Decimal.toInt?

def statedNat (m : FixMessage) (tag : ℤ) : Option ℕ := (m.get tag).bind Decimal.toNat?

theorem fromCharsInt64_of_toInt? {text : Str} {z : ℤ} (h : Decimal.toInt? text = some z)
    (hlo : -2 ^ 63 ≤ z) (hhi : z < 2 ^ 63) : fromCharsInt64 text = some z :=
  Decimal.fromChars_eq_some_iff.mpr ⟨Decimal.leadingInt?_of_toInt? h, hlo, Int.le_sub_one_of_lt hhi⟩

theorem getInt_setInt (m : FixMessage) (tag : ℤ) {z : ℤ} (hlo : -2 ^ 63 ≤ z) (hhi : z < 2 ^ 63) :
    (m.setInt tag z).getInt tag = z := by
  rw [getInt, setInt, get_set_self, Option.bind_some,
    fromCharsInt64_of_toInt? (Decimal.toInt?_ofInt z) hlo hhi, Option.getD_some]

/-- A positive number that is read off a value is the one that the value states, if it
states any. -/
theorem statedInt_eq_getInt {m : FixMessage} {tag : ℤ} (hpos : 0 < m.getInt tag)
    (hstated : (m.statedInt tag).isSome) : m.statedInt tag = some (m.getInt tag) := by
  obtain ⟨z, hz⟩ := Option.isSome_iff_exists.mp hstated
  obtain ⟨text, htext, hread⟩ := Option.bind_eq_some_iff.mp hz
  have hlead := Decimal.leadingInt?_of_toInt? hread
  rw [hz]
  unfold getInt at hpos ⊢
  rw [htext, Option.bind_some] at hpos ⊢
  cases hchars : fromCharsInt64 text with
  | none =>
    rw [hchars] at hpos
    exact absurd hpos (lt_irrefl 0)
  | some q =>
    obtain ⟨hq, -⟩ := Decimal.fromChars_eq_some_iff.mp hchars
    rw [hlead] at hq
    exact hq

end FixMessage

/-- A call of the manager cancels the order that it knows under an id. -/
def Cancels (m m' : OrderManager) (id : ℕ) : Prop :=
  ∃ o o', m.orders.lookup id = some o ∧ o.status ≠ .cancelled ∧
    m'.orders.lookup id = some o' ∧ o'.status = .cancelled

theorem not_cancels_of_orders {m m' : OrderManager} (h : m'.orders = m.orders) (id : ℕ) :
    ¬ Cancels m m' id := by
  rintro ⟨o, o', ho, hopen, ho', hcancelled⟩
  rw [h, ho] at ho'
  exact hopen (Option.some.inj ho' ▸ hcancelled)

/-- `CancelOrder` cancels the order it is asked for, where that can be cancelled, and no other. -/
theorem cancelOrder_cancels_iff (m : OrderManager) (req id : ℕ) :
    Cancels m (m.cancelOrder ⟨req⟩).2 id ↔ id = req ∧ Cancellable m req := by
  obtain ⟨hcan, o, t, ho, hopen, horders⟩ | ⟨hcannot, hsame⟩ := m.cancelOrder_cases req
  · constructor
    · rintro ⟨x, x', hx, hlive, hx', hcancelled⟩
      refine ⟨?_, hcan⟩
      by_contra hne
      rw [horders, Finmap.lookup_insert_of_ne _ hne, hx] at hx'
      exact hlive (Option.some.inj hx' ▸ hcancelled)
    · rintro ⟨rfl, -⟩
      refine ⟨o, cancelledOrder o t, ho, fun h => hopen (Or.inr (Or.inl h)), ?_, rfl⟩
      rw [horders, Finmap.lookup_insert]
  · exact iff_of_false (not_cancels_of_orders hsame id) fun h => hcannot h.2

namespace FixGateway

variable (check : RiskCheck) (g : FixGateway) (msg : FixMessage) (session : FixSession)

theorem handleNewOrderSingle_om : (g.handleNewOrderSingle check msg session).2.2.om =
    if msg.msgType = FixMsgType.newOrderSingle then
      match newOrderRequest msg with
      | .error _ => g.om
      | .ok req => (g.om.submitOrder check req).2
    else g.om := by
  rw [handleNewOrderSingle]
  by_cases htype : msg.msgType = FixMsgType.newOrderSingle
  · rw [if_neg (not_not.mpr htype), if_pos htype]
    cases newOrderRequest msg with
    | error err => rfl
    | ok req =>
      dsimp only
      generalize g.om.submitOrder check req = r
      obtain ⟨err | order, om⟩ := r
      · rfl
      · rfl
  · rw [if_pos htype, if_neg htype]

theorem handleOrderCancelRequest_om : (g.handleOrderCancelRequest msg session).2.2.om =
    if msg.msgType = FixMsgType.orderCancelRequest then
      (g.om.cancelOrder ⟨cancelOrderId msg⟩).2
    else g.om := by
  rw [handleOrderCancelRequest]
  by_cases htype : msg.msgType = FixMsgType.orderCancelRequest
  · rw [if_neg (not_not.mpr htype), if_pos htype]
    generalize g.om.cancelOrder ⟨cancelOrderId msg⟩ = r
    obtain ⟨err | order, om⟩ := r
    · rfl
    · rfl
  · rw [if_pos htype, if_neg htype]

theorem cancelOrderId_lt : cancelOrderId msg < 2 ^ 64 := by
  unfold cancelOrderId fromCharsUInt64
  cases hread : (Decimal.toNat? (Decimal.leading ((msg.get FixTag.orderID).getD []))).filter
      fun n => n < 2 ^ 64 with
  | none => simp
  | some n => simpa using (Option.filter_eq_some_iff.mp hread).2

theorem cancelOrderId_of_stated {n : ℕ} (h : msg.statedNat FixTag.orderID = some n)
    (hlt : n < 2 ^ 64) : cancelOrderId msg = n := by
  obtain ⟨text, htext, hread⟩ := Option.bind_eq_some_iff.mp h
  have hdigits := (Decimal.toNat?_eq_some_iff.mp hread).2.1
  unfold cancelOrderId fromCharsUInt64
  rw [htext, Option.getD_some, Decimal.leading_eq_self hdigits, hread]
  simp only [Option.filter, hlt, decide_true, if_true, Option.getD_some]

def requestOf (side : Side) (type : OrderType) : NewOrderRequest :=
  ⟨(msg.get FixTag.clOrdID).getD [], ⟨(msg.get FixTag.symbol).getD []⟩, side, type,
    msg.getInt FixTag.price, msg.getInt FixTag.orderQty⟩

theorem newOrderRequest_ok_iff {req : NewOrderRequest} : newOrderRequest msg = .ok req ↔
    ∃ side type, parseFixSide ((msg.get FixTag.side).getD []) = .ok side ∧
      parseFixOrdType ((msg.get FixTag.ordType).getD []) = .ok type ∧
      req = requestOf msg side type := by
  rw [newOrderRequest]
  cases hside : parseFixSide ((msg.get FixTag.side).getD []) with
  | error err => simp [bind, Except.bind]
  | ok side =>
    cases htype : parseFixOrdType ((msg.get FixTag.ordType).getD []) with
    | error err => simp [bind, Except.bind]
    | ok type => simp [bind, Except.bind, pure, Except.pure, requestOf, eq_comm]

/-- The gateway acts on the numbers that a message states: it files orders of the quantity
and, for limit orders, the price of tags 38 and 44, and cancels no order but that of tag 37. -/
structure ActsOnStated : Prop where
  order : ∀ o, Files g.om (g.handleNewOrderSingle check msg session).2.2.om o →
    msg.statedInt FixTag.orderQty = some o.orderQty ∧
      (o.type = .limit → msg.statedInt FixTag.price = some o.price)
  cancel : ∀ id, Cancels g.om (g.handleOrderCancelRequest msg session).2.2.om id →
    msg.statedNat FixTag.orderID = some id
  getInt_setInt : ∀ tag z, -2 ^ 63 ≤ z → z < 2 ^ 63 → (msg.setInt tag z).getInt tag = z

/-- The numbers of a message that makes a valid order are numbers as a whole. -/
def StatesOrder : Prop :=
  msg.msgType = FixMsgType.newOrderSingle → ∀ side type,
    parseFixSide ((msg.get FixTag.side).getD []) = .ok side →
    parseFixOrdType ((msg.get FixTag.ordType).getD []) = .ok type →
    0 < msg.getInt FixTag.orderQty → (type = .limit → 0 < msg.getInt FixTag.price) →
    (msg.get FixTag.symbol).getD [] ≠ [] →
      (msg.statedInt FixTag.orderQty).isSome ∧
        (type = .limit → (msg.statedInt FixTag.price).isSome)

def StatesCancel : Prop :=
  msg.msgType = FixMsgType.orderCancelRequest → Cancellable g.om (cancelOrderId msg) →
    ∃ n, msg.statedNat FixTag.orderID = some n ∧ n < 2 ^ 64

variable {check g msg session}

theorem not_files_self {m : OrderManager} {o : Order} : ¬ Files m m o := by
  rintro ⟨id, hle, hlt, -⟩
  exact absurd hle (not_le.mpr hlt)

/-- The order that a valid NewOrderSingle files. -/
theorem exists_files (check : RiskCheck) (g : FixGateway) (session : FixSession)
    {req : NewOrderRequest} (htype : msg.msgType = FixMsgType.newOrderSingle)
    (hreq : newOrderRequest msg = .ok req) (hv : validate req = .ok ()) :
    ∃ order, (∀ o, Files g.om (g.handleNewOrderSingle check msg session).2.2.om o ↔ o = order) ∧
      order.type = req.type ∧ order.orderQty = req.quantity ∧ order.price = req.price := by
  obtain ⟨order, t, hrec, hterms⟩ := submitOrder_files check g.om hv
  refine ⟨order, fun o => ?_, hterms.type, hterms.orderQty, hterms.price⟩
  rw [handleNewOrderSingle_om, if_pos htype, hreq]
  exact hrec.files_iff

theorem valid_of_files {o : Order}
    (h : Files g.om (g.handleNewOrderSingle check msg session).2.2.om o) :
    msg.msgType = FixMsgType.newOrderSingle ∧
      ∃ req, newOrderRequest msg = .ok req ∧ validate req = .ok () := by
  rw [handleNewOrderSingle_om] at h
  by_cases htype : msg.msgType = FixMsgType.newOrderSingle
  · rw [if_pos htype] at h
    refine ⟨htype, ?_⟩
    cases hreq : newOrderRequest msg with
    | error err =>
      rw [hreq] at h
      exact absurd h not_files_self
    | ok req =>
      rw [hreq] at h
      refine ⟨req, rfl, ?_⟩
      cases hv : validate req with
      | error err =>
        dsimp only at h
        rw [submitOrder_invalid hv] at h
        exact absurd h not_files_self
      | ok u => rfl
  · rw [if_neg htype] at h
    exact absurd h not_files_self

theorem order_stated_iff (check : RiskCheck) (g : FixGateway) (msg : FixMessage)
    (session : FixSession) :
    (∀ o, Files g.om (g.handleNewOrderSingle check msg session).2.2.om o →
      msg.statedInt FixTag.orderQty = some o.orderQty ∧
        (o.type = .limit → msg.statedInt FixTag.price = some o.price)) ↔ StatesOrder msg := by
  constructor
  · intro h htype side type hside hord hqty hprice hsymbol
    have hreq := (newOrderRequest_ok_iff msg).mpr ⟨side, type, hside, hord, rfl⟩
    have hgood : ¬ Malformed (requestOf msg side type) := by
      rintro (hbad | ⟨hlimit, hbad⟩ | hbad)
      · exact absurd hqty (not_lt.mpr hbad)
      · exact absurd (hprice hlimit) (not_lt.mpr hbad)
      · exact hsymbol hbad
    obtain ⟨order, hfiles, ht, -⟩ := exists_files check g session htype hreq
      (validate_wellFormed hgood)
    obtain ⟨hstated, hlimit⟩ := h order ((hfiles order).mpr rfl)
    rw [ht] at hlimit
    exact ⟨Option.isSome_of_eq_some hstated, fun hl => Option.isSome_of_eq_some (hlimit hl)⟩
  · intro h o ho
    obtain ⟨htype, req, hreq, hv⟩ := valid_of_files ho
    obtain ⟨order, hfiles, ht, hq, hp⟩ := exists_files check g session htype hreq hv
    obtain rfl := (hfiles o).mp ho
    obtain ⟨side, type, hside, hord, rfl⟩ := (newOrderRequest_ok_iff msg).mp hreq
    obtain ⟨hqty, hprice, hsymbol⟩ := validate_ok hv
    obtain ⟨hwhole, hlimit⟩ := h htype side type hside hord hqty hprice hsymbol
    rw [ht, hq, hp]
    exact ⟨FixMessage.statedInt_eq_getInt hqty hwhole,
      fun hl => FixMessage.statedInt_eq_getInt (hprice hl) (hlimit hl)⟩

theorem cancel_stated_iff (g : FixGateway) (msg : FixMessage) (session : FixSession) :
    (∀ id, Cancels g.om (g.handleOrderCancelRequest msg session).2.2.om id →
      msg.statedNat FixTag.orderID = some id) ↔ StatesCancel g msg := by
  rw [handleOrderCancelRequest_om, StatesCancel]
  by_cases htype : msg.msgType = FixMsgType.orderCancelRequest
  · rw [if_pos htype]
    simp only [cancelOrder_cancels_iff]
    constructor
    · intro h _ hcancellable
      have hstated := h _ ⟨rfl, hcancellable⟩
      exact ⟨_, hstated, cancelOrderId_lt msg⟩
    · rintro h id ⟨rfl, hcancellable⟩
      obtain ⟨n, hn, hlt⟩ := h htype hcancellable
      rw [hn, cancelOrderId_of_stated msg hn hlt]
  · rw [if_neg htype]
    exact iff_of_true (fun id h => absurd h (not_cancels_of_orders rfl id))
      fun h => absurd h htype

end FixGateway

/-- An order for 100 and three quarters. -/
def fractionalQty : FixMessage :=
  ⟨[(FixTag.msgType, str "D"), (FixTag.clOrdID, str "C1"), (FixTag.symbol, str "AAPL"),
    (FixTag.side, str "1"), (FixTag.ordType, str "2"), (FixTag.orderQty, str "100.75"),
    (FixTag.price, str "1")]⟩

theorem fractionalQty_not_stated (session : FixSession) :
    ¬ freshGateway.ActsOnStated (RiskCheck.at 0) fractionalQty session := by
  intro h
  have hstated := (FixGateway.order_stated_iff _ _ _ _).mp h.order
  obtain ⟨hqty, -⟩ := hstated rfl .buy .limit rfl rfl (by decide) (fun _ => by decide) (by decide)
  exact absurd hqty (by decide)

theorem actsOnStated_fails : ¬ ∀ check g msg session, FixGateway.ActsOnStated check g msg session :=
  fun h => fractionalQty_not_stated (FixSession.new [] [] [] fun _ => []) (h _ _ _ _)

/-- The gateway acts on stated numbers only, unless it gets a value that merely starts with
a number where it would file an order of that number, or cancel the order of it. -/
theorem actsOnStated_iff (check : RiskCheck) (g : FixGateway) (msg : FixMessage)
    (session : FixSession) : g.ActsOnStated check msg session ↔
      FixGateway.StatesOrder msg ∧ FixGateway.StatesCancel g msg := by
  rw [← FixGateway.order_stated_iff check g msg session, ← FixGateway.cancel_stated_iff g msg session]
  constructor
  · rintro ⟨horder, hcancel, -⟩
    exact ⟨horder, hcancel⟩
  · rintro ⟨horder, hcancel⟩
    exact ⟨horder, hcancel, fun tag z hlo hhi => msg.getInt_setInt tag hlo hhi⟩

end Oems
