import Oems.FixGateway

namespace Oems

open Lib FixSession

structure Connection where
  session : FixSession
  gateway : FixGateway

namespace Connection

/-- A call on the session or on the gateway for it. In between, other sessions and
callers may leave the gateway in any state. -/
inductive Op where
  | session (op : FixSession.Op)
  | newOrderSingle (check : RiskCheck) (msg : FixMessage)
  | orderCancelRequest (msg : FixMessage)
  | elsewhere (gateway : FixGateway)

def answer (r : Result FixMessage × FixSession × FixGateway) :
    Result (Option FixMessage) × Connection :=
  (r.1.map some, ⟨r.2.1, r.2.2⟩)

def step (c : Connection) : Op → Result (Option FixMessage) × Connection
  | .session op => ((c.session.step op).1, { c with session := (c.session.step op).2 })
  | .newOrderSingle check msg => answer (c.gateway.handleNewOrderSingle check msg c.session)
  | .orderCancelRequest msg => answer (c.gateway.handleOrderCancelRequest msg c.session)
  | .elsewhere gateway => (.ok none, { c with gateway })

abbrev run (c : Connection) (ops : List Op) : Connection := (Machine.run step c ops).2

/-- What a call hands out: one message, or none when it gives an error or no response. -/
def handed : Result (Option FixMessage) → List FixMessage
  | .ok (some m) => [m]
  | .ok none => []
  | .error _ => []

theorem length_handed_le (res : Result (Option FixMessage)) : (handed res).length ≤ 1 := by
  obtain err | (_ | m) := res
  · exact Nat.zero_le 1
  · exact Nat.zero_le 1
  · exact Nat.le_refl 1

def sent (c : Connection) (ops : List Op) : List FixMessage :=
  (Machine.run step c ops).1.flatMap handed

theorem sent_cons (c : Connection) (op : Op) (ops : List Op) :
    c.sent (op :: ops) = handed (c.step op).1 ++ (c.step op).2.sent ops := by
  rw [sent, Machine.run, List.flatMap_cons, sent]

theorem session_hands (s : FixSession) (op : FixSession.Op) :
    Hands s (handed (s.step op).1) (s.step op).2 := by
  cases op with
  | onMessage msg =>
    obtain hres | ⟨resp, s', hres, hhands, -⟩ := s.onMessage_cases msg
    · rw [FixSession.step, hres]
      exact Hands.refl s
    · rw [FixSession.step, hres]
      cases resp with
      | none => exact hhands
      | some m => exact hhands
  | buildLogon heartbeatIntervalSec => exact stampOutbound_hands s _
  | buildHeartbeat testReqId => exact stampOutbound_hands s _
  | buildLogout text => exact stampOutbound_hands s _
  | stampOutbound msg => exact stampOutbound_hands s msg

theorem report_hands (g : FixGateway) (order : Order) (session : FixSession) (execType : Str) :
    Hands session
      (handed (answer (FixGateway.report (g.buildExecutionReport order session execType))).1)
      (answer (FixGateway.report (g.buildExecutionReport order session execType))).2.session :=
  stampOutbound_hands session _

theorem newOrderSingle_hands (check : RiskCheck) (g : FixGateway) (msg : FixMessage)
    (session : FixSession) :
    Hands session (handed (answer (g.handleNewOrderSingle check msg session)).1)
      (answer (g.handleNewOrderSingle check msg session)).2.session := by
  obtain ⟨err, hres⟩ | ⟨req, -, -, ⟨err, om, -, hres⟩ | ⟨order, om, -, hres⟩⟩ :=
    g.handleNewOrderSingle_cases check msg session
  · rw [hres]
    exact Hands.refl session
  · rw [hres]
    exact report_hands _ _ session _
  · rw [hres]
    exact report_hands _ _ session _

theorem orderCancelRequest_hands (g : FixGateway) (msg : FixMessage) (session : FixSession) :
    Hands session (handed (answer (g.handleOrderCancelRequest msg session)).1)
      (answer (g.handleOrderCancelRequest msg session)).2.session := by
  obtain ⟨err, om, hres⟩ | ⟨order, om, -, hres⟩ := g.handleOrderCancelRequest_cases msg session
  · rw [hres]
    exact Hands.refl session
  · rw [hres]
    exact report_hands _ _ session _

theorem step_hands (c : Connection) (op : Op) :
    Hands c.session (handed (c.step op).1) (c.step op).2.session := by
  cases op with
  | session op => exact session_hands c.session op
  | newOrderSingle check msg => exact newOrderSingle_hands check c.gateway msg c.session
  | orderCancelRequest msg => exact orderCancelRequest_hands c.gateway msg c.session
  | elsewhere gateway => exact Hands.refl c.session

theorem run_outboundSeq (c : Connection) (ops : List Op) :
    (c.run ops).session.outboundSeq = c.session.outboundSeq + (c.sent ops).length := by
  induction ops generalizing c with
  | nil => rfl
  | cons op ops ih =>
    rw [sent_cons, List.length_append, ← Nat.add_assoc, ← (c.step_hands op).outboundSeq]
    exact ih _

theorem sent_stamped (c : Connection) (ops : List Op) {k : ℕ} {m : FixMessage}
    (h : (c.sent ops)[k]? = some m) : Stamped c.session (c.session.outboundSeq + k + 1) m := by
  induction ops generalizing c k with
  | nil => cases h
  | cons op ops ih =>
    have hhands := c.step_hands op
    rw [sent_cons] at h
    by_cases hk : k < (handed (c.step op).1).length
    · rw [List.getElem?_append_left hk] at h
      obtain ⟨hone, hstamped⟩ := hhands.stamped m (List.mem_of_getElem? h)
      have hzero : k = 0 := by omega
      rw [hhands.outboundSeq, hone] at hstamped
      rw [hzero]
      exact hstamped
    · rw [List.getElem?_append_right (not_lt.mp hk)] at h
      obtain ⟨hbegin, hsender, htarget, hseq⟩ := ih _ h
      have hcount : (c.step op).2.session.outboundSeq + (k - (handed (c.step op).1).length) + 1 =
          c.session.outboundSeq + k + 1 := by
        rw [hhands.outboundSeq]
        omega
      rw [hcount] at hseq
      exact ⟨hbegin.trans (congrArg some hhands.beginString),
        hsender.trans (congrArg some hhands.sender),
        htarget.trans (congrArg some hhands.target), hseq⟩

end Connection

/-- Outbound numbering has no gaps: the messages handed out carry 1, 2, 3 and so on with
the session's header, and the number goes up with them alone. -/
theorem outbound_gapless (sender target beginString : Str) (times : ℕ → Str)
    (gateway : FixGateway) (ops : List Connection.Op) :
    (∀ k m, ((Connection.mk (FixSession.new sender target beginString times) gateway).sent
        ops)[k]? = some m →
      m.get FixTag.msgSeqNum = some (Decimal.ofNat (k + 1)) ∧
        m.get FixTag.beginString = some beginString ∧
        m.get FixTag.senderCompId = some sender ∧ m.get FixTag.targetCompId = some target) ∧
    ∀ pre op post, ops = pre ++ op :: post → ∀ c : Connection,
      c = (Connection.mk (FixSession.new sender target beginString times) gateway).run pre →
        (Connection.handed (c.step op).1).length ≤ 1 ∧
        (c.step op).2.session.outboundSeq =
          c.session.outboundSeq + (Connection.handed (c.step op).1).length ∧
        (Connection.handed (c.step op).1 = [] → (c.step op).2.session.times = c.session.times) := by
  constructor
  · intro k m h
    obtain ⟨hbegin, hsender, htarget, hseq⟩ := Connection.sent_stamped _ ops h
    change m.get FixTag.msgSeqNum = some (Decimal.ofNat (0 + k + 1)) at hseq
    rw [Nat.zero_add] at hseq
    exact ⟨hseq, hbegin, hsender, htarget⟩
  · intro pre op post _ c _
    have hhands := c.step_hands op
    exact ⟨Connection.length_handed_le _, hhands.outboundSeq, hhands.unstamped⟩

end Oems
