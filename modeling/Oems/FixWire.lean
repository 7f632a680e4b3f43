import Oems.FixLink
import Oems.ReportForgery

namespace Oems

open Lib FixSession

namespace FixMessage

theorem framed_get (m : FixMessage) (trailer : Str) {tag : ℤ} (h : isFramed tag = false) :
    (m.framed trailer).get tag = m.get tag := by
  have hnot : FixTag.beginString ≠ tag ∧ FixTag.bodyLength ≠ tag ∧ FixTag.msgType ≠ tag ∧
      FixTag.checkSum ≠ tag := by
    refine ⟨?_, ?_, ?_, ?_⟩ <;> rintro rfl <;> exact absurd h (by decide)
  obtain ⟨h8, h9, h35, h10⟩ := hnot
  have hothers : ∀ fields : List (ℤ × Str), get ⟨(fields.filter fun f => ¬ isFramed f.1) ++
      [(FixTag.checkSum, trailer)]⟩ tag = get ⟨fields⟩ tag := by
    intro fields
    induction fields with
    | nil => exact (get_cons _ _ _).trans (if_neg h10)
    | cons f fields ih =>
      rw [get_cons]
      by_cases hf : isFramed f.1
      · have hne : f.1 ≠ tag := by
          rintro rfl
          rw [hf] at h
          cases h
        rw [if_neg hne, List.filter_cons_of_neg (by simpa using hf)]
        exact ih
      · rw [List.filter_cons_of_pos (by simpa using hf), List.cons_append, get_cons, ih]
  rw [framed, get_cons, if_neg h8, get_cons, if_neg h9, get_cons, if_neg h35]
  exact hothers m.fields

theorem framed_getInt (m : FixMessage) (trailer : Str) {tag : ℤ} (h : isFramed tag = false) :
    (m.framed trailer).getInt tag = m.getInt tag := by
  rw [getInt, framed_get m trailer h, getInt]

theorem framed_msgType (m : FixMessage) (trailer : Str) : (m.framed trailer).msgType = m.mtype := rfl

theorem mtype_eq_iff (m : FixMessage) {type : Str} (hnil : type ≠ [])
    (hheartbeat : type ≠ FixMsgType.heartbeat) : m.mtype = type ↔ m.msgType = type := by
  rw [mtype, msgType]
  cases m.get FixTag.msgType with
  | none => exact iff_of_false (Ne.symm hheartbeat) (Ne.symm hnil)
  | some v => exact Iff.rfl

end FixMessage

theorem onMessage_framed (s : FixSession) (m : FixMessage) (trailer : Str) :
    s.onMessage (m.framed trailer) = s.onMessage m := by
  have hseq : incomingSeq (m.framed trailer) = incomingSeq m := by
    rw [incomingSeq, incomingSeq, m.framed_getInt trailer (by decide)]
  have htest : (m.framed trailer).get FixTag.testReqID = m.get FixTag.testReqID :=
    m.framed_get trailer (by decide)
  have htype := m.framed_msgType trailer
  cases hget : m.get FixTag.msgType with
  | some v =>
    have hsame : m.mtype = m.msgType := by rw [FixMessage.mtype, FixMessage.msgType, hget]; rfl
    rw [onMessage, onMessage, hseq, htest, htype, hsame]
  | none =>
    -- no type at all and the type of a Heartbeat are both without consequence
    have hmtype : m.mtype = FixMsgType.heartbeat := by rw [FixMessage.mtype, hget]; rfl
    have hmsgType : m.msgType = [] := by rw [FixMessage.msgType, hget]; rfl
    have hlogon : FixMsgType.heartbeat ≠ FixMsgType.logon ∧ [] ≠ FixMsgType.logon := by decide
    have hother : [] ≠ FixMsgType.heartbeat ∧ [] ≠ FixMsgType.testRequest ∧
      [] ≠ FixMsgType.logout := by decide
    rw [onMessage, onMessage, hseq, htype, hmtype, hmsgType, if_pos hlogon.1, if_pos hlogon.2,
      if_pos rfl, if_neg hother.1, if_neg hother.2.1, if_neg hother.2.2]

theorem newOrderRequest_framed (m : FixMessage) (trailer : Str) :
    FixGateway.newOrderRequest (m.framed trailer) = FixGateway.newOrderRequest m := by
  rw [FixGateway.newOrderRequest, FixGateway.newOrderRequest, m.framed_get trailer (by decide),
    m.framed_get trailer (by decide), m.framed_get trailer (by decide),
    m.framed_get trailer (by decide), m.framed_getInt trailer (by decide),
    m.framed_getInt trailer (by decide)]

theorem handleNewOrderSingle_framed (check : RiskCheck) (g : FixGateway) (m : FixMessage)
    (trailer : Str) (session : FixSession) :
    g.handleNewOrderSingle check (m.framed trailer) session =
      g.handleNewOrderSingle check m session := by
  have htype : (m.framed trailer).msgType = FixMsgType.newOrderSingle ↔
      m.msgType = FixMsgType.newOrderSingle := m.mtype_eq_iff (by decide) (by decide)
  rw [FixGateway.handleNewOrderSingle, FixGateway.handleNewOrderSingle, newOrderRequest_framed]
  simp only [ne_eq, htype]

theorem handleOrderCancelRequest_framed (g : FixGateway) (m : FixMessage) (trailer : Str)
    (session : FixSession) :
    g.handleOrderCancelRequest (m.framed trailer) session =
      g.handleOrderCancelRequest m session := by
  have htype : (m.framed trailer).msgType = FixMsgType.orderCancelRequest ↔
      m.msgType = FixMsgType.orderCancelRequest := m.mtype_eq_iff (by decide) (by decide)
  have hid : FixGateway.cancelOrderId (m.framed trailer) = FixGateway.cancelOrderId m := by
    rw [FixGateway.cancelOrderId, FixGateway.cancelOrderId, m.framed_get trailer (by decide)]
  rw [FixGateway.handleOrderCancelRequest, FixGateway.handleOrderCancelRequest, hid]
  simp only [ne_eq, htype]

/-- A message and what a receiver reads from the bytes that it is written as. -/
def Carried (m m' : FixMessage) : Prop :=
  m.WellFormed ∧
    (FixMessage.parse m.serialize = .ok m' ∨ FixMessage.parseStrict m.serialize = .ok m')

theorem Carried.exists_framed {m m' : FixMessage} (h : Carried m m') :
    ∃ trailer, m' = m.framed trailer := by
  obtain ⟨hm, hread⟩ := h
  obtain ⟨L⟩ := hm.exists_layout
  have hparse : FixMessage.parse m.serialize = .ok m' :=
    hread.elim id fun hstrict => (parseStrict_eq_ok_iff.mp hstrict).1
  exact ⟨_, Except.ok.inj (hparse.symm.trans L.parse)⟩

theorem FixMessage.WellFormed.exists_carried {m : FixMessage} (hm : m.WellFormed) :
    ∃ m', Carried m m' := by
  obtain ⟨L⟩ := hm.exists_layout
  exact ⟨_, hm, Or.inl L.parse⟩

namespace Connection

/-- A call with a message, and the call with what comes out of the bytes of the message. -/
inductive Carries : Op → Op → Prop
  | onMessage {m m' : FixMessage} (h : Carried m m') :
      Carries (.session (.onMessage m)) (.session (.onMessage m'))
  | newOrderSingle {check : RiskCheck} {m m' : FixMessage} (h : Carried m m') :
      Carries (.newOrderSingle check m) (.newOrderSingle check m')
  | orderCancelRequest {m m' : FixMessage} (h : Carried m m') :
      Carries (.orderCancelRequest m) (.orderCancelRequest m')
  | own (op : Op) : Carries op op

theorem step_carried (c : Connection) {op op' : Op} (h : Carries op op') :
    c.step op' = c.step op := by
  cases h with
  | onMessage h =>
    obtain ⟨trailer, rfl⟩ := h.exists_framed
    rw [step, step, FixSession.step, FixSession.step, onMessage_framed]
  | newOrderSingle h =>
    obtain ⟨trailer, rfl⟩ := h.exists_framed
    rw [step, step, handleNewOrderSingle_framed]
  | orderCancelRequest h =>
    obtain ⟨trailer, rfl⟩ := h.exists_framed
    rw [step, step, handleOrderCancelRequest_framed]
  | own op => rfl

end Connection

/-- A session and a gateway do with what they read from bytes what they do with the messages
themselves: the results, the order manager and the sequence numbers of a run are the same. -/
theorem wire_transparent (c : Connection) {ops ops' : List Connection.Op}
    (h : List.Forall₂ Connection.Carries ops ops') :
    Machine.run Connection.step c ops' = Machine.run Connection.step c ops := by
  induction h generalizing c with
  | nil => rfl
  | cons hop _ ih => rw [Machine.run, Machine.run, Connection.step_carried c hop, ih]

def openingMessages : FixMessage × FixMessage :=
  (⟨[(35, str "A"), (34, str "1")]⟩,
    ⟨[(35, str "D"), (34, str "2"), (11, str "C1"), (55, str "AAPL"), (54, str "1"), (40, str "2"),
      (38, str "5"), (44, str "100")]⟩)

def freshConnection : Connection :=
  ⟨counterparty,
    FixGateway.new (OrderManager.new (RiskManager.new RiskLimits.default) MatchingEngine.new none
      fun _ => 0)⟩

theorem opening_transparent : ∃ logon order,
    Carried openingMessages.1 logon ∧ Carried openingMessages.2 order ∧
    Machine.run Connection.step freshConnection
        [.session (.onMessage logon), .newOrderSingle (RiskCheck.at 0) order] =
      Machine.run Connection.step freshConnection
        [.session (.onMessage openingMessages.1),
          .newOrderSingle (RiskCheck.at 0) openingMessages.2] := by
  obtain ⟨logon, hlogon⟩ := FixMessage.WellFormed.exists_carried (m := openingMessages.1) (by decide)
  obtain ⟨order, horder⟩ := FixMessage.WellFormed.exists_carried (m := openingMessages.2) (by decide)
  exact ⟨logon, order, hlogon, horder,
    wire_transparent freshConnection (.cons (.onMessage hlogon) (.cons (.newOrderSingle horder) .nil))⟩

theorem mem_setField {tag : ℤ} {value : Str} {fields : List (ℤ × Str)} {f : ℤ × Str}
    (h : f ∈ FixMessage.setField tag value fields) : f = (tag, value) ∨ f ∈ fields := by
  induction fields with
  | nil => exact Or.inl (List.mem_singleton.mp h)
  | cons x fields ih =>
    rw [FixMessage.setField] at h
    split at h
    case isTrue hx =>
      obtain rfl | h := List.mem_cons.mp h
      · exact Or.inl (hx ▸ rfl)
      · exact Or.inr (List.mem_cons_of_mem x h)
    case isFalse =>
      obtain rfl | h := List.mem_cons.mp h
      · exact Or.inr List.mem_cons_self
      · exact (ih h).imp id (List.mem_cons_of_mem x)

theorem FixMessage.WellFormed.set {m : FixMessage} (hm : m.WellFormed) {tag : ℤ} {value : Str}
    (htag : 0 < tag ∧ tag < 2 ^ 31) (h : soh ∉ value) : (m.set tag value).WellFormed := by
  intro f hf
  obtain rfl | hf := mem_setField hf
  · exact ⟨htag.1, htag.2, h⟩
  · exact hm f hf

theorem FixMessage.WellFormed.setInt {m : FixMessage} (hm : m.WellFormed) {tag : ℤ} (z : ℤ)
    (htag : 0 < tag ∧ tag < 2 ^ 31) : (m.setInt tag z).WellFormed :=
  hm.set htag (soh_notMem_ofInt z)

theorem FixMessage.wellFormed_empty : FixMessage.empty.WellFormed := fun _ hf => by cases hf

namespace FixLink

/-- A session whose texts can be written into a message. -/
structure Plain (s : FixSession) : Prop where
  beginString : soh ∉ s.beginString
  sender : soh ∉ s.sender
  target : soh ∉ s.target
  times : ∀ k, soh ∉ s.times k

def Send.Plain : Send → Prop
  | .logon _ => True
  | .heartbeat testReqId => soh ∉ testReqId
  | .logout text => soh ∉ text
  | .stamp msg => msg.WellFormed

/-- A session that reads and writes bytes. -/
def wireParty : Link.Party FixSession Send Str (Result (Option FixMessage)) where
  call s i := ((party.call s i).1.map FixMessage.serialize, (party.call s i).2)
  receive s raw :=
    match FixMessage.parse raw with
    | .error err => ((.error err, []), s)
    | .ok m => (((party.receive s m).1.1, (party.receive s m).1.2.map FixMessage.serialize),
        (party.receive s m).2)

/-- The invariant of a session on a link of bytes, with the messages that it hands out. -/
structure Writes (sent : List FixMessage) (s : FixSession) : Prop where
  plain : Plain s
  wellFormed : ∀ m ∈ sent, m.WellFormed

theorem Plain.of_inbound {s : FixSession} (h : Plain s) (inboundSeq : ℕ) (loggedOn : Bool) :
    Plain { s with inboundSeq, loggedOn } := ⟨h.beginString, h.sender, h.target, h.times⟩

theorem Plain.writes_nothing {s : FixSession} (h : Plain s) : Writes [] s :=
  ⟨h, fun _ hm => by cases hm⟩

theorem Plain.stampOutbound {s : FixSession} (h : Plain s) {m : FixMessage} (hm : m.WellFormed) :
    Writes [(s.stampOutbound m).1] (s.stampOutbound m).2 where
  plain := ⟨h.beginString, h.sender, h.target, fun k => h.times (k + 1)⟩
  wellFormed := by
    intro x hx
    rw [List.mem_singleton.mp hx]
    exact (((((hm.set (by decide) h.beginString).set (by decide) h.sender).set (by decide)
      h.target).setInt _ (by decide)).set (by decide) (h.times 0))

theorem Plain.buildLogon {s : FixSession} (h : Plain s) (heartbeatIntervalSec : ℤ) :
    Writes [(s.buildLogon heartbeatIntervalSec).1] (s.buildLogon heartbeatIntervalSec).2 := by
  apply h.stampOutbound
  apply FixMessage.WellFormed.setInt _ _ (by decide)
  apply FixMessage.WellFormed.setInt _ _ (by decide)
  exact FixMessage.wellFormed_empty.set (by decide) (by decide)

theorem Plain.buildHeartbeat {s : FixSession} (h : Plain s) {testReqId : Str}
    (hid : soh ∉ testReqId) :
    Writes [(s.buildHeartbeat testReqId).1] (s.buildHeartbeat testReqId).2 := by
  apply h.stampOutbound
  have hempty : (FixMessage.empty.set FixTag.msgType FixMsgType.heartbeat).WellFormed :=
    FixMessage.wellFormed_empty.set (by decide) (by decide)
  split
  · exact hempty
  · exact hempty.set (by decide) hid

theorem Plain.buildLogout {s : FixSession} (h : Plain s) {text : Str} (htext : soh ∉ text) :
    Writes [(s.buildLogout text).1] (s.buildLogout text).2 := by
  apply h.stampOutbound
  have hempty : (FixMessage.empty.set FixTag.msgType FixMsgType.logout).WellFormed :=
    FixMessage.wellFormed_empty.set (by decide) (by decide)
  split
  · exact hempty
  · exact hempty.set (by decide) htext

theorem Plain.call {s : FixSession} (h : Plain s) {i : Send} (hi : i.Plain) :
    Writes (party.call s i).1 (party.call s i).2 := by
  cases i with
  | logon heartbeatIntervalSec => exact h.buildLogon heartbeatIntervalSec
  | heartbeat testReqId => exact h.buildHeartbeat hi
  | logout text => exact h.buildLogout hi
  | stamp msg => exact h.stampOutbound hi

theorem Plain.receive {s : FixSession} (h : Plain s) {m : FixMessage} (hm : m.WellFormed) :
    Writes (party.receive s m).1.2 (party.receive s m).2 := by
  have htest : soh ∉ (m.get FixTag.testReqID).getD [] := by
    cases hget : m.get FixTag.testReqID with
    | none => exact List.not_mem_nil
    | some v => exact hm.get hget
  change Writes (Connection.handed (s.onMessage m).1) (s.onMessage m).2
  rw [onMessage]
  split
  · split
    · exact h.writes_nothing
    · exact (h.of_inbound _ _).buildLogon 30
  · split
    · exact h.writes_nothing
    · have hnext := h.of_inbound (incomingSeq m) s.loggedOn
      dsimp only
      split
      · exact hnext.writes_nothing
      · split
        · exact hnext.buildHeartbeat htest
        · split
          · exact (hnext.of_inbound _ false).buildLogout (by decide)
          · exact hnext.writes_nothing

theorem wireParty_codes :
    Link.Codes party wireParty FixMessage.serialize Plain FixMessage.WellFormed Send.Plain where
  call := fun s i hs hi => ⟨rfl, (hs.call hi).plain, (hs.call hi).wellFormed⟩
  receive := by
    intro s m hs hm
    obtain ⟨L⟩ := hm.exists_layout
    refine ⟨?_, (hs.receive hm).plain, (hs.receive hm).wellFormed⟩
    have hsame : party.receive s (m.framed (FixMessage.threeDigits
        (computeCheckSum m.withoutChecksum))) = party.receive s m := by
      change ((_, Connection.handed (s.onMessage _).1), (s.onMessage _).2) = _
      rw [onMessage_framed]
      rfl
    simp only [wireParty, L.parse, hsame]

def connectWire (sender target beginString : Str) (times : Link.Side → ℕ → Str) :
    Link.State FixSession Str
  | .left => ⟨FixSession.new sender target beginString (times .left), []⟩
  | .right => ⟨FixSession.new target sender beginString (times .right), []⟩

end FixLink

/-- Two sessions that exchange bytes run as two that exchange messages: over any calls and
deliveries each makes the same of what it gets, and what is under way are the bytes of what
is under way between the other two. -/
theorem wire_link_runs (sender target beginString : Str) (times : Link.Side → ℕ → Str)
    (htexts : soh ∉ sender ∧ soh ∉ target ∧ soh ∉ beginString ∧ ∀ side k, soh ∉ times side k)
    (events : List FixLink.Event) (hevents : ∀ e ∈ events, e.Makes FixLink.Send.Plain) :
    List.Forall₂ (Link.Seen.Coded FixMessage.serialize)
        (Machine.run (Link.step FixLink.party)
          (FixLink.connect sender target beginString times) events).1
        (Machine.run (Link.step FixLink.wireParty)
          (FixLink.connectWire sender target beginString times) events).1 ∧
      ∀ side, (Link.run FixLink.wireParty
            (FixLink.connectWire sender target beginString times) events side).party =
          (FixLink.run (FixLink.connect sender target beginString times) events side).party ∧
        (Link.run FixLink.wireParty
            (FixLink.connectWire sender target beginString times) events side).inbox =
          (FixLink.run (FixLink.connect sender target beginString times) events side).inbox.map
            FixMessage.serialize := by
  obtain ⟨hsender, htarget, hbegin, htimes⟩ := htexts
  have hstart : (FixLink.connect sender target beginString times).Coded FixMessage.serialize
      FixLink.Plain FixMessage.WellFormed (FixLink.connectWire sender target beginString times) := by
    intro side
    cases side with
    | left => exact ⟨rfl, rfl, ⟨hbegin, hsender, htarget, htimes .left⟩, fun _ hm => by cases hm⟩
    | right => exact ⟨rfl, rfl, ⟨hbegin, htarget, hsender, htimes .right⟩, fun _ hm => by cases hm⟩
  obtain ⟨hseen, hend⟩ := FixLink.wireParty_codes.run hstart hevents
  exact ⟨hseen, fun side => ⟨(hend side).party, (hend side).inbox⟩⟩

theorem wire_handshake_runs :
    List.Forall₂ (Link.Seen.Coded FixMessage.serialize)
        (Machine.run (Link.step FixLink.party) (FixLink.connect (str "OEMS") (str "CPTY")
          (str "FIX.4.4") fun _ _ => str "20260101-00:00:00.000") handshake).1
        (Machine.run (Link.step FixLink.wireParty) (FixLink.connectWire (str "OEMS") (str "CPTY")
          (str "FIX.4.4") fun _ _ => str "20260101-00:00:00.000") handshake).1 :=
  (wire_link_runs (str "OEMS") (str "CPTY") (str "FIX.4.4") (fun _ _ => str "20260101-00:00:00.000")
    ⟨by decide, by decide, by decide, fun _ _ => by decide⟩ handshake
    (by
      intro e he
      simp only [handshake, List.mem_cons, List.not_mem_nil, or_false] at he
      obtain rfl | rfl | rfl := he <;> trivial)).1

end Oems
