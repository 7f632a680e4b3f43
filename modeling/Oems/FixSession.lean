import Oems.FixMessage
import Oems.Lib.Machine

namespace Oems

open Lib

/-- The inbound number is an `std::uint64_t` that is taken from text, so it is
kept below 2^64. The outbound number only counts the messages sent. `times` are
the texts that `SendingTimeStr()` has still to return. -/
structure FixSession where
  beginString : Str
  sender : Str
  target : Str
  inboundSeq : ℕ
  outboundSeq : ℕ
  loggedOn : Bool
  times : ℕ → Str

namespace FixSession

def new (sender target beginString : Str) (times : ℕ → Str) : FixSession :=
  ⟨beginString, sender, target, 0, 0, false, times⟩

def header (s : FixSession) (msg : FixMessage) : FixMessage :=
  ((((msg.set FixTag.beginString s.beginString).set FixTag.senderCompId s.sender).set
    FixTag.targetCompId s.target).setInt FixTag.msgSeqNum s.outboundSeq).set
      FixTag.sendingTime (s.times 0)

def stampOutbound (s : FixSession) (msg : FixMessage) : FixMessage × FixSession :=
  let s := { s with outboundSeq := s.outboundSeq + 1 }
  (s.header msg, { s with times := fun k => s.times (k + 1) })

def buildLogon (s : FixSession) (heartbeatIntervalSec : ℤ) : FixMessage × FixSession :=
  s.stampOutbound (((FixMessage.empty.set FixTag.msgType FixMsgType.logon).setInt
    FixTag.encryptMethod 0).setInt FixTag.heartBtInt heartbeatIntervalSec)

def buildHeartbeat (s : FixSession) (testReqId : Str) : FixMessage × FixSession :=
  let m := FixMessage.empty.set FixTag.msgType FixMsgType.heartbeat
  s.stampOutbound (if testReqId = [] then m else m.set FixTag.testReqID testReqId)

def buildLogout (s : FixSession) (text : Str) : FixMessage × FixSession :=
  let m := FixMessage.empty.set FixTag.msgType FixMsgType.logout
  s.stampOutbound (if text = [] then m else m.set FixTag.text text)

/-- The number of a message, converted from signed to unsigned. -/
def incomingSeq (msg : FixMessage) : ℕ := (msg.getInt FixTag.msgSeqNum % 2 ^ 64).toNat

def reply (r : FixMessage × FixSession) : Result (Option FixMessage) × FixSession :=
  (.ok (some r.1), r.2)

def onMessage (s : FixSession) (msg : FixMessage) : Result (Option FixMessage) × FixSession :=
  if ¬ s.loggedOn then
    if msg.msgType ≠ FixMsgType.logon then (.error .fixSessionError, s)
    else
      let inboundSeq := if incomingSeq msg > 0 then incomingSeq msg else 1
      reply ({ s with inboundSeq, loggedOn := true }.buildLogon 30)
  else if incomingSeq msg ≠ (s.inboundSeq + 1) % 2 ^ 64 then (.error .fixSessionError, s)
  else
    let s := { s with inboundSeq := incomingSeq msg }
    if msg.msgType = FixMsgType.heartbeat then (.ok none, s)
    else if msg.msgType = FixMsgType.testRequest then
      reply (s.buildHeartbeat ((msg.get FixTag.testReqID).getD []))
    else if msg.msgType = FixMsgType.logout then
      reply ({ s with loggedOn := false }.buildLogout (str "ack"))
    else (.ok none, s)

inductive Op where
  | onMessage (msg : FixMessage)
  | buildLogon (heartbeatIntervalSec : ℤ)
  | buildHeartbeat (testReqId : Str)
  | buildLogout (text : Str)
  | stampOutbound (msg : FixMessage)

def step (s : FixSession) : Op → Result (Option FixMessage) × FixSession
  | .onMessage msg => s.onMessage msg
  | .buildLogon heartbeatIntervalSec => reply (s.buildLogon heartbeatIntervalSec)
  | .buildHeartbeat testReqId => reply (s.buildHeartbeat testReqId)
  | .buildLogout text => reply (s.buildLogout text)
  | .stampOutbound msg => reply (s.stampOutbound msg)

abbrev run (s : FixSession) (ops : List Op) : FixSession := (Machine.run step s ops).2

/-- A message carries the session's header and a number. -/
structure Stamped (s : FixSession) (seq : ℕ) (m : FixMessage) : Prop where
  beginString : m.get FixTag.beginString = some s.beginString
  sender : m.get FixTag.senderCompId = some s.sender
  target : m.get FixTag.targetCompId = some s.target
  msgSeqNum : m.get FixTag.msgSeqNum = some (Decimal.ofNat seq)

/-- What a call does to the outbound side of a session when it hands out `sent`. -/
structure Hands (s : FixSession) (sent : List FixMessage) (s' : FixSession) : Prop where
  beginString : s'.beginString = s.beginString
  sender : s'.sender = s.sender
  target : s'.target = s.target
  outboundSeq : s'.outboundSeq = s.outboundSeq + sent.length
  stamped : ∀ m ∈ sent, sent.length = 1 ∧ Stamped s s'.outboundSeq m
  unstamped : sent = [] → s'.times = s.times

variable {s s' : FixSession}

theorem header_stamped (s : FixSession) (msg : FixMessage) :
    Stamped s s.outboundSeq (s.header msg) where
  beginString := by
    simp only [header, FixMessage.setInt, FixMessage.get_set]
    rfl
  sender := by
    simp only [header, FixMessage.setInt, FixMessage.get_set]
    rfl
  target := by
    simp only [header, FixMessage.setInt, FixMessage.get_set]
    rfl
  msgSeqNum := by
    simp only [header, FixMessage.setInt, FixMessage.get_set]
    rfl

theorem Hands.refl (s : FixSession) : Hands s [] s :=
  ⟨rfl, rfl, rfl, rfl, by simp, fun _ => rfl⟩

theorem stampOutbound_hands (s : FixSession) (msg : FixMessage) :
    Hands s [(s.stampOutbound msg).1] (s.stampOutbound msg).2 where
  beginString := rfl
  sender := rfl
  target := rfl
  outboundSeq := rfl
  stamped := by
    intro m hm
    rw [List.mem_singleton.mp hm]
    obtain ⟨hbegin, hsender, htarget, hseq⟩ :=
      header_stamped { s with outboundSeq := s.outboundSeq + 1 } msg
    exact ⟨rfl, hbegin, hsender, htarget, hseq⟩
  unstamped h := absurd h (List.cons_ne_nil _ _)

theorem Hands.of_inbound {sent : List FixMessage} {inboundSeq : ℕ} {loggedOn : Bool}
    (h : Hands { s with inboundSeq, loggedOn } sent s') : Hands s sent s' := by
  refine ⟨h.beginString, h.sender, h.target, h.outboundSeq, fun m hm => ?_, h.unstamped⟩
  obtain ⟨hone, hbegin, hsender, htarget, hseq⟩ := h.stamped m hm
  exact ⟨hone, hbegin, hsender, htarget, hseq⟩

/-- Every outcome of `OnMessage`: an error that changes nothing, a Logon that opens
the session, or a message in sequence. -/
theorem onMessage_cases (s : FixSession) (msg : FixMessage) :
    s.onMessage msg = (.error .fixSessionError, s) ∨
    ∃ resp s', s.onMessage msg = (.ok resp, s') ∧ Hands s resp.toList s' ∧
      ((s.loggedOn = false ∧ msg.msgType = FixMsgType.logon ∧ s'.loggedOn = true ∧
          s'.inboundSeq = if incomingSeq msg > 0 then incomingSeq msg else 1) ∨
        (s.loggedOn = true ∧ incomingSeq msg = (s.inboundSeq + 1) % 2 ^ 64 ∧
          s'.inboundSeq = incomingSeq msg ∧
          (s'.loggedOn = true ↔ msg.msgType ≠ FixMsgType.logout))) := by
  rw [onMessage]
  cases hon : s.loggedOn with
  | false =>
    rw [if_pos Bool.false_ne_true]
    by_cases hlogon : msg.msgType = FixMsgType.logon
    · rw [if_neg (not_not.mpr hlogon)]
      refine Or.inr ⟨_, _, rfl, ?_, Or.inl ⟨rfl, hlogon, rfl, rfl⟩⟩
      exact (stampOutbound_hands _ _).of_inbound
    · exact Or.inl (if_pos hlogon)
  | true =>
    rw [if_neg (not_not.mpr rfl)]
    by_cases hseq : incomingSeq msg = (s.inboundSeq + 1) % 2 ^ 64
    · rw [if_neg (not_not.mpr hseq)]
      refine Or.inr ?_
      by_cases hheartbeat : msg.msgType = FixMsgType.heartbeat
      · have hnot : FixMsgType.heartbeat ≠ FixMsgType.logout := by decide
        rw [if_pos hheartbeat, hheartbeat]
        exact ⟨_, _, rfl, (Hands.refl _).of_inbound,
          Or.inr ⟨rfl, hseq, rfl, iff_of_true rfl hnot⟩⟩
      · rw [if_neg hheartbeat]
        by_cases htest : msg.msgType = FixMsgType.testRequest
        · have hnot : FixMsgType.testRequest ≠ FixMsgType.logout := by decide
          rw [if_pos htest, htest]
          exact ⟨_, _, rfl, (stampOutbound_hands _ _).of_inbound,
            Or.inr ⟨rfl, hseq, rfl, iff_of_true rfl hnot⟩⟩
        · rw [if_neg htest]
          by_cases hlogout : msg.msgType = FixMsgType.logout
          · rw [if_pos hlogout]
            exact ⟨_, _, rfl, (stampOutbound_hands _ _).of_inbound,
              Or.inr ⟨rfl, hseq, rfl, iff_of_false Bool.false_ne_true (not_not.mpr hlogout)⟩⟩
          · rw [if_neg hlogout]
            exact ⟨_, _, rfl, (Hands.refl _).of_inbound,
              Or.inr ⟨rfl, hseq, rfl, iff_of_true rfl hlogout⟩⟩
    · exact Or.inl (if_pos hseq)

end FixSession

end Oems
