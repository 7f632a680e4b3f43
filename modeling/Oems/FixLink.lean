import Oems.Lib.Link
import Oems.InboundSequence
import Oems.OutboundSequence
import Oems.FixNumbers

namespace Oems

open Lib FixSession

namespace FixLink

inductive Send where
  | logon (heartbeatIntervalSec : ℤ)
  | heartbeat (testReqId : Str)
  | logout (text : Str)
  | stamp (msg : FixMessage)

def Send.op : Send → FixSession.Op
  | .logon heartbeatIntervalSec => .buildLogon heartbeatIntervalSec
  | .heartbeat testReqId => .buildHeartbeat testReqId
  | .logout text => .buildLogout text
  | .stamp msg => .stampOutbound msg

/-- A session as a party of a link. What it builds goes out, and a response goes out. -/
def party : Link.Party FixSession Send FixMessage (Result (Option FixMessage)) where
  call s i := (Connection.handed (s.step i.op).1, (s.step i.op).2)
  receive s m := (((s.onMessage m).1, Connection.handed (s.onMessage m).1), (s.onMessage m).2)

abbrev State := Link.State FixSession FixMessage

abbrev Event := Link.Event Send

abbrev run (l : State) (events : List Event) : State := Link.run party l events

/-- What a run shows of both sides. -/
abbrev seen (l : State) (events : List Event) :
    List (Link.Seen FixMessage (Result (Option FixMessage))) := (Machine.run (Link.step party) l events).1

def connect (sender target beginString : Str) (times : Link.Side → ℕ → Str) : State
  | .left => ⟨FixSession.new sender target beginString (times .left), []⟩
  | .right => ⟨FixSession.new target sender beginString (times .right), []⟩

def got (side : Link.Side) (l : State) (events : List Event) : List FixMessage :=
  (Link.gotBy side (seen l events)).map Prod.fst

def taken (side : Link.Side) (l : State) (events : List Event) : List FixMessage :=
  ((Link.gotBy side (seen l events)).filter fun x => x.2.toBool).map Prod.fst

/-- A session that looks at no number takes every message while it is logged on, and a
Logon while it is not. -/
def hears (on : Bool) (m : FixMessage) : Bool := on || m.msgType = FixMsgType.logon

def stays (on : Bool) (m : FixMessage) : Bool := hears on m && m.msgType ≠ FixMsgType.logout

def heard : Bool → List FixMessage → List FixMessage
  | _, [] => []
  | on, m :: q => if hears on m then m :: heard (stays on m) q else heard (stays on m) q

def Numbered : ℕ → List FixMessage → Prop
  | _, [] => True
  | n, m :: q => m.get FixTag.msgSeqNum = some (Decimal.ofNat (n + 1)) ∧ Numbered (n + 1) q

/-- The messages under way are the last that the sender has sent, and the receiver, if
logged on, stands before the first of them. -/
def InStep (s : FixSession) (q : List FixMessage) (r : FixSession) : Prop :=
  s.outboundSeq < 2 ^ 63 →
    ∃ n, s.outboundSeq = n + q.length ∧ Numbered n q ∧ (r.loggedOn = true → r.inboundSeq = n)

theorem Numbered.append {n : ℕ} {q q' : List FixMessage} (h : Numbered n q)
    (h' : Numbered (n + q.length) q') : Numbered n (q ++ q') := by
  induction q generalizing n with
  | nil => exact h'
  | cons m q ih =>
    have hcount : n + (m :: q).length = n + 1 + q.length := by
      rw [List.length_cons]
      omega
    exact ⟨h.1, ih h.2 (hcount ▸ h')⟩

theorem Numbered.of_hands {s s' : FixSession} {sent : List FixMessage} (h : Hands s sent s') :
    Numbered s.outboundSeq sent := by
  cases sent with
  | nil => trivial
  | cons m q =>
    obtain ⟨hone, hstamped⟩ := h.stamped m List.mem_cons_self
    have hq : q = [] := by
      rw [List.length_cons] at hone
      exact List.eq_nil_of_length_eq_zero (by omega)
    subst hq
    have hseq := h.outboundSeq
    rw [List.length_singleton] at hseq
    refine ⟨?_, trivial⟩
    rw [← hseq]
    exact hstamped.msgSeqNum

theorem call_hands (s : FixSession) (i : Send) :
    Hands s (party.call s i).1 (party.call s i).2 :=
  Connection.session_hands s i.op

theorem receive_hands (s : FixSession) (m : FixMessage) :
    Hands s (party.receive s m).1.2 (party.receive s m).2 :=
  Connection.session_hands s (.onMessage m)

theorem call_inbound (s : FixSession) (i : Send) :
    (party.call s i).2.loggedOn = s.loggedOn ∧ (party.call s i).2.inboundSeq = s.inboundSeq := by
  cases i <;> exact ⟨rfl, rfl⟩

theorem incomingSeq_of_numbered {n : ℕ} {m : FixMessage}
    (h : m.get FixTag.msgSeqNum = some (Decimal.ofNat n)) (hn : n < 2 ^ 63) :
    incomingSeq m = n := by
  have hread : m.getInt FixTag.msgSeqNum = n := by
    have htext := FixMessage.fromCharsInt64_of_toInt? (Decimal.toInt?_ofInt n) (by omega) (by omega)
    rw [FixMessage.getInt, h, Option.bind_some]
    exact congrArg (Option.getD · 0) htext
  have hsame : (incomingSeq m : ℤ) = m.getInt FixTag.msgSeqNum := incomingSeq_eq (by omega)
  omega

def answerType (on : Bool) (m : FixMessage) : Option Str :=
  if on = false then some FixMsgType.logon
  else if m.msgType = FixMsgType.testRequest then some FixMsgType.heartbeat
  else if m.msgType = FixMsgType.logout then some FixMsgType.logout
  else none

theorem stays_true {m : FixMessage} {type : Str} (h : m.msgType = type)
    (hne : type ≠ FixMsgType.logout) : stays true m = true := by
  rw [stays, hears, Bool.true_or, Bool.true_and, decide_eq_true_eq, h]
  exact hne

structure Takes (s : FixSession) (m : FixMessage) (resp : Option FixMessage) (s' : FixSession) :
    Prop where
  accepts : hears s.loggedOn m = true
  loggedOn : s'.loggedOn = stays s.loggedOn m
  inboundSeq : 0 < incomingSeq m → s'.inboundSeq = incomingSeq m
  answer : resp.map FixMessage.msgType = answerType s.loggedOn m

theorem msgType_stampOutbound (s : FixSession) (msg : FixMessage) :
    (s.stampOutbound msg).1.msgType = msg.msgType := by
  rw [FixMessage.msgType, stampOutbound, header, FixMessage.setInt,
    FixMessage.get_set_of_ne _ (by decide), FixMessage.get_set_of_ne _ (by decide),
    FixMessage.get_set_of_ne _ (by decide), FixMessage.get_set_of_ne _ (by decide),
    FixMessage.get_set_of_ne _ (by decide), FixMessage.msgType]

theorem msgType_buildLogon (s : FixSession) (heartbeatIntervalSec : ℤ) :
    (s.buildLogon heartbeatIntervalSec).1.msgType = FixMsgType.logon := by
  apply (msgType_stampOutbound s _).trans
  rw [FixMessage.msgType, FixMessage.setInt, FixMessage.get_set_of_ne _ (by decide),
    FixMessage.setInt, FixMessage.get_set_of_ne _ (by decide), FixMessage.get_set_self,
    Option.getD_some]

theorem msgType_buildHeartbeat (s : FixSession) (testReqId : Str) :
    (s.buildHeartbeat testReqId).1.msgType = FixMsgType.heartbeat := by
  apply (msgType_stampOutbound s _).trans
  by_cases h : testReqId = []
  · rw [if_pos h]
    rfl
  · rw [if_neg h, FixMessage.msgType, FixMessage.get_set_of_ne _ (by decide)]
    rfl

theorem msgType_buildLogout (s : FixSession) (text : Str) :
    (s.buildLogout text).1.msgType = FixMsgType.logout := by
  apply (msgType_stampOutbound s _).trans
  by_cases h : text = []
  · rw [if_pos h]
    rfl
  · rw [if_neg h, FixMessage.msgType, FixMessage.get_set_of_ne _ (by decide)]
    rfl

theorem onMessage_takes (s : FixSession) (m : FixMessage) :
    (s.onMessage m = (.error .fixSessionError, s) ∧ (hears s.loggedOn m = false ∨
        s.loggedOn = true ∧ incomingSeq m ≠ (s.inboundSeq + 1) % 2 ^ 64)) ∨
      ∃ resp s', s.onMessage m = (.ok resp, s') ∧ Takes s m resp s' := by
  have hlogonLogout : FixMsgType.logon ≠ FixMsgType.logout := by decide
  rw [onMessage]
  cases hon : s.loggedOn with
  | false =>
    rw [if_pos Bool.false_ne_true]
    by_cases hlogon : m.msgType = FixMsgType.logon
    · rw [if_neg (not_not.mpr hlogon)]
      refine Or.inr ⟨_, _, rfl, ?_, ?_, fun hpos => if_pos hpos, ?_⟩
      · simp [hears, hlogon]
      · simp [stays, hears, hlogon, hlogonLogout]
        rfl
      · rw [hon, answerType, if_pos rfl, Option.map_some, msgType_buildLogon]
    · rw [if_pos hlogon]
      exact Or.inl ⟨rfl, Or.inl (by simp [hears, hlogon])⟩
  | true =>
    rw [if_neg (not_not.mpr rfl)]
    by_cases hseq : incomingSeq m = (s.inboundSeq + 1) % 2 ^ 64
    · rw [if_neg (not_not.mpr hseq)]
      have hhears : hears s.loggedOn m = true := by rw [hears, hon, Bool.true_or]
      apply Or.inr
      by_cases hheartbeat : m.msgType = FixMsgType.heartbeat
      · rw [if_pos hheartbeat]
        refine ⟨_, _, rfl, hhears, ?_, fun _ => rfl, ?_⟩
        · rw [hon, stays_true hheartbeat (by decide)]
        · rw [hon, answerType, hheartbeat]
          rfl
      · rw [if_neg hheartbeat]
        by_cases htest : m.msgType = FixMsgType.testRequest
        · rw [if_pos htest]
          refine ⟨_, _, rfl, hhears, ?_, fun _ => rfl, ?_⟩
          · rw [hon, stays_true htest (by decide)]
            rfl
          · rw [hon, answerType, if_neg Bool.noConfusion, if_pos htest, Option.map_some,
              msgType_buildHeartbeat]
        · rw [if_neg htest]
          by_cases hlogout : m.msgType = FixMsgType.logout
          · rw [if_pos hlogout]
            refine ⟨_, _, rfl, hhears, ?_, fun _ => rfl, ?_⟩
            · simp [stays, hlogout]
              rfl
            · rw [hon, answerType, if_neg Bool.noConfusion, if_neg htest, if_pos hlogout,
                Option.map_some, msgType_buildLogout]
          · rw [if_neg hlogout]
            refine ⟨_, _, rfl, hhears, ?_, fun _ => rfl, ?_⟩
            · rw [hon, stays_true rfl hlogout]
            · rw [hon, answerType, if_neg Bool.noConfusion, if_neg htest, if_neg hlogout,
                Option.map_none]
    · rw [if_pos hseq]
      exact Or.inl ⟨rfl, Or.inr ⟨rfl, hseq⟩⟩

theorem onMessage_numbered {r : FixSession} {n : ℕ} {m : FixMessage}
    (hm : incomingSeq m = n + 1) (hn : n + 1 < 2 ^ 63)
    (hr : r.loggedOn = true → r.inboundSeq = n) :
    (r.onMessage m).1.toBool = hears r.loggedOn m ∧
      (r.onMessage m).2.loggedOn = stays r.loggedOn m ∧
      ((r.onMessage m).2.loggedOn = true → (r.onMessage m).2.inboundSeq = n + 1) := by
  obtain ⟨hres, hdeaf | ⟨hon, hgap⟩⟩ | ⟨resp, s', hres, htakes⟩ := onMessage_takes r m
  · have hoff : r.loggedOn = false := by
      rw [hears, Bool.or_eq_false_iff] at hdeaf
      exact hdeaf.1
    rw [hres, hdeaf, stays, hdeaf]
    exact ⟨rfl, hoff, fun hon => absurd (hoff.symm.trans hon) Bool.false_ne_true⟩
  · -- the number is the next one, so there is no gap
    rw [hr hon, hm, Nat.mod_eq_of_lt (by omega)] at hgap
    exact absurd rfl hgap
  · rw [hres, htakes.accepts]
    refine ⟨rfl, htakes.loggedOn, fun _ => ?_⟩
    rw [htakes.inboundSeq (by omega), hm]

theorem InStep.of_hands {s s' : FixSession} {sent q : List FixMessage} {r : FixSession}
    (h : InStep s q r) (hhands : Hands s sent s') : InStep s' (q ++ sent) r := by
  intro hbound
  have hcount := hhands.outboundSeq
  obtain ⟨n, hn, hq, hr⟩ := h (by omega)
  refine ⟨n, ?_, hq.append ?_, hr⟩
  · rw [List.length_append]
    omega
  · rw [← hn]
    exact Numbered.of_hands hhands

theorem InStep.of_inbound {s : FixSession} {q : List FixMessage} {r r' : FixSession}
    (h : InStep s q r) (hon : r'.loggedOn = r.loggedOn) (hseq : r'.inboundSeq = r.inboundSeq) :
    InStep s q r' := by
  rw [InStep, hon, hseq]
  exact h

theorem InStep.onMessage {s r : FixSession} {m : FixMessage} {q : List FixMessage}
    (h : InStep s (m :: q) r) (hbound : s.outboundSeq < 2 ^ 63) :
    (r.onMessage m).1.toBool = hears r.loggedOn m ∧
      (r.onMessage m).2.loggedOn = stays r.loggedOn m ∧ InStep s q (r.onMessage m).2 := by
  obtain ⟨n, hn, ⟨hm, hq⟩, hr⟩ := h hbound
  rw [List.length_cons] at hn
  obtain ⟨hout, hon, hseq⟩ :=
    onMessage_numbered (incomingSeq_of_numbered hm (by omega)) (by omega) hr
  exact ⟨hout, hon, fun _ => ⟨n + 1, by omega, hq, hseq⟩⟩

theorem InStep.take {s r : FixSession} {m : FixMessage} {q : List FixMessage}
    (h : InStep s (m :: q) r) : InStep s q (r.onMessage m).2 :=
  fun hbound => (h.onMessage hbound).2.2 hbound

/-- No event takes the two ends of a link out of step. -/
theorem step_inStep (l : State) (e : Event) (h : l.Channels InStep) :
    (Link.step party l e).2.Channels InStep :=
  Link.channels_step (p := party)
    (fun s i _ _ hs => hs.of_hands (call_hands s i))
    (fun _ _ r i hs => hs.of_inbound (call_inbound r i).1 (call_inbound r i).2)
    (fun s m _ _ hs => hs.of_hands (receive_hands s m))
    (fun _ _ _ _ hs => hs.take) l e h

theorem run_inStep {l : State} (h : l.Channels InStep) (events : List Event) :
    (run l events).Channels InStep :=
  Machine.invariant step_inStep h events

theorem connect_inStep (sender target beginString : Str) (times : Link.Side → ℕ → Str) :
    (connect sender target beginString times).Channels InStep := by
  intro side _
  cases side <;> exact ⟨0, rfl, trivial, fun hon => absurd hon Bool.false_ne_true⟩

theorem step_hands (l : State) (e : Event) (side : Link.Side) :
    Hands (l side).party (Link.sentBy side [(Link.step party l e).1])
      ((Link.step party l e).2 side).party := by
  obtain ⟨i, hparty, hsent, -⟩ | ⟨hparty, hsent, -⟩ | ⟨m, q, -, hparty, hsent, -⟩ :=
    Link.step_side (p := party) l e side
  · rw [hparty, hsent]
    exact call_hands _ i
  · rw [hparty, hsent]
    exact Hands.refl _
  · rw [hparty, hsent]
    exact receive_hands _ m

theorem run_outboundSeq (l : State) (events : List Event) (side : Link.Side) :
    (run l events side).party.outboundSeq =
      (l side).party.outboundSeq + (Link.sentBy side (seen l events)).length := by
  induction events generalizing l with
  | nil => rfl
  | cons e events ih =>
    have hstep := (step_hands l e side).outboundSeq
    have hrest := ih (Link.step party l e).2
    rw [seen, Machine.run, Link.sentBy_cons, List.length_append, ← Nat.add_assoc, ← hstep]
    exact hrest

theorem outboundSeq_le (l : State) (events : List Event) (side : Link.Side) :
    (run l events side).party.outboundSeq ≤ (l side).party.outboundSeq + events.length := by
  induction events generalizing l with
  | nil => exact Nat.le_refl _
  | cons e events ih =>
    have hhands := step_hands l e side
    have hrest := ih (Link.step party l e).2
    have hone : (Link.sentBy side [(Link.step party l e).1]).length ≤ 1 := by
      cases hsent : Link.sentBy side [(Link.step party l e).1] with
      | nil => exact Nat.zero_le 1
      | cons m q =>
        rw [hsent] at hhands
        exact Nat.le_of_eq (hhands.stamped m List.mem_cons_self).1
    have hcount := hhands.outboundSeq
    rw [List.length_cons]
    change (run (Link.step party l e).2 events side).party.outboundSeq ≤ _
    omega

theorem sent_numbered (l : State) (events : List Event) (side : Link.Side) :
    Numbered (l side).party.outboundSeq (Link.sentBy side (seen l events)) := by
  induction events generalizing l with
  | nil => trivial
  | cons e events ih =>
    have hhands := step_hands l e side
    rw [seen, Machine.run, Link.sentBy_cons]
    apply (Numbered.of_hands hhands).append
    rw [← hhands.outboundSeq]
    exact ih (Link.step party l e).2

theorem step_heard {l : State} (h : l.Channels InStep) (e : Event) (side : Link.Side)
    (hbound : (l side.other).party.outboundSeq < 2 ^ 63) (q : List FixMessage) :
    ((Link.gotBy side [(Link.step party l e).1]).filter fun x => x.2.toBool).map Prod.fst ++
        heard ((Link.step party l e).2 side).party.loggedOn q =
      heard (l side).party.loggedOn
        ((Link.gotBy side [(Link.step party l e).1]).map Prod.fst ++ q) := by
  obtain ⟨i, hparty, -, hgot⟩ | ⟨hparty, -, hgot⟩ | ⟨m, q', hinbox, hparty, -, hgot⟩ :=
    Link.step_side (p := party) l e side
  · rw [hparty, hgot, (call_inbound _ i).1]
    rfl
  · rw [hparty, hgot]
    rfl
  · have hchannel := h side
    rw [hinbox] at hchannel
    obtain ⟨hout, hon, -⟩ := hchannel.onMessage hbound
    rw [hparty, hgot, List.map_singleton, List.singleton_append, heard]
    change _ ++ heard ((l side).party.onMessage m).2.loggedOn q = _
    rw [hon]
    cases hhears : hears (l side).party.loggedOn m with
    | true =>
      have hok : (party.receive (l side).party m).1.1.toBool = true := hout.trans hhears
      rw [if_pos rfl, List.filter_cons, if_pos hok]
      rfl
    | false =>
      have herr : (party.receive (l side).party m).1.1.toBool = false := hout.trans hhears
      rw [if_neg Bool.false_ne_true, List.filter_cons, herr]
      rfl

theorem taken_eq_heard {l : State} (h : l.Channels InStep) (events : List Event)
    (side : Link.Side) (hbound : (run l events side.other).party.outboundSeq < 2 ^ 63) :
    taken side l events = heard (l side).party.loggedOn (got side l events) := by
  induction events generalizing l with
  | nil => rfl
  | cons e events ih =>
    have hmono := run_outboundSeq l (e :: events) side.other
    have hrest := ih (step_inStep l e h) hbound
    have hstep := step_heard h e side (by omega) (got side (Link.step party l e).2 events)
    rw [taken, got, seen, Machine.run, Link.gotBy_cons, List.filter_append, List.map_append,
      List.map_append]
    apply Eq.trans _ hstep
    rw [← hrest]
    rfl

end FixLink

/-- A link of two sessions, whatever its two ends send and in whatever order what is under
way arrives, behaves as if there were no numbers: what one side sends is numbered without
a gap and arrives once and in its order, a session takes all of it from a Logon on up to
a Logout and nothing else, and while logged on it counts what has arrived. -/
theorem link_transparent (sender target beginString : Str) (times : Link.Side → ℕ → Str)
    (events : List FixLink.Event) (side : Link.Side)
    (hbound : (FixLink.run (FixLink.connect sender target beginString times) events
      side.other).party.outboundSeq < 2 ^ 63) :
    FixLink.Numbered 0 (Link.sentBy side.other
        (FixLink.seen (FixLink.connect sender target beginString times) events)) ∧
      Link.sentBy side.other
          (FixLink.seen (FixLink.connect sender target beginString times) events) =
        FixLink.got side (FixLink.connect sender target beginString times) events ++
          (FixLink.run (FixLink.connect sender target beginString times) events side).inbox ∧
      FixLink.taken side (FixLink.connect sender target beginString times) events =
        FixLink.heard false
          (FixLink.got side (FixLink.connect sender target beginString times) events) ∧
      ((FixLink.run (FixLink.connect sender target beginString times) events
          side).party.loggedOn = true →
        (FixLink.run (FixLink.connect sender target beginString times) events
            side).party.inboundSeq =
          (FixLink.got side (FixLink.connect sender target beginString times) events).length) := by
  have hstart := FixLink.connect_inStep sender target beginString times
  have hzero : ∀ side, (FixLink.connect sender target beginString times side).party.outboundSeq = 0 := by
    intro side
    cases side <;> rfl
  have hempty : (FixLink.connect sender target beginString times side).inbox = [] := by
    cases side <;> rfl
  have hoff : (FixLink.connect sender target beginString times side).party.loggedOn = false := by
    cases side <;> rfl
  have hfifo : FixLink.got side (FixLink.connect sender target beginString times) events ++
      (FixLink.run (FixLink.connect sender target beginString times) events side).inbox =
        Link.sentBy side.other
          (FixLink.seen (FixLink.connect sender target beginString times) events) := by
    apply (Link.fifo (p := FixLink.party) _ events side).trans
    rw [hempty, List.nil_append]
  refine ⟨?_, hfifo.symm, ?_, fun hon => ?_⟩
  · have hnumbered := FixLink.sent_numbered (FixLink.connect sender target beginString times)
      events side.other
    rw [hzero] at hnumbered
    exact hnumbered
  · rw [FixLink.taken_eq_heard hstart events side hbound, hoff]
  · obtain ⟨n, hn, -, hseq⟩ := FixLink.run_inStep hstart events side hbound
    have hsent := FixLink.run_outboundSeq (FixLink.connect sender target beginString times)
      events side.other
    rw [hzero, Nat.zero_add, ← congrArg List.length hfifo, List.length_append] at hsent
    rw [hseq hon]
    omega

def handshake : List FixLink.Event :=
  [.call .left (.logon 30), .deliver .right, .deliver .left]

theorem handshake_transparent :
    (FixLink.run (FixLink.connect (str "OEMS") (str "CPTY") (str "FIX.4.4")
        fun _ _ => str "20260101-00:00:00.000") handshake .left).party.inboundSeq = 1 :=
  (link_transparent (str "OEMS") (str "CPTY") (str "FIX.4.4")
    (fun _ _ => str "20260101-00:00:00.000") handshake .left (by decide)).2.2.2 (by decide)

end Oems
