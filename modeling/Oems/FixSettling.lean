import Oems.FixLink

namespace Oems

open Lib FixSession

namespace FixLink

/-- A message that a session answers by turning its back on `goal`: a Logout when all are
to be logged on, a Logon when all are to be logged off. -/
def Turns (goal : Bool) (m : FixMessage) : Prop :=
  m.msgType = if goal then FixMsgType.logout else FixMsgType.logon

/-- The deliveries that a message can bring about, its own included. -/
def weight (m : FixMessage) : ℕ := if m.msgType = FixMsgType.testRequest then 2 else 1

def turnsLeft (goal : Bool) (s : FixSession) : ℕ := if s.loggedOn = goal then 0 else 1

def unrest (goal : Bool) (t : Link.Terminal FixSession FixMessage) : ℕ :=
  (t.inbox.map weight).sum + turnsLeft goal t.party

/-- The deliveries that a link has before it, when nothing more is sent by a call. -/
def unsettled (goal : Bool) (l : State) : ℕ := unrest goal (l .left) + unrest goal (l .right)

def Calm (goal : Bool) (l : State) : Prop := ∀ side, ∀ m ∈ (l side).inbox, ¬ Turns goal m

theorem unsettled_eq (goal : Bool) (l : State) (side : Link.Side) :
    unsettled goal l = unrest goal (l side) + unrest goal (l side.other) := by
  cases side with
  | left => rfl
  | right => exact Nat.add_comm _ _

theorem Takes.cases {s s' : FixSession} {m : FixMessage} {resp : Option FixMessage}
    (h : Takes s m resp s') :
    (s.loggedOn = false ∧ m.msgType = FixMsgType.logon ∧ s'.loggedOn = true ∧
        ∃ r, resp = some r ∧ r.msgType = FixMsgType.logon) ∨
      (s.loggedOn = true ∧ m.msgType = FixMsgType.testRequest ∧ s'.loggedOn = true ∧
        ∃ r, resp = some r ∧ r.msgType = FixMsgType.heartbeat) ∨
      (s.loggedOn = true ∧ m.msgType = FixMsgType.logout ∧ s'.loggedOn = false ∧
        ∃ r, resp = some r ∧ r.msgType = FixMsgType.logout) ∨
      (s.loggedOn = true ∧ m.msgType ≠ FixMsgType.testRequest ∧
        m.msgType ≠ FixMsgType.logout ∧ s'.loggedOn = true ∧ resp = none) := by
  obtain ⟨hhears, hon', -, hanswer⟩ := h
  cases hon : s.loggedOn with
  | false =>
    rw [hon] at hhears hon' hanswer
    have hlogon : m.msgType = FixMsgType.logon := by simpa [hears] using hhears
    refine Or.inl ⟨rfl, hlogon, ?_, Option.map_eq_some_iff.mp hanswer⟩
    rw [hon', stays, hhears, hlogon]
    rfl
  | true =>
    rw [hon] at hon' hanswer
    apply Or.inr
    by_cases htest : m.msgType = FixMsgType.testRequest
    · rw [answerType, if_neg Bool.noConfusion, if_pos htest] at hanswer
      rw [stays_true htest (by decide)] at hon'
      exact Or.inl ⟨rfl, htest, hon', Option.map_eq_some_iff.mp hanswer⟩
    · apply Or.inr
      rw [answerType, if_neg Bool.noConfusion, if_neg htest] at hanswer
      by_cases hlogout : m.msgType = FixMsgType.logout
      · rw [if_pos hlogout] at hanswer
        refine Or.inl ⟨rfl, hlogout, ?_, Option.map_eq_some_iff.mp hanswer⟩
        rw [hon', stays, hlogout]
        rfl
      · rw [if_neg hlogout] at hanswer
        rw [stays_true rfl hlogout] at hon'
        exact Or.inr ⟨rfl, htest, hlogout, hon', Option.map_eq_none_iff.mp hanswer⟩

theorem handed_ok (resp : Option FixMessage) :
    Connection.handed (.ok resp) = resp.toList := by
  cases resp <;> rfl

theorem weight_pos (m : FixMessage) : 0 < weight m := by
  rw [weight]
  split <;> decide

theorem weight_of_ne {m : FixMessage} {type : Str} (h : m.msgType = type)
    (hne : type ≠ FixMsgType.testRequest) : weight m = 1 := by
  rw [weight, h, if_neg hne]

/-- A message that does not turn a session back brings it, with what it answers, closer
to rest. -/
theorem onMessage_calm {goal : Bool} (s : FixSession) {m : FixMessage} (h : ¬ Turns goal m) :
    (∀ r ∈ Connection.handed (s.onMessage m).1, ¬ Turns goal r) ∧
      ((Connection.handed (s.onMessage m).1).map weight).sum + turnsLeft goal (s.onMessage m).2 <
        weight m + turnsLeft goal s := by
  have hpos := weight_pos m
  obtain ⟨hres, -⟩ | ⟨resp, s', hres, htakes⟩ := onMessage_takes s m
  · rw [hres]
    refine ⟨fun r hr => absurd hr List.not_mem_nil, ?_⟩
    change 0 + turnsLeft goal s < _
    omega
  · rw [hres, handed_ok]
    obtain ⟨hon, hm, hon', r, rfl, hr⟩ | ⟨hon, hm, hon', r, rfl, hr⟩ |
      ⟨hon, hm, hon', r, rfl, hr⟩ | ⟨hon, -, -, hon', rfl⟩ := htakes.cases
    · -- a Logon opens the session, so to be logged on is the goal
      cases goal with
      | false => exact absurd hm h
      | true =>
        simp only [Option.toList_some, List.mem_singleton, forall_eq, List.map_singleton,
          List.sum_singleton, Turns, turnsLeft, hon, hon', hr, weight_of_ne hr (by decide)]
        exact ⟨by decide, by simp; omega⟩
    · simp only [Option.toList_some, List.mem_singleton, forall_eq, List.map_singleton,
        List.sum_singleton, turnsLeft, hon, hon', weight_of_ne hr (by decide), Turns, hr]
      rw [weight, if_pos hm]
      exact ⟨by cases goal <;> decide, by omega⟩
    · cases goal with
      | true => exact absurd hm h
      | false =>
        simp only [Option.toList_some, List.mem_singleton, forall_eq, List.map_singleton,
          List.sum_singleton, Turns, turnsLeft, hon, hon', hr, weight_of_ne hr (by decide)]
        exact ⟨by decide, by simp; omega⟩
    · refine ⟨fun r hr => absurd hr List.not_mem_nil, ?_⟩
      simp only [Option.toList_none, List.map_nil, List.sum_nil, turnsLeft, hon, hon']
      omega

theorem deliver_calm (goal : Bool) (l : State) (e : Event) (he : Link.Delivers l e)
    (h : Calm goal l) :
    Calm goal (Link.step party l e).2 ∧
      unsettled goal (Link.step party l e).2 < unsettled goal l := by
  cases e with
  | call side i => exact absurd he id
  | deliver side =>
    obtain ⟨m, q, hinbox⟩ := List.exists_cons_of_ne_nil he
    obtain ⟨hself, hother⟩ := Link.deliver_ends (p := party) hinbox
    have hm : ¬ Turns goal m := h side m (by rw [hinbox]; exact List.mem_cons_self)
    obtain ⟨hreplies, hless⟩ := onMessage_calm (l side).party hm
    constructor
    · intro side' x hx
      obtain rfl | rfl := Link.Side.eq_or_eq_other side side'
      · rw [hself] at hx
        exact h side' x (by rw [hinbox]; exact List.mem_cons_of_mem m hx)
      · rw [hother] at hx
        obtain hx | hx := List.mem_append.mp hx
        · exact h side.other x hx
        · exact hreplies x hx
    · rw [unsettled_eq goal _ side, unsettled_eq goal l side, hself, hother]
      simp only [unrest, hinbox, List.map_append, List.sum_append, List.map_cons, List.sum_cons]
      simp only [party]
      omega

/-- Logons and Logouts in turn, such that each turns the session it comes to, from `on`
to `on'` in the end. -/
def Alternates : Bool → List FixMessage → Bool → Prop
  | on, [], on' => on = on'
  | on, m :: q, on' =>
    m.msgType = (if on then FixMsgType.logout else FixMsgType.logon) ∧ Alternates (!on) q on'

/-- What is under way will bring the receiver to where the sender is. -/
def Chases (s : FixSession) (q : List FixMessage) (r : FixSession) : Prop :=
  Alternates r.loggedOn q s.loggedOn

theorem Alternates.append {on on' : Bool} {q : List FixMessage} {m : FixMessage}
    (h : Alternates on q on')
    (hm : m.msgType = if on' then FixMsgType.logout else FixMsgType.logon) :
    Alternates on (q ++ [m]) (!on') := by
  induction q generalizing on with
  | nil =>
    cases h
    exact ⟨hm, rfl⟩
  | cons x q ih => exact ⟨h.1, ih h.2⟩

theorem onMessage_turned {s r : FixSession} {m : FixMessage} {q : List FixMessage}
    (h : InStep s (m :: q) r) (hbound : s.outboundSeq < 2 ^ 63)
    (hm : m.msgType = if r.loggedOn then FixMsgType.logout else FixMsgType.logon) :
    (r.onMessage m).2.loggedOn = !r.loggedOn ∧ ∃ reply,
      Connection.handed (r.onMessage m).1 = [reply] ∧ reply.msgType = m.msgType := by
  obtain ⟨hout, -⟩ := h.onMessage hbound
  obtain ⟨hres, -⟩ | ⟨resp, s', hres, htakes⟩ := onMessage_takes r m
  · -- no message in sequence is refused by a session that it turns
    rw [hres, hears, hm] at hout
    cases hon : r.loggedOn <;> rw [hon] at hout <;> cases hout
  · rw [hres, handed_ok]
    obtain ⟨hon, hlogon, hon', reply, rfl, hr⟩ | ⟨hon, htest, -⟩ |
      ⟨hon, hlogout, hon', reply, rfl, hr⟩ | ⟨hon, -, hlogout, -⟩ := htakes.cases
    · rw [hon, hlogon]
      exact ⟨hon', reply, rfl, hr⟩
    · rw [hon, htest] at hm
      exact absurd hm (by decide)
    · rw [hon, hlogout]
      exact ⟨hon', reply, rfl, hr⟩
    · rw [hon] at hm
      exact absurd hm hlogout

theorem length_inFlight (l : State) (side : Link.Side) :
    (Link.inFlight l).length = (l side).inbox.length + (l side.other).inbox.length := by
  rw [Link.inFlight, List.length_append]
  cases side with
  | left => rfl
  | right => exact Nat.add_comm _ _

/-- Each delivery puts as much under way as it takes out. -/
theorem deliver_chases {l : State} (hstep : l.Channels InStep) (h : l.Channels Chases)
    (hbound : ∀ side, (l side).party.outboundSeq < 2 ^ 63) {e : Event}
    (he : Link.Delivers l e) :
    (Link.step party l e).2.Channels Chases ∧
      (Link.inFlight (Link.step party l e).2).length = (Link.inFlight l).length := by
  cases e with
  | call side i => exact absurd he id
  | deliver side =>
    obtain ⟨m, q, hinbox⟩ := List.exists_cons_of_ne_nil he
    obtain ⟨hself, hother⟩ := Link.deliver_ends (p := party) hinbox
    have hin := hstep side
    have hto := h side
    rw [hinbox] at hin hto
    obtain ⟨hturned, reply, hreply, htype⟩ := onMessage_turned hin (hbound side.other) hto.1
    have hsent : (party.receive (l side).party m).1.2 = [reply] := hreply
    rw [hsent] at hother
    constructor
    · intro side'
      obtain rfl | rfl := Link.Side.eq_or_eq_other side side'
      · rw [hself, hother]
        change Alternates ((l side').party.onMessage m).2.loggedOn q _
        rw [hturned]
        exact hto.2
      · have hback := h side.other
        rw [Link.Side.other_other] at hback ⊢
        rw [hself, hother]
        change Alternates _ _ ((l side).party.onMessage m).2.loggedOn
        rw [hturned]
        exact hback.append (htype.trans hto.1)
    · rw [length_inFlight _ side, length_inFlight l side, hself, hother, hinbox]
      simp only [List.length_append, List.length_cons, List.length_nil]
      omega

theorem run_chases {l : State} (hstep : l.Channels InStep) (h : l.Channels Chases)
    {deliveries : List Event}
    (hdeliveries : Machine.Along (Link.step party) Link.Delivers l deliveries)
    (hbound : ∀ side, (l side).party.outboundSeq + deliveries.length < 2 ^ 63) :
    (Link.inFlight (run l deliveries)).length = (Link.inFlight l).length := by
  induction deliveries generalizing l with
  | nil => rfl
  | cons e deliveries ih =>
    have hnow : ∀ side, (l side).party.outboundSeq < 2 ^ 63 := by
      intro side
      have hside := hbound side
      omega
    obtain ⟨hnext, hlength⟩ := deliver_chases hstep h hnow hdeliveries.1
    rw [← hlength]
    apply ih (step_inStep l e hstep) hnext hdeliveries.2
    intro side
    have hside := hbound side
    have hone := outboundSeq_le l [e] side
    rw [List.length_cons] at hside
    change ((Link.step party l e).2 side).party.outboundSeq ≤ _ + 1 at hone
    omega

end FixLink

/-- A link on which no Logout is under way, or no Logon, comes to rest: after any run its
deliveries end, within a number of them known beforehand, and once nothing is left under
way each side that is logged on stands at the last number of the other. -/
theorem link_settles (sender target beginString : Str) (times : Link.Side → ℕ → Str)
    (events : List FixLink.Event) (goal : Bool)
    (hcalm : FixLink.Calm goal
      (FixLink.run (FixLink.connect sender target beginString times) events))
    (deliveries : List FixLink.Event)
    (hdeliveries : Machine.Along (Link.step FixLink.party) Link.Delivers
      (FixLink.run (FixLink.connect sender target beginString times) events) deliveries)
    (hbound : ∀ side, (FixLink.run (FixLink.run (FixLink.connect sender target beginString times)
      events) deliveries side).party.outboundSeq < 2 ^ 63) :
    deliveries.length ≤ FixLink.unsettled goal
        (FixLink.run (FixLink.connect sender target beginString times) events) ∧
      ((∀ e : FixLink.Event, ¬ Link.Delivers (FixLink.run (FixLink.run
          (FixLink.connect sender target beginString times) events) deliveries) e) →
        ∀ side, (FixLink.run (FixLink.run (FixLink.connect sender target beginString times)
            events) deliveries side).party.loggedOn = true →
          (FixLink.run (FixLink.run (FixLink.connect sender target beginString times) events)
              deliveries side).party.inboundSeq =
            (FixLink.run (FixLink.run (FixLink.connect sender target beginString times) events)
              deliveries side.other).party.outboundSeq) := by
  constructor
  · have hlength := Machine.length_le_along (FixLink.deliver_calm goal) hcalm hdeliveries
    omega
  · intro hrest side hon
    have hstart := FixLink.connect_inStep sender target beginString times
    obtain ⟨n, hn, -, hseq⟩ := FixLink.run_inStep (FixLink.run_inStep hstart events) deliveries
      side (hbound side.other)
    have hempty := not_not.mp (hrest (.deliver side))
    rw [hseq hon, hn, hempty]
    rfl

theorem handshake_settles :
    ([.deliver .right, .deliver .left] : List FixLink.Event).length ≤
      FixLink.unsettled true (FixLink.run (FixLink.connect (str "OEMS") (str "CPTY")
        (str "FIX.4.4") fun _ _ => str "20260101-00:00:00.000") [.call .left (.logon 30)]) := by
  apply (link_settles (str "OEMS") (str "CPTY") (str "FIX.4.4")
    (fun _ _ => str "20260101-00:00:00.000") [.call .left (.logon 30)] true ?_
    [.deliver .right, .deliver .left] ?_ ?_).1
  · intro side m hm
    cases side with
    | left => exact absurd hm List.not_mem_nil
    | right =>
      rw [List.mem_singleton.mp hm, FixLink.Turns]
      have hlogon : FixMsgType.logon ≠ FixMsgType.logout := by decide
      exact fun h => hlogon ((FixLink.msgType_buildLogon _ _).symm.trans h)
  · exact ⟨List.cons_ne_nil _ _, List.cons_ne_nil _ _, trivial⟩
  · intro side
    cases side <;> decide

/-- The two of them under way can keep a link from ever coming to rest: after a Logon and
a Logout sent by one of two sessions that are not logged on, whatever is delivered next is
answered, and two messages stay under way for as long as the numbers last. -/
theorem logon_logout_storm (sender target beginString : Str) (times : Link.Side → ℕ → Str)
    (heartbeatIntervalSec : ℤ) (text : Str) (deliveries : List FixLink.Event)
    (hdeliveries : Machine.Along (Link.step FixLink.party) Link.Delivers
      (FixLink.run (FixLink.connect sender target beginString times)
        [.call .left (.logon heartbeatIntervalSec), .call .left (.logout text)]) deliveries)
    (hlength : deliveries.length + 2 < 2 ^ 63) :
    (Link.inFlight (FixLink.run (FixLink.run (FixLink.connect sender target beginString times)
      [.call .left (.logon heartbeatIntervalSec), .call .left (.logout text)])
        deliveries)).length = 2 := by
  have hstart := FixLink.connect_inStep sender target beginString times
  have hchases : (FixLink.run (FixLink.connect sender target beginString times)
      [.call .left (.logon heartbeatIntervalSec), .call .left (.logout text)]).Channels
        FixLink.Chases := by
    intro side
    cases side with
    | left => exact rfl
    | right => exact ⟨FixLink.msgType_buildLogon _ _, FixLink.msgType_buildLogout _ _, rfl⟩
  apply FixLink.run_chases (FixLink.run_inStep hstart _) hchases hdeliveries
  intro side
  have hsent := FixLink.outboundSeq_le (FixLink.connect sender target beginString times)
    [.call .left (.logon heartbeatIntervalSec), .call .left (.logout text)] side
  have hzero : (FixLink.connect sender target beginString times side).party.outboundSeq = 0 := by
    cases side <;> rfl
  rw [hzero] at hsent
  simp only [List.length_cons, List.length_nil] at hsent
  omega

theorem logon_logout_storm_once :
    (Link.inFlight (FixLink.run (FixLink.run (FixLink.connect (str "OEMS") (str "CPTY")
      (str "FIX.4.4") fun _ _ => str "20260101-00:00:00.000")
        [.call .left (.logon 30), .call .left (.logout [])]) [.deliver .right])).length = 2 :=
  logon_logout_storm (str "OEMS") (str "CPTY") (str "FIX.4.4")
    (fun _ _ => str "20260101-00:00:00.000") 30 [] [.deliver .right]
    ⟨List.cons_ne_nil _ _, trivial⟩ (by decide)

end Oems
