import Oems.FixSession

namespace Oems

open Lib

/-- A message that a session has taken. It is `opening` when the session was not
logged on. -/
structure Accepted where
  opening : Bool
  msg : FixMessage
  deriving DecidableEq, Repr

namespace Accepted

def seq (e : Accepted) : ℤ := e.msg.getInt FixTag.msgSeqNum

def number (e : Accepted) : ℤ := if e.opening = true ∧ e.seq ≤ 0 then 1 else e.seq

/-- How a message follows the one accepted before, if there is one. -/
def Follows : Option Accepted → Accepted → Prop
  | none, f => f.opening = true ∧ f.msg.msgType = FixMsgType.logon
  | some e, f =>
    (f.opening = true ↔ e.msg.msgType = FixMsgType.logout) ∧
      (f.opening = true → f.msg.msgType = FixMsgType.logon) ∧
      (f.opening = false → f.seq = e.number + 1 ∧ 0 < f.seq)

def Linked : Option Accepted → List Accepted → Prop
  | _, [] => True
  | last, f :: log => Follows last f ∧ Linked (some f) log

theorem number_of_not_opening {e : Accepted} (h : e.opening = false) : e.number = e.seq := by
  rw [number, if_neg]
  rintro ⟨hopen, -⟩
  rw [h] at hopen
  cases hopen

theorem Linked.of_append {last : Option Accepted} {before after : List Accepted} {e : Accepted}
    (h : Linked last (before ++ e :: after)) : Linked (some e) after := by
  induction before generalizing last with
  | nil => exact h.2
  | cons b before ih => exact ih h.2

theorem Linked.number_lt {e f : Accepted} {mid after : List Accepted}
    (h : Linked (some e) (mid ++ f :: after)) (hmid : ∀ g ∈ mid ++ [f], g.opening = false) :
    e.number < f.number := by
  induction mid generalizing e with
  | nil =>
    have hf := hmid f (by simp)
    obtain ⟨hseq, -⟩ := h.1.2.2 hf
    rw [number_of_not_opening hf, hseq]
    exact Int.lt_succ _
  | cons g mid ih =>
    have hg := hmid g (by simp)
    obtain ⟨hseq, -⟩ := h.1.2.2 hg
    have hlt := ih h.2 fun x hx => hmid x (List.mem_cons_of_mem g hx)
    rw [number_of_not_opening hg, hseq] at hlt
    omega

end Accepted

namespace FixSession

open Accepted

def acceptedBy (s : FixSession) : Op → Option Accepted
  | .onMessage msg =>
    match (s.onMessage msg).1 with
    | .ok _ => some ⟨!s.loggedOn, msg⟩
    | .error _ => none
  | _ => none

def accepted : FixSession → List Op → List Accepted
  | _, [] => []
  | s, op :: ops => (s.acceptedBy op).toList ++ accepted (s.step op).2 ops

/-- The session stands where the last message accepted has left it. -/
def Stands (s : FixSession) : Option Accepted → Prop
  | none => s.loggedOn = false
  | some e => s.inboundSeq = e.number ∧ 0 < e.number ∧ e.number < 2 ^ 63 ∧
      (s.loggedOn = true ↔ e.msg.msgType ≠ FixMsgType.logout)

variable {s s' : FixSession} {last : Option Accepted}

theorem Stands.congr (h : Stands s last) (hseq : s'.inboundSeq = s.inboundSeq)
    (hon : s'.loggedOn = s.loggedOn) : Stands s' last := by
  cases last with
  | none => exact hon.trans h
  | some e =>
    rw [Stands, hseq, hon]
    exact h

theorem seq_lt (msg : FixMessage) : msg.getInt FixTag.msgSeqNum < 2 ^ 63 := by
  rw [FixMessage.getInt]
  cases hread : (msg.get FixTag.msgSeqNum).bind fromCharsInt64 with
  | none => exact by decide
  | some z =>
    obtain ⟨text, -, htext⟩ := Option.bind_eq_some_iff.mp hread
    obtain ⟨-, -, hle⟩ := Decimal.fromChars_eq_some_iff.mp htext
    exact Int.lt_of_le_sub_one hle

theorem incomingSeq_eq {msg : FixMessage} (h : 0 ≤ msg.getInt FixTag.msgSeqNum) :
    (incomingSeq msg : ℤ) = msg.getInt FixTag.msgSeqNum := by
  have hlt := seq_lt msg
  rw [incomingSeq, Int.emod_eq_of_lt h (by omega), Int.toNat_of_nonneg h]

theorem follows_opening (h : Stands s last) (hoff : s.loggedOn = false) {msg : FixMessage}
    (hlogon : msg.msgType = FixMsgType.logon) : Follows last ⟨true, msg⟩ := by
  cases last with
  | none => exact ⟨rfl, hlogon⟩
  | some e =>
    obtain ⟨-, -, -, hon⟩ := h
    have hlogout : e.msg.msgType = FixMsgType.logout := by
      by_contra hne
      rw [hon.mpr hne] at hoff
      cases hoff
    exact ⟨iff_of_true rfl hlogout, fun _ => hlogon, fun hopen => by cases hopen⟩

theorem stands_opening {msg : FixMessage} (hnonneg : 0 ≤ msg.getInt FixTag.msgSeqNum)
    (hlogon : msg.msgType = FixMsgType.logon) (hon : s'.loggedOn = true)
    (hseq : s'.inboundSeq = if incomingSeq msg > 0 then incomingSeq msg else 1) :
    Stands s' (some ⟨true, msg⟩) := by
  have hincoming := incomingSeq_eq hnonneg
  have hlt := seq_lt msg
  have hnot : msg.msgType ≠ FixMsgType.logout := by
    rw [hlogon]
    decide
  rw [Stands, number, hseq]
  by_cases hpos : incomingSeq msg > 0
  · rw [if_pos hpos, if_neg (by simp only [seq]; omega)]
    exact ⟨hincoming, by simp only [seq]; omega, hlt, iff_of_true hon hnot⟩
  · rw [if_neg hpos, if_pos ⟨rfl, by simp only [seq]; omega⟩]
    exact ⟨rfl, by decide, by decide, iff_of_true hon hnot⟩

theorem stands_next (h : Stands s last) {msg : FixMessage}
    (hnonneg : 0 ≤ msg.getInt FixTag.msgSeqNum) (hon : s.loggedOn = true)
    (hincoming : incomingSeq msg = (s.inboundSeq + 1) % 2 ^ 64)
    (hseq : s'.inboundSeq = incomingSeq msg)
    (hon' : s'.loggedOn = true ↔ msg.msgType ≠ FixMsgType.logout) :
    Follows last ⟨false, msg⟩ ∧ Stands s' (some ⟨false, msg⟩) := by
  cases last with
  | none =>
    rw [Stands, hon] at h
    cases h
  | some e =>
    obtain ⟨hinbound, hpos, hlt, hlogout⟩ := h
    have hsame := incomingSeq_eq hnonneg
    have hmax := seq_lt msg
    have hsucc : msg.getInt FixTag.msgSeqNum = e.number + 1 := by omega
    refine ⟨⟨iff_of_false Bool.false_ne_true (hlogout.mp hon),
      fun hopen => absurd hopen Bool.false_ne_true, fun _ => ⟨hsucc, ?_⟩⟩, ?_⟩
    · simp only [seq]
      omega
    · rw [Stands, number_of_not_opening rfl]
      exact ⟨by rw [hseq, hsame, seq], by simp only [seq]; omega, hmax, hon'⟩

theorem onMessage_stands (h : Stands s last) (msg : FixMessage) :
    match s.acceptedBy (.onMessage msg) with
    | none => (s.onMessage msg).2 = s
    | some f => 0 ≤ f.seq → Follows last f ∧ Stands (s.onMessage msg).2 (some f) := by
  obtain hres | ⟨resp, s', hres, -, hcase⟩ := s.onMessage_cases msg
  · simp only [acceptedBy, hres]
  · simp only [acceptedBy, hres]
    intro hnonneg
    obtain ⟨hoff, hlogon, hon, hseq⟩ | ⟨hon, hincoming, hseq, hon'⟩ := hcase
    · rw [hoff]
      exact ⟨follows_opening h hoff hlogon, stands_opening hnonneg hlogon hon hseq⟩
    · rw [hon]
      exact stands_next h hnonneg hon hincoming hseq hon'

theorem step_stands (h : Stands s last) (op : Op) :
    match s.acceptedBy op with
    | none => Stands (s.step op).2 last
    | some f => 0 ≤ f.seq → Follows last f ∧ Stands (s.step op).2 (some f) := by
  cases op with
  | onMessage msg =>
    have hmsg := onMessage_stands h msg
    cases hacc : s.acceptedBy (.onMessage msg) with
    | none =>
      rw [hacc] at hmsg
      exact hmsg.symm ▸ h
    | some f =>
      rw [hacc] at hmsg
      exact hmsg
  | buildLogon heartbeatIntervalSec => exact h.congr rfl rfl
  | buildHeartbeat testReqId => exact h.congr rfl rfl
  | buildLogout text => exact h.congr rfl rfl
  | stampOutbound msg => exact h.congr rfl rfl

theorem accepted_linked (h : Stands s last) {ops : List Op}
    (hnonneg : ∀ e ∈ s.accepted ops, 0 ≤ e.seq) : Linked last (s.accepted ops) := by
  induction ops generalizing s last with
  | nil => exact trivial
  | cons op ops ih =>
    have hstep := step_stands h op
    rw [accepted] at hnonneg ⊢
    cases hacc : s.acceptedBy op with
    | none =>
      rw [hacc] at hstep hnonneg
      exact ih hstep hnonneg
    | some f =>
      rw [hacc] at hstep hnonneg
      obtain ⟨hfollows, hstands⟩ := hstep (hnonneg f (by simp))
      exact ⟨hfollows, ih hstands fun e he => hnonneg e (by simp [he])⟩

theorem onMessage_refused {msg : FixMessage} {err : OemsError}
    (h : (s.onMessage msg).1 = .error err) : (s.onMessage msg).2 = s := by
  obtain hres | ⟨resp, s', hres, -⟩ := s.onMessage_cases msg
  · rw [hres]
  · rw [hres] at h
    cases h

end FixSession

/-- The numbers of the messages that a session has taken, from its beginning. -/
structure InSequence (log : List Accepted) : Prop where
  /-- The first message taken is a Logon. -/
  first : ∀ e after, log = e :: after →
    e.opening = true ∧ e.msg.msgType = FixMsgType.logon
  /-- After a Logout, and only there, the next one is a Logon again, which opens a new
  numbering. -/
  opens : ∀ before e f after, log = before ++ e :: f :: after →
    (f.opening = true ↔ e.msg.msgType = FixMsgType.logout) ∧
      (f.opening = true → f.msg.msgType = FixMsgType.logon)
  /-- Every other message carries the number after that of the message before. -/
  next : ∀ before e f after, log = before ++ e :: f :: after → f.opening = false →
    f.seq = e.number + 1 ∧ 0 < f.seq
  /-- No number comes back before a new numbering is opened. -/
  once : ∀ before e mid f after, log = before ++ e :: (mid ++ f :: after) →
    (∀ g ∈ mid ++ [f], g.opening = false) → f.seq ≠ e.number

theorem Accepted.Linked.inSequence {log : List Accepted} (h : Accepted.Linked none log) :
    InSequence log where
  first e after hlog := by
    subst hlog
    exact h.1
  opens before e f after hlog := by
    subst hlog
    obtain ⟨hopen, hlogon, -⟩ := h.of_append.1
    exact ⟨hopen, hlogon⟩
  next before e f after hlog hf := by
    subst hlog
    exact h.of_append.1.2.2 hf
  once before e mid f after hlog hmid := by
    subst hlog
    have hlt := h.of_append.number_lt hmid
    rw [Accepted.number_of_not_opening (hmid f (by simp))] at hlt
    exact hlt.ne'

/-- One number, 1, is taken twice when the counterparty logs out and on again. -/
def reLogon : List FixSession.Op :=
  [.onMessage ⟨[(FixTag.msgType, str "A"), (FixTag.msgSeqNum, str "1")]⟩,
    .onMessage ⟨[(FixTag.msgType, str "5"), (FixTag.msgSeqNum, str "2")]⟩,
    .onMessage ⟨[(FixTag.msgType, str "A"), (FixTag.msgSeqNum, str "1")]⟩]

def counterparty : FixSession :=
  FixSession.new (str "OEMS") (str "CPTY") (str "FIX.4.4") fun _ => str "20260101-00:00:00.000"

theorem reLogon_repeats : ¬ ∀ ops before e mid f after,
    counterparty.accepted ops = before ++ e :: (mid ++ f :: after) → f.seq ≠ e.seq := by
  intro h
  exact h reLogon [] _ [_] _ [] rfl rfl

/-- Inbound sequencing. A refused message changes nothing. As long as no message
with a negative number is taken, the messages taken are in sequence. -/
theorem inbound_inSequence (sender target beginString : Str) (times : ℕ → Str)
    (ops : List FixSession.Op) :
    (∀ pre msg post err, ops = pre ++ .onMessage msg :: post →
      (((FixSession.new sender target beginString times).run pre).onMessage msg).1 =
          .error err →
        (((FixSession.new sender target beginString times).run pre).onMessage msg).2 =
          (FixSession.new sender target beginString times).run pre) ∧
      ((∀ e ∈ (FixSession.new sender target beginString times).accepted ops, 0 ≤ e.seq) →
        InSequence ((FixSession.new sender target beginString times).accepted ops)) := by
  refine ⟨fun _ _ _ _ _ herr => FixSession.onMessage_refused herr, fun hnonneg => ?_⟩
  have hstart : FixSession.Stands (FixSession.new sender target beginString times) none := rfl
  exact (FixSession.accepted_linked hstart hnonneg).inSequence

theorem reLogon_inSequence : InSequence (counterparty.accepted reLogon) :=
  (inbound_inSequence (str "OEMS") (str "CPTY") (str "FIX.4.4") (fun _ => str "20260101-00:00:00.000")
    reLogon).2 (by decide)

end Oems
