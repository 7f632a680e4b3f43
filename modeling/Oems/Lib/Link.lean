import Mathlib.Logic.Function.Basic
import Oems.Lib.Machine

namespace Lib.Link

inductive Side where
  | left
  | right
  deriving DecidableEq, Repr

def Side.other : Side → Side
  | .left => .right
  | .right => .left

@[simp] theorem Side.other_other (side : Side) : side.other.other = side := by
  cases side <;> rfl

theorem Side.other_ne (side : Side) : side.other ≠ side := by
  cases side <;> decide

theorem Side.eq_or_eq_other (side side' : Side) : side' = side ∨ side' = side.other := by
  cases side <;> cases side' <;> decide

variable {σ ι μ ο : Type*}

/-- How a party behaves: the messages that a call of its own sends, and what it makes
of a message with the messages it sends in answer. -/
structure Party (σ ι μ ο : Type*) where
  call : σ → ι → List μ × σ
  receive : σ → μ → (ο × List μ) × σ

/-- One end of a link: the party there, and the messages that are under way to it, the
oldest first. -/
structure Terminal (σ μ : Type*) where
  party : σ
  inbox : List μ

abbrev State (σ μ : Type*) := Side → Terminal σ μ

inductive Event (ι : Type*) where
  | call (side : Side) (i : ι)
  | deliver (side : Side)

/-- What an event shows of one side: what it sent, and the message it got, if any, with
what it made of that. -/
structure Seen (μ ο : Type*) where
  side : Side
  sent : List μ
  got : Option (μ × ο)

namespace State

def act (l : State σ μ) (side : Side) (party : σ) (sent : List μ) : State σ μ :=
  Function.update (Function.update l side ⟨party, (l side).inbox⟩) side.other
    ⟨(l side.other).party, (l side.other).inbox ++ sent⟩

def pop (l : State σ μ) (side : Side) : State σ μ :=
  Function.update l side ⟨(l side).party, (l side).inbox.tail⟩

theorem act_self (l : State σ μ) (side : Side) (party : σ) (sent : List μ) :
    l.act side party sent side = ⟨party, (l side).inbox⟩ := by
  rw [act, Function.update_of_ne (Side.other_ne side).symm, Function.update_self]

theorem act_other (l : State σ μ) (side : Side) (party : σ) (sent : List μ) :
    l.act side party sent side.other =
      ⟨(l side.other).party, (l side.other).inbox ++ sent⟩ := by
  rw [act, Function.update_self]

theorem pop_self (l : State σ μ) (side : Side) :
    l.pop side side = ⟨(l side).party, (l side).inbox.tail⟩ := by
  rw [pop, Function.update_self]

theorem pop_other (l : State σ μ) (side : Side) : l.pop side side.other = l side.other := by
  rw [pop, Function.update_of_ne (Side.other_ne side)]

/-- What holds of both ends, each seen from its sender. -/
def Channels (C : σ → List μ → σ → Prop) (l : State σ μ) : Prop :=
  ∀ side, C (l side.other).party (l side).inbox (l side).party

end State

variable (p : Party σ ι μ ο)

/-- An event on the link. A delivery where nothing is under way does nothing. -/
def step (l : State σ μ) : Event ι → Seen μ ο × State σ μ
  | .call side i =>
    (⟨side, (p.call (l side).party i).1, none⟩,
      l.act side (p.call (l side).party i).2 (p.call (l side).party i).1)
  | .deliver side =>
    match (l side).inbox with
    | [] => (⟨side, [], none⟩, l)
    | m :: _ =>
      (⟨side, (p.receive (l side).party m).1.2, some (m, (p.receive (l side).party m).1.1)⟩,
        (l.pop side).act side (p.receive (l side).party m).2 (p.receive (l side).party m).1.2)

abbrev run (l : State σ μ) (es : List (Event ι)) : State σ μ := (Machine.run (step p) l es).2

def sentBy (side : Side) (seen : List (Seen μ ο)) : List μ :=
  seen.flatMap fun o => if o.side = side then o.sent else []

/-- The messages that one side has got, with what it made of each. -/
def gotBy (side : Side) (seen : List (Seen μ ο)) : List (μ × ο) :=
  seen.filterMap fun o => if o.side = side then o.got else none

theorem sentBy_cons (side : Side) (o : Seen μ ο) (seen : List (Seen μ ο)) :
    sentBy side (o :: seen) = sentBy side [o] ++ sentBy side seen :=
  @List.flatMap_append _ _ [o] _ _

theorem gotBy_cons (side : Side) (o : Seen μ ο) (seen : List (Seen μ ο)) :
    gotBy side (o :: seen) = gotBy side [o] ++ gotBy side seen :=
  List.filterMap_append (l := [o])

variable {p}

theorem step_call (l : State σ μ) (side : Side) (i : ι) :
    step p l (.call side i) = (⟨side, (p.call (l side).party i).1, none⟩,
      l.act side (p.call (l side).party i).2 (p.call (l side).party i).1) := rfl

theorem step_deliver_nil {l : State σ μ} {side : Side} (h : (l side).inbox = []) :
    step p l (.deliver side) = (⟨side, [], none⟩, l) := by
  simp only [step, h]

theorem step_deliver_cons {l : State σ μ} {side : Side} {m : μ} {q : List μ}
    (h : (l side).inbox = m :: q) :
    step p l (.deliver side) =
      (⟨side, (p.receive (l side).party m).1.2, some (m, (p.receive (l side).party m).1.1)⟩,
        (l.pop side).act side (p.receive (l side).party m).2
          (p.receive (l side).party m).1.2) := by
  simp only [step, h]

theorem call_ends (l : State σ μ) (side : Side) (i : ι) :
    (step p l (.call side i)).2 side = ⟨(p.call (l side).party i).2, (l side).inbox⟩ ∧
      (step p l (.call side i)).2 side.other =
        ⟨(l side.other).party, (l side.other).inbox ++ (p.call (l side).party i).1⟩ :=
  ⟨State.act_self l side _ _, State.act_other l side _ _⟩

theorem deliver_ends {l : State σ μ} {side : Side} {m : μ} {q : List μ}
    (h : (l side).inbox = m :: q) :
    (step p l (.deliver side)).2 side = ⟨(p.receive (l side).party m).2, q⟩ ∧
      (step p l (.deliver side)).2 side.other = ⟨(l side.other).party,
        (l side.other).inbox ++ (p.receive (l side).party m).1.2⟩ := by
  rw [step_deliver_cons h]
  constructor
  · apply (State.act_self _ side _ _).trans
    rw [State.pop_self, h, List.tail_cons]
  · apply (State.act_other _ side _ _).trans
    rw [State.pop_other]

/-- What relates the sender, the messages under way and the receiver is kept by every
event, when no call and no delivery on either end breaks it. -/
theorem channels_step {C : σ → List μ → σ → Prop}
    (hsend : ∀ s i q r, C s q r → C (p.call s i).2 (q ++ (p.call s i).1) r)
    (hidle : ∀ s q r i, C s q r → C s q (p.call r i).2)
    (hreply : ∀ s m q r, C s q r → C (p.receive s m).2 (q ++ (p.receive s m).1.2) r)
    (htake : ∀ s m q r, C s (m :: q) r → C s q (p.receive r m).2)
    (l : State σ μ) (e : Event ι) (h : l.Channels C) : (step p l e).2.Channels C := by
  intro side'
  cases e with
  | call side i =>
    obtain ⟨hself, hother⟩ := call_ends (p := p) l side i
    obtain rfl | rfl := Side.eq_or_eq_other side side'
    · rw [hself, hother]
      exact hidle _ _ _ i (h side')
    · have hchannel := h side.other
      rw [Side.other_other] at hchannel ⊢
      rw [hself, hother]
      exact hsend _ i _ _ hchannel
  | deliver side =>
    cases hinbox : (l side).inbox with
    | nil =>
      rw [step_deliver_nil hinbox]
      exact h side'
    | cons m q =>
      obtain ⟨hself, hother⟩ := deliver_ends (p := p) hinbox
      obtain rfl | rfl := Side.eq_or_eq_other side side'
      · have hchannel := h side'
        rw [hinbox] at hchannel
        rw [hself, hother]
        exact htake _ m q _ hchannel
      · have hchannel := h side.other
        rw [Side.other_other] at hchannel ⊢
        rw [hself, hother]
        exact hreply _ m _ _ hchannel

theorem step_side (l : State σ μ) (e : Event ι) (side : Side) :
    (∃ i, ((step p l e).2 side).party = (p.call (l side).party i).2 ∧
        sentBy side [(step p l e).1] = (p.call (l side).party i).1 ∧
        gotBy side [(step p l e).1] = []) ∨
      (((step p l e).2 side).party = (l side).party ∧ sentBy side [(step p l e).1] = [] ∧
        gotBy side [(step p l e).1] = []) ∨
      ∃ m q, (l side).inbox = m :: q ∧
        ((step p l e).2 side).party = (p.receive (l side).party m).2 ∧
        sentBy side [(step p l e).1] = (p.receive (l side).party m).1.2 ∧
        gotBy side [(step p l e).1] = [(m, (p.receive (l side).party m).1.1)] := by
  cases e with
  | call side' i =>
    obtain ⟨hself, hother⟩ := call_ends (p := p) l side' i
    obtain rfl | rfl := Side.eq_or_eq_other side' side
    · refine Or.inl ⟨i, by rw [hself], ?_, ?_⟩ <;> simp [sentBy, gotBy, step_call]
    · refine Or.inr (Or.inl ⟨by rw [hother], ?_, ?_⟩) <;>
        simp [sentBy, gotBy, step_call, (Side.other_ne side').symm]
  | deliver side' =>
    cases hinbox : (l side').inbox with
    | nil =>
      rw [step_deliver_nil hinbox]
      refine Or.inr (Or.inl ⟨rfl, ?_, ?_⟩) <;> simp [sentBy, gotBy]
    | cons m q =>
      obtain ⟨hself, hother⟩ := deliver_ends (p := p) hinbox
      obtain rfl | rfl := Side.eq_or_eq_other side' side
      · refine Or.inr (Or.inr ⟨m, q, hinbox, by rw [hself], ?_, ?_⟩) <;>
          simp [sentBy, gotBy, step_deliver_cons hinbox]
      · refine Or.inr (Or.inl ⟨by rw [hother], ?_, ?_⟩) <;>
          simp [sentBy, gotBy, step_deliver_cons hinbox, (Side.other_ne side').symm]

theorem fifo_step (l : State σ μ) (e : Event ι) (side : Side) :
    (gotBy side [(step p l e).1]).map Prod.fst ++ ((step p l e).2 side).inbox =
      (l side).inbox ++ sentBy side.other [(step p l e).1] := by
  cases e with
  | call side' i =>
    obtain ⟨hself, hother⟩ := call_ends (p := p) l side' i
    obtain rfl | rfl := Side.eq_or_eq_other side' side
    · rw [hself]
      simp [gotBy, sentBy, step_call, (Side.other_ne side).symm]
    · rw [hother]
      simp [gotBy, sentBy, step_call, (Side.other_ne side').symm]
  | deliver side' =>
    cases hinbox : (l side').inbox with
    | nil =>
      rw [step_deliver_nil hinbox]
      simp [gotBy, sentBy]
    | cons m q =>
      obtain ⟨hself, hother⟩ := deliver_ends (p := p) hinbox
      obtain rfl | rfl := Side.eq_or_eq_other side' side
      · rw [hself]
        simp [gotBy, sentBy, step_deliver_cons hinbox, hinbox, (Side.other_ne side).symm]
      · rw [hother]
        simp [gotBy, sentBy, step_deliver_cons hinbox, (Side.other_ne side').symm]

/-- A link loses, repeats and reorders nothing: what one side has got, with what is still
under way to it, is what was under way before and what the other side has sent since. -/
theorem fifo (l : State σ μ) (es : List (Event ι)) (side : Side) :
    (gotBy side (Machine.run (step p) l es).1).map Prod.fst ++ (run p l es side).inbox =
      (l side).inbox ++ sentBy side.other (Machine.run (step p) l es).1 := by
  induction es generalizing l with
  | nil => exact (List.append_nil _).symm
  | cons e es ih =>
    have hstep := fifo_step (p := p) l e side
    have hrest := ih (step p l e).2
    rw [Machine.run, gotBy_cons, sentBy_cons, List.map_append, List.append_assoc]
    change _ ++ (_ ++ (run p (step p l e).2 es side).inbox) = _
    rw [hrest, ← List.append_assoc, hstep, List.append_assoc]

def Delivers (l : State σ μ) : Event ι → Prop
  | .call _ _ => False
  | .deliver side => (l side).inbox ≠ []

def inFlight (l : State σ μ) : List μ := (l .left).inbox ++ (l .right).inbox

section Coding

variable {ν : Type*}

/-- A party that exchanges codes of messages does what another does with the messages, as
long as its state keeps an invariant and the messages are among the good ones. -/
structure Codes (p : Party σ ι μ ο) (p' : Party σ ι ν ο) (code : μ → ν) (I : σ → Prop)
    (good : μ → Prop) (C : ι → Prop) : Prop where
  call : ∀ s i, I s → C i → p'.call s i = ((p.call s i).1.map code, (p.call s i).2) ∧
    I (p.call s i).2 ∧ ∀ m ∈ (p.call s i).1, good m
  receive : ∀ s m, I s → good m →
    p'.receive s (code m) =
      (((p.receive s m).1.1, (p.receive s m).1.2.map code), (p.receive s m).2) ∧
    I (p.receive s m).2 ∧ ∀ m' ∈ (p.receive s m).1.2, good m'

structure Terminal.Coded (code : μ → ν) (I : σ → Prop) (good : μ → Prop) (t : Terminal σ μ)
    (t' : Terminal σ ν) : Prop where
  party : t'.party = t.party
  inbox : t'.inbox = t.inbox.map code
  keeps : I t.party
  good : ∀ m ∈ t.inbox, good m

def State.Coded (code : μ → ν) (I : σ → Prop) (good : μ → Prop) (l : State σ μ)
    (l' : State σ ν) : Prop := ∀ side, (l side).Coded code I good (l' side)

structure Seen.Coded (code : μ → ν) (o : Seen μ ο) (o' : Seen ν ο) : Prop where
  side : o'.side = o.side
  sent : o'.sent = o.sent.map code
  got : o'.got = o.got.map fun x => (code x.1, x.2)

def Event.Makes (C : ι → Prop) : Event ι → Prop
  | .call _ i => C i
  | .deliver _ => True

variable {p : Party σ ι μ ο} {p' : Party σ ι ν ο} {code : μ → ν} {I : σ → Prop}
  {good : μ → Prop} {C : ι → Prop}

theorem State.coded_of_ends {l : State σ μ} {l' : State σ ν} (side : Side)
    (hself : (l side).Coded code I good (l' side))
    (hother : (l side.other).Coded code I good (l' side.other)) :
    l.Coded code I good l' := by
  intro side'
  obtain rfl | rfl := Side.eq_or_eq_other side side'
  · exact hself
  · exact hother

theorem Terminal.Coded.append {t : Terminal σ μ} {t' : Terminal σ ν}
    (h : t.Coded code I good t') {sent : List μ} (hsent : ∀ m ∈ sent, good m) :
    Terminal.Coded code I good ⟨t.party, t.inbox ++ sent⟩
      ⟨t'.party, t'.inbox ++ sent.map code⟩ where
  party := h.party
  inbox := by rw [h.inbox, List.map_append]
  keeps := h.keeps
  good := fun m hm => (List.mem_append.mp hm).elim (h.good m) (hsent m)

theorem Codes.step (h : Codes p p' code I good C) {l : State σ μ} {l' : State σ ν}
    (hl : l.Coded code I good l') {e : Event ι} (he : e.Makes C) :
    (step p l e).1.Coded code (step p' l' e).1 ∧
      (step p l e).2.Coded code I good (step p' l' e).2 := by
  cases e with
  | call side i =>
    obtain ⟨hcall, hkeeps, hgood⟩ := h.call (l side).party i (hl side).keeps he
    rw [← (hl side).party] at hcall
    obtain ⟨hself, hother⟩ := call_ends (p := p) l side i
    obtain ⟨hself', hother'⟩ := call_ends (p := p') l' side i
    rw [hcall, (hl side).party] at hself' hother'
    refine ⟨⟨rfl, ?_, rfl⟩, State.coded_of_ends side ?_ ?_⟩
    · rw [step_call, step_call, hcall, (hl side).party]
    · rw [hself, hself']
      exact ⟨rfl, (hl side).inbox, hkeeps, (hl side).good⟩
    · rw [hother, hother']
      exact (hl side.other).append hgood
  | deliver side =>
    cases hinbox : (l side).inbox with
    | nil =>
      have hinbox' : (l' side).inbox = [] := by rw [(hl side).inbox, hinbox, List.map_nil]
      rw [step_deliver_nil hinbox, step_deliver_nil hinbox']
      exact ⟨⟨rfl, rfl, rfl⟩, hl⟩
    | cons m q =>
      have hinbox' : (l' side).inbox = code m :: q.map code := by
        rw [(hl side).inbox, hinbox, List.map_cons]
      have hmem : ∀ x ∈ m :: q, good x := hinbox ▸ (hl side).good
      obtain ⟨hreceive, hkeeps, hgood⟩ :=
        h.receive (l side).party m (hl side).keeps (hmem m List.mem_cons_self)
      rw [← (hl side).party] at hreceive
      obtain ⟨hself, hother⟩ := deliver_ends (p := p) hinbox
      obtain ⟨hself', hother'⟩ := deliver_ends (p := p') hinbox'
      rw [hreceive, (hl side).party] at hself' hother'
      refine ⟨?_, State.coded_of_ends side ?_ ?_⟩
      · rw [step_deliver_cons hinbox, step_deliver_cons hinbox', hreceive, (hl side).party]
        exact ⟨rfl, rfl, rfl⟩
      · rw [hself, hself']
        exact ⟨rfl, rfl, hkeeps, fun x hx => hmem x (List.mem_cons_of_mem m hx)⟩
      · rw [hother, hother']
        exact (hl side.other).append hgood

/-- A link of codes runs as the link of the messages does. -/
theorem Codes.run (h : Codes p p' code I good C) {l : State σ μ} {l' : State σ ν}
    (hl : l.Coded code I good l') {es : List (Event ι)} (hes : ∀ e ∈ es, e.Makes C) :
    List.Forall₂ (Seen.Coded code) (Machine.run (Link.step p) l es).1
        (Machine.run (Link.step p') l' es).1 ∧
      (Link.run p l es).Coded code I good (Link.run p' l' es) :=
  Machine.simulation_along (C := fun _ e => Event.Makes C e) (R := State.Coded code I good)
    (fun _ _ e he hl => h.step (e := e) hl he) hl (Machine.along_of_mem (fun e he _ => hes e he) l)

end Coding

end Lib.Link
