import Oems.FixStrict

namespace Oems

open Lib Lib.Delimited

theorem isDigit_of_mem_threeDigits {n : ℕ} {b : UInt8} (h : b ∈ FixMessage.threeDigits n) :
    Decimal.isDigit b = true := by
  obtain hzero | hdigit := List.mem_append.mp h
  · rw [List.eq_of_mem_replicate hzero]
    rfl
  · exact Decimal.isDigit_of_mem_ofNat hdigit

theorem toNat?_threeDigits (n : ℕ) : Decimal.toNat? (FixMessage.threeDigits n) = some n := by
  have hvalue : Decimal.value (FixMessage.threeDigits n) = n := by
    rw [FixMessage.threeDigits, Decimal.value_zeros_append, Decimal.value_ofNat]
  rw [Decimal.toNat?_eq_some_iff]
  refine ⟨?_, fun b => isDigit_of_mem_threeDigits, hvalue⟩
  simp [FixMessage.threeDigits, Decimal.ofNat_ne_nil]

theorem threeDigits_length {n : ℕ} (h : n < 1000) : (FixMessage.threeDigits n).length = 3 := by
  have hle := Decimal.length_ofNat_le (k := 3) (by decide) h
  simp only [FixMessage.threeDigits, List.length_append, List.length_replicate]
  omega

/-- A tag that is a positive `std::int32_t`, and a value without SOH. -/
def PlainField (f : ℤ × Str) : Prop := 0 < f.1 ∧ f.1 < 2 ^ 31 ∧ soh ∉ f.2

instance (f : ℤ × Str) : Decidable (PlainField f) := inferInstanceAs (Decidable (_ ∧ _ ∧ _))

namespace FixMessage

def WellFormed (m : FixMessage) : Prop := ∀ f ∈ m.fields, PlainField f

instance (m : FixMessage) : Decidable m.WellFormed :=
  inferInstanceAs (Decidable (∀ f ∈ m.fields, PlainField f))

def others (m : FixMessage) : List (ℤ × Str) := m.fields.filter fun f => ¬ isFramed f.1

/-- The message that the wire form of a message stands for, up to the text of
its checksum. -/
def framed (m : FixMessage) (trailer : Str) : FixMessage :=
  ⟨(FixTag.beginString, m.begin) :: (FixTag.bodyLength, Decimal.ofNat m.body.length) ::
    (FixTag.msgType, m.mtype) :: (m.others ++ [(FixTag.checkSum, trailer)])⟩

theorem WellFormed.get {m : FixMessage} (hm : m.WellFormed) {tag : ℤ} {v : Str}
    (h : m.get tag = some v) : soh ∉ v := by
  obtain ⟨f, hf, rfl⟩ := Option.map_eq_some_iff.mp h
  exact (hm f (List.mem_of_find?_eq_some hf)).2.2

theorem WellFormed.begin_soh {m : FixMessage} (hm : m.WellFormed) : soh ∉ m.begin := by
  rw [begin]
  cases h : m.get FixTag.beginString with
  | none => decide
  | some v => exact hm.get h

theorem WellFormed.mtype_soh {m : FixMessage} (hm : m.WellFormed) : soh ∉ m.mtype := by
  rw [mtype]
  cases h : m.get FixTag.msgType with
  | none => decide
  | some v => exact hm.get h

end FixMessage

theorem equals_notMem_ofNat (n : ℕ) : equals ∉ Decimal.ofNat n :=
  equals_notMem_of_digits fun _ => Decimal.isDigit_of_mem_ofNat

theorem soh_notMem_of_digits {s : Str} (h : ∀ b ∈ s, Decimal.isDigit b = true) : soh ∉ s :=
  fun hm => absurd (h soh hm) (by decide)

theorem exists_pieces {fields : List (ℤ × Str)} (h : ∀ f ∈ fields, PlainField f) :
    ∃ ps : List FixPiece, render ps = fields.flatMap FixMessage.wireField ∧
      List.Forall₂ Reads ps fields := by
  induction fields with
  | nil => exact ⟨[], rfl, .nil⟩
  | cons f fields ih =>
    obtain ⟨ps, hps, hall⟩ := ih fun g hg => h g (by simp [hg])
    obtain ⟨tag, value⟩ := f
    obtain ⟨hpos, hlt, hsoh⟩ : 0 < tag ∧ tag < 2 ^ 31 ∧ soh ∉ value :=
      h (tag, value) (List.mem_cons_self ..)
    lift tag to ℕ using le_of_lt hpos
    have hlead : LeadsTag (Decimal.ofNat tag) tag :=
      leadsTag_of_digits (Decimal.toNat?_ofNat tag) (by exact_mod_cast hpos)
        (by exact_mod_cast hlt)
    refine ⟨⟨Decimal.ofNat tag, value, equals_notMem_ofNat tag, hsoh⟩ :: ps, ?_,
      .cons ⟨tag, hlead, rfl⟩ hall⟩
    rw [render_cons, hps]
    rfl

/-- The pieces of the wire form of a message. -/
structure Layout (m : FixMessage) where
  rest : List FixPiece
  begin_soh : soh ∉ m.begin
  mtype_soh : soh ∉ m.mtype
  rest_text : render rest = m.others.flatMap FixMessage.wireField
  rest_reads : List.Forall₂ Reads rest m.others

theorem FixMessage.WellFormed.exists_layout {m : FixMessage} (hm : m.WellFormed) :
    Nonempty (Layout m) := by
  have hothers : ∀ f ∈ m.others, PlainField f := fun f hf => hm f (List.mem_of_mem_filter hf)
  obtain ⟨rest, htext, hreads⟩ := exists_pieces hothers
  exact ⟨⟨rest, hm.begin_soh, hm.mtype_soh, htext, hreads⟩⟩

namespace Layout

variable {m : FixMessage}

def eight (L : Layout m) : FixPiece := ⟨str "8", m.begin, equals_notMem_eight, L.begin_soh⟩

def nine (_ : Layout m) : FixPiece :=
  ⟨str "9", Decimal.ofNat m.body.length, equals_notMem_nine,
    soh_notMem_of_digits fun _ => Decimal.isDigit_of_mem_ofNat⟩

def mid (L : Layout m) : List FixPiece :=
  ⟨str "35", m.mtype, equals_notMem_thirtyFive, L.mtype_soh⟩ :: L.rest

def trailer (_ : Layout m) : FixPiece :=
  ⟨str "10", FixMessage.threeDigits (computeCheckSum m.withoutChecksum), equals_notMem_ten,
    soh_notMem_of_digits fun _ => isDigit_of_mem_threeDigits⟩

def pieces (L : Layout m) : List FixPiece := [L.eight] ++ L.nine :: (L.mid ++ [L.trailer])

theorem mid_text (L : Layout m) : render L.mid = m.body := by
  rw [mid, render_cons, L.rest_text]
  simp [FixMessage.body, FixMessage.others, Piece.bytes, str, equals]

theorem head_text (L : Layout m) : render ([L.eight] ++ L.nine :: L.mid) = m.withoutChecksum := by
  rw [render_append, render_cons, render_nil, render_cons, L.mid_text]
  simp [FixMessage.withoutChecksum, eight, nine, Piece.bytes, str, equals]

theorem text (L : Layout m) : render L.pieces = m.serialize := by
  rw [pieces, ← List.cons_append, ← List.append_assoc, render_append, L.head_text, render_cons,
    render_nil]
  simp [FixMessage.serialize, trailer, Piece.bytes, str, equals]

theorem reads (L : Layout m) : List.Forall₂ Reads L.pieces
    (m.framed (FixMessage.threeDigits (computeCheckSum m.withoutChecksum))).fields := by
  have h8 : Reads L.eight (FixTag.beginString, m.begin) :=
    ⟨8, by change LeadsTag (str "8") 8; decide, rfl⟩
  have h9 : Reads L.nine (FixTag.bodyLength, Decimal.ofNat m.body.length) :=
    ⟨9, by change LeadsTag (str "9") 9; decide, rfl⟩
  have h35 : Reads ⟨str "35", m.mtype, by decide, L.mtype_soh⟩ (FixTag.msgType, m.mtype) :=
    ⟨35, by change LeadsTag (str "35") 35; decide, rfl⟩
  have h10 : Reads L.trailer (FixTag.checkSum, L.trailer.value) :=
    ⟨10, by change LeadsTag (str "10") 10; decide, rfl⟩
  exact .cons h8 (.cons h9 (.cons h35 (List.rel_append L.rest_reads (.cons h10 .nil))))

/-- The frame of a message as it was written. -/
def frame (L : Layout m) : FieldFrame m.serialize where
  front := [L.eight]
  nine := L.nine
  mid := L.mid
  last := L.trailer
  text := L.text
  readable := leadsTag_of_reads L.reads
  first := by
    intro p hp
    rw [List.mem_singleton.mp hp]
    change ¬ LeadsTag (str "8") 9
    decide
  isNine := by change LeadsTag (str "9") 9; decide
  isTen := by change LeadsTag (str "10") 10; decide

theorem denoted (L : Layout m) : L.frame.Denoted := by
  constructor
  · change Decimal.toNat? (Decimal.ofNat m.body.length) = some (render L.mid).length
    rw [Decimal.toNat?_ofNat, L.mid_text]
  · change Decimal.toNat? (FixMessage.threeDigits _) =
      some (byteSum (render ([L.eight] ++ L.nine :: L.mid)) % 256)
    rw [toNat?_threeDigits, computeCheckSum_eq, L.head_text]

theorem plain (L : Layout m) (h : ¬ str "9=" <:+: m.begin) : L.frame.Plain := by
  refine ⟨rfl, rfl, ?_, List.cons_ne_nil _ _⟩
  have htext : render [L.eight] = 56 :: 61 :: (m.begin ++ soh :: []) := by
    simp [eight, Piece.bytes, str, equals]
  change ¬ str "9=" <:+: render [L.eight]
  rw [htext, List.infix_cons_iff, List.infix_cons_iff,
    Substring.infix_append_cons_iff (by decide)]
  simpa [str] using h

theorem parse (L : Layout m) : FixMessage.parse m.serialize =
    .ok (m.framed (FixMessage.threeDigits (computeCheckSum m.withoutChecksum))) :=
  parse_eq_ok_iff.mpr ⟨L.pieces, L.text, L.reads⟩

theorem strict (L : Layout m) (hbegin : ¬ str "9=" <:+: m.begin)
    (hlt : m.body.length < 2 ^ 31) : FixMessage.parseStrict m.serialize =
      .ok (m.framed (FixMessage.threeDigits (computeCheckSum m.withoutChecksum))) := by
  have hlen : L.frame.length = m.body.length := congrArg List.length L.mid_text
  obtain ⟨T, hsame⟩ := (L.plain hbegin).exists_textFrame
  obtain ⟨r, hr⟩ := L.frame.accepted L.denoted (by rwa [hlen]) hsame
  obtain rfl := Except.ok.inj (L.parse.symm.trans (parseStrict_eq_ok_iff.mp hr).1)
  exact hr

theorem length_of_strict (L : Layout m) {r : FixMessage}
    (h : FixMessage.parseStrict m.serialize = .ok r) : m.body.length < 2 ^ 31 := by
  obtain ⟨hparse, bodyLength, _, _, hbody, -, hlen, -⟩ := parseStrict_eq_ok_iff.mp h
  obtain rfl := Except.ok.inj (L.parse.symm.trans hparse)
  obtain rfl : Decimal.ofNat m.body.length = bodyLength := Option.some.inj hbody
  rw [fromCharsInt32_of_toNat? (Decimal.toNat?_ofNat _)] at hlen
  by_contra hlt
  rw [if_neg hlt] at hlen
  cases hlen

end Layout

namespace FixMessage

variable (m : FixMessage) (trailer : Str)

theorem framed_begin : (m.framed trailer).begin = m.begin := rfl

theorem framed_mtype : (m.framed trailer).mtype = m.mtype := rfl

theorem framed_others : (m.framed trailer).others = m.others := by
  simp [framed, others, isFramed, FixTag.beginString, FixTag.bodyLength, FixTag.msgType,
    FixTag.checkSum]

theorem framed_serialize : (m.framed trailer).serialize = m.serialize := by
  have hbody : (m.framed trailer).body = m.body := by
    rw [body, framed_mtype, ← others, framed_others]
    rfl
  have hhead : (m.framed trailer).withoutChecksum = m.withoutChecksum := by
    rw [withoutChecksum, hbody, framed_begin]
    rfl
  rw [serialize, hhead]
  rfl

end FixMessage

/-- What is written is read back, and written again as it was. -/
theorem fix_round_trip (m : FixMessage) (hm : m.WellFormed) :
    ∃ trailer : Str, trailer.length = 3 ∧
      Decimal.toNat? trailer = some (byteSum m.withoutChecksum % 256) ∧
      FixMessage.parse m.serialize = .ok (m.framed trailer) ∧
      (¬ str "9=" <:+: m.begin → m.body.length < 2 ^ 31 →
        FixMessage.parseStrict m.serialize = .ok (m.framed trailer)) ∧
      (m.framed trailer).serialize = m.serialize := by
  obtain ⟨L⟩ := hm.exists_layout
  have hlt := computeCheckSum_lt m.withoutChecksum
  refine ⟨FixMessage.threeDigits (computeCheckSum m.withoutChecksum), ?_, ?_, L.parse, L.strict,
    m.framed_serialize _⟩
  · exact threeDigits_length (by omega)
  · rw [toNat?_threeDigits, computeCheckSum_eq]

def oddValues : FixMessage := ⟨[(11, str "A=B"), (58, [])]⟩

theorem oddValues_round_trip : ∃ trailer : Str, trailer.length = 3 ∧
    Decimal.toNat? trailer = some (byteSum oddValues.withoutChecksum % 256) ∧
    FixMessage.parse oddValues.serialize = .ok (oddValues.framed trailer) ∧
    (¬ str "9=" <:+: oddValues.begin → oddValues.body.length < 2 ^ 31 →
      FixMessage.parseStrict oddValues.serialize = .ok (oddValues.framed trailer)) ∧
    (oddValues.framed trailer).serialize = oddValues.serialize :=
  fix_round_trip oddValues (by decide)

def textOf (n : ℕ) : FixMessage := ⟨[(58, List.replicate n 65)]⟩

theorem textOf_wellFormed (n : ℕ) : (textOf n).WellFormed := by
  intro f hf
  rw [List.mem_singleton.mp hf]
  refine ⟨(by decide : (0 : ℤ) < 58), (by decide : (58 : ℤ) < 2 ^ 31), fun hmem => ?_⟩
  exact absurd (List.eq_of_mem_replicate hmem) (by decide)

theorem textOf_body_length (n : ℕ) : n ≤ (textOf n).body.length := by
  have hothers : (textOf n).others = [(58, List.replicate n 65)] := by
    simp [textOf, FixMessage.others, FixMessage.isFramed, FixTag.beginString, FixTag.bodyLength,
      FixTag.msgType, FixTag.checkSum]
  rw [FixMessage.body, ← FixMessage.others, hothers]
  simp only [List.flatMap_cons, FixMessage.wireField, List.length_append, List.length_cons,
    List.length_replicate]
  omega

theorem textOf_not_strict {n : ℕ} (h : 2 ^ 31 ≤ n) (r : FixMessage) :
    FixMessage.parseStrict (textOf n).serialize ≠ .ok r := by
  intro hr
  obtain ⟨L⟩ := (textOf_wellFormed n).exists_layout
  have hle := textOf_body_length n
  have hlt := L.length_of_strict hr
  omega

theorem textOf_begin (n : ℕ) : (textOf n).begin = str "FIX.4.4" := rfl

/-- The strict parser refuses a message of 2^31 bytes as it was written. -/
theorem longText_not_strict : (textOf (2 ^ 31)).WellFormed ∧
    ¬ str "9=" <:+: (textOf (2 ^ 31)).begin ∧
    ∀ r, FixMessage.parseStrict (textOf (2 ^ 31)).serialize ≠ .ok r := by
  refine ⟨textOf_wellFormed _, ?_, textOf_not_strict (le_refl _)⟩
  rw [textOf_begin]
  decide

end Oems
