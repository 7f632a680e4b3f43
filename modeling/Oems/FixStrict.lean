import Oems.TextFrame

namespace Oems

open Lib Lib.Delimited

/-- A message that falls into fields, with its first field of tag 9 and its last
field, of tag 10. -/
@[ext]
structure FieldFrame (raw : Str) where
  front : List FixPiece
  nine : FixPiece
  mid : List FixPiece
  last : FixPiece
  text : render (front ++ nine :: (mid ++ [last])) = raw
  readable : ∀ p ∈ front ++ nine :: (mid ++ [last]), ∃ n, LeadsTag p.text n
  first : ∀ p ∈ front, ¬ LeadsTag p.text 9
  isNine : LeadsTag nine.text 9
  isTen : LeadsTag last.text 10

namespace FieldFrame

variable {raw : Str}

def length (F : FieldFrame raw) : ℕ := (render F.mid).length

def sum (F : FieldFrame raw) : ℕ := byteSum (render (F.front ++ F.nine :: F.mid)) % 256

/-- Both values are runs of digits and denote what they stand for. -/
def Denoted (F : FieldFrame raw) : Prop :=
  Decimal.toNat? F.nine.value = some F.length ∧ Decimal.toNat? F.last.value = some F.sum

end FieldFrame

theorem LeadsTag.unique {text : Str} {n k : ℕ} (h : LeadsTag text n) (h' : LeadsTag text k) :
    n = k :=
  Option.some.inj (h.1.symm.trans h'.1)

section Fields

variable {ps front rest : List FixPiece} {p : FixPiece} {fields : List (ℤ × Str)}

theorem get_of_reads {n : ℕ} (h : List.Forall₂ Reads (front ++ p :: rest) fields)
    (hfront : ∀ q ∈ front, ¬ LeadsTag q.text n) (hp : LeadsTag p.text n) :
    FixMessage.get ⟨fields⟩ n = some p.value := by
  induction front generalizing fields with
  | nil =>
    cases h with
    | cons hread _ =>
      obtain ⟨k, hk, rfl⟩ := hread
      rw [FixMessage.get_cons, if_pos (by rw [hk.unique hp])]
  | cons q front ih =>
    cases h with
    | cons hread hrest =>
      obtain ⟨k, hk, rfl⟩ := hread
      have hne : (k : ℤ) ≠ n := by
        intro hkn
        obtain rfl : k = n := by exact_mod_cast hkn
        exact hfront q (by simp) hk
      rw [FixMessage.get_cons, if_neg hne]
      exact ih hrest fun r hr => hfront r (by simp [hr])

theorem reads_of_get {n : ℕ} {v : Str} (h : List.Forall₂ Reads ps fields)
    (hget : FixMessage.get ⟨fields⟩ n = some v) :
    ∃ front p rest, ps = front ++ p :: rest ∧ (∀ q ∈ front, ¬ LeadsTag q.text n) ∧
      LeadsTag p.text n ∧ p.value = v := by
  induction h with
  | nil => cases hget
  | @cons p f ps fields hread _ ih =>
    obtain ⟨k, hk, rfl⟩ := hread
    rw [FixMessage.get_cons] at hget
    split_ifs at hget with hkn
    · obtain rfl : k = n := Int.ofNat_inj.mp hkn
      cases hget
      exact ⟨[], p, ps, rfl, by simp, hk, rfl⟩
    · obtain ⟨front, q, rest, rfl, hfront, hq, hv⟩ := ih hget
      refine ⟨p :: front, q, rest, rfl, ?_, hq, hv⟩
      simp only [List.forall_mem_cons]
      exact ⟨fun hn => hkn (by rw [hk.unique hn]), hfront⟩

theorem reads_concat {fields : List (ℤ × Str)} (h : List.Forall₂ Reads (ps ++ [p]) fields) :
    ∃ fields' f, fields = fields' ++ [f] ∧ List.Forall₂ Reads ps fields' ∧ Reads p f := by
  induction ps generalizing fields with
  | nil =>
    cases h with
    | cons hread hnil =>
      cases hnil
      exact ⟨[], _, rfl, .nil, hread⟩
  | cons q ps ih =>
    cases h with
    | cons hread hrest =>
      obtain ⟨fields', f, rfl, hps, hf⟩ := ih hrest
      exact ⟨_ :: fields', f, rfl, .cons hread hps, hf⟩

end Fields

theorem split_unique {p q : FixPiece} {front front' rest rest' : List FixPiece}
    {T : FixPiece → Prop} (hfront : ∀ r ∈ front, ¬ T r) (hfront' : ∀ r ∈ front', ¬ T r)
    (hp : T p) (hq : T q) (h : front ++ p :: rest = front' ++ q :: rest') :
    front = front' ∧ p = q ∧ rest = rest' := by
  induction front generalizing front' with
  | nil =>
    cases front' with
    | nil => simpa using h
    | cons r front' =>
      obtain ⟨rfl, -⟩ := List.cons_eq_cons.mp h
      exact absurd hp (hfront' p (by simp))
  | cons r front ih =>
    cases front' with
    | nil =>
      obtain ⟨rfl, -⟩ := List.cons_eq_cons.mp h
      exact absurd hq (hfront r (by simp))
    | cons r' front' =>
      obtain ⟨rfl, htail⟩ := List.cons_eq_cons.mp h
      obtain ⟨rfl, hpq, hrest⟩ := ih (fun r hr => hfront r (by simp [hr]))
        (fun r hr => hfront' r (by simp [hr])) htail
      exact ⟨rfl, hpq, hrest⟩

namespace FieldFrame

variable {raw : Str}

theorem unique (F G : FieldFrame raw) : F = G := by
  have htext := render_injective (F.text.trans G.text.symm)
  obtain ⟨hfront, hnine, hrest⟩ := split_unique F.first G.first F.isNine G.isNine htext
  obtain ⟨hmid, hlast⟩ := List.append_inj' hrest rfl
  exact FieldFrame.ext hfront hnine hmid (List.singleton_inj.mp hlast)

theorem parsed (F : FieldFrame raw) : ∃ m, FixMessage.parse raw = .ok m ∧
    m.get FixTag.bodyLength = some F.nine.value ∧
    m.fields.getLast? = some (FixTag.checkSum, F.last.value) := by
  obtain ⟨fields, hall⟩ := exists_fields F.readable
  refine ⟨⟨fields⟩, parse_eq_ok_iff.mpr ⟨_, F.text, hall⟩, ?_, ?_⟩
  · exact get_of_reads hall F.first F.isNine
  · rw [← List.cons_append, ← List.append_assoc] at hall
    obtain ⟨fields', f, rfl, -, k, hk, rfl⟩ := reads_concat hall
    rw [List.getLast?_concat, hk.unique F.isTen]
    rfl

theorem exists_of_parsed {m : FixMessage} {bodyLength checkSum : Str}
    (hparse : FixMessage.parse raw = .ok m)
    (hbody : m.get FixTag.bodyLength = some bodyLength)
    (hlast : m.fields.getLast? = some (FixTag.checkSum, checkSum)) :
    ∃ F : FieldFrame raw, F.nine.value = bodyLength ∧ F.last.value = checkSum := by
  obtain ⟨ps, htext, hall⟩ := parse_eq_ok_iff.mp hparse
  obtain ⟨front, nine, rest, rfl, hfront, hnine, hvalue⟩ := reads_of_get (n := 9) hall hbody
  have hreadable := leadsTag_of_reads hall
  obtain rfl | ⟨mid, last, rfl⟩ := List.eq_nil_or_concat rest
  · obtain ⟨fields', f, hfields, -, k, hk, rfl⟩ := reads_concat hall
    rw [hfields, List.getLast?_concat, Option.some.injEq, Prod.mk.injEq] at hlast
    have hten : k = 10 := Int.ofNat_inj.mp hlast.1
    have hboth := hk.unique hnine
    omega
  · rw [List.concat_eq_append] at *
    rw [← List.cons_append, ← List.append_assoc] at hall
    obtain ⟨fields', f, hfields, -, k, hk, rfl⟩ := reads_concat hall
    rw [hfields, List.getLast?_concat, Option.some.injEq, Prod.mk.injEq] at hlast
    obtain rfl : k = 10 := Int.ofNat_inj.mp hlast.1
    exact ⟨⟨front, nine, mid, last, htext, hreadable, hfront, hnine, hk⟩, hvalue, hlast.2⟩

end FieldFrame

def IntactMessage (raw : Str) : Prop :=
  (∃ m, FixMessage.parse raw = .ok m) ∧ ∃ F : FieldFrame raw, F.Denoted

def StrictExact (raw : Str) : Prop :=
  (∃ m, FixMessage.parseStrict raw = .ok m) ↔ IntactMessage raw

/-- The marks frame as many bytes as the fields and the same checksum. -/
def TextFrame.SameAs {raw : Str} (T : TextFrame raw) (F : FieldFrame raw) : Prop :=
  T.length = F.length ∧ T.sum = F.sum

/-- The frame that the marks `9=` and `10=` give can stand for the frame of the
fields. A message whose fields make it intact has marks that frame as much, and its
length fits an `std::int32_t`. Where the values start with the length and checksum of
the marked bytes, they are digits throughout and the fields frame as much. -/
structure FramesAgree (raw : Str) : Prop where
  intact : ∀ F : FieldFrame raw, F.Denoted → F.length < 2 ^ 31 ∧ ∃ T : TextFrame raw, T.SameAs F
  marked : ∀ (F : FieldFrame raw) (T : TextFrame raw),
    fromCharsInt32 F.nine.value = some (T.length : ℤ) →
    fromCharsInt32 F.last.value = some (T.sum : ℤ) →
    (∀ b ∈ F.nine.value ++ F.last.value, Decimal.isDigit b = true) ∧ T.SameAs F

theorem fromCharsInt32_of_toNat? {v : Str} {n : ℕ} (h : Decimal.toNat? v = some n) :
    fromCharsInt32 v = if n < 2 ^ 31 then some (n : ℤ) else none := by
  rw [fromCharsInt32, Decimal.fromChars_of_toNat? h (by decide)]
  congr 1
  simp only [eq_iff_iff]
  omega

theorem toNat?_of_fromCharsInt32 {v : Str} {n : ℕ}
    (hdigits : ∀ b ∈ v, Decimal.isDigit b = true) (h : fromCharsInt32 v = some (n : ℤ)) :
    Decimal.toNat? v = some n := by
  have hne : v ≠ [] := by
    rintro rfl
    cases h
  obtain ⟨k, hk⟩ : ∃ k, Decimal.toNat? v = some k :=
    ⟨_, Decimal.toNat?_eq_some_iff.mpr ⟨hne, hdigits, rfl⟩⟩
  rw [fromCharsInt32_of_toNat? hk] at h
  split_ifs at h
  rw [hk, Int.ofNat_inj.mp (Option.some.inj h)]

namespace FieldFrame

variable {raw : Str}

theorem sum_lt (F : FieldFrame raw) : F.sum < 256 := Nat.mod_lt _ (by decide)

theorem Denoted.digits {F : FieldFrame raw} (h : F.Denoted) :
    ∀ b ∈ F.nine.value ++ F.last.value, Decimal.isDigit b = true := by
  intro b hb
  obtain hb | hb := List.mem_append.mp hb
  · exact (Decimal.toNat?_eq_some_iff.mp h.1).2.1 b hb
  · exact (Decimal.toNat?_eq_some_iff.mp h.2).2.1 b hb

theorem Denoted.sameAs {F : FieldFrame raw} (h : F.Denoted) {T : TextFrame raw}
    (hlen : fromCharsInt32 F.nine.value = some (T.length : ℤ))
    (hsum : fromCharsInt32 F.last.value = some (T.sum : ℤ)) :
    F.length < 2 ^ 31 ∧ T.SameAs F := by
  have hlt := F.sum_lt
  rw [fromCharsInt32_of_toNat? h.1] at hlen
  rw [fromCharsInt32_of_toNat? h.2, if_pos (by omega)] at hsum
  split_ifs at hlen with hfits
  exact ⟨hfits, (Int.ofNat_inj.mp (Option.some.inj hlen)).symm,
    (Int.ofNat_inj.mp (Option.some.inj hsum)).symm⟩

theorem accepted (F : FieldFrame raw) (hden : F.Denoted) (hlt : F.length < 2 ^ 31)
    {T : TextFrame raw} (hsame : T.SameAs F) : ∃ m, FixMessage.parseStrict raw = .ok m := by
  obtain ⟨m, hparse, hbody, hlast⟩ := F.parsed
  have hsum := F.sum_lt
  refine ⟨m, parseStrict_eq_ok_iff.mpr ⟨hparse, _, _, T, hbody, hlast, ?_, ?_⟩⟩
  · rw [fromCharsInt32_of_toNat? hden.1, if_pos hlt, hsame.1]
  · rw [fromCharsInt32_of_toNat? hden.2, if_pos (by omega), hsame.2]

end FieldFrame

theorem StrictExact.framesAgree {raw : Str} (h : StrictExact raw) : FramesAgree raw := by
  constructor
  · intro F hden
    obtain ⟨m, hparse, hbody, hlast⟩ := F.parsed
    obtain ⟨m', hstrict⟩ := h.mpr ⟨⟨m, hparse⟩, F, hden⟩
    obtain ⟨hparse', bodyLength, checkSum, T, hbody', hlast', hlen, hsum⟩ :=
      parseStrict_eq_ok_iff.mp hstrict
    obtain rfl : m = m' := Except.ok.inj (hparse.symm.trans hparse')
    obtain rfl : F.nine.value = bodyLength := Option.some.inj (hbody.symm.trans hbody')
    obtain rfl : F.last.value = checkSum :=
      congrArg Prod.snd (Option.some.inj (hlast.symm.trans hlast'))
    obtain ⟨hlt, hsame⟩ := hden.sameAs hlen hsum
    exact ⟨hlt, T, hsame⟩
  · intro F T hlen hsum
    obtain ⟨m, hparse, hbody, hlast⟩ := F.parsed
    obtain ⟨-, G, hden⟩ := h.mp ⟨m, parseStrict_eq_ok_iff.mpr
      ⟨hparse, _, _, T, hbody, hlast, hlen, hsum⟩⟩
    rw [G.unique F] at hden
    exact ⟨hden.digits, (hden.sameAs hlen hsum).2⟩

theorem FramesAgree.strictExact {raw : Str} (h : FramesAgree raw) : StrictExact raw := by
  constructor
  · rintro ⟨m, hstrict⟩
    obtain ⟨hparse, bodyLength, checkSum, T, hbody, hlast, hlen, hsum⟩ :=
      parseStrict_eq_ok_iff.mp hstrict
    obtain ⟨F, rfl, rfl⟩ := FieldFrame.exists_of_parsed hparse hbody hlast
    obtain ⟨hdigits, hlength, hchecksum⟩ := h.marked F T hlen hsum
    rw [hlength] at hlen
    rw [hchecksum] at hsum
    exact ⟨⟨m, hparse⟩, F, toNat?_of_fromCharsInt32 (fun b hb => hdigits b (by simp [hb])) hlen,
      toNat?_of_fromCharsInt32 (fun b hb => hdigits b (by simp [hb])) hsum⟩
  · rintro ⟨-, F, hden⟩
    obtain ⟨hlt, T, hsame⟩ := h.intact F hden
    exact F.accepted hden hlt hsame

/-- `ParseStrict` takes the marks `9=` and `10=` for the fields with these tags, and the
digits that a value starts with for the value. It accepts the intact messages and no
others exactly where that makes no difference. -/
theorem parseStrict_exact_iff (raw : Str) : StrictExact raw ↔ FramesAgree raw :=
  ⟨StrictExact.framesAgree, FramesAgree.strictExact⟩

theorem not_infix_value {value : Str} (h : soh ∉ value) :
    ¬ soh :: str "10=" <:+: value ++ [soh] := by
  rw [Substring.infix_append_iff_right h]
  decide

/-- The layout that FIX prescribes: a tag is written without leading zeros, the
text `9=` does not stand before the field with tag 9, and the body is not empty. -/
structure FieldFrame.Plain {raw : Str} (F : FieldFrame raw) : Prop where
  nine_text : F.nine.text = str "9"
  last_text : F.last.text = str "10"
  no_nine : ¬ str "9=" <:+: render F.front
  body : F.mid ≠ []

theorem beforeField_render (ps : List FixPiece) : BeforeField (render ps) := by
  cases ps with
  | nil => exact .inl rfl
  | cons p ps => exact .inr (exists_render_concat (List.cons_ne_nil p ps))

theorem FieldFrame.Plain.exists_textFrame {raw : Str} {F : FieldFrame raw} (h : F.Plain) :
    ∃ T : TextFrame raw, T.SameAs F := by
  obtain ⟨body, hbody⟩ := exists_render_concat h.body
  have hnine : F.nine.bytes = str "9=" ++ (F.nine.value ++ [soh]) := by
    rw [Piece.bytes, h.nine_text]
    rfl
  have hlast : F.last.bytes = str "10=" ++ (F.last.value ++ [soh]) := by
    rw [Piece.bytes, h.last_text]
    rfl
  refine ⟨⟨render F.front, F.nine.value, body, F.last.value ++ [soh], ?_, beforeField_render _,
    h.no_nine, F.nine.stop_notMem, not_infix_value F.last.stop_notMem⟩, ?_, ?_⟩
  · refine Eq.trans ?_ F.text
    simp [hbody, hnine, hlast]
  · simp [TextFrame.length, FieldFrame.length, hbody]
  · simp [TextFrame.sum, TextFrame.covered, FieldFrame.sum, hbody, hnine]

/-- In the prescribed layout, with values of digits only, nothing goes wrong. -/
theorem FieldFrame.Plain.framesAgree {raw : Str} {F : FieldFrame raw} (h : F.Plain)
    (hlt : F.length < 2 ^ 31)
    (hdigits : ∀ b ∈ F.nine.value ++ F.last.value, Decimal.isDigit b = true) :
    FramesAgree raw := by
  obtain ⟨T, hlength, hsum⟩ := h.exists_textFrame
  constructor
  · intro G _
    rw [G.unique F]
    exact ⟨hlt, T, hlength, hsum⟩
  · intro G T' _ _
    obtain ⟨hlength', hsum'⟩ := T'.unique T
    rw [G.unique F]
    exact ⟨hdigits, hlength'.trans hlength, hsum'.trans hsum⟩

/-- A field 58 before a last field `010`, which the search for `10=` misses. -/
def uncoveredText : Str := str "9=5\x0135=0\x0110=1\x0158=X\x01010=130\x01"

def uncoveredFrame : FieldFrame uncoveredText where
  front := []
  nine := ⟨str "9", str "5", equals_notMem_nine, by decide⟩
  mid := [⟨str "35", str "0", equals_notMem_thirtyFive, by decide⟩,
    ⟨str "10", str "1", equals_notMem_ten, by decide⟩, ⟨str "58", str "X", by decide, by decide⟩]
  last := ⟨str "010", str "130", by decide, by decide⟩
  text := by decide
  readable := by
    have hleads : LeadsTag (str "9") 9 ∧ LeadsTag (str "35") 35 ∧ LeadsTag (str "10") 10 ∧
        LeadsTag (str "58") 58 ∧ LeadsTag (str "010") 10 := by decide
    obtain ⟨h9, h35, h10, h58, h010⟩ := hleads
    simpa using ⟨⟨_, h9⟩, ⟨_, h35⟩, ⟨_, h10⟩, ⟨_, h58⟩, ⟨_, h010⟩⟩
  first := by simp
  isNine := by decide
  isTen := by decide

/-- The message is accepted, with a checksum that does not cover field 58. -/
theorem uncoveredText_not_exact : ¬ StrictExact uncoveredText := by
  intro h
  have haccepted : FixMessage.parseStrict uncoveredText =
      .ok ⟨[(9, str "5"), (35, str "0"), (10, str "1"), (58, str "X"), (10, str "130")]⟩ := by
    decide +kernel
  obtain ⟨-, F, hden⟩ := h.mp ⟨_, haccepted⟩
  rw [F.unique uncoveredFrame] at hden
  exact absurd hden.1 (by decide)

end Oems
