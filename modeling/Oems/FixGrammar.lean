import Oems.FixMessage

namespace Oems

open Lib Lib.Delimited

/-- What stands between two fields of a message: a text without `=`, then `=`,
then a value without SOH, then SOH. -/
abbrev FixPiece := Piece equals soh

theorem equals_notMem_eight : equals ∉ str "8" := by decide

theorem equals_notMem_nine : equals ∉ str "9" := by decide

theorem equals_notMem_ten : equals ∉ str "10" := by decide

theorem equals_notMem_thirtyFive : equals ∉ str "35" := by decide

/-- The digits a text starts with denote a positive `std::int32_t`. -/
def LeadsTag (text : Str) (n : ℕ) : Prop :=
  Decimal.toNat? (Decimal.leading text) = some n ∧ 0 < n ∧ n < 2 ^ 31

instance (text : Str) (n : ℕ) : Decidable (LeadsTag text n) :=
  inferInstanceAs (Decidable (_ ∧ _ ∧ _))

def Reads (p : FixPiece) (f : ℤ × Str) : Prop :=
  ∃ n : ℕ, LeadsTag p.text n ∧ f = ((n : ℤ), p.value)

theorem fromCharsInt32_eq_pos_iff {text : Str} {z : ℤ} (hz : 0 < z) :
    fromCharsInt32 text = some z ↔ ∃ n : ℕ, z = n ∧ LeadsTag text n := by
  rw [fromCharsInt32, Decimal.fromChars_eq_some_iff]
  constructor
  · rintro ⟨hread, -, hle⟩
    lift z to ℕ using le_of_lt hz
    have hn : 0 < z := by omega
    exact ⟨z, rfl, (Decimal.leadingInt?_eq_pos_iff hn).mp hread, hn, by omega⟩
  · rintro ⟨n, rfl, hread, hn, hlt⟩
    exact ⟨(Decimal.leadingInt?_eq_pos_iff hn).mpr hread, by omega, by omega⟩

theorem parseFields_nil : parseFields [] = .ok [] := by
  rw [parseFields]
  rfl

theorem parseFields_bytes (p : FixPiece) {f : ℤ × Str} (h : Reads p f) (rest : Str) :
    parseFields (p.bytes ++ rest) = (parseFields rest).map (f :: ·) := by
  obtain ⟨n, hlead, rfl⟩ := h
  have hpos : (0 : ℤ) < n := by exact_mod_cast hlead.2.1
  have hread := (fromCharsInt32_eq_pos_iff hpos).mpr ⟨n, rfl, hlead⟩
  rw [parseFields, if_neg (by simp [p.bytes_ne_nil])]
  split
  · rename_i hcut
    simp [cut_bytes] at hcut
  · rename_i hcut
    rw [cut_bytes] at hcut
    cases hcut
    split
    · rename_i hcut
      simp [cut_append p.stop_notMem] at hcut
    · rename_i hcut
      rw [cut_append p.stop_notMem] at hcut
      cases hcut
      rw [hread]
      exact if_neg (not_le.mpr hpos)

/-- The scanner cuts a message at the `=` and SOH that belong together. -/
theorem parseFields_eq_ok_iff {raw : Str} {fields : List (ℤ × Str)} :
    parseFields raw = .ok fields ↔
      ∃ ps : List FixPiece, render ps = raw ∧ List.Forall₂ Reads ps fields := by
  constructor
  · intro h
    fun_induction parseFields raw generalizing fields with
    | case1 =>
      cases h
      exact ⟨[], rfl, List.Forall₂.nil⟩
    | case6 raw _ text after heq value rest hsoh z hread hpos ih =>
      cases hrest : parseFields rest with
      | error err =>
        rw [hrest] at h
        cases h
      | ok fields' =>
        rw [hrest] at h
        cases h
        obtain ⟨ps, hps, hall⟩ := ih hrest
        obtain ⟨rfl, htext⟩ := eq_of_cut heq
        obtain ⟨rfl, hvalue⟩ := eq_of_cut hsoh
        obtain ⟨n, rfl, hlead⟩ := (fromCharsInt32_eq_pos_iff (not_le.mp hpos)).mp hread
        refine ⟨⟨text, value, htext, hvalue⟩ :: ps, ?_, .cons ⟨n, hlead, rfl⟩ hall⟩
        rw [render_cons, Piece.bytes_append, hps]
    | _ => cases h
  · rintro ⟨ps, rfl, hall⟩
    induction hall with
    | nil => exact parseFields_nil
    | cons hp _ ih =>
      rw [render_cons, parseFields_bytes _ hp, ih]
      rfl

theorem parse_eq_ok_iff {raw : Str} {m : FixMessage} :
    FixMessage.parse raw = .ok m ↔
      ∃ ps : List FixPiece, render ps = raw ∧ List.Forall₂ Reads ps m.fields := by
  rw [← parseFields_eq_ok_iff, FixMessage.parse]
  cases parseFields raw with
  | error err => simp [Except.map]
  | ok fields =>
    simp only [Except.map, Except.ok.injEq]
    constructor
    · rintro rfl
      rfl
    · rintro rfl
      rfl

/-- The fields of a message, each a run of digits that denotes a positive
`std::int32_t`, then `=`, then any bytes other than SOH, then SOH. -/
inductive Grammar : Str → List (ℤ × Str) → Prop
  | nil : Grammar [] []
  | field {digits value rest : Str} {n : ℕ} {fields : List (ℤ × Str)} :
      Decimal.toNat? digits = some n → 0 < n → n < 2 ^ 31 → soh ∉ value →
      Grammar rest fields →
      Grammar (digits ++ equals :: (value ++ soh :: rest)) ((n, value) :: fields)

theorem leadsTag_of_digits {digits : Str} {n : ℕ} (h : Decimal.toNat? digits = some n)
    (hn : 0 < n) (hlt : n < 2 ^ 31) : LeadsTag digits n := by
  obtain ⟨-, hd, -⟩ := Decimal.toNat?_eq_some_iff.mp h
  exact ⟨by rw [Decimal.leading_eq_self hd, h], hn, hlt⟩

theorem equals_notMem_of_digits {digits : Str} (h : ∀ b ∈ digits, Decimal.isDigit b = true) :
    equals ∉ digits := fun hm => absurd (h equals hm) (by decide)

theorem Grammar.pieces {raw : Str} {fields : List (ℤ × Str)} (h : Grammar raw fields) :
    ∃ ps : List FixPiece, render ps = raw ∧ List.Forall₂ Reads ps fields ∧
      ∀ p ∈ ps, ∀ b ∈ p.text, Decimal.isDigit b = true := by
  induction h with
  | nil => exact ⟨[], rfl, .nil, by simp⟩
  | @field digits value rest n fields hnum hn hlt hvalue _ ih =>
    obtain ⟨ps, rfl, hall, hdigits⟩ := ih
    obtain ⟨-, hd, -⟩ := Decimal.toNat?_eq_some_iff.mp hnum
    refine ⟨⟨digits, value, equals_notMem_of_digits hd, hvalue⟩ :: ps, ?_, ?_, ?_⟩
    · rw [render_cons, Piece.bytes_append]
    · exact .cons ⟨n, leadsTag_of_digits hnum hn hlt, rfl⟩ hall
    · simpa using ⟨hd, hdigits⟩

theorem grammar_of_pieces {ps : List FixPiece} {fields : List (ℤ × Str)}
    (h : List.Forall₂ Reads ps fields)
    (hd : ∀ p ∈ ps, ∀ b ∈ p.text, Decimal.isDigit b = true) : Grammar (render ps) fields := by
  induction h with
  | nil => exact .nil
  | @cons p f ps fields hp _ ih =>
    obtain ⟨n, ⟨hlead, hn, hlt⟩, rfl⟩ := hp
    rw [render_cons, Piece.bytes_append]
    rw [Decimal.leading_eq_self (hd p (by simp))] at hlead
    exact .field hlead hn hlt p.stop_notMem (ih fun q hq => hd q (by simp [hq]))

/-- `Parse` accepts the texts of the grammar and no others, and gives the fields
of the text. -/
def ParsesGrammar (raw : Str) : Prop :=
  ((∃ m, FixMessage.parse raw = .ok m) ↔ ∃ fields, Grammar raw fields) ∧
    ∀ m, FixMessage.parse raw = .ok m → Grammar raw m.fields

/-- Where a text falls into pieces whose labels all start with a tag, the labels
hold digits only. -/
def TagsWhole (raw : Str) : Prop :=
  ∀ ps : List FixPiece, render ps = raw → (∀ p ∈ ps, ∃ n, LeadsTag p.text n) →
    ∀ p ∈ ps, ∀ b ∈ p.text, Decimal.isDigit b = true

theorem exists_fields {ps : List FixPiece} (h : ∀ p ∈ ps, ∃ n, LeadsTag p.text n) :
    ∃ fields, List.Forall₂ Reads ps fields := by
  induction ps with
  | nil => exact ⟨[], .nil⟩
  | cons p ps ih =>
    obtain ⟨n, hn⟩ := h p (by simp)
    obtain ⟨fields, hall⟩ := ih fun q hq => h q (by simp [hq])
    exact ⟨(n, p.value) :: fields, .cons ⟨n, hn, rfl⟩ hall⟩

theorem exists_read {ps : List FixPiece} {fields : List (ℤ × Str)}
    (h : List.Forall₂ Reads ps fields) {p : FixPiece} (hp : p ∈ ps) :
    ∃ f ∈ fields, Reads p f := by
  induction h with
  | nil => cases hp
  | @cons q f ps fields hread _ ih =>
    cases hp with
    | head => exact ⟨f, List.mem_cons_self .., hread⟩
    | tail _ hp =>
      obtain ⟨g, hg, hread⟩ := ih hp
      exact ⟨g, List.mem_cons_of_mem f hg, hread⟩

theorem leadsTag_of_reads {ps : List FixPiece} {fields : List (ℤ × Str)}
    (h : List.Forall₂ Reads ps fields) : ∀ p ∈ ps, ∃ n, LeadsTag p.text n := by
  intro p hp
  obtain ⟨f, -, n, hn, -⟩ := exists_read h hp
  exact ⟨n, hn⟩

theorem ParsesGrammar.tagsWhole {raw : Str} (h : ParsesGrammar raw) : TagsWhole raw := by
  rintro ps rfl hlead
  obtain ⟨fields, hall⟩ := exists_fields hlead
  obtain ⟨qs, hqs, -, hdigits⟩ := (h.2 ⟨fields⟩ (parse_eq_ok_iff.mpr ⟨ps, rfl, hall⟩)).pieces
  rwa [render_injective hqs] at hdigits

theorem TagsWhole.parsesGrammar {raw : Str} (h : TagsWhole raw) : ParsesGrammar raw := by
  have hgrammar : ∀ m, FixMessage.parse raw = .ok m → Grammar raw m.fields := by
    intro m hm
    obtain ⟨ps, rfl, hall⟩ := parse_eq_ok_iff.mp hm
    exact grammar_of_pieces hall (h ps rfl (leadsTag_of_reads hall))
  refine ⟨⟨fun ⟨m, hm⟩ => ⟨m.fields, hgrammar m hm⟩, fun ⟨fields, hf⟩ => ?_⟩, hgrammar⟩
  obtain ⟨ps, hps, hall, -⟩ := hf.pieces
  exact ⟨⟨fields⟩, parse_eq_ok_iff.mpr ⟨ps, hps, hall⟩⟩

/-- The parser reads the digits a tag text starts with and ignores the rest of
it, so it keeps to the grammar where there is no such rest. -/
theorem parse_grammar_iff (raw : Str) : ParsesGrammar raw ↔ TagsWhole raw :=
  ⟨ParsesGrammar.tagsWhole, TagsWhole.parsesGrammar⟩

/-- The field `8x=A` is taken for a field with tag 8. -/
theorem letterInTag_not_grammar : ¬ ParsesGrammar (str "8x=A\x01") := by
  intro h
  have hlead : LeadsTag (str "8x") 8 := by
    refine ⟨?_, ?_, ?_⟩ <;> decide
  have hwhole := h.tagsWhole [⟨str "8x", str "A", by decide, by decide⟩] (by decide)
    (by simpa using ⟨8, hlead⟩)
  simp only [List.mem_singleton, forall_eq] at hwhole
  exact absurd (hwhole 120 (by decide)) (by decide)

end Oems
