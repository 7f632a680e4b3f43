import Oems.FixRoundTrip

namespace Oems

open Lib Lib.Delimited

/-- Two texts that differ in exactly one byte. -/
def OneByteApart (w w' : Str) : Prop :=
  ∃ l x y r, x ≠ y ∧ w = l ++ x :: r ∧ w' = l ++ y :: r

namespace OneByteApart

variable {a b w w' : Str}

theorem of_append (h : OneByteApart (a ++ b) w') :
    (∃ a', w' = a' ++ b ∧ OneByteApart a a') ∨ ∃ b', w' = a ++ b' ∧ OneByteApart b b' := by
  obtain ⟨l, x, y, r, hne, hw, rfl⟩ := h
  obtain ⟨c, rfl, rfl⟩ | ⟨c, rfl, hc⟩ := List.append_eq_append_iff.mp hw
  · exact .inr ⟨c ++ y :: r, by simp, c, x, y, r, hne, rfl, rfl⟩
  · cases c with
    | nil =>
      refine .inr ⟨y :: r, by simp, [], x, y, r, hne, ?_, rfl⟩
      simpa using hc.symm
    | cons z c =>
      obtain ⟨rfl, rfl⟩ := List.cons_eq_cons.mp hc
      exact .inl ⟨l ++ y :: c, by simp, l, x, y, c, hne, rfl, rfl⟩

theorem of_singleton {c : UInt8} (h : OneByteApart [c] w') : ∃ y, y ≠ c ∧ w' = [y] := by
  obtain ⟨l, x, y, r, hne, hw, rfl⟩ := h
  cases l with
  | nil =>
    obtain ⟨rfl, rfl⟩ := List.cons_eq_cons.mp hw
    exact ⟨y, hne.symm, rfl⟩
  | cons z l => simp at hw

theorem length_eq (h : OneByteApart w w') : w'.length = w.length := by
  obtain ⟨l, x, y, r, -, rfl, rfl⟩ := h
  simp

theorem checkSum_ne (h : OneByteApart w w') (s : Str) :
    computeCheckSum (w ++ s) ≠ computeCheckSum (w' ++ s) := by
  obtain ⟨l, x, y, r, hne, rfl, rfl⟩ := h
  have hxy : x.toNat ≠ y.toNat := fun e => hne (UInt8.toNat_inj.mp e)
  have hx := x.toNat_lt
  have hy := y.toNat_lt
  simp only [computeCheckSum_eq, byteSum, List.map_append, List.map_cons, List.sum_append,
    List.sum_cons]
  omega

end OneByteApart

def SameButCheckSum (fields fields' : List (ℤ × Str)) : Prop :=
  List.Forall₂ (fun f g => f.1 = g.1 ∧ (f.1 ≠ FixTag.checkSum → f.2 = g.2)) fields fields'

theorem reads_unique {ps : List FixPiece} {fields fields' : List (ℤ × Str)}
    (h : List.Forall₂ Reads ps fields) (h' : List.Forall₂ Reads ps fields') :
    fields = fields' := by
  induction h generalizing fields' with
  | nil =>
    cases h'
    rfl
  | cons hread _ ih =>
    cases h' with
    | cons hread' hrest =>
      obtain ⟨n, hn, rfl⟩ := hread
      obtain ⟨k, hk, rfl⟩ := hread'
      rw [ih hrest, hn.unique hk]

theorem sameButCheckSum_of_reads {ps : List FixPiece} {p q : FixPiece}
    {fields fields' : List (ℤ × Str)} (h : List.Forall₂ Reads (ps ++ [p]) fields)
    (h' : List.Forall₂ Reads (ps ++ [q]) fields') (hp : LeadsTag p.text 10)
    (hq : LeadsTag q.text 10) : SameButCheckSum fields fields' := by
  obtain ⟨fs, f, rfl, hfs, n, hn, rfl⟩ := reads_concat h
  obtain ⟨gs, g, rfl, hgs, k, hk, rfl⟩ := reads_concat h'
  obtain rfl := hn.unique hp
  obtain rfl := hk.unique hq
  obtain rfl := reads_unique hfs hgs
  have hsame : ∀ f ∈ fs, f.1 = f.1 ∧ (f.1 ≠ FixTag.checkSum → f.2 = f.2) :=
    fun f _ => ⟨rfl, fun _ => rfl⟩
  exact List.rel_append (List.forall₂_same.mpr hsame) (.cons ⟨rfl, fun hne => absurd rfl hne⟩ .nil)

theorem pieces_of_strict {raw : Str} {m : FixMessage}
    (h : FixMessage.parseStrict raw = .ok m) :
    ∃ (ps : List FixPiece) (p : FixPiece) (T : TextFrame raw), render (ps ++ [p]) = raw ∧
      LeadsTag p.text 10 ∧ List.Forall₂ Reads (ps ++ [p]) m.fields ∧
      fromCharsInt32 p.value = some (T.sum : ℤ) := by
  obtain ⟨hparse, bodyLength, checkSum, T, -, hlast, -, hsum⟩ := parseStrict_eq_ok_iff.mp h
  obtain ⟨qs, hqs, hall⟩ := parse_eq_ok_iff.mp hparse
  obtain rfl | ⟨ps, p, rfl⟩ := List.eq_nil_or_concat qs
  · rw [List.forall₂_nil_left_iff.mp hall] at hlast
    cases hlast
  · rw [List.concat_eq_append] at hqs hall
    obtain ⟨fields', f, hfields, -, k, hk, rfl⟩ := reads_concat hall
    rw [hfields, List.getLast?_concat, Option.some.injEq, Prod.mk.injEq] at hlast
    obtain rfl : k = 10 := Int.ofNat_inj.mp hlast.1
    obtain rfl : p.value = checkSum := hlast.2
    exact ⟨ps, p, T, hqs, hk, hall, hsum⟩

namespace Layout

variable {m : FixMessage}

def head (L : Layout m) : List FixPiece := [L.eight] ++ L.nine :: L.mid

theorem pieces_eq (L : Layout m) : L.pieces = L.head ++ [L.trailer] := by
  simp [pieces, head]

theorem head_ne_nil (L : Layout m) : L.head ≠ [] := by
  simp [head]

theorem head_not_ten (L : Layout m) : ∀ p ∈ L.head, ¬ LeadsTag p.text 10 := by
  have hrest : ∀ p ∈ L.rest, ¬ LeadsTag p.text 10 := by
    intro p hp hten
    obtain ⟨f, hf, n, hn, rfl⟩ := exists_read L.rest_reads hp
    obtain rfl := hn.unique hten
    have hkept := (List.mem_filter.mp hf).2
    simp [FixMessage.isFramed, FixTag.checkSum] at hkept
  have h8 : ¬ LeadsTag (str "8") 10 := by decide
  have h9 : ¬ LeadsTag (str "9") 10 := by decide
  have h35 : ¬ LeadsTag (str "35") 10 := by decide
  simpa [head, mid, eight, nine] using ⟨h8, h9, h35, hrest⟩

theorem trailer_ten (L : Layout m) : LeadsTag L.trailer.text 10 := by
  change LeadsTag (str "10") 10
  decide

theorem trailer_value (L : Layout m) :
    Decimal.toNat? L.trailer.value = some (computeCheckSum m.withoutChecksum) :=
  toNat?_threeDigits _

theorem digits_trailer (L : Layout m) : ∀ b ∈ L.trailer.value, Decimal.isDigit b = true :=
  fun _ => isDigit_of_mem_threeDigits

theorem wire_eq (L : Layout m) : ∃ s, m.withoutChecksum = s ++ [soh] ∧
    m.serialize = s ++ ([soh] ++ (str "10=" ++ (L.trailer.value ++ [soh]))) := by
  obtain ⟨s, hs⟩ := exists_render_concat L.head_ne_nil
  have hhead : m.withoutChecksum = s ++ [soh] := L.head_text.symm.trans hs
  refine ⟨s, hhead, ?_⟩
  rw [FixMessage.serialize, hhead]
  simp [trailer, hhead]

theorem head_corrupted (L : Layout m) {s s' : Str} (hs : m.withoutChecksum = s ++ [soh])
    (h : OneByteApart s s') (r : FixMessage) : FixMessage.parseStrict
      (s' ++ ([soh] ++ (str "10=" ++ (L.trailer.value ++ [soh])))) ≠ .ok r := by
  intro hr
  obtain ⟨ps, p, T, hps, -, -, hsum⟩ := pieces_of_strict hr
  have hvalue : p.value = L.trailer.value := by
    have hequals := equals_notMem_of_digits L.digits_trailer
    exact last_value (s := s') (t := str "10") (by decide) (by decide) hequals hps
  have hlt := computeCheckSum_lt m.withoutChecksum
  rw [hvalue, fromCharsInt32_of_toNat? L.trailer_value, if_pos (by omega)] at hsum
  have hcovered : T.covered = s' ++ [soh] :=
    T.covered_eq (by simp) (not_infix_value L.trailer.stop_notMem)
  rw [TextFrame.sum, hcovered, ← computeCheckSum_eq, hs] at hsum
  exact h.checkSum_ne [soh] (Int.ofNat_inj.mp (Option.some.inj hsum))

/-- Without its SOH the last field of the body swallows the trailer, and its tag
is not 10. -/
theorem stop_corrupted (L : Layout m) {s : Str} (hs : m.withoutChecksum = s ++ [soh]) {y : UInt8}
    (hy : y ≠ soh) (r : FixMessage) : FixMessage.parseStrict
      (s ++ ([y] ++ (str "10=" ++ (L.trailer.value ++ [soh])))) ≠ .ok r := by
  intro hr
  obtain ⟨ps, q, -, hps, hten, -⟩ := pieces_of_strict hr
  obtain ⟨init, p, hhead⟩ := (List.eq_nil_or_concat L.head).resolve_left L.head_ne_nil
  rw [List.concat_eq_append] at hhead
  have hp : ¬ LeadsTag p.text 10 := L.head_not_ten p (by simp [hhead])
  have hstop : soh ∉ p.value ++ y :: (str "10=" ++ L.trailer.value) := by
    simpa [List.mem_append, hy.symm] using
      ⟨p.stop_notMem, by decide, L.trailer.stop_notMem⟩
  have hsplit : s = render init ++ (p.text ++ equals :: p.value) := by
    have htext := L.head_text
    rw [← head, hhead, hs] at htext
    apply (List.append_left_inj [soh]).mp
    simpa [Piece.bytes] using htext.symm
  have hpieces : render (init ++ [⟨p.text, _, p.sep_notMem, hstop⟩]) =
      s ++ ([y] ++ (str "10=" ++ (L.trailer.value ++ [soh]))) := by
    simp [hsplit, Piece.bytes]
  obtain ⟨-, hlast⟩ := List.append_inj' (render_injective (hps.trans hpieces.symm)) rfl
  rw [List.singleton_inj.mp hlast] at hten
  exact hp hten

theorem exists_tail (L : Layout m) {t : Str} (ht : t ≠ []) {ps : List FixPiece} {p : FixPiece}
    (h : render (ps ++ [p]) = m.withoutChecksum ++ t) :
    ∃ front, ps = L.head ++ front ∧ render (front ++ [p]) = t := by
  rw [← L.head_text] at h
  obtain ⟨rs, hrs, hrender⟩ := exists_render_of_append h.symm
  obtain rfl | ⟨front, q, rfl⟩ := List.eq_nil_or_concat rs
  · exact absurd hrender.symm ht
  · rw [List.concat_eq_append] at hrs hrender
    rw [← List.append_assoc] at hrs
    obtain ⟨hfront, hlast⟩ := List.append_inj' hrs rfl
    rw [List.singleton_inj.mp hlast]
    exact ⟨front, hfront, hrender⟩

theorem text_of_single {front : List FixPiece} {p : FixPiece} {a v : Str} (ha : equals ∉ a)
    (hv : soh ∉ v) (h : render (front ++ [p]) = a ++ equals :: (v ++ [soh])) : p.text = a := by
  have hsingle : render [(⟨a, v, ha, hv⟩ : FixPiece)] = a ++ equals :: (v ++ [soh]) := by
    simp [Piece.bytes]
  have hsame : front ++ [p] = [] ++ [⟨a, v, ha, hv⟩] := render_injective (h.trans hsingle.symm)
  obtain ⟨-, hlast⟩ := List.append_inj' hsame rfl
  rw [List.singleton_inj.mp hlast]

theorem not_ten_of_first {y : UInt8} (hy : y ≠ 49) : ¬ LeadsTag [y, 48] 10 := by
  rintro ⟨hread, -⟩
  by_cases hd : Decimal.isDigit y = true
  · have hlead : Decimal.leading [y, 48] = [y, 48] :=
      Decimal.leading_eq_self (by simpa [hd] using (by decide : Decimal.isDigit 48 = true))
    have hvalue := (Decimal.toNat?_eq_some_iff.mp hread).2.2
    rw [hlead] at hvalue
    change 10 * (10 * 0 + (y.toNat - 48)) + 0 = 10 at hvalue
    exact hy (UInt8.toNat_inj.mp (by change y.toNat = 49; omega))
  · simp [Decimal.leading, hd, Decimal.toNat?] at hread

theorem not_ten_of_second {y : UInt8} (hy : y ≠ 48) : ¬ LeadsTag [49, y] 10 := by
  rintro ⟨hread, -⟩
  have hone : Decimal.isDigit 49 = true := rfl
  by_cases hd : Decimal.isDigit y = true
  · have hlead : Decimal.leading [49, y] = [49, y] :=
      Decimal.leading_eq_self (by simp [hd, hone])
    have hvalue := (Decimal.toNat?_eq_some_iff.mp hread).2.2
    rw [hlead] at hvalue
    change 10 * (10 * 0 + 1) + (y.toNat - 48) = 10 at hvalue
    have hge : 48 ≤ y.toNat := by
      simp only [Decimal.isDigit, Bool.and_eq_true, decide_eq_true_eq] at hd
      exact UInt8.le_iff_toNat_le.mp hd.1
    exact hy (UInt8.toNat_inj.mp (by change y.toNat = 48; omega))
  · have hlead : Decimal.leading [49, y] = [49] := by simp [Decimal.leading, hd, hone]
    rw [hlead] at hread
    exact absurd hread (by decide)

theorem tag_changed {t : Str} (h : OneByteApart (str "10=") t) {v : Str} (hequals : equals ∉ v)
    (hsoh : soh ∉ v) {front : List FixPiece} {p : FixPiece}
    (hfront : render (front ++ [p]) = t ++ (v ++ [soh])) : ¬ LeadsTag p.text 10 := by
  have hstr : str "10=" = [49] ++ ([48] ++ [equals]) := rfl
  rw [hstr] at h
  obtain ⟨t', rfl, hone⟩ | ⟨t', rfl, hrest⟩ := h.of_append
  · obtain ⟨y, hy, rfl⟩ := hone.of_singleton
    by_cases he : y = equals
    · rw [text_of_single (a := []) (v := 48 :: equals :: v) (by simp)
        (by simpa [soh, equals] using hsoh) (by simpa [he] using hfront)]
      decide
    · rw [text_of_single (a := [y, 48]) (by simpa [equals, eq_comm] using he) hsoh
        (by simpa using hfront)]
      exact not_ten_of_first hy
  · obtain ⟨t, rfl, hzero⟩ | ⟨t, rfl, hlast⟩ := hrest.of_append
    · obtain ⟨y, hy, rfl⟩ := hzero.of_singleton
      by_cases he : y = equals
      · rw [text_of_single (a := [49]) (v := equals :: v) (by decide)
          (by simpa [soh, equals] using hsoh) (by simpa [he] using hfront)]
        decide
      · rw [text_of_single (a := [49, y]) (by simpa [equals, eq_comm] using he) hsoh
          (by simpa using hfront)]
        exact not_ten_of_second hy
    · -- no `=` is left to end a tag
      obtain ⟨y, hy, rfl⟩ := hlast.of_singleton
      have hmem : equals ∈ render (front ++ [p]) := sep_mem_render (by simp)
      rw [hfront] at hmem
      simp only [List.mem_append, List.mem_singleton] at hmem
      obtain ((h1 | h0 | he) | hv | hs) := hmem
      · cases h1
      · cases h0
      · exact absurd he.symm hy
      · exact absurd hv hequals
      · cases hs

theorem tag_corrupted (L : Layout m) {t : Str} (h : OneByteApart (str "10=") t)
    (r : FixMessage) : FixMessage.parseStrict
      (m.withoutChecksum ++ (t ++ (L.trailer.value ++ [soh]))) ≠ .ok r := by
  intro hr
  obtain ⟨ps, p, -, hps, hten, -⟩ := pieces_of_strict hr
  obtain ⟨front, -, hfront⟩ := L.exists_tail (by simp) hps
  exact tag_changed h (equals_notMem_of_digits L.digits_trailer) L.trailer.stop_notMem hfront hten

theorem digits_corrupted (L : Layout m) {v : Str} (h : OneByteApart L.trailer.value v)
    {r : FixMessage} (hr : FixMessage.parseStrict
      (m.withoutChecksum ++ (str "10=" ++ (v ++ [soh]))) = .ok r) :
    SameButCheckSum (m.framed L.trailer.value).fields r.fields := by
  obtain ⟨ps, p, -, hps, hten, hreads, -⟩ := pieces_of_strict hr
  obtain ⟨front, rfl, hfront⟩ := L.exists_tail (by simp) hps
  obtain ⟨a, x, y, b, -, hv, rfl⟩ := h
  have hdigits := L.digits_trailer
  rw [hv] at hdigits
  have ha : soh ∉ a := soh_notMem_of_digits fun c hc => hdigits c (by simp [hc])
  have hb : ∀ c ∈ b, Decimal.isDigit c = true := fun c hc => hdigits c (by simp [hc])
  by_cases hy : y = soh
  · -- the trailer ends early, and the digits after it are no field
    have htext : (⟨str "10", a, by decide, ha⟩ : FixPiece).bytes ++ (b ++ [soh]) =
        render (front ++ [p]) := by
      rw [hfront, hy]
      simp [Piece.bytes, str, equals]
    have hfirst : render [(⟨str "10", a, by decide, ha⟩ : FixPiece)] ++ (b ++ [soh]) =
        render (front ++ [p]) := by
      rwa [render_cons, render_nil, List.append_nil]
    obtain ⟨rs, -, hrs⟩ := exists_render_of_append hfirst
    have hmem : equals ∈ render rs := by
      apply sep_mem_render
      rintro rfl
      simp at hrs
    rw [hrs, List.mem_append] at hmem
    obtain hmem | hmem := hmem
    · exact absurd hmem (equals_notMem_of_digits hb)
    · cases List.mem_singleton.mp hmem
  · have hvalue : soh ∉ a ++ y :: b := by
      simpa [ha, Ne.symm hy] using soh_notMem_of_digits hb
    have htext : render ([] ++ [(⟨str "10", a ++ y :: b, by decide, hvalue⟩ : FixPiece)]) =
        render (front ++ [p]) := by
      rw [hfront, List.nil_append, render_cons, render_nil]
      simp [Piece.bytes, str, equals]
    obtain ⟨rfl, -⟩ := List.append_inj' (render_injective htext) rfl
    rw [List.append_nil] at hreads
    have hwritten := L.reads
    rw [L.pieces_eq] at hwritten
    exact sameButCheckSum_of_reads hwritten hreads L.trailer_ten hten

theorem end_corrupted {s : Str} {y : UInt8} (hy : y ≠ soh) (r : FixMessage) :
    FixMessage.parseStrict (s ++ [y]) ≠ .ok r := by
  intro hr
  obtain ⟨ps, p, -, hps, -⟩ := pieces_of_strict hr
  obtain ⟨t, ht⟩ := exists_render_concat (List.append_ne_nil_of_right_ne_nil ps (List.cons_ne_nil p []))
  rw [hps] at ht
  obtain ⟨-, hlast⟩ := List.append_inj' ht rfl
  exact hy (List.singleton_inj.mp hlast)

end Layout

/-- A single changed byte makes the strict parser fail or leaves the message as
it is, save the value of its checksum. -/
theorem oneByte_detected (m : FixMessage) (hm : m.WellFormed) (w' : Str)
    (h : OneByteApart m.serialize w') (r : FixMessage)
    (hr : FixMessage.parseStrict w' = .ok r) :
    ∃ original, FixMessage.parse m.serialize = .ok original ∧
      SameButCheckSum original.fields r.fields := by
  obtain ⟨L⟩ := hm.exists_layout
  obtain ⟨s, hs, hwire⟩ := L.wire_eq
  refine ⟨_, L.parse, ?_⟩
  rw [hwire] at h
  obtain ⟨s', rfl, hhead⟩ | ⟨t, rfl, htail⟩ := h.of_append
  · exact absurd hr (L.head_corrupted hs hhead r)
  · obtain ⟨t, rfl, hstop⟩ | ⟨t, rfl, htrailer⟩ := htail.of_append
    · obtain ⟨y, hy, rfl⟩ := hstop.of_singleton
      exact absurd hr (L.stop_corrupted hs hy r)
    · rw [← List.append_assoc, ← hs] at hr
      obtain ⟨t, rfl, htag⟩ | ⟨t, rfl, hvalue⟩ := htrailer.of_append
      · exact absurd hr (L.tag_corrupted htag r)
      · obtain ⟨v, rfl, hdigits⟩ | ⟨t, rfl, hend⟩ := hvalue.of_append
        · exact L.digits_corrupted hdigits hr
        · obtain ⟨y, hy, rfl⟩ := hend.of_singleton
          rw [← List.append_assoc, ← List.append_assoc] at hr
          exact absurd hr (Layout.end_corrupted hy r)

/-- A message whose checksum is 000, and its text with 0=0 in that place. -/
def zeroSumMessage : FixMessage := ⟨[(58, str "DA")]⟩

def zeroSumChanged : Str := str "8=FIX.4.4\x019=11\x0135=0\x0158=DA\x0110=0=0\x01"

theorem zeroSum_detected : ∃ original,
    FixMessage.parse zeroSumMessage.serialize = .ok original ∧ SameButCheckSum original.fields
      [(8, str "FIX.4.4"), (9, str "11"), (35, str "0"), (58, str "DA"), (10, str "0=0")] :=
  oneByte_detected zeroSumMessage (by decide) zeroSumChanged
    ⟨str "8=FIX.4.4\x019=11\x0135=0\x0158=DA\x0110=0", 48, 61, str "0\x01", by decide,
      by decide +kernel, by decide⟩
    ⟨[(8, str "FIX.4.4"), (9, str "11"), (35, str "0"), (58, str "DA"), (10, str "0=0")]⟩
    (by decide +kernel)

end Oems
