import Oems.FixGrammar

namespace Oems

open Lib Lib.Delimited

def byteSum (s : Str) : ℕ := (s.map UInt8.toNat).sum

theorem computeCheckSum_eq (buf : Str) : computeCheckSum buf = byteSum buf % 256 := by
  have hfold : ∀ (s : Str) (n : ℕ),
      s.foldl (fun sum c => (sum + c.toNat) % 2 ^ 32) n % 256 = (n + byteSum s) % 256 := by
    intro s
    induction s with
    | nil => intro n; simp [byteSum]
    | cons c s ih =>
      intro n
      rw [List.foldl_cons, ih]
      simp only [byteSum, List.map_cons, List.sum_cons]
      omega
  rw [computeCheckSum, hfold, Nat.zero_add]

theorem computeCheckSum_lt (buf : Str) : computeCheckSum buf < 256 :=
  Nat.mod_lt _ (by decide)

section Checks

variable {α β : Type}

theorem bind_eq_ok_iff {x : Result α} {f : α → Result β} {b : β} :
    x >>= f = .ok b ↔ ∃ a, x = .ok a ∧ f a = .ok b := by
  cases x with
  | error err => simp [bind, Except.bind]
  | ok a => simp [bind, Except.bind]

theorem orParseError_eq_ok_iff {o : Option α} {a : α} :
    orParseError o = .ok a ↔ o = some a := by
  cases o <;> simp [orParseError]

theorem parseRequire_eq_ok_iff {c : Prop} [Decidable c] {u : Unit} :
    parseRequire c = .ok u ↔ c := by
  by_cases hc : c <;> simp [parseRequire, hc]

end Checks

/-- Nothing or something that ends with an SOH. -/
def BeforeField (before : Str) : Prop := before = [] ∨ ∃ t, before = t ++ [soh]

theorem findTagStart_eq_some_iff {raw needle : Str} {pos : ℕ} (hne : needle ≠ [])
    (hsoh : soh ∉ needle) : findTagStart raw needle = some pos ↔
      ∃ before after, before.length = pos ∧ before ++ (needle ++ after) = raw ∧
        BeforeField before ∧ ¬ needle <:+: before := by
  constructor
  · intro h
    rw [findTagStart] at h
    split at h
    · cases h
    · rename_i k hfind
      split_ifs at h with hstart
      cases h
      obtain ⟨⟨before, after, rfl, rfl⟩, -⟩ := Substring.find_eq_some_iff.mp hfind
      refine ⟨before, after, rfl, rfl, ?_, Substring.not_infix_of_find hne hfind⟩
      obtain rfl | ⟨t, c, rfl⟩ := List.eq_nil_or_concat before
      · exact .inl rfl
      · rw [List.concat_eq_append] at hstart ⊢
        exact .inr ⟨t, by simpa using hstart⟩
  · rintro ⟨before, after, rfl, rfl, hstart, hfirst⟩
    obtain rfl | ⟨t, rfl⟩ := hstart
    · rw [findTagStart, List.nil_append, Substring.find_append_self hne]
      rfl
    · have hfree : ¬ needle <:+: t := fun h => hfirst (h.trans (List.infix_append' [] t [soh]))
      have hfind : Substring.find needle (t ++ [soh] ++ (needle ++ after)) =
          some (t ++ [soh]).length := by
        rw [List.append_assoc, List.singleton_append, Substring.find_append_cons hne hsoh hfree,
          Substring.find_append_self hne]
        simp
      rw [findTagStart, hfind]
      simp

/-- The frame that the texts `9=` and `10=` mark. The first `9=` stands where a field
starts, and the last `10=` that follows an SOH stands behind the SOH that ends
this field. -/
structure TextFrame (raw : Str) where
  before : Str
  value : Str
  body : Str
  after : Str
  text : before ++ (str "9=" ++ (value ++ soh :: (body ++ (soh :: str "10=" ++ after)))) = raw
  start : BeforeField before
  first : ¬ str "9=" <:+: before
  stop_notMem : soh ∉ value
  last : ¬ soh :: str "10=" <:+: after

namespace TextFrame

variable {raw : Str}

def length (T : TextFrame raw) : ℕ := T.body.length + 1

def covered (T : TextFrame raw) : Str :=
  T.before ++ (str "9=" ++ (T.value ++ soh :: (T.body ++ [soh])))

def sum (T : TextFrame raw) : ℕ := byteSum T.covered % 256

def bodyEnd (T : TextFrame raw) : ℕ := T.before.length + (str "9=" ++ T.value).length

def checksumPos (T : TextFrame raw) : ℕ := T.bodyEnd + 1 + T.body.length

theorem take_checksumPos (T : TextFrame raw) : raw.take (T.checksumPos + 1) = T.covered := by
  have htext : T.covered ++ (str "10=" ++ T.after) = raw := by
    refine Eq.trans ?_ T.text
    simp [covered]
  have hpos : T.checksumPos + 1 = T.covered.length := by
    simp only [covered, checksumPos, bodyEnd, List.length_append, List.length_cons,
      List.length_nil]
    omega
  have htake : (T.covered ++ (str "10=" ++ T.after)).take T.covered.length = T.covered :=
    List.take_left
  rwa [htext, ← hpos] at htake

theorem computeCheckSum_take (T : TextFrame raw) :
    computeCheckSum (raw.take (T.checksumPos + 1)) = T.sum := by
  rw [take_checksumPos, computeCheckSum_eq, sum]

theorem sub_bodyEnd (T : TextFrame raw) : T.checksumPos - (T.bodyEnd + 1) + 1 = T.length := by
  rw [checksumPos, Nat.add_sub_cancel_left, length]

theorem searched (T : TextFrame raw) :
    findTagStart raw (str "9=") = some T.before.length ∧
      Substring.findFrom [soh] raw T.before.length = some T.bodyEnd ∧
      Substring.rfind (soh :: str "10=") raw = some T.checksumPos := by
  refine ⟨?_, ?_, ?_⟩
  · exact (findTagStart_eq_some_iff (by decide) (by decide)).mpr
      ⟨T.before, _, rfl, T.text, T.start, T.first⟩
  · have hvalue : soh ∉ str "9=" ++ T.value := by
      simpa [List.mem_append] using ⟨by decide, T.stop_notMem⟩
    have hfound := Substring.find_singleton_append hvalue
      (T.body ++ (soh :: str "10=" ++ T.after))
    have hdrop := congrArg (List.drop T.before.length) T.text
    rw [List.drop_left] at hdrop
    rw [Substring.findFrom, ← hdrop, ← List.append_assoc (str "9="), hfound]
    rfl
  · have hfound := Substring.rfind_append (by decide) T.last
      (T.before ++ (str "9=" ++ (T.value ++ soh :: T.body)))
    have htext : T.before ++ (str "9=" ++ (T.value ++ soh :: T.body)) ++
        (soh :: str "10=" ++ T.after) = raw := by
      refine Eq.trans ?_ T.text
      simp
    have hpos : (T.before ++ (str "9=" ++ (T.value ++ soh :: T.body))).length = T.checksumPos := by
      simp only [checksumPos, bodyEnd, List.length_append, List.length_cons]
      omega
    rwa [htext, hpos] at hfound

theorem exists_of_searches {tagPos bodyEnd checksumPos : ℕ}
    (htag : findTagStart raw (str "9=") = some tagPos)
    (hend : Substring.findFrom [soh] raw tagPos = some bodyEnd)
    (hpos : Substring.rfind (soh :: str "10=") raw = some checksumPos)
    (hle : bodyEnd + 1 ≤ checksumPos) :
    ∃ T : TextFrame raw, T.bodyEnd = bodyEnd ∧ T.checksumPos = checksumPos := by
  obtain ⟨before, rest, rfl, hraw, hstart, hfirst⟩ :=
    (findTagStart_eq_some_iff (by decide) (by decide)).mp htag
  rw [Substring.findFrom, ← hraw, List.drop_left, Option.map_eq_some_iff] at hend
  obtain ⟨k, hfind, rfl⟩ := hend
  obtain ⟨opening, back, rfl, hrest, hstop⟩ := Substring.find_singleton_eq_some_iff.mp hfind
  obtain ⟨value, rfl⟩ : str "9=" <+: opening := by
    rw [← Substring.prefix_append_cons_iff (by decide : soh ∉ str "9=") back, ← hrest]
    exact List.prefix_append _ _
  obtain ⟨front, after, rfl, htext⟩ := (Substring.rfind_eq_some_iff.mp hpos).1
  have hlast : ¬ soh :: str "10=" <:+: after := by
    rw [htext] at hpos
    exact Substring.not_infix_of_rfind (by simp) hpos
  have hopening : before ++ (str "9=" ++ value) ++ [soh] <+: raw := by
    refine ⟨back, ?_⟩
    rw [← hraw, hrest]
    simp
  obtain ⟨body, rfl⟩ : before ++ (str "9=" ++ value) ++ [soh] <+: front := by
    apply List.prefix_of_prefix_length_le hopening ⟨_, htext.symm⟩
    simp only [List.length_append, List.length_singleton] at hle ⊢
    omega
  refine ⟨⟨before, value, body, after, ?_, hstart, hfirst, ?_, hlast⟩, rfl, ?_⟩
  · rw [htext]
    simp
  · exact fun hm => hstop (by simp [hm])
  · simp only [TextFrame.checksumPos, TextFrame.bodyEnd, List.length_append, List.length_singleton]

theorem covered_eq (T : TextFrame raw) {s r : Str}
    (hraw : s ++ (soh :: str "10=" ++ r) = raw) (hr : ¬ soh :: str "10=" <:+: r) :
    T.covered = s ++ [soh] := by
  have hfound := Substring.rfind_append (by decide) hr s
  have htake : (s ++ (soh :: str "10=" ++ r)).take (s.length + 1) = s ++ [soh] := by
    rw [List.take_length_add_append]
    rfl
  rw [hraw] at hfound htake
  obtain ⟨-, -, hpos⟩ := T.searched
  have hmark : s.length = T.checksumPos := Option.some.inj (hfound.symm.trans hpos)
  rw [← T.take_checksumPos, ← hmark, htake]

theorem unique (T T' : TextFrame raw) :
    T.length = T'.length ∧ T.sum = T'.sum := by
  obtain ⟨htag, hend, hpos⟩ := T.searched
  obtain ⟨htag', hend', hpos'⟩ := T'.searched
  have hstart : T.before.length = T'.before.length := Option.some.inj (htag.symm.trans htag')
  have hstop : T.bodyEnd = T'.bodyEnd := by
    rw [hstart] at hend
    exact Option.some.inj (hend.symm.trans hend')
  have hmark : T.checksumPos = T'.checksumPos := Option.some.inj (hpos.symm.trans hpos')
  rw [← T.sub_bodyEnd, ← T'.sub_bodyEnd, ← T.computeCheckSum_take, ← T'.computeCheckSum_take, hstop,
    hmark]
  exact ⟨rfl, rfl⟩

end TextFrame

/-- What `ParseStrict` checks. -/
theorem parseStrict_eq_ok_iff {raw : Str} {m : FixMessage} :
    FixMessage.parseStrict raw = .ok m ↔
      FixMessage.parse raw = .ok m ∧ ∃ bodyLength checkSum, ∃ T : TextFrame raw,
        m.get FixTag.bodyLength = some bodyLength ∧
        m.fields.getLast? = some (FixTag.checkSum, checkSum) ∧
        fromCharsInt32 bodyLength = some (T.length : ℤ) ∧
        fromCharsInt32 checkSum = some (T.sum : ℤ) := by
  simp only [FixMessage.parseStrict, bind_eq_ok_iff, orParseError_eq_ok_iff,
    parseRequire_eq_ok_iff]
  constructor
  · rintro ⟨m', hparse, bodyLength, hbody, tagPos, htag, bodyEnd, hend, ⟨tag, checkSum⟩, hlast,
      -, rfl, pos, hpos, -, hle, claimedLength, hlength, -, ⟨hnonneg, heq⟩, claimed, hclaimed,
      -, hsum, hret⟩
    cases hret
    obtain ⟨T, rfl, rfl⟩ := TextFrame.exists_of_searches htag hend hpos hle
    rw [T.sub_bodyEnd] at heq
    rw [T.computeCheckSum_take] at hsum
    refine ⟨hparse, bodyLength, checkSum, T, hbody, hlast, ?_, ?_⟩
    · rw [hlength, ← heq, Int.toNat_of_nonneg hnonneg]
    · rw [hclaimed, hsum]
  · rintro ⟨hparse, bodyLength, checkSum, T, hbody, hlast, hlength, hsum⟩
    obtain ⟨htag, hend, hpos⟩ := T.searched
    have hle : T.bodyEnd + 1 ≤ T.checksumPos := Nat.le_add_right _ _
    exact ⟨m, hparse, bodyLength, hbody, _, htag, _, hend, _, hlast, (), rfl, _, hpos, (), hle, _,
      hlength, (), ⟨Int.natCast_nonneg _, T.sub_bodyEnd.symm⟩, _, hsum, (),
      congrArg Nat.cast T.computeCheckSum_take.symm, rfl⟩

end Oems
