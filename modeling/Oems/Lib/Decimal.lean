import Mathlib.Data.Nat.Digits.Defs
import Mathlib.Data.Nat.Digits.Lemmas
import Mathlib.Data.List.TakeWhile

namespace Lib.Decimal

def digit (d : ℕ) : UInt8 := UInt8.ofNat (48 + d)

def isDigit (b : UInt8) : Bool := 48 ≤ b && b ≤ 57

def ofNat (n : ℕ) : List UInt8 :=
  if n = 0 then [digit 0] else (Nat.digits 10 n).reverse.map digit

def ofInt : ℤ → List UInt8
  | .ofNat n => ofNat n
  | .negSucc n => 45 :: ofNat (n + 1)

def value (bs : List UInt8) : ℕ := bs.foldl (fun v b => 10 * v + (b.toNat - 48)) 0

/-- Read a text that consists of decimal digits and nothing else. -/
def toNat? (bs : List UInt8) : Option ℕ :=
  if bs ≠ [] ∧ bs.all isDigit then some (value bs) else none

def toInt? : List UInt8 → Option ℤ
  | 45 :: bs => (toNat? bs).map fun n => -(n : ℤ)
  | bs => (toNat? bs).map fun n => (n : ℤ)

/-- The decimal digits a text starts with. -/
def leading (bs : List UInt8) : List UInt8 := bs.takeWhile isDigit

def leadingInt? : List UInt8 → Option ℤ
  | 45 :: bs => (toNat? (leading bs)).map fun n : ℕ => -(n : ℤ)
  | bs => (toNat? (leading bs)).map fun n : ℕ => (n : ℤ)

/-- `std::from_chars`: the number of a range that a text starts with, whatever
follows it there. -/
def fromChars (lo hi : ℤ) (bs : List UInt8) : Option ℤ :=
  (leadingInt? bs).filter fun z => lo ≤ z ∧ z ≤ hi

theorem digit_toNat {d : ℕ} (h : d < 10) : (digit d).toNat = 48 + d := by
  rw [digit, UInt8.toNat_ofNat']
  exact Nat.mod_eq_of_lt (by omega)

theorem isDigit_digit {d : ℕ} (h : d < 10) : isDigit (digit d) = true := by
  simp only [isDigit, Bool.and_eq_true, decide_eq_true_eq, UInt8.le_iff_toNat_le, digit_toNat h]
  exact ⟨Nat.le_add_right 48 d, by change 48 + d ≤ 57; omega⟩

theorem ofNat_ne_nil (n : ℕ) : ofNat n ≠ [] := by
  unfold ofNat
  split_ifs with h
  · simp
  · simpa using Nat.digits_ne_nil_iff_ne_zero.mpr h

theorem isDigit_of_mem_ofNat {n : ℕ} {b : UInt8} (h : b ∈ ofNat n) : isDigit b = true := by
  unfold ofNat at h
  split_ifs at h with hn
  · rw [List.mem_singleton.mp h]
    exact isDigit_digit (by decide)
  · obtain ⟨d, hd, rfl⟩ := List.mem_map.mp h
    exact isDigit_digit (Nat.digits_lt_base (by decide) (List.mem_reverse.mp hd))

theorem value_map_digit (ds : List ℕ) (h : ∀ d ∈ ds, d < 10) :
    value (ds.reverse.map digit) = Nat.ofDigits 10 ds := by
  induction ds with
  | nil => rfl
  | cons d ds ih =>
    have hd := digit_toNat (h d (by simp))
    have ht := ih fun x hx => h x (by simp [hx])
    rw [List.reverse_cons, List.map_append, value, List.foldl_append]
    change 10 * value (ds.reverse.map digit) + ((digit d).toNat - 48) = _
    rw [ht, hd, Nat.ofDigits_cons]
    omega

theorem value_ofNat (n : ℕ) : value (ofNat n) = n := by
  unfold ofNat
  split_ifs with h
  · subst h
    rfl
  · rw [value_map_digit _ fun d hd => Nat.digits_lt_base (by decide) hd]
    exact Nat.ofDigits_digits 10 n

theorem toNat?_ofNat (n : ℕ) : toNat? (ofNat n) = some n := by
  rw [toNat?, if_pos ⟨ofNat_ne_nil n, List.all_eq_true.mpr fun _ => isDigit_of_mem_ofNat⟩,
    value_ofNat]

theorem toInt?_ofInt (z : ℤ) : toInt? (ofInt z) = some z := by
  cases z with
  | ofNat n =>
    have hne : ∀ bs, ofNat n ≠ 45 :: bs := by
      intro bs he
      have hm : (45 : UInt8) ∈ ofNat n := by simp [he]
      exact absurd (isDigit_of_mem_ofNat hm) (by decide)
    change toInt? (ofNat n) = _
    unfold toInt?
    split
    · rename_i bs he
      exact absurd he (hne bs)
    · rw [toNat?_ofNat]
      rfl
  | negSucc n =>
    change (toNat? (ofNat (n + 1))).map (fun m => -(m : ℤ)) = _
    rw [toNat?_ofNat]
    rfl

theorem value_zeros_append (k : ℕ) (bs : List UInt8) :
    value (List.replicate k 48 ++ bs) = value bs := by
  induction k with
  | zero => rfl
  | succ k ih =>
    rw [List.replicate_succ, List.cons_append]
    exact ih

theorem length_ofNat_le {n k : ℕ} (hk : 0 < k) (h : n < 10 ^ k) : (ofNat n).length ≤ k := by
  unfold ofNat
  split_ifs with hn
  · exact hk
  · rw [List.length_map, List.length_reverse]
    exact (Nat.digits_length_le_iff (by decide) n).mpr h

theorem toNat?_eq_some_iff {bs : List UInt8} {n : ℕ} :
    toNat? bs = some n ↔ bs ≠ [] ∧ (∀ b ∈ bs, isDigit b = true) ∧ value bs = n := by
  simp [toNat?, and_assoc]

theorem leading_eq_self {ds : List UInt8} (hd : ∀ b ∈ ds, isDigit b = true) :
    leading ds = ds :=
  List.takeWhile_eq_self_iff.mpr hd

theorem leadingInt?_of_isDigit {bs : List UInt8} (h : ∀ b ∈ bs.head?, isDigit b = true) :
    leadingInt? bs = (toNat? (leading bs)).map fun n : ℕ => (n : ℤ) := by
  unfold leadingInt?
  split
  · exact absurd (h 45 rfl) (by decide)
  · rfl

/-- A positive number is read exactly where the text starts with its digits. -/
theorem leadingInt?_eq_pos_iff {bs : List UInt8} {n : ℕ} (hn : 0 < n) :
    leadingInt? bs = some (n : ℤ) ↔ toNat? (leading bs) = some n := by
  unfold leadingInt?
  split
  · rename_i ds
    have hempty : leading (45 :: ds) = [] := rfl
    constructor
    · intro h
      obtain ⟨m, -, hm⟩ := Option.map_eq_some_iff.mp h
      omega
    · intro h
      rw [hempty] at h
      simp [toNat?] at h
  · simp

theorem fromChars_eq_some_iff {lo hi z : ℤ} {bs : List UInt8} :
    fromChars lo hi bs = some z ↔ leadingInt? bs = some z ∧ lo ≤ z ∧ z ≤ hi := by
  rw [fromChars, Option.filter_eq_some_iff]
  simp

theorem leadingInt?_of_toInt? {bs : List UInt8} {z : ℤ} (h : toInt? bs = some z) :
    leadingInt? bs = some z := by
  have hwhole : ∀ {ds : List UInt8} {n : ℕ}, toNat? ds = some n → toNat? (leading ds) = some n := by
    intro ds n hn
    rw [leading_eq_self (toNat?_eq_some_iff.mp hn).2.1]
    exact hn
  unfold leadingInt?
  split
  · rename_i ds
    cases hn : toNat? ds with
    | none => simp [toInt?, hn] at h
    | some n =>
      rw [hwhole hn]
      simpa [toInt?, hn] using h
  · rename_i hsign
    rw [toInt?.eq_2 bs hsign] at h
    cases hn : toNat? bs with
    | none => simp [hn] at h
    | some n =>
      rw [hwhole hn]
      simpa [hn] using h

/-- A text of digits alone is read as the number it denotes. -/
theorem fromChars_of_toNat? {lo hi : ℤ} {bs : List UInt8} {n : ℕ} (h : toNat? bs = some n)
    (hlo : lo ≤ 0) : fromChars lo hi bs = if (n : ℤ) ≤ hi then some (n : ℤ) else none := by
  obtain ⟨hne, hd, -⟩ := toNat?_eq_some_iff.mp h
  have hlead : leadingInt? bs = some (n : ℤ) := by
    rw [leadingInt?_of_isDigit fun b hb => hd b (List.mem_of_mem_head? hb), leading_eq_self hd, h]
    rfl
  have hn : lo ≤ n := le_trans hlo (Int.natCast_nonneg n)
  simp [fromChars, hlead, hn, Option.filter]

end Lib.Decimal
