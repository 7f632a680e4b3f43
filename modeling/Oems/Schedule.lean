import Oems.AlgoQuantity
import Mathlib.Tactic.FieldSimp

namespace Oems

open Lib

/-- When slice `k` is due at an even spread over the whole duration. -/
def evenTime (params : AlgoParams) (start : ℤ) (k : ℕ) : ℚ :=
  start + k * (params.duration * 10 ^ 9) / params.numSlices

/-- When slice `k` is scheduled, as long as that fits 64 bits. -/
def slotTime (params : AlgoParams) (start : ℤ) (k : ℕ) : ℤ :=
  start + params.duration.tdiv params.numSlices * k * 10 ^ 9

/-- A schedule that stays within a second of the even spread, in order and within the
duration. Times are in nanoseconds. -/
structure EvenlySpread (params : AlgoParams) (start : ℤ) (slices : List ChildSlice) : Prop where
  near : ∀ k slice, slices[k]? = some slice →
    |(slice.scheduledAt : ℚ) - evenTime params start k| ≤ 10 ^ 9
  ordered : (slices.map ChildSlice.scheduledAt).Pairwise (· ≤ ·)
  within : ∀ slice ∈ slices, start ≤ slice.scheduledAt ∧
    slice.scheduledAt ≤ start + params.duration * 10 ^ 9

/-- `GenerateVwapSlices` takes the profile of a request; a TWAP needs none. -/
def AlgoRequest.Accepted (req : AlgoRequest) : Prop :=
  req.type = .vwap → (req.profile.length : ℤ) = req.params.numSlices ∧ 0 < req.profile.sum

theorem vwapSlices_times (params : AlgoParams) (start : ℤ) (i : ℕ) (allocated : ℤ)
    (profile : List ℚ) : (vwapSlices params start i allocated profile).map ChildSlice.scheduledAt =
      (List.range' i profile.length).map fun k => wrapInt64 (slotTime params start k) := by
  induction profile generalizing i allocated with
  | nil => rfl
  | cons w profile ih =>
    rw [vwapSlices, List.length_cons, List.range'_succ, List.map_cons]
    split_ifs
    · rw [List.map_cons, ih]
      rfl
    · rw [List.map_cons, ih]
      rfl

theorem AlgoRequest.times {req : AlgoRequest} (hn : 0 < req.params.numSlices)
    (hq : 0 < req.params.parent.quantity) (ha : req.Accepted) (start : ℤ) :
    (req.slices start).map ChildSlice.scheduledAt =
      (List.range req.params.numSlices.toNat).map fun k =>
        wrapInt64 (slotTime req.params start k) := by
  have hopen : ¬ (req.params.numSlices ≤ 0 ∨ req.params.parent.quantity ≤ 0) := by omega
  unfold slices
  cases htype : req.type with
  | twap =>
    dsimp only
    rw [generateTwapSlices, if_neg hopen, List.map_map]
    rfl
  | vwap =>
    obtain ⟨hlen, hsum⟩ := ha htype
    have hprofile : (if req.vwapProfile = [] then defaultVolumeProfile req.params.numSlices
        else req.vwapProfile) = req.profile := rfl
    dsimp only
    rw [generateVwapSlices, if_neg hopen, hprofile, if_neg (not_not.mpr hlen),
      if_neg (not_le.mpr hsum), vwapSlices_times, List.length_map, List.range_eq_range', ← hlen,
      Int.toNat_natCast]

section Drift

variable {params : AlgoParams}

/-- The whole seconds of the step fall short of the even spread, by more with each slice. -/
theorem slotTime_drift (hn : 0 < params.numSlices) (hd : 0 ≤ params.duration) (start : ℤ) (k : ℕ) :
    evenTime params start k - slotTime params start k =
      10 ^ 9 * ((k * (params.duration % params.numSlices) : ℤ) / params.numSlices : ℚ) := by
  have hne : (params.numSlices : ℚ) ≠ 0 := Int.cast_ne_zero.mpr hn.ne'
  have hsplit : (params.duration : ℚ) = params.numSlices * (params.duration / params.numSlices : ℤ) +
      (params.duration % params.numSlices : ℤ) := by
    exact_mod_cast (Int.mul_ediv_add_emod params.duration params.numSlices).symm
  rw [evenTime, slotTime, Int.tdiv_eq_ediv_of_nonneg hd]
  generalize params.duration / params.numSlices = step at hsplit
  push_cast
  rw [hsplit]
  field_simp
  ring

theorem drift_nonneg (hn : 0 < params.numSlices) (k : ℕ) :
    (0 : ℚ) ≤ ((k * (params.duration % params.numSlices) : ℤ) : ℚ) / params.numSlices := by
  have hdrift : 0 ≤ (k : ℤ) * (params.duration % params.numSlices) :=
    mul_nonneg (Int.natCast_nonneg k) (Int.emod_nonneg _ hn.ne')
  exact div_nonneg (Int.cast_nonneg hdrift) (Int.cast_nonneg hn.le)

theorem near_iff (hn : 0 < params.numSlices) (hd : 0 ≤ params.duration) (start : ℤ) (k : ℕ) :
    |(slotTime params start k : ℚ) - evenTime params start k| ≤ 10 ^ 9 ↔
      k * (params.duration % params.numSlices) ≤ params.numSlices := by
  have hnonneg := drift_nonneg hn k
  rw [abs_sub_comm, slotTime_drift hn hd, abs_of_nonneg (by positivity), mul_le_iff_le_one_right
    (by positivity), div_le_one (Int.cast_pos.mpr hn), Int.cast_le]

/-- No slice is too far off exactly when the duration divides up to one second. -/
theorem drift_bounded_iff (hn : 0 < params.numSlices) :
    (∀ k : ℕ, k < params.numSlices.toNat →
      k * (params.duration % params.numSlices) ≤ params.numSlices) ↔
      params.duration % params.numSlices ≤ 1 := by
  have hlt := Int.emod_lt_of_pos params.duration hn
  have hnonneg := Int.emod_nonneg params.duration hn.ne'
  generalize params.duration % params.numSlices = r at hlt hnonneg
  constructor
  · intro h
    by_contra hr
    have hlast := h (params.numSlices.toNat - 1) (by omega)
    have hcast : ((params.numSlices.toNat - 1 : ℕ) : ℤ) = params.numSlices - 1 := by omega
    rw [hcast] at hlast
    nlinarith
  · intro hr k hk
    have hk' : (k : ℤ) < params.numSlices := by omega
    obtain rfl | rfl : r = 0 ∨ r = 1 := by omega
    · rw [mul_zero]
      exact hn.le
    · rw [mul_one]
      exact hk'.le

end Drift

section Slots

variable {params : AlgoParams} {slices : List ChildSlice} {start : ℤ}
  (htimes : slices.map ChildSlice.scheduledAt =
    (List.range params.numSlices.toNat).map fun k => wrapInt64 (slotTime params start k))
  (hn : 0 < params.numSlices) (hd : 0 ≤ params.duration)

include htimes in
theorem scheduledAt_of_getElem? {k : ℕ} {slice : ChildSlice} (hs : slices[k]? = some slice) :
    k < params.numSlices.toNat ∧ slice.scheduledAt = wrapInt64 (slotTime params start k) := by
  have hk := congrArg (fun l : List ℤ => l[k]?) htimes
  simp only [List.getElem?_map, hs, Option.map_some] at hk
  obtain ⟨i, hi, hslot⟩ := Option.map_eq_some_iff.mp hk.symm
  obtain ⟨hlt, rfl⟩ := List.getElem?_eq_some_iff.mp hi
  rw [List.length_range] at hlt
  rw [List.getElem_range] at hslot
  exact ⟨hlt, hslot.symm⟩

include htimes in
theorem exists_slice {k : ℕ} (hk : k < params.numSlices.toNat) :
    ∃ slice, slices[k]? = some slice := by
  have hlen := congrArg List.length htimes
  rw [List.length_map, List.length_map, List.length_range] at hlen
  exact ⟨_, List.getElem?_eq_getElem (by omega)⟩

include hn hd

theorem slotTime_mono {i j : ℕ} (h : i ≤ j) : slotTime params start i ≤ slotTime params start j := by
  have hstep := Int.tdiv_nonneg hd hn.le
  have hle : params.duration.tdiv params.numSlices * i ≤ params.duration.tdiv params.numSlices * j :=
    mul_le_mul_of_nonneg_left (Int.ofNat_le.mpr h) hstep
  unfold slotTime
  omega

theorem slotTime_within {k : ℕ} (hk : k < params.numSlices.toNat) :
    start ≤ slotTime params start k ∧
      slotTime params start k ≤ start + params.duration * 10 ^ 9 := by
  have hstep := Int.tdiv_nonneg hd hn.le
  have hnonneg : 0 ≤ params.duration.tdiv params.numSlices * k :=
    mul_nonneg hstep (Int.natCast_nonneg k)
  have hbound : params.duration.tdiv params.numSlices * k ≤ params.duration := by
    calc params.duration.tdiv params.numSlices * k
        ≤ params.duration.tdiv params.numSlices * params.numSlices :=
          mul_le_mul_of_nonneg_left (by omega) hstep
      _ ≤ params.duration := by
          rw [Int.tdiv_eq_ediv_of_nonneg hd]
          exact Int.ediv_mul_le params.duration hn.ne'
  rw [slotTime]
  omega

theorem not_near_of_overflow {k : ℕ} (h : 2 ^ 63 ≤ slotTime params start k) :
    ¬ |(wrapInt64 (slotTime params start k) : ℚ) - evenTime params start k| ≤ 10 ^ 9 := by
  have hdrift := slotTime_drift hn hd start k
  have hnonneg := drift_nonneg hn k
  have hwrap : (wrapInt64 (slotTime params start k) : ℚ) ≤ slotTime params start k - 2 ^ 64 := by
    exact_mod_cast wrapInt64_le h
  rw [abs_le]
  rintro ⟨hlow, -⟩
  linarith

theorem wrapInt64_slotTime (hstart : InInt64 start)
    (hlast : slotTime params start (params.numSlices.toNat - 1) < 2 ^ 63) {k : ℕ}
    (hk : k < params.numSlices.toNat) :
    wrapInt64 (slotTime params start k) = slotTime params start k := by
  have hwithin : start ≤ slotTime params start k := (slotTime_within hn hd hk).1
  have hmono : slotTime params start k ≤ slotTime params start _ :=
    slotTime_mono hn hd (Nat.le_sub_one_of_lt hk)
  exact wrapInt64_eq ⟨hstart.1.trans hwithin, hmono.trans_lt hlast⟩

end Slots

/-- The time of the last slice fits 64 bits. -/
def LastSlotFits (params : AlgoParams) (start : ℤ) : Prop :=
  start + params.duration / params.numSlices * (params.numSlices - 1) * 10 ^ 9 < 2 ^ 63

instance (params : AlgoParams) (start : ℤ) : Decidable (LastSlotFits params start) :=
  inferInstanceAs (Decidable (_ < _))

theorem lastSlotFits_iff {params : AlgoParams} {start : ℤ} (hn : 0 < params.numSlices)
    (hd : 0 ≤ params.duration) :
    LastSlotFits params start ↔ slotTime params start (params.numSlices.toNat - 1) < 2 ^ 63 := by
  have hcast : ((params.numSlices.toNat - 1 : ℕ) : ℤ) = params.numSlices - 1 := by omega
  rw [LastSlotFits, slotTime, hcast, Int.tdiv_eq_ediv_of_nonneg hd]

/-- A schedule is evenly spread exactly when the number of slices divides its duration up
to one second, as only then does the truncated step not add up to more than a second, and
its last time is one of the clock. -/
theorem evenlySpread_iff (req : AlgoRequest) (start : ℤ) (hn : 0 < req.params.numSlices)
    (hq : 0 < req.params.parent.quantity) (hd : 0 ≤ req.params.duration) (ha : req.Accepted)
    (hstart : InInt64 start) :
    EvenlySpread req.params start (req.slices start) ↔
      req.params.duration % req.params.numSlices ≤ 1 ∧ LastSlotFits req.params start := by
  have htimes := AlgoRequest.times hn hq ha start
  rw [← drift_bounded_iff hn, lastSlotFits_iff hn hd]
  constructor
  · intro h
    have hnear : ∀ k < req.params.numSlices.toNat,
        |(wrapInt64 (slotTime req.params start k) : ℚ) - evenTime req.params start k| ≤ 10 ^ 9 := by
      intro k hk
      obtain ⟨slice, hs⟩ := exists_slice htimes hk
      have hat := h.near k slice hs
      rwa [(scheduledAt_of_getElem? htimes hs).2] at hat
    have hlast : slotTime req.params start (req.params.numSlices.toNat - 1) < 2 ^ 63 := by
      by_contra hover
      exact not_near_of_overflow hn hd (not_lt.mp hover) (hnear _ (by omega))
    refine ⟨fun k hk => ?_, hlast⟩
    have hat := hnear k hk
    rw [wrapInt64_slotTime hn hd hstart hlast hk] at hat
    exact (near_iff hn hd start k).mp hat
  · rintro ⟨hdrift, hlast⟩
    have hslot : ∀ k slice, (req.slices start)[k]? = some slice →
        k < req.params.numSlices.toNat ∧ slice.scheduledAt = slotTime req.params start k := by
      intro k slice hs
      obtain ⟨hk, hat⟩ := scheduledAt_of_getElem? htimes hs
      exact ⟨hk, hat.trans (wrapInt64_slotTime hn hd hstart hlast hk)⟩
    refine ⟨fun k slice hs => ?_, ?_, fun slice hmem => ?_⟩
    · obtain ⟨hk, hat⟩ := hslot k slice hs
      rw [hat]
      exact (near_iff hn hd start k).mpr (hdrift k hk)
    · have hplain : (req.slices start).map ChildSlice.scheduledAt =
          (List.range req.params.numSlices.toNat).map (slotTime req.params start) := by
        rw [htimes]
        exact List.map_congr_left fun k hk =>
          wrapInt64_slotTime hn hd hstart hlast (List.mem_range.mp hk)
      rw [hplain, List.pairwise_map]
      exact List.pairwise_lt_range.imp fun hij => slotTime_mono hn hd hij.le
    · obtain ⟨k, hs⟩ := List.mem_iff_getElem?.mp hmem
      obtain ⟨hk, hat⟩ := hslot k slice hs
      rw [hat]
      exact slotTime_within hn hd hk

-- the second of two slices over 2 * 10^10 s is due in the year 2286, and put before 1970
example : (generateTwapSlices ⟨⟨str "parent", ⟨str "AAPL"⟩, .buy, .limit, 100, 2⟩, 2 * 10 ^ 10, 2⟩
    0).map ChildSlice.scheduledAt = [0, 10 ^ 19 - 2 ^ 64] := by decide

/-- A TWAP over a minute in four slices is evenly spread. -/
theorem evenlySpread_minute : EvenlySpread
    ⟨⟨str "parent", ⟨str "AAPL"⟩, .buy, .limit, 100, 1000⟩, 60, 4⟩ 0
    (AlgoRequest.slices ⟨.twap, ⟨⟨str "parent", ⟨str "AAPL"⟩, .buy, .limit, 100, 1000⟩, 60, 4⟩, []⟩ 0) :=
  (evenlySpread_iff ⟨.twap, ⟨⟨str "parent", ⟨str "AAPL"⟩, .buy, .limit, 100, 1000⟩, 60, 4⟩, []⟩ 0
    (by decide) (by decide) (by decide) nofun (by constructor <;> decide)).mpr (by decide)

def tenInFiftyNine : AlgoParams := ⟨⟨str "parent", ⟨str "AAPL"⟩, .buy, .limit, 100, 1000⟩, 59, 10⟩

/-- The last slice is scheduled after 45 seconds, where 53.1 seconds would be even. -/
theorem tenInFiftyNine_not_evenlySpread :
    ¬ EvenlySpread tenInFiftyNine 0 (generateTwapSlices tenInFiftyNine 0) := by
  intro h
  have hlast : (generateTwapSlices tenInFiftyNine 0)[9]? = some
      ⟨{ tenInFiftyNine.parent with quantity := 100 }, 45 * 10 ^ 9⟩ := by decide
  have hnear := h.near 9 _ hlast
  rw [evenTime, tenInFiftyNine] at hnear
  norm_num [abs_le] at hnear

end Oems
