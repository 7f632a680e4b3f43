import Oems.AddedOrder

namespace Oems

open Lib

/-- What is filled of the passive orders in a set. -/
def filledOf (P : ℕ → Bool) (fills : List Fill) : ℤ :=
  ((fills.filter fun f => P f.passiveOrderId).map Fill.quantity).sum

theorem filledOf_append (P : ℕ → Bool) (fills fills' : List Fill) :
    filledOf P (fills ++ fills') = filledOf P fills + filledOf P fills' := by
  rw [filledOf, List.filter_append, List.map_append, List.sum_append]
  rfl

/-- Levels without an empty queue, all of whose entries have something left. -/
def Stocked (levels : List (Σ _ : ℤ, List BookEntry)) : Prop :=
  ∀ l ∈ levels, l.2 ≠ [] ∧ ∀ e ∈ l.2, 0 < e.remainingQty

theorem OrderBook.Coherent.stocked {b : OrderBook} (h : b.Coherent) (side : Side) :
    Stocked (b.levelsOf side) :=
  fun l hl => ⟨h.nonempty side l hl, fun e he => (h.entry side l hl e he).1⟩

theorem Stocked.pushQueue {p : ℤ} {e : BookEntry} {q : List BookEntry}
    {levels : List (Σ _ : ℤ, List BookEntry)} (h : Stocked (⟨p, e :: q⟩ :: levels)) :
    Stocked (pushQueue p q levels) := by
  have hrest : Stocked levels := fun l hl => h l (List.mem_cons_of_mem _ hl)
  unfold Oems.pushQueue
  split_ifs with hq
  · exact hrest
  · intro l hl
    obtain rfl | hl := List.mem_cons.mp hl
    · exact ⟨hq, fun x hx => (h _ List.mem_cons_self).2 x (List.mem_cons_of_mem e hx)⟩
    · exact hrest l hl

/-- Induction over levels from entry to entry, as the loops go through them. -/
theorem Stocked.induction {motive : List (Σ _ : ℤ, List BookEntry) → Prop} (nil : motive [])
    (front : ∀ p e q levels, 0 < e.remainingQty → motive (Oems.pushQueue p q levels) →
      motive (⟨p, e :: q⟩ :: levels))
    {levels : List (Σ _ : ℤ, List BookEntry)} (h : Stocked levels) : motive levels := by
  induction levels with
  | nil => exact nil
  | cons l levels ih =>
    obtain ⟨p, q⟩ := l
    induction q with
    | nil => exact absurd rfl (h _ List.mem_cons_self).1
    | cons e q ihq =>
      apply front
      · exact (h _ List.mem_cons_self).2 e List.mem_cons_self
      · have hpush := h.pushQueue
        unfold Oems.pushQueue at hpush ⊢
        split_ifs at hpush ⊢ with hq
        · exact ih hpush
        · exact ihq hpush

section Loops

open OrderBook

variable {inc inc₁ inc₂ : Incoming} {acc : ℤ → Bool}

theorem filledOf_trade (P : ℕ → Bool) (inc : Incoming) (st : MatchState) (e : BookEntry) :
    filledOf P (trade inc st e).fills = filledOf P st.fills +
      if P e.orderId then min st.remainingQty e.remainingQty else 0 := by
  rw [trade, filledOf_append]
  congr 1
  unfold filledOf
  split_ifs with hP
  · simp [hP]
  · simp [hP]

theorem matchLevels_refused {p : ℤ} (ha : inc.type = .limit ∧ ¬ acc p = true) (st : MatchState)
    (queue : List BookEntry) (levels : List (Σ _ : ℤ, List BookEntry)) :
    matchLevels inc acc st (⟨p, queue⟩ :: levels) = (st, ⟨p, queue⟩ :: levels) := by
  rw [matchLevels]
  split_ifs with hr
  · rfl
  · rfl

theorem matchLevels_within {st : MatchState} {p : ℤ} {e : BookEntry}
    (ha : ¬ (inc.type = .limit ∧ ¬ acc p = true)) (hr : 0 ≤ st.remainingQty)
    (he : st.remainingQty < e.remainingQty) (q : List BookEntry)
    (levels : List (Σ _ : ℤ, List BookEntry)) :
    ∃ st', matchLevels inc acc st (⟨p, e :: q⟩ :: levels) =
        (st', ⟨p, e.less st.remainingQty :: q⟩ :: levels) ∧ st'.remainingQty = 0 ∧
      ∀ P, filledOf P st'.fills =
        filledOf P st.fills + if P e.orderId then st.remainingQty else 0 := by
  have hmin : min st.remainingQty e.remainingQty = st.remainingQty := min_eq_left he.le
  by_cases hpos : 0 < st.remainingQty
  · refine ⟨trade inc st e, ?_, ?_, fun P => ?_⟩
    · rw [matchLevels_front_part hpos ha (by omega), hmin]
    · simp only [trade]
      omega
    · rw [filledOf_trade, hmin]
  · have hzero : st.remainingQty = 0 := by omega
    have hless : e.less st.remainingQty = e := by
      rw [BookEntry.less, hzero, sub_zero]
    refine ⟨st, ?_, hzero, fun P => ?_⟩
    · rw [matchLevels_of_done hpos, hless]
    · rw [hzero, ite_self, add_zero]

/-- The quantity left and the fills of one order are those of two others together. -/
structure Adds (st st₁ st₂ : MatchState) : Prop where
  first : 0 ≤ st₁.remainingQty
  second : 0 ≤ st₂.remainingQty
  remaining : st.remainingQty = st₁.remainingQty + st₂.remainingQty
  filled : ∀ P, filledOf P st.fills = filledOf P st₁.fills + filledOf P st₂.fills

theorem Adds.full {st st₁ st₂ : MatchState} (h : Adds st st₁ st₂) {e : BookEntry}
    (he : e.remainingQty ≤ st₁.remainingQty) :
    Adds (trade inc st e) (trade inc₁ st₁ e) st₂ := by
  have hsum := h.remaining
  have hsecond := h.second
  have hmin : min st.remainingQty e.remainingQty = e.remainingQty := min_eq_right (by omega)
  have hmin₁ : min st₁.remainingQty e.remainingQty = e.remainingQty := min_eq_right he
  refine ⟨?_, hsecond, ?_, fun P => ?_⟩
  · simp only [trade]
    omega
  · simp only [trade]
    omega
  · rw [filledOf_trade, filledOf_trade, h.filled, hmin, hmin₁]
    omega

/-- The loops for a quantity leave the levels as the loops for its first part and then
those for its second part do. -/
theorem matchLevels_adds (h₁ : inc₁.type = inc.type) (h₂ : inc₂.type = inc.type)
    {levels : List (Σ _ : ℤ, List BookEntry)} (hs : Stocked levels) {st st₁ st₂ : MatchState}
    (h : Adds st st₁ st₂) :
    (matchLevels inc₂ acc st₂ (matchLevels inc₁ acc st₁ levels).2).2 =
        (matchLevels inc acc st levels).2 ∧
      Adds (matchLevels inc acc st levels).1 (matchLevels inc₁ acc st₁ levels).1
        (matchLevels inc₂ acc st₂ (matchLevels inc₁ acc st₁ levels).2).1 := by
  revert st st₁ st₂
  apply hs.induction
  · intro st st₁ st₂ h
    exact ⟨rfl, h⟩
  · intro p e q levels he ih st st₁ st₂ h
    have hfirst := h.first
    have hsecond := h.second
    have hsum := h.remaining
    by_cases ha : inc.type = .limit ∧ ¬ acc p = true
    · rw [matchLevels_refused ha, matchLevels_refused (by rwa [h₁]), matchLevels_refused (by rwa [h₂])]
      exact ⟨rfl, h⟩
    have ha₁ : ¬ (inc₁.type = .limit ∧ ¬ acc p = true) := by rwa [h₁]
    have ha₂ : ¬ (inc₂.type = .limit ∧ ¬ acc p = true) := by rwa [h₂]
    by_cases hfull₁ : e.remainingQty ≤ st₁.remainingQty
    · -- the first part alone uses the entry up
      rw [matchLevels_front_full (by omega) ha (by omega),
        matchLevels_front_full (by omega) ha₁ (by omega)]
      exact ih (h.full hfull₁)
    obtain ⟨st₁', hloop₁, hleft₁, hfilled₁⟩ :=
      matchLevels_within ha₁ hfirst (not_le.mp hfull₁) q levels
    rw [hloop₁]
    by_cases hfull : e.remainingQty ≤ st.remainingQty
    · -- the second part uses up what the first one left of the entry
      have hadds : Adds (trade inc st e) st₁' (trade inc₂ st₂ (e.less st₁.remainingQty)) := by
        have hmin : min st.remainingQty e.remainingQty = e.remainingQty := min_eq_right hfull
        have hmin₂ : min st₂.remainingQty (e.less st₁.remainingQty).remainingQty =
            e.remainingQty - st₁.remainingQty := min_eq_right (by dsimp only; omega)
        refine ⟨hleft₁.ge, ?_, ?_, fun P => ?_⟩
        · simp only [trade]
          omega
        · simp only [trade]
          omega
        · rw [filledOf_trade, filledOf_trade, hfilled₁, h.filled, hmin, hmin₂]
          dsimp only
          split_ifs
          · omega
          · omega
      have hdone : matchLevels inc₁ acc st₁' (pushQueue p q levels) =
          (st₁', pushQueue p q levels) := matchLevels_of_done (by omega) _
      have hnext := ih hadds
      rw [hdone] at hnext
      rw [matchLevels_front_full (by omega) ha (by omega),
        matchLevels_front_full (by omega) ha₂ (by dsimp only; omega)]
      exact hnext
    · -- both parts together do not use it up
      obtain ⟨st', hloop, hleft, hfilled⟩ :=
        matchLevels_within ha (by omega) (not_le.mp hfull) q levels
      obtain ⟨st₂', hloop₂, hleft₂, hfilled₂⟩ :=
        matchLevels_within ha₂ hsecond
          (by dsimp only; omega : st₂.remainingQty < (e.less st₁.remainingQty).remainingQty) q levels
      rw [hloop, hloop₂]
      have hless : (e.less st₁.remainingQty).less st₂.remainingQty = e.less st.remainingQty := by
        rw [BookEntry.less, BookEntry.less, BookEntry.less, hsum, sub_sub]
      refine ⟨by rw [hless], hleft₁.ge, hleft₂.ge, by dsimp only; omega, fun P => ?_⟩
      rw [hfilled, hfilled₁, hfilled₂, h.filled]
      split_ifs
      · omega
      · omega

end Loops

def fillsOf : Result AddOrderResult → List Fill
  | .ok r => r.fills
  | .error _ => []

def restedBy : Result AddOrderResult → List BookEntry
  | .ok r => r.resting.toList
  | .error _ => []

namespace OrderBook.Added

variable {b b' : OrderBook} {id : ℕ} {side : Side} {type : OrderType} {price qty now : ℤ}
  {r : AddOrderResult}

theorem length_resting (r : AddOrderResult) : r.resting.toList.length ≤ 1 := by
  cases r.resting with
  | none => exact Nat.zero_le 1
  | some e => exact Nat.le_refl 1

theorem resting_entry (h : Added b id side type price qty now r b') {e : BookEntry}
    (he : e ∈ r.resting.toList) :
    e.orderId = id ∧ e.side = side ∧ e.price = price ∧ 0 < e.remainingQty := by
  rw [h.resting] at he
  split_ifs at he with hrest
  · rw [Option.toList_some, List.mem_singleton] at he
    subst he
    exact ⟨rfl, rfl, rfl, hrest.1⟩
  · simp at he

theorem sum_resting (h : Added b id side type price qty now r b')
    (hleft : 0 ≤ (b.loops id side type price qty now).1.remainingQty) :
    (r.resting.toList.map BookEntry.remainingQty).sum =
      if type = .limit then (b.loops id side type price qty now).1.remainingQty else 0 := by
  rw [h.resting]
  generalize (b.loops id side type price qty now).1.remainingQty = left at hleft ⊢
  by_cases ht : type = .limit
  · by_cases hpos : 0 < left
    · simp [hpos, ht]
    · have hzero : left = 0 := by omega
      simp [hzero]
  · simp [ht]

end OrderBook.Added

/-- A book treats an order like two parts of it one after the other. The remainder that
rests of the order is split into what rests of the parts. -/
structure SplitAlike (b : OrderBook) (side : Side) (price : ℤ)
    (whole first second : Result AddOrderResult × OrderBook) : Prop where
  verdict : first.1.map (fun _ => ()) = whole.1.map (fun _ => ()) ∧
    second.1.map (fun _ => ()) = whole.1.map (fun _ => ())
  opposite : second.2.levelsOf side.opposite = whole.2.levelsOf side.opposite
  passive : ∀ id, filledOf (fun x => x = id) (fillsOf whole.1) =
    filledOf (fun x => x = id) (fillsOf first.1) + filledOf (fun x => x = id) (fillsOf second.1)
  total : ((fillsOf whole.1).map Fill.quantity).sum =
    ((fillsOf first.1).map Fill.quantity).sum + ((fillsOf second.1).map Fill.quantity).sum
  whole_own : ∀ p, whole.2.queue side p =
    b.queue side p ++ if p = price then restedBy whole.1 else []
  parts_own : ∀ p, second.2.queue side p =
    b.queue side p ++ if p = price then restedBy first.1 ++ restedBy second.1 else []
  entries : ∀ e ∈ restedBy whole.1 ++ (restedBy first.1 ++ restedBy second.1),
    e.side = side ∧ e.price = price ∧ 0 < e.remainingQty
  at_most_one : (restedBy whole.1).length ≤ 1
  at_most_two : (restedBy first.1 ++ restedBy second.1).length ≤ 2
  remainder : ((restedBy first.1 ++ restedBy second.1).map BookEntry.remainingQty).sum =
    ((restedBy whole.1).map BookEntry.remainingQty).sum

theorem splitAlike_refused (b : OrderBook) (side : Side) (price : ℤ) (err : OemsError) :
    SplitAlike b side price (.error err, b) (.error err, b) (.error err, b) := by
  refine ⟨⟨rfl, rfl⟩, rfl, fun _ => rfl, rfl, fun p => ?_, fun p => ?_, ?_, Nat.zero_le 1,
    Nat.zero_le 2, rfl⟩
  · simp [restedBy]
  · simp [restedBy]
  · simp [restedBy]

theorem filledOf_all (fills : List Fill) :
    filledOf (fun _ => true) fills = (fills.map Fill.quantity).sum := by
  rw [filledOf, List.filter_true]

/-- An order of two quantities does to the market what an order of the first one and
then an order of the second one do. -/
theorem OrderBook.Coherent.splitAlike {b : OrderBook} (h : b.Coherent) {id id₁ id₂ : ℕ}
    {q₁ q₂ : ℤ} (hid : id ∉ b.idIndex) (hid₁ : id₁ ∉ b.idIndex) (hid₂ : id₂ ∉ b.idIndex)
    (hne : id₁ ≠ id₂) (hq₁ : 0 < q₁) (hq₂ : 0 < q₂) (side : Side) (type : OrderType)
    (price now now₁ now₂ : ℤ) :
    SplitAlike b side price (b.addOrder id side type price (q₁ + q₂) now)
      (b.addOrder id₁ side type price q₁ now₁)
      ((b.addOrder id₁ side type price q₁ now₁).2.addOrder id₂ side type price q₂ now₂) := by
  have hq : 0 < q₁ + q₂ := by omega
  by_cases hinvalid : type = .limit ∧ price ≤ 0
  · have hrefused : ∀ id q now, 0 < q →
        b.addOrder id side type price q now = (.error .invalidPrice, b) := by
      intro id q now hq
      rw [addOrder, if_neg (not_le.mpr hq), if_pos hinvalid]
    rw [hrefused _ _ _ hq, hrefused _ _ _ hq₁, hrefused _ _ _ hq₂]
    exact splitAlike_refused b side price .invalidPrice
  have hp : type = .limit → 0 < price := fun ht => not_le.mp fun hle => hinvalid ⟨ht, hle⟩
  obtain ⟨r, b', hr, hwhole⟩ := addOrder_added hid hq hp side now
  obtain ⟨r₁, b₁, hr₁, hfirst⟩ := addOrder_added hid₁ hq₁ hp side now₁
  have hfresh : id₂ ∉ b₁.idIndex := fun hm => (hfirst.index id₂ hm).elim hne.symm hid₂
  obtain ⟨r₂, b₂, hr₂, hsecond⟩ := addOrder_added hfresh hq₂ hp side now₂
  rw [hr, hr₁, hr₂]
  have hstart : Adds ⟨[], q₁ + q₂, b.idIndex, b.nextExecutionId⟩
      ⟨[], q₁, b.idIndex, b.nextExecutionId⟩ ⟨[], q₂, b₁.idIndex, b₁.nextExecutionId⟩ :=
    ⟨hq₁.le, hq₂.le, rfl, fun _ => rfl⟩
  obtain ⟨hlevels, hadds⟩ : (b₁.loops id₂ side type price q₂ now₂).2 =
        (b.loops id side type price (q₁ + q₂) now).2 ∧
      Adds (b.loops id side type price (q₁ + q₂) now).1 (b.loops id₁ side type price q₁ now₁).1
        (b₁.loops id₂ side type price q₂ now₂).1 := by
    rw [loops, hfirst.opposite]
    apply matchLevels_adds
    · rfl
    · rfl
    · exact h.stocked side.opposite
    · exact hstart
  have hfilled : ∀ P, filledOf P r.fills = filledOf P r₁.fills + filledOf P r₂.fills := by
    intro P
    rw [hwhole.fills, hfirst.fills, hsecond.fills]
    exact hadds.filled P
  refine ⟨⟨rfl, rfl⟩, ?_, fun x => hfilled _, ?_, hwhole.own, fun p => ?_, ?_,
    Added.length_resting r, ?_, ?_⟩
  · exact hsecond.opposite.trans (hlevels.trans hwhole.opposite.symm)
  · have htotal := hfilled fun _ => true
    rwa [filledOf_all, filledOf_all, filledOf_all] at htotal
  · rw [hsecond.own, hfirst.own]
    by_cases hpp : p = price
    · rw [if_pos hpp, if_pos hpp, if_pos hpp, List.append_assoc]
      rfl
    · simp [hpp]
  · intro e he
    obtain he | he := List.mem_append.mp he
    · exact (hwhole.resting_entry he).2
    · obtain he | he := List.mem_append.mp he
      · exact (hfirst.resting_entry he).2
      · exact (hsecond.resting_entry he).2
  · rw [List.length_append]
    exact Nat.add_le_add (Added.length_resting r₁) (Added.length_resting r₂)
  · have hsum := hadds.remaining
    rw [List.map_append, List.sum_append]
    refine (congrArg₂ (· + ·) (hfirst.sum_resting hadds.first) (hsecond.sum_resting hadds.second)).trans ?_
    refine Eq.trans ?_ (hwhole.sum_resting ?_).symm
    · split_ifs
      · exact hsum.symm
      · rfl
    · rw [hsum]
      exact add_nonneg hadds.first hadds.second

/-- In the book after any sequence of calls an order can be split. -/
theorem bookAfter_splitAlike (symbol : Symbol) (ops : List BookOp) (side : Side)
    (type : OrderType) (price q₁ q₂ now now₁ now₂ : ℤ) (id id₁ id₂ : ℕ)
    (hid : id ∉ (bookAfter symbol ops).idIndex) (hid₁ : id₁ ∉ (bookAfter symbol ops).idIndex)
    (hid₂ : id₂ ∉ (bookAfter symbol ops).idIndex) (hne : id₁ ≠ id₂) (hq₁ : 0 < q₁) (hq₂ : 0 < q₂) :
    SplitAlike (bookAfter symbol ops) side price
      ((bookAfter symbol ops).addOrder id side type price (q₁ + q₂) now)
      ((bookAfter symbol ops).addOrder id₁ side type price q₁ now₁)
      (((bookAfter symbol ops).addOrder id₁ side type price q₁ now₁).2.addOrder
        id₂ side type price q₂ now₂) := by
  have h : (bookAfter symbol ops).Coherent := ((Refines.new symbol).run ops).2.coherent
  exact h.splitAlike hid hid₁ hid₂ hne hq₁ hq₂ side type price now now₁ now₂

/-- A bid for twelve, split within the second of two offers of five. -/
theorem bookAfter_splitAlike_offers :
    SplitAlike (bookAfter ⟨str "AAPL"⟩ [.add 1 .sell .limit 100 5 0, .add 2 .sell .limit 101 5 1])
      .buy 101
      ((bookAfter ⟨str "AAPL"⟩ [.add 1 .sell .limit 100 5 0, .add 2 .sell .limit 101 5 1]).addOrder
        3 .buy .limit 101 (7 + 5) 2)
      ((bookAfter ⟨str "AAPL"⟩ [.add 1 .sell .limit 100 5 0, .add 2 .sell .limit 101 5 1]).addOrder
        4 .buy .limit 101 7 2)
      (((bookAfter ⟨str "AAPL"⟩ [.add 1 .sell .limit 100 5 0, .add 2 .sell .limit 101 5 1]).addOrder
        4 .buy .limit 101 7 2).2.addOrder 5 .buy .limit 101 5 3) :=
  bookAfter_splitAlike ⟨str "AAPL"⟩ [.add 1 .sell .limit 100 5 0, .add 2 .sell .limit 101 5 1] .buy
    .limit 101 7 5 2 2 3 3 4 5 (by decide) (by decide) (by decide) (by decide) (by decide) (by decide)

end Oems
