import Oems.SymbolIndependence

namespace Oems

open Lib

namespace OrderBook

variable (b : OrderBook) (id : ℕ) (side : Side) (type : OrderType) (price qty now : ℤ)

/-- An order with these terms is one that a book takes, unless it already has the id. -/
def ValidTerms (type : OrderType) (price qty : ℤ) : Prop := 0 < qty ∧ (type = .limit → 0 < price)

theorem addOrder_cases :
    (ValidTerms type price qty ∧ id ∉ b.idIndex ∧
      ∃ result b', b.addOrder id side type price qty now = (.ok result, b')) ∨
    (¬ (ValidTerms type price qty ∧ id ∉ b.idIndex) ∧
      ∃ err, b.addOrder id side type price qty now = (.error err, b)) := by
  rw [addOrder]
  by_cases hqty : qty ≤ 0
  · exact Or.inr ⟨fun h => absurd h.1.1 (not_lt.mpr hqty), _, if_pos hqty⟩
  · rw [if_neg hqty]
    by_cases hprice : type = .limit ∧ price ≤ 0
    · exact Or.inr ⟨fun h => absurd (h.1.2 hprice.1) (not_lt.mpr hprice.2), _, if_pos hprice⟩
    · rw [if_neg hprice]
      by_cases hid : id ∈ b.idIndex
      · exact Or.inr ⟨fun h => h.2 hid, _, if_pos hid⟩
      · have hvalid : ValidTerms type price qty :=
          ⟨not_le.mp hqty, fun hlimit => not_le.mp fun hle => hprice ⟨hlimit, hle⟩⟩
        refine Or.inl ⟨hvalid, hid, ?_⟩
        rw [if_neg hid]
        generalize b.matchAgainst id side type price qty now = r
        obtain ⟨fills, remaining, b'⟩ := r
        dsimp only
        split_ifs
        · exact ⟨_, _, rfl⟩
        · exact ⟨_, _, rfl⟩
        · exact ⟨_, _, rfl⟩

theorem cancelOrder_cases :
    (∃ removed b', b.cancelOrder id = (.ok removed, b')) ∨
      ∃ err, b.cancelOrder id = (.error err, b) := by
  rw [cancelOrder]
  cases b.idIndex.lookup id with
  | none => exact Or.inr ⟨_, rfl⟩
  | some loc =>
    obtain ⟨side, price⟩ := loc
    cases side with
    | buy =>
      cases hcancel : cancelIn b.bids price id with
      | error err => exact Or.inr ⟨err, by simp only [hcancel]⟩
      | ok r => exact Or.inl ⟨_, _, by simp only [hcancel]; rfl⟩
    | sell =>
      cases hcancel : cancelIn b.asks price id with
      | error err => exact Or.inr ⟨err, by simp only [hcancel]⟩
      | ok r => exact Or.inl ⟨_, _, by simp only [hcancel]; rfl⟩

theorem restoreRestingOrder_cases :
    (ValidTerms .limit price qty ∧ id ∉ b.idIndex ∧
      ∃ b', b.restoreRestingOrder id side price qty now = (.ok (), b')) ∨
    (¬ (ValidTerms .limit price qty ∧ id ∉ b.idIndex) ∧
      ∃ err, b.restoreRestingOrder id side price qty now = (.error err, b)) := by
  rw [restoreRestingOrder]
  by_cases hqty : qty ≤ 0
  · exact Or.inr ⟨fun h => absurd h.1.1 (not_lt.mpr hqty), _, if_pos hqty⟩
  · rw [if_neg hqty]
    by_cases hprice : price ≤ 0
    · exact Or.inr ⟨fun h => absurd (h.1.2 rfl) (not_lt.mpr hprice), _, if_pos hprice⟩
    · rw [if_neg hprice]
      by_cases hid : id ∈ b.idIndex
      · exact Or.inr ⟨fun h => h.2 hid, _, if_pos hid⟩
      · exact Or.inl ⟨⟨not_le.mp hqty, fun _ => not_le.mp hprice⟩, hid, _, if_neg hid⟩

end OrderBook

def BookResult.Failed : BookResult → Prop
  | added (.error _) => True
  | cancelled (.error _) => True
  | restored (.error _) => True
  | _ => False

theorem BookResult.failed_renumber (r : BookResult) (k : ℕ) :
    (r.renumber k).Failed ↔ r.Failed := by
  obtain (_ | _) | (_ | _) | (_ | _) := r
  all_goals exact Iff.rfl

namespace EngineOp

open OrderBook

/-- A call has arguments that the book of its symbol checks and finds valid, or there is
nothing for a book to do. -/
def ValidArgs : EngineOp → Prop
  | add _ _ _ type price qty _ => ValidTerms type price qty
  | cancel _ _ => True
  | restore order => order.type = .limit → 0 < order.remainingQty → 0 < order.price

theorem onSlot_some (op : EngineOp) (book : OrderBook)
    (h : (op.onSlot (some book)).1.Failed) : (op.onSlot (some book)).2 = some book := by
  cases op with
  | add symbol id side type price qty now =>
    obtain ⟨-, -, result, b', hok⟩ | ⟨-, err, herr⟩ :=
      book.addOrder_cases id side type price qty now
    · simp only [onSlot, Option.getD_some, hok, BookResult.Failed] at h
    · simp only [onSlot, Option.getD_some, herr]
  | cancel symbol id =>
    obtain ⟨removed, b', hok⟩ | ⟨err, herr⟩ := book.cancelOrder_cases id
    · simp only [onSlot, hok, BookResult.Failed] at h
    · simp only [onSlot, herr]
  | restore order =>
    rw [onSlot] at h ⊢
    by_cases hskip : order.type ≠ .limit ∨ order.remainingQty ≤ 0
    · rw [if_pos hskip]
    · rw [if_neg hskip] at h ⊢
      obtain ⟨-, -, b', hok⟩ | ⟨-, err, herr⟩ := book.restoreRestingOrder_cases order.internalId
        order.side order.price order.remainingQty order.createdAt
      · simp only [Option.getD_some, hok, BookResult.Failed] at h
      · simp only [Option.getD_some, herr]

theorem onSlot_none (op : EngineOp) (h : op.ValidArgs) (hfailed : (op.onSlot none).1.Failed) :
    (op.onSlot none).2 = none := by
  cases op with
  | add symbol id side type price qty now =>
    obtain ⟨-, -, result, b', hok⟩ | ⟨hnot, -⟩ :=
      (OrderBook.new symbol).addOrder_cases id side type price qty now
    · simp only [onSlot, Option.getD_none, hok, BookResult.Failed] at hfailed
    · exact absurd ⟨h, Finmap.notMem_empty⟩ hnot
  | cancel symbol id => rfl
  | restore order =>
    rw [onSlot] at hfailed ⊢
    by_cases hskip : order.type ≠ .limit ∨ order.remainingQty ≤ 0
    · rw [if_pos hskip]
    · obtain ⟨hlimit, hqty⟩ := not_or.mp hskip
      rw [if_neg hskip] at hfailed ⊢
      obtain ⟨-, -, b', hok⟩ | ⟨hnot, -⟩ := (OrderBook.new order.symbol).restoreRestingOrder_cases
        order.internalId order.side order.price order.remainingQty order.createdAt
      · simp only [Option.getD_none, hok, BookResult.Failed] at hfailed
      · have hpos := not_le.mp hqty
        exact absurd ⟨⟨hpos, fun _ => h (not_not.mp hlimit) hpos⟩, Finmap.notMem_empty⟩ hnot

/-- With other arguments it fails and leaves an empty book behind. -/
theorem onSlot_none_of_not_valid (op : EngineOp) (h : ¬ op.ValidArgs) :
    (op.onSlot none).1.Failed ∧ (op.onSlot none).2 = some (OrderBook.new op.symbol) := by
  cases op with
  | add symbol id side type price qty now =>
    obtain ⟨hvalid, -⟩ | ⟨-, err, herr⟩ :=
      (OrderBook.new symbol).addOrder_cases id side type price qty now
    · exact absurd hvalid h
    · simp only [onSlot, Option.getD_none, herr]
      exact ⟨trivial, rfl⟩
  | cancel symbol id => exact absurd trivial h
  | restore order =>
    rw [ValidArgs] at h
    push Not at h
    obtain ⟨hlimit, hpos, hprice⟩ := h
    rw [onSlot, if_neg (not_or.mpr ⟨not_not.mpr hlimit, not_le.mpr hpos⟩)]
    obtain ⟨hvalid, -⟩ | ⟨-, err, herr⟩ := (OrderBook.new order.symbol).restoreRestingOrder_cases
      order.internalId order.side order.price order.remainingQty order.createdAt
    · exact absurd (hvalid.2 rfl) (not_lt.mpr hprice)
    · simp only [Option.getD_none, herr]
      exact ⟨trivial, rfl⟩

end EngineOp

/-- Two engines that no caller can tell apart. -/
structure SameEngine (e e' : MatchingEngine) : Prop where
  bookCount : e'.bookCount = e.bookCount
  getBook : ∀ symbol, e'.getBook symbol = e.getBook symbol
  nextExecutionId : e'.nextExecutionId = e.nextExecutionId

theorem getBook_eq_iff {e e' : MatchingEngine} (symbol : Symbol) :
    e'.getBook symbol = e.getBook symbol ↔
      e'.books.lookup symbol.value = e.books.lookup symbol.value := by
  rw [MatchingEngine.getBook, MatchingEngine.getBook]
  cases e'.books.lookup symbol.value with
  | none => cases e.books.lookup symbol.value <;> simp
  | some book => cases e.books.lookup symbol.value <;> simp

theorem SameEngine.of_slot {e : MatchingEngine} {op : EngineOp}
    {r : BookResult × Option OrderBook} (h : SlotStep e op r) (hfailed : r.1.Failed)
    (hslot : r.2 = e.books.lookup op.symbol.value) : SameEngine e (e.step op).2 := by
  have hbooks : (e.step op).2.books = e.books := by
    apply Finmap.ext_lookup
    intro v
    by_cases hv : v = op.symbol.value
    · rw [hv, h.slot, hslot]
    · exact h.others v hv
  have hfills : r.1.fills = [] := by
    obtain ⟨(_ | _) | (_ | _) | (_ | _), slot⟩ := r
    all_goals first | rfl | exact absurd hfailed id
  refine ⟨?_, fun symbol => ?_, ?_⟩
  · rw [MatchingEngine.bookCount, hbooks, MatchingEngine.bookCount]
  · rw [getBook_eq_iff, hbooks]
  · rw [h.next, hfills, List.length_nil, Nat.add_zero]

/-- A call that fails on an engine leaves it as it was. -/
def FailsAtomically (e : MatchingEngine) (op : EngineOp) : Prop :=
  (e.step op).1.Failed → SameEngine e (e.step op).2

def freeOrder : EngineOp := .add ⟨str "AAPL"⟩ 1 .buy .limit 0 100 0

theorem freeOrder_leaves_book : ¬ ∀ e op, FailsAtomically e op := by
  intro h
  have hcount := (h MatchingEngine.new freeOrder trivial).bookCount
  exact absurd hcount (by decide)

/-- A call is atomic on error exactly where the symbol has a book already or the arguments
are valid. -/
theorem failsAtomically_iff (e : MatchingEngine) (op : EngineOp) :
    FailsAtomically e op ↔ (∃ book, e.getBook op.symbol = .ok book) ∨ op.ValidArgs := by
  have hstep := e.slotStep op
  have hfailed : (e.step op).1.Failed ↔
      (op.onSlot (e.books.lookup op.symbol.value)).1.Failed := by
    rw [hstep.result, BookResult.failed_renumber]
  cases hbook : e.books.lookup op.symbol.value with
  | some book =>
    have hknown : e.getBook op.symbol = .ok book := by
      rw [MatchingEngine.getBook, hbook]
    rw [hbook] at hstep hfailed
    refine iff_of_true (fun hf => ?_) (Or.inl ⟨book, hknown⟩)
    exact SameEngine.of_slot hstep (hfailed.mp hf)
      ((op.onSlot_some book (hfailed.mp hf)).trans hbook.symm)
  | none =>
    have hunknown : ¬ ∃ book, e.getBook op.symbol = .ok book := by
      rw [MatchingEngine.getBook, hbook]
      rintro ⟨book, hok⟩
      cases hok
    rw [hbook] at hstep hfailed
    constructor
    · intro hatomic
      refine Or.inr (Classical.byContradiction fun hnot => ?_)
      obtain ⟨hfails, hnew⟩ := op.onSlot_none_of_not_valid hnot
      have hsame := (getBook_eq_iff op.symbol).mp ((hatomic (hfailed.mpr hfails)).getBook op.symbol)
      rw [hstep.slot, hnew, hbook] at hsame
      cases hsame
    · rintro (hknown | hvalid) hf
      · exact absurd hknown hunknown
      · exact SameEngine.of_slot hstep (hfailed.mp hf)
          ((op.onSlot_none hvalid (hfailed.mp hf)).trans hbook.symm)

end Oems
