import Oems.BookRefinement

namespace Oems

open Lib

def OrderBook.levels (b : OrderBook) (side : Side) : List (ℤ × List Quote) :=
  match side with
  | .buy => b.bids.entries.map fun l => (l.1, l.2.map BookEntry.quote)
  | .sell => b.asks.entries.map fun l => (l.1, l.2.map BookEntry.quote)

namespace Arranged

variable {side : Side} {levels levels' : List (Σ _ : ℤ, List BookEntry)}
  {orders : List RestingOrder}

theorem mem_keys_iff (h : Arranged side levels orders) {p : ℤ} :
    p ∈ levels.keys ↔ queueAt side p orders ≠ [] := by
  have hq := h.queue p
  constructor
  · intro hp hnil
    obtain ⟨q, hl⟩ := List.exists_of_mem_keys hp
    rw [(List.mem_dlookup_iff h.nodup_keys).mpr hl, Option.getD_some, hnil] at hq
    exact h.nonempty _ hl (List.map_eq_nil_iff.mp hq)
  · intro hne
    by_contra hp
    rw [List.dlookup_eq_none.mpr hp, Option.getD_none] at hq
    exact hne (List.map_eq_nil_iff.mp hq.symm)

theorem levels_eq (h : Arranged side levels orders) :
    (levels.map fun l => (l.1, l.2.map BookEntry.quote)) =
      levels.keys.map fun p => (p, (queueAt side p orders).map RestingOrder.toQuote) := by
  rw [List.keys, List.map_map]
  apply List.map_congr_left
  rintro ⟨p, q⟩ hl
  have hq := h.queue p
  rw [(List.mem_dlookup_iff h.nodup_keys).mpr hl, Option.getD_some] at hq
  exact congrArg (Prod.mk p) hq

/-- The levels of a side are determined by its orders. -/
theorem levels_unique (h : Arranged side levels orders) (h' : Arranged side levels' orders) :
    (levels.map fun l => (l.1, l.2.map BookEntry.quote)) =
      levels'.map fun l => (l.1, l.2.map BookEntry.quote) := by
  have hperm : levels.keys.Perm levels'.keys := by
    rw [List.perm_ext_iff_of_nodup h.nodup_keys h'.nodup_keys]
    intro p
    rw [h.mem_keys_iff, h'.mem_keys_iff]
  have hkeys : levels.keys = levels'.keys :=
    hperm.eq_of_pairwise (fun a b _ _ hab hba => absurd hba (asymm_of (better side) hab)) h.sorted
      h'.sorted
  rw [h.levels_eq, h'.levels_eq, hkeys]

end Arranged

theorem Refines.levels_eq {b b' : OrderBook} {n n' : NaiveBook} (h : Refines b n)
    (h' : Refines b' n') (horders : n.orders = n'.orders) (side : Side) :
    b.levels side = b'.levels side := by
  cases side with
  | buy =>
    have hbids := h.bids
    rw [horders] at hbids
    exact hbids.levels_unique h'.bids
  | sell =>
    have hasks := h.asks
    rw [horders] at hasks
    exact hasks.levels_unique h'.asks

structure SameBook (b b' : OrderBook) : Prop where
  symbol : b.symbol = b'.symbol
  levels : ∀ side, b.levels side = b'.levels side
  idIndex : b.idIndex = b'.idIndex
  nextExecutionId : b.nextExecutionId = b'.nextExecutionId

theorem Refines.sameBook {b b' : OrderBook} {n : NaiveBook} (h : Refines b n) (h' : Refines b' n) :
    SameBook b b' where
  symbol := h.symbol.trans h'.symbol.symm
  levels := h.levels_eq h' rfl
  idIndex := by
    apply Finmap.ext_lookup
    intro id
    rw [h.index, h'.index]
  nextExecutionId := h.next.trans h'.next.symm

def BookResult.fills : BookResult → List Fill
  | .added (.ok r) => r.fills
  | .added (.error _) | .cancelled _ | .restored _ => []

def BookOutcome.trades : BookOutcome → List Trade
  | .added (.ok r) => r.trades
  | .added (.error _) | .cancelled _ | .restored _ => []

theorem view_trades (r : BookResult) : r.view.trades = r.fills.map Fill.trade := by
  cases r with
  | added r =>
    cases r <;> rfl
  | cancelled r => rfl
  | restored r => rfl

def BookOp.untimed : BookOp → BookOp
  | .add id side type price qty _ => .add id side type price qty 0
  | .cancel id => .cancel id
  | .restore id side price qty _ => .restore id side price qty 0

theorem NaiveBook.step_untimed (n : NaiveBook) (op : BookOp) : n.step op.untimed = n.step op := by
  cases op <;> rfl

/-- Books that refine one naive book answer the same call in the same way, whatever
the clock shows during it. -/
theorem Refines.step_untimed {b b' : OrderBook} {n : NaiveBook} (h : Refines b n)
    (h' : Refines b' n) {op op' : BookOp} (hop : op.untimed = op'.untimed) :
    (b.step op).1.view = (b'.step op').1.view ∧
      Refines (b.step op).2 (n.step op).2 ∧ Refines (b'.step op').2 (n.step op).2 := by
  have hstep := h'.step op'
  rw [← n.step_untimed op', ← hop, n.step_untimed] at hstep
  exact ⟨(h.step op).1.trans hstep.1.symm, (h.step op).2, hstep.2⟩

theorem NaiveBook.run_untimed (n : NaiveBook) (ops : List BookOp) :
    Machine.run NaiveBook.step n (ops.map BookOp.untimed) = Machine.run NaiveBook.step n ops := by
  induction ops generalizing n with
  | nil => rfl
  | cons op ops ih => rw [List.map_cons, Machine.run, Machine.run, n.step_untimed, ih]

end Oems
