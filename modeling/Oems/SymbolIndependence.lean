import Oems.EngineRefinement
import Oems.SameBook
import Oems.Lib.Renumber
import Mathlib.Data.List.Flatten

namespace Oems

open Lib

inductive EngineOp where
  | add (symbol : Symbol) (id : ℕ) (side : Side) (type : OrderType) (price qty now : ℤ)
  | cancel (symbol : Symbol) (id : ℕ)
  | restore (order : Order)

namespace EngineOp

def symbol : EngineOp → Symbol
  | add symbol .. => symbol
  | cancel symbol _ => symbol
  | restore order => order.symbol

def untimed : EngineOp → EngineOp
  | add symbol id side type price qty _ => add symbol id side type price qty 0
  | cancel symbol id => cancel symbol id
  | restore order => restore order

theorem symbol_untimed (op : EngineOp) : op.untimed.symbol = op.symbol := by
  cases op <;> rfl

/-- What a call does to the book of its symbol, or to the lack of one, with the
execution ids that the book gives. -/
def onSlot (slot : Option OrderBook) : EngineOp → BookResult × Option OrderBook
  | add symbol id side type price qty now =>
    let r := (slot.getD (OrderBook.new symbol)).addOrder id side type price qty now
    (.added r.1, some r.2)
  | cancel _ id =>
    match slot with
    | none => (.cancelled (.error .bookNotFound), none)
    | some book => (.cancelled (book.cancelOrder id).1, some (book.cancelOrder id).2)
  | restore order =>
    if order.type ≠ .limit ∨ order.remainingQty ≤ 0 then (.restored (.ok ()), slot)
    else
      let r := (slot.getD (OrderBook.new order.symbol)).restoreRestingOrder order.internalId
        order.side order.price order.remainingQty order.createdAt
      (.restored r.1, some r.2)

end EngineOp

def MatchingEngine.step (e : MatchingEngine) : EngineOp → BookResult × MatchingEngine
  | .add symbol id side type price qty now =>
    let r := e.addOrder symbol id side type price qty now
    (.added r.1, r.2)
  | .cancel symbol id =>
    let r := e.cancelOrder symbol id
    (.cancelled r.1, r.2)
  | .restore order =>
    let r := e.restoreRestingOrder order
    (.restored r.1, r.2)

def BookResult.renumber (k : ℕ) : BookResult → BookResult
  | .added (.ok r) => .added (.ok { r with fills := MatchingEngine.renumber k r.fills })
  | .added (.error err) => .added (.error err)
  | .cancelled r => .cancelled r
  | .restored r => .restored r

/-- A call changes the slot of its symbol and the shared counter, which numbers its fills. -/
structure SlotStep (e : MatchingEngine) (op : EngineOp) (r : BookResult × Option OrderBook) :
    Prop where
  result : (e.step op).1 = r.1.renumber e.nextExecutionId
  next : (e.step op).2.nextExecutionId = e.nextExecutionId + r.1.fills.length
  slot : (e.step op).2.books.lookup op.symbol.value = r.2
  others : ∀ v, v ≠ op.symbol.value → (e.step op).2.books.lookup v = e.books.lookup v

namespace MatchingEngine

theorem setBook_self (e : MatchingEngine) (symbol : Symbol) (book : OrderBook) :
    (e.setBook symbol book).books.lookup symbol.value = some book :=
  Finmap.lookup_insert _

theorem setBook_others (e : MatchingEngine) (symbol : Symbol) (book : OrderBook) (v : Str)
    (h : v ≠ symbol.value) : (e.setBook symbol book).books.lookup v = e.books.lookup v :=
  Finmap.lookup_insert_of_ne _ h

end MatchingEngine

section SlotStep

variable {e : MatchingEngine} {op : EngineOp} {r : BookResult} {book : OrderBook}

theorem SlotStep.of_setBook (h : e.step op = (r, e.setBook op.symbol book))
    (hr : r.renumber e.nextExecutionId = r) (hf : r.fills = []) : SlotStep e op (r, some book) where
  result := by rw [h, hr]
  next := by
    rw [h, hf]
    rfl
  slot := by
    rw [h]
    exact e.setBook_self op.symbol book
  others := by
    rw [h]
    exact e.setBook_others op.symbol book

theorem SlotStep.of_same {slot : Option OrderBook} (h : e.step op = (r, e))
    (hr : r.renumber e.nextExecutionId = r) (hf : r.fills = [])
    (hslot : e.books.lookup op.symbol.value = slot) : SlotStep e op (r, slot) where
  result := by rw [h, hr]
  next := by
    rw [h, hf]
    rfl
  slot := by
    rw [h]
    exact hslot
  others := fun v _ => by rw [h]

end SlotStep

theorem MatchingEngine.slotStep (e : MatchingEngine) (op : EngineOp) :
    SlotStep e op (op.onSlot (e.books.lookup op.symbol.value)) := by
  cases op with
  | add symbol id side type price qty now =>
    have hstep : e.step (.add symbol id side type price qty now) =
        (.added (e.addOrder symbol id side type price qty now).1,
          (e.addOrder symbol id side type price qty now).2) := rfl
    have hadd := e.addOrder_eq symbol id side type price qty now
    simp only [EngineOp.symbol, EngineOp.onSlot]
    rw [MatchingEngine.bookOf] at hadd
    generalize ((e.books.lookup symbol.value).getD (OrderBook.new symbol)).addOrder id side type
      price qty now = r at hadd
    obtain ⟨res, book⟩ := r
    rw [hadd] at hstep
    cases res with
    | error err => exact SlotStep.of_setBook hstep rfl rfl
    | ok result =>
      refine ⟨congrArg Prod.fst hstep, ?_, ?_, ?_⟩
      · rw [hstep]
        rfl
      · rw [hstep]
        exact e.setBook_self symbol book
      · rw [hstep]
        exact e.setBook_others symbol book
  | cancel symbol id =>
    have hstep : e.step (.cancel symbol id) =
        (.cancelled (e.cancelOrder symbol id).1, (e.cancelOrder symbol id).2) := rfl
    unfold MatchingEngine.cancelOrder at hstep
    simp only [EngineOp.symbol, EngineOp.onSlot]
    cases hl : e.books.lookup symbol.value with
    | none =>
      rw [hl] at hstep
      exact SlotStep.of_same hstep rfl rfl hl
    | some book =>
      rw [hl] at hstep
      exact SlotStep.of_setBook hstep rfl rfl
  | restore order =>
    have hstep : e.step (.restore order) =
        (.restored (e.restoreRestingOrder order).1, (e.restoreRestingOrder order).2) := rfl
    simp only [EngineOp.symbol, EngineOp.onSlot]
    by_cases h : order.type ≠ .limit ∨ order.remainingQty ≤ 0
    · have hskip : e.restoreRestingOrder order = (.ok (), e) := by
        unfold MatchingEngine.restoreRestingOrder
        rw [if_pos h]
      rw [hskip] at hstep
      rw [if_pos h]
      exact SlotStep.of_same hstep rfl rfl rfl
    · rw [e.restoreRestingOrder_eq h _ rfl] at hstep
      rw [if_neg h]
      exact SlotStep.of_setBook hstep rfl rfl

def BookOutcome.ids (o : BookOutcome) : List ℕ := o.trades.map Trade.executionId

def BookOutcome.withTrades (ts : List Trade) : BookOutcome → BookOutcome
  | .added (.ok r) => .added (.ok { r with trades := ts })
  | .added (.error err) => .added (.error err)
  | .cancelled r => .cancelled r
  | .restored r => .restored r

def BookOutcome.mapIds (f : ℕ → ℕ) (o : BookOutcome) : BookOutcome :=
  o.withTrades (o.trades.map fun t => { t with executionId := f t.executionId })

def BookOutcome.unnumbered (o : BookOutcome) : BookOutcome := o.mapIds fun _ => 0

section Renumber

variable {f : ℕ → ℕ}

theorem trades_eq_map {ts ts' : List Trade}
    (h : (ts.map fun t => { t with executionId := 0 }) = ts'.map fun t => { t with executionId := 0 })
    (hids : ts.map Trade.executionId = (ts'.map Trade.executionId).map f) :
    ts = ts'.map fun t => { t with executionId := f t.executionId } := by
  induction ts generalizing ts' with
  | nil =>
    have hnil : ts' = [] := by simpa using h.symm
    rw [hnil]
    rfl
  | cons t ts ih =>
    cases ts' with
    | nil => simp at h
    | cons t' ts' =>
      obtain ⟨hhead, htail⟩ := List.cons.inj h
      obtain ⟨hid, hids⟩ := List.cons.inj hids
      rw [List.map_cons, ← ih htail hids]
      congr 1
      cases t
      cases t'
      cases hhead
      cases hid
      rfl

namespace BookOutcome

variable {o o' : BookOutcome}

theorem withTrades_trades (o : BookOutcome) : o.withTrades o.trades = o := by
  rcases o with (_ | _) | _ | _ <;> rfl

theorem withTrades_withTrades (o : BookOutcome) (ts ts' : List Trade) :
    (o.withTrades ts).withTrades ts' = o.withTrades ts' := by
  rcases o with (_ | _) | _ | _ <;> rfl

theorem trades_mapIds (o : BookOutcome) : (o.mapIds f).trades =
    o.trades.map fun t => { t with executionId := f t.executionId } := by
  rcases o with (_ | _) | _ | _ <;> rfl

theorem trades_of_unnumbered (h : o.unnumbered = o'.unnumbered) :
    (o.trades.map fun t => { t with executionId := 0 }) =
      o'.trades.map fun t => { t with executionId := 0 } := by
  have ht := congrArg trades h
  rw [unnumbered, unnumbered, trades_mapIds, trades_mapIds] at ht
  exact ht

theorem length_ids (h : o.unnumbered = o'.unnumbered) : o.ids.length = o'.ids.length := by
  have hlen := congrArg List.length (trades_of_unnumbered h)
  rw [List.length_map, List.length_map] at hlen
  rw [ids, ids, List.length_map, List.length_map, hlen]

theorem eq_mapIds (h : o.unnumbered = o'.unnumbered) (hids : o.ids = o'.ids.map f) :
    o = o'.mapIds f := by
  have htrades := trades_eq_map (trades_of_unnumbered h) hids
  calc o = o.unnumbered.withTrades o.trades := by
        rw [unnumbered, mapIds, withTrades_withTrades, withTrades_trades]
    _ = o'.mapIds f := by
        rw [h, unnumbered, mapIds, withTrades_withTrades, htrades, mapIds]

end BookOutcome

theorem length_flatMap_ids {os os' : List BookOutcome}
    (h : os.map BookOutcome.unnumbered = os'.map BookOutcome.unnumbered) :
    (os.flatMap BookOutcome.ids).length = (os'.flatMap BookOutcome.ids).length := by
  have hlen : ∀ l : List BookOutcome, (l.flatMap BookOutcome.ids).length =
      ((l.map BookOutcome.unnumbered).map fun o => o.trades.length).sum := by
    intro l
    rw [List.length_flatMap, List.map_map]
    congr 1
    apply List.map_congr_left
    intro o _
    simp [BookOutcome.ids, BookOutcome.unnumbered, BookOutcome.trades_mapIds]
  rw [hlen, hlen, h]

/-- Results that differ in their execution ids only, and have these in the same order, are a
renumbering of each other. -/
theorem eq_map_mapIds {os os' : List BookOutcome}
    (h : os.map BookOutcome.unnumbered = os'.map BookOutcome.unnumbered)
    (hids : os.flatMap BookOutcome.ids = (os'.flatMap BookOutcome.ids).map f) :
    os = os'.map (BookOutcome.mapIds f) := by
  induction os generalizing os' with
  | nil =>
    have hnil : os' = [] := by simpa using h.symm
    rw [hnil]
    rfl
  | cons o os ih =>
    cases os' with
    | nil => simp at h
    | cons o' os' =>
      obtain ⟨hhead, htail⟩ := List.cons.inj h
      rw [List.flatMap_cons, List.flatMap_cons, List.map_append] at hids
      obtain ⟨hid, hids⟩ := List.append_inj hids (by
        rw [List.length_map, BookOutcome.length_ids hhead])
      rw [List.map_cons, ← ih htail hids, ← BookOutcome.eq_mapIds hhead hid]

end Renumber

theorem renumberTrades_unnumbered (k : ℕ) (ts : List Trade) :
    ((renumberTrades k ts).map fun t => { t with executionId := 0 }) =
      ts.map fun t => { t with executionId := 0 } := by
  induction ts generalizing k with
  | nil => rfl
  | cons t ts ih => rw [renumberTrades, List.map_cons, List.map_cons, ih]

theorem renumberTrades_ids (k : ℕ) (ts : List Trade) :
    (renumberTrades k ts).map Trade.executionId = List.range' k ts.length := by
  induction ts generalizing k with
  | nil => rfl
  | cons t ts ih => rw [renumberTrades, List.map_cons, ih, List.length_cons, List.range'_succ]

theorem renumber_view (k : ℕ) (r : BookResult) :
    (r.renumber k).view = r.view.withTrades (renumberTrades k r.view.trades) := by
  cases r with
  | added r =>
    cases r with
    | error err => rfl
    | ok r =>
      have htrade := renumber_trade k r.fills
      simp only [BookResult.renumber, BookResult.view, Except.map, AddOrderResult.view, htrade]
      rfl
  | cancelled r => rfl
  | restored r => rfl

theorem trades_renumber (k : ℕ) (r : BookResult) :
    (r.renumber k).view.trades = renumberTrades k r.view.trades := by
  rw [renumber_view]
  rcases r.view with (_ | _) | _ | _ <;> rfl

theorem renumber_unnumbered (k : ℕ) (r : BookResult) :
    (r.renumber k).view.unnumbered = r.view.unnumbered := by
  rw [BookOutcome.unnumbered, BookOutcome.mapIds, trades_renumber, renumberTrades_unnumbered,
    renumber_view, BookOutcome.withTrades_withTrades]
  rfl

theorem renumber_ids (k : ℕ) (r : BookResult) :
    (r.renumber k).view.ids = List.range' k r.fills.length := by
  rw [BookOutcome.ids, trades_renumber, renumberTrades_ids, view_trades, List.length_map]

theorem MatchingEngine.run_ids (e : MatchingEngine) (ops : List EngineOp) :
    ∃ k, (Machine.run MatchingEngine.step e ops).1.flatMap (fun r => r.view.ids) =
      List.range' e.nextExecutionId k := by
  induction ops generalizing e with
  | nil => exact ⟨0, rfl⟩
  | cons op ops ih =>
    have hs := e.slotStep op
    generalize op.onSlot (e.books.lookup op.symbol.value) = r at hs
    obtain ⟨k, hk⟩ := ih (e.step op).2
    refine ⟨r.1.fills.length + k, ?_⟩
    rw [Machine.run, List.flatMap_cons, hk, hs.result, hs.next, renumber_ids, List.range'_append_1]

/-- The books in two slots refine one naive book, or both slots are empty. -/
def SlotTwin : Option OrderBook → Option OrderBook → Prop :=
  Option.Rel fun b b' => ∃ n, Refines b n ∧ Refines b' n

theorem SlotTwin.getD {slot slot' : Option OrderBook} (h : SlotTwin slot slot') (symbol : Symbol) :
    ∃ n, Refines (slot.getD (OrderBook.new symbol)) n ∧
      Refines (slot'.getD (OrderBook.new symbol)) n := by
  cases h with
  | some h => exact h
  | none => exact ⟨_, Refines.new symbol, Refines.new symbol⟩

theorem Refines.slotTwin {b b' : OrderBook} {n : NaiveBook} (h : Refines b n) (h' : Refines b' n)
    {op op' : BookOp} (hop : op.untimed = op'.untimed) :
    (b.step op).1.view = (b'.step op').1.view ∧
      SlotTwin (some (b.step op).2) (some (b'.step op').2) := by
  obtain ⟨hview, hend, hend'⟩ := h.step_untimed h' hop
  exact ⟨hview, Option.Rel.some ⟨_, hend, hend'⟩⟩

theorem SlotTwin.onSlot {slot slot' : Option OrderBook} (h : SlotTwin slot slot') {op op' : EngineOp}
    (hop : op.untimed = op'.untimed) :
    (op.onSlot slot).1.view = (op'.onSlot slot').1.view ∧
      SlotTwin (op.onSlot slot).2 (op'.onSlot slot').2 := by
  cases op with
  | add symbol id side type price qty now =>
    cases op' with
    | add symbol' id' side' type' price' qty' now' =>
      simp only [EngineOp.untimed, EngineOp.add.injEq, and_true] at hop
      obtain ⟨rfl, rfl, rfl, rfl, rfl, rfl⟩ := hop
      obtain ⟨n, hb, hb'⟩ := h.getD symbol
      have huntimed : (BookOp.add id side type price qty now).untimed =
          (BookOp.add id side type price qty now').untimed := rfl
      exact hb.slotTwin hb' huntimed
    | cancel _ _ => simp [EngineOp.untimed] at hop
    | restore _ => simp [EngineOp.untimed] at hop
  | cancel symbol id =>
    cases op' with
    | add _ _ _ _ _ _ _ => simp [EngineOp.untimed] at hop
    | cancel symbol' id' =>
      simp only [EngineOp.untimed, EngineOp.cancel.injEq] at hop
      obtain ⟨rfl, rfl⟩ := hop
      cases h with
      | none => exact ⟨rfl, Option.Rel.none⟩
      | some h =>
        obtain ⟨n, hb, hb'⟩ := h
        have huntimed : (BookOp.cancel id).untimed = (BookOp.cancel id).untimed := rfl
        exact hb.slotTwin hb' huntimed
    | restore _ => simp [EngineOp.untimed] at hop
  | restore order =>
    cases op' with
    | add _ _ _ _ _ _ _ => simp [EngineOp.untimed] at hop
    | cancel _ _ => simp [EngineOp.untimed] at hop
    | restore order' =>
      simp only [EngineOp.untimed, EngineOp.restore.injEq] at hop
      subst hop
      simp only [EngineOp.onSlot]
      split_ifs
      · exact ⟨rfl, h⟩
      · obtain ⟨n, hb, hb'⟩ := h.getD order.symbol
        have huntimed : ∀ op : BookOp, op.untimed = op.untimed := fun _ => rfl
        exact hb.slotTwin hb' (huntimed (.restore order.internalId order.side order.price
          order.remainingQty order.createdAt))

theorem SlotTwin.skip {e e' : MatchingEngine} {s : Symbol} {op : EngineOp} (hop : ¬ op.symbol = s)
    (h : SlotTwin (e.books.lookup s.value) (e'.books.lookup s.value)) :
    SlotTwin ((e.step op).2.books.lookup s.value) (e'.books.lookup s.value) := by
  have hne : s.value ≠ op.symbol.value := fun hv => hop (congrArg Symbol.mk hv.symm)
  rw [(e.slotStep op).others s.value hne]
  exact h

theorem SlotTwin.step {e e' : MatchingEngine} {s : Symbol} {op op' : EngineOp} (hs : op.symbol = s)
    (hop : op.untimed = op'.untimed)
    (h : SlotTwin (e.books.lookup s.value) (e'.books.lookup s.value)) :
    (e.step op).1.view.unnumbered = (e'.step op').1.view.unnumbered ∧
      SlotTwin ((e.step op).2.books.lookup s.value) ((e'.step op').2.books.lookup s.value) := by
  have hs' : op'.symbol = s := by
    rw [← hs, ← op'.symbol_untimed, ← hop, op.symbol_untimed]
  have hstep := e.slotStep op
  have hstep' := e'.slotStep op'
  have hslot := hstep.slot
  have hslot' := hstep'.slot
  obtain ⟨hview, hend⟩ := h.onSlot hop
  rw [hs] at hslot
  rw [hs'] at hslot'
  rw [hstep.result, hstep'.result, renumber_unnumbered, renumber_unnumbered, hslot, hslot', hs, hs',
    hview]
  exact ⟨rfl, hend⟩

/-- The slot of a symbol has a twin in the run of the calls on the symbol alone. -/
theorem SlotTwin.run {e e' : MatchingEngine} (s : Symbol)
    (h : SlotTwin (e.books.lookup s.value) (e'.books.lookup s.value)) {ops alone : List EngineOp}
    (halone : alone.map EngineOp.untimed = (ops.filter fun op => op.symbol = s).map EngineOp.untimed) :
    (Machine.outputsOf (fun op => op.symbol = s) ops (Machine.run MatchingEngine.step e ops).1).map
        (fun r => r.view.unnumbered) =
      (Machine.run MatchingEngine.step e' alone).1.map (fun r => r.view.unnumbered) ∧
    SlotTwin ((Machine.run MatchingEngine.step e ops).2.books.lookup s.value)
      ((Machine.run MatchingEngine.step e' alone).2.books.lookup s.value) := by
  have hcalls : List.Forall₂ (fun op op' => op.untimed = op'.untimed)
      (ops.filter fun op => op.symbol = s) alone := by
    have hsame : List.Forall₂ Eq ((ops.filter fun op => op.symbol = s).map EngineOp.untimed)
        (alone.map EngineOp.untimed) := by
      rw [halone, List.forall₂_eq_eq_eq]
    rw [List.forall₂_map_left_iff, List.forall₂_map_right_iff] at hsame
    exact hsame
  obtain ⟨hres, hend⟩ := Machine.projection
    (R := fun e e' : MatchingEngine => SlotTwin (e.books.lookup s.value) (e'.books.lookup s.value))
    (C := fun op op' : EngineOp => op.untimed = op'.untimed)
    (O := fun r r' : BookResult => r.view.unnumbered = r'.view.unnumbered)
    (fun _ _ _ => SlotTwin.skip) (fun _ _ _ _ => SlotTwin.step) h hcalls
  refine ⟨?_, hend⟩
  rw [← List.forall₂_eq_eq_eq, List.forall₂_map_left_iff, List.forall₂_map_right_iff]
  exact hres

theorem SlotTwin.sameBook {slot slot' : Option OrderBook} (h : SlotTwin slot slot') :
    Option.Rel SameBook slot slot' := by
  cases h with
  | none => exact Option.Rel.none
  | some h =>
    obtain ⟨_, hb, hb'⟩ := h
    exact Option.Rel.some (hb.sameBook hb')

theorem view_ids (r : BookResult) : r.view.ids = r.fills.map Fill.executionId := by
  rw [BookOutcome.ids, view_trades, List.map_map]
  rfl

theorem MatchingEngine.ids_increasing (ops : List EngineOp) :
    ((Machine.run MatchingEngine.step MatchingEngine.new ops).1.flatMap
      fun r => r.view.ids).Pairwise (· < ·) := by
  obtain ⟨k, hk⟩ := MatchingEngine.new.run_ids ops
  rw [hk]
  exact List.pairwise_lt_range'

/-- The calls on one symbol have the results that they have without the other calls, up to a
renumbering of the executions that keeps their order, and leave the same book, if
any. The executions of a run are numbered in increasing order over all symbols. -/
theorem symbols_independent (s : Symbol) {ops alone : List EngineOp}
    (halone : alone.map EngineOp.untimed = (ops.filter fun op => op.symbol = s).map EngineOp.untimed) :
    let whole := Machine.run MatchingEngine.step MatchingEngine.new ops
    let own := Machine.run MatchingEngine.step MatchingEngine.new alone
    (∃ f : ℕ → ℕ,
      StrictMonoOn f {id | id ∈ own.1.flatMap fun r => r.fills.map Fill.executionId} ∧
        (Machine.outputsOf (fun op => op.symbol = s) ops whole.1).map BookResult.view =
          own.1.map fun r => r.view.mapIds f) ∧
      Option.Rel SameBook (whole.2.books.lookup s.value) (own.2.books.lookup s.value) ∧
      (whole.1.flatMap fun r => r.fills.map Fill.executionId).Pairwise (· < ·) := by
  intro whole own
  have hempty : SlotTwin (MatchingEngine.new.books.lookup s.value)
      (MatchingEngine.new.books.lookup s.value) := Option.Rel.none
  obtain ⟨hres, hend⟩ := hempty.run s halone
  have hwhole := MatchingEngine.ids_increasing ops
  have hown := MatchingEngine.ids_increasing alone
  have hpart := Machine.outputsOf_sublist (fun op : EngineOp => op.symbol = s)
    (Machine.length_run MatchingEngine.step MatchingEngine.new ops)
  have hres' : ((Machine.outputsOf (fun op => op.symbol = s) ops whole.1).map
      BookResult.view).map BookOutcome.unnumbered =
        (own.1.map BookResult.view).map BookOutcome.unnumbered := by
    rw [List.map_map, List.map_map]
    exact hres
  have hlen := length_flatMap_ids hres'
  rw [List.flatMap_map, List.flatMap_map] at hlen
  obtain ⟨f, hf, hmap⟩ := exists_strictMonoOn_map hown
    (hwhole.sublist (hpart.flatMap fun r => r.view.ids)) hlen.symm
  simp only [view_ids] at hwhole hf
  refine ⟨⟨f, hf, ?_⟩, hend.sameBook, hwhole⟩
  have hall := eq_map_mapIds hres' (f := f) (by
    rw [List.flatMap_map, List.flatMap_map]
    exact hmap.symm)
  rw [hall, List.map_map]
  rfl

def twoSymbols : List EngineOp :=
  [.add ⟨str "AAPL"⟩ 1 .sell .limit 100 5 0, .add ⟨str "MSFT"⟩ 2 .sell .limit 50 5 1,
    .add ⟨str "MSFT"⟩ 3 .buy .limit 50 2 2, .add ⟨str "AAPL"⟩ 4 .buy .limit 100 3 3]

def oneSymbol : List EngineOp :=
  [.add ⟨str "AAPL"⟩ 1 .sell .limit 100 5 10, .add ⟨str "AAPL"⟩ 4 .buy .limit 100 3 11]

theorem twoSymbols_independent :
    Option.Rel SameBook
        ((Machine.run MatchingEngine.step MatchingEngine.new twoSymbols).2.books.lookup (str "AAPL"))
        ((Machine.run MatchingEngine.step MatchingEngine.new oneSymbol).2.books.lookup
          (str "AAPL")) ∧
      ((Machine.run MatchingEngine.step MatchingEngine.new twoSymbols).1.flatMap
        fun r => r.fills.map Fill.executionId).Pairwise (· < ·) :=
  (symbols_independent ⟨str "AAPL"⟩ (by rfl : oneSymbol.map EngineOp.untimed =
    (twoSymbols.filter fun op => op.symbol = ⟨str "AAPL"⟩).map EngineOp.untimed)).2

end Oems
