import Oems.PublishedBook
import Oems.SameBook

namespace Oems

open Lib

def BookOp.adds (x : ℕ) : BookOp → Prop
  | .add id .. => id = x
  | .cancel _ => False
  | .restore id .. => id = x

theorem not_better_trans {side : Side} {p q r : ℤ} (h : ¬ better side p q)
    (h' : ¬ better side q r) : ¬ better side p r := by
  cases side with
  | buy =>
    simp only [better] at *
    omega
  | sell =>
    simp only [better] at *
    omega

section Sweep

variable {t : Taker} {x : ℕ}

theorem Taker.counterparty_remove {orders : List RestingOrder} {o : RestingOrder}
    (h : t.counterparty orders = some o) (hne : o.id ≠ x) :
    t.counterparty (removeFrom x orders) = some o := by
  obtain ⟨hp, before, after, horders, hbefore⟩ := List.find?_eq_some_iff_append.mp h
  have ho : o ∈ orders := counterparty_mem h
  simp only [decide_eq_true_eq] at hp
  have hkept : o ∈ removeFrom x orders := by
    rw [removeFrom, Keyed.update_none]
    exact List.mem_filter.mpr ⟨ho, by simpa using hne⟩
  -- an order that beats a remaining one is itself beaten by `o`, or is not the removed one
  have hpred : ∀ y ∈ orders, y.id ≠ x →
      ((t.accepts y ∧ ∀ z ∈ removeFrom x orders, t.accepts z →
          ¬ better t.side.opposite z.price y.price) ↔
        (t.accepts y ∧ ∀ z ∈ orders, t.accepts z → ¬ better t.side.opposite z.price y.price)) := by
    intro y _ _
    constructor
    · rintro ⟨hy, hbest⟩
      exact ⟨hy, fun z hz hza => not_better_trans (hp.2 z hz hza) (hbest o hkept hp.1)⟩
    · rintro ⟨hy, hbest⟩
      exact ⟨hy, fun z hz hza => hbest z (Keyed.mem_update_none hz).1 hza⟩
  have hfilter : removeFrom x orders = orders.filter fun y => y.id ≠ x := Keyed.update_none x orders
  have hfind : t.counterparty (removeFrom x orders) = orders.find? fun y => decide (y.id ≠ x) &&
      decide (t.accepts y ∧ ∀ z ∈ removeFrom x orders, t.accepts z →
        ¬ better t.side.opposite z.price y.price) := by
    refine (congrArg (List.find? _) hfilter).trans ?_
    rw [List.find?_filter]
    simp only [Bool.decide_and, Bool.decide_eq_true]
  rw [hfind]
  refine List.find?_eq_some_iff_append.mpr ⟨?_, before, after, horders, ?_⟩
  · simp only [hne, ne_eq, not_false_eq_true, decide_true, Bool.true_and, decide_eq_true_eq]
    exact (hpred o ho hne).mpr hp
  · intro y hy
    have hyo : y ∈ orders := by simp [horders, hy]
    have hnot := hbefore y hy
    simp only [Bool.not_eq_true', decide_eq_false_iff_not] at hnot
    by_cases hyx : y.id = x
    · simp [hyx]
    · simp only [hyx, ne_eq, not_false_eq_true, decide_true, Bool.true_and, Bool.not_eq_true',
        decide_eq_false_iff_not]
      exact fun hc => hnot ((hpred y hyo hyx).mp hc)

theorem Taker.counterparty_remove_none {orders : List RestingOrder}
    (h : t.counterparty orders = none) (x : ℕ) : t.counterparty (removeFrom x orders) = none := by
  rw [Taker.counterparty, List.find?_eq_none]
  intro y hy hacc
  simp only [decide_eq_true_eq] at hacc
  exact Taker.not_accepts_of_counterparty h y (Keyed.mem_update_none hy).1 hacc.1

theorem fill_remove (n : NaiveBook) (x id : ℕ) (k : ℤ) :
    (n.remove x).fill id k = (n.fill id k).remove x := by
  have horders : takeFrom id k (removeFrom x n.orders) = removeFrom x (takeFrom id k n.orders) := by
    rw [removeFrom, removeFrom, Keyed.update_none, Keyed.update_none]
    refine (Keyed.filter_update ?_ n.orders).symm
    intro y z hyz
    rw [take_id hyz]
  exact congrArg (NaiveBook.mk n.symbol · (n.nextExecutionId + 1)) horders

theorem sweep_remove (remaining : ℤ) (n : NaiveBook)
    (h : ∀ trade ∈ (n.sweep t remaining).1, trade.passiveOrderId ≠ x) :
    (n.remove x).sweep t remaining = ((n.sweep t remaining).1, (n.sweep t remaining).2.1,
      (n.sweep t remaining).2.2.remove x) := by
  induction remaining, n using NaiveBook.sweep.induct t with
  | case1 remaining n hpos hnone =>
    have hn : n.sweep t remaining = ([], remaining, n) := by
      rw [NaiveBook.sweep, if_pos hpos, hnone]
    have hnone' : t.counterparty (n.remove x).orders = none :=
      Taker.counterparty_remove_none hnone x
    rw [hn, NaiveBook.sweep, if_pos hpos, hnone']
  | case2 remaining n hpos o hc k ih =>
    have hn : n.sweep t remaining =
        (⟨n.nextExecutionId, n.symbol, t.id, o.id, t.side, o.price, k⟩ ::
          ((n.fill o.id k).sweep t (remaining - k)).1, ((n.fill o.id k).sweep t (remaining - k)).2) := by
      rw [NaiveBook.sweep, if_pos hpos, hc]
    rw [hn] at h ⊢
    have hne : o.id ≠ x := h _ List.mem_cons_self
    have hc' : t.counterparty (n.remove x).orders = some o := Taker.counterparty_remove hc hne
    have hrest := ih fun trade htrade => h trade (List.mem_cons_of_mem _ htrade)
    rw [NaiveBook.sweep, if_pos hpos, hc']
    dsimp only
    rw [fill_remove]
    simp only [k] at hrest ⊢
    rw [hrest]
    rfl
  | case3 remaining n hpos =>
    have hn : n.sweep t remaining = ([], remaining, n) := by
      rw [NaiveBook.sweep, if_neg hpos]
    rw [hn, NaiveBook.sweep, if_neg hpos]

end Sweep

namespace NaiveBook

variable {n : NaiveBook} {x : ℕ}

theorem find_remove_of_ne {id : ℕ} (hid : id ≠ x) : (n.remove x).find id = n.find id :=
  Keyed.find_update_of_ne (by simp) hid

theorem find_remove_self : (n.remove x).find x = none := by
  rw [NaiveBook.find, Keyed.find_eq_none_iff]
  intro hm
  obtain ⟨y, hy, hyx⟩ := List.mem_map.mp hm
  exact (Keyed.mem_update_none hy).2 hyx

theorem remove_append (n : NaiveBook) {o : RestingOrder} (h : o.id ≠ x) :
    ({ n with orders := n.orders ++ [o] } : NaiveBook).remove x =
      { n.remove x with orders := (n.remove x).orders ++ [o] } := by
  have horders : removeFrom x (n.orders ++ [o]) = removeFrom x n.orders ++ [o] := by
    rw [removeFrom, removeFrom, Keyed.update_none, Keyed.update_none, List.filter_append]
    simp [h]
  exact congrArg (NaiveBook.mk n.symbol · n.nextExecutionId) horders

theorem remove_comm (n : NaiveBook) (x y : ℕ) : (n.remove x).remove y = (n.remove y).remove x := by
  have horders : removeFrom y (removeFrom x n.orders) = removeFrom x (removeFrom y n.orders) := by
    simp only [removeFrom, Keyed.update_none]
    exact List.filter_comm _ _ _
  exact congrArg (NaiveBook.mk n.symbol · n.nextExecutionId) horders

theorem addOrder_remove {id : ℕ} (side : Side) (type : OrderType) (price qty : ℤ) (hid : id ≠ x)
    (h : ∀ r, (n.addOrder id side type price qty).1 = .ok r →
      ∀ trade ∈ r.trades, trade.passiveOrderId ≠ x) :
    (n.remove x).addOrder id side type price qty = ((n.addOrder id side type price qty).1,
      (n.addOrder id side type price qty).2.remove x) := by
  have hfind : (n.remove x).find id = n.find id := find_remove_of_ne hid
  unfold NaiveBook.addOrder at h ⊢
  rw [hfind]
  split_ifs at h ⊢
  · rfl
  · rfl
  · rfl
  · have hsweep := sweep_remove (t := ⟨id, side, type, price⟩) (x := x) qty n
    generalize n.sweep ⟨id, side, type, price⟩ qty = w at h hsweep
    obtain ⟨trades, remaining, n'⟩ := w
    dsimp only at h hsweep ⊢
    by_cases hr : 0 < remaining ∧ type = .limit
    · simp only [dif_pos hr] at h ⊢
      rw [hsweep (h _ rfl)]
      simp only [dif_pos hr]
      rw [remove_append n' hid]
    · simp only [dif_neg hr] at h ⊢
      rw [hsweep (h _ rfl)]
      simp only [dif_neg hr]

theorem step_remove {op : BookOp} (hadd : ¬ op.adds x) (hcancel : op ≠ .cancel x)
    (ht : ∀ trade ∈ (n.step op).1.trades, trade.passiveOrderId ≠ x) :
    (n.remove x).step op = ((n.step op).1, (n.step op).2.remove x) := by
  cases op with
  | add id side type price qty now =>
    have hid : id ≠ x := hadd
    have hadd' := addOrder_remove (n := n) side type price qty hid fun r hr trade htrade =>
      ht trade (by simpa [NaiveBook.step, BookOutcome.trades, hr] using htrade)
    change (BookOutcome.added ((n.remove x).addOrder id side type price qty).1,
      ((n.remove x).addOrder id side type price qty).2) = _
    rw [hadd']
    rfl
  | cancel id =>
    have hid : id ≠ x := fun hc => hcancel (congrArg BookOp.cancel hc)
    have hfind : (n.remove x).find id = n.find id := find_remove_of_ne hid
    simp only [NaiveBook.step, NaiveBook.cancelOrder]
    rw [hfind]
    cases n.find id with
    | none => rfl
    | some o =>
      dsimp only
      rw [remove_comm]
  | restore id side price qty timestamp =>
    have hid : id ≠ x := hadd
    have hfind : (n.remove x).find id = n.find id := find_remove_of_ne hid
    simp only [NaiveBook.step, NaiveBook.restoreRestingOrder]
    rw [hfind]
    split_ifs
    · rfl
    · rfl
    · dsimp only
      rw [remove_append n hid]
    · rfl

theorem run_remove {ops : List BookOp} (hadd : ∀ op ∈ ops, ¬ op.adds x) (hcancel : .cancel x ∉ ops)
    (ht : ∀ r ∈ (Machine.run NaiveBook.step n ops).1, ∀ trade ∈ r.trades,
      trade.passiveOrderId ≠ x) :
    Machine.run NaiveBook.step (n.remove x) ops = ((Machine.run NaiveBook.step n ops).1,
      (Machine.run NaiveBook.step n ops).2.remove x) := by
  have hops : Machine.Along NaiveBook.step (fun _ op => ¬ op.adds x ∧ op ≠ .cancel x) n ops :=
    Machine.along_of_mem (fun op hop _ => ⟨hadd op hop, fun hc => hcancel (hc ▸ hop)⟩) n
  have hstep : ∀ (n n' : NaiveBook) (op : BookOp), ((¬ op.adds x ∧ op ≠ .cancel x) ∧
      ∀ trade ∈ (n.step op).1.trades, trade.passiveOrderId ≠ x) → n' = n.remove x →
        (n'.step op).1 = (n.step op).1 ∧ (n'.step op).2 = (n.step op).2.remove x := by
    rintro n _ op ⟨⟨hop, hc⟩, htrades⟩ rfl
    rw [step_remove hop hc htrades]
    exact ⟨rfl, rfl⟩
  obtain ⟨hres, hend⟩ := Machine.simulation_along (O := fun r r' => r' = r) hstep rfl
    (hops.and (Machine.along_of_outputs ht))
  refine Prod.ext ?_ hend
  rw [← List.forall₂_eq_eq_eq]
  exact hres.flip

theorem remove_append_self (n : NaiveBook) {o : RestingOrder} (h : o.id = x)
    (hnone : n.find x = none) :
    ({ n with orders := n.orders ++ [o] } : NaiveBook).remove x = n := by
  have hold : removeFrom x n.orders = n.orders :=
    Keyed.update_of_notMem (Keyed.find_eq_none_iff.mp hnone)
  have horders : removeFrom x (n.orders ++ [o]) = n.orders := by
    rw [removeFrom, Keyed.update_none] at hold ⊢
    rw [List.filter_append, hold]
    simp [h]
  exact congrArg (NaiveBook.mk n.symbol · n.nextExecutionId) horders

theorem remove_of_unfilled {side : Side} {price qty : ℤ} {resting : Option Quote}
    (h : (n.addOrder x side .limit price qty).1 = .ok ⟨[], resting⟩) :
    (n.addOrder x side .limit price qty).2.remove x = n := by
  unfold NaiveBook.addOrder at h ⊢
  split_ifs at h ⊢ with hqty hprice hfind
  have hself := sweep_eq_self (t := ⟨x, side, .limit, price⟩) qty n
  have hnone : n.find x = none := by simpa using hfind
  generalize n.sweep ⟨x, side, .limit, price⟩ qty = w at h hself
  obtain ⟨trades, remaining, n'⟩ := w
  dsimp only at h hself ⊢
  have htrades : trades = [] := by
    split_ifs at h with hr
    · simpa using congrArg Outcome.trades (Except.ok.inj h)
    · simpa using congrArg Outcome.trades (Except.ok.inj h)
  obtain ⟨rfl, rfl⟩ := Prod.mk.inj (Prod.mk.inj (hself htrades)).2
  rw [dif_pos ⟨not_le.mp hqty, rfl⟩]
  exact remove_append_self n' rfl hnone

theorem step_find_eq_none {op : BookOp} (h : n.find x = none) (hop : ¬ op.adds x) :
    (n.step op).2.find x = none := by
  have happend : ∀ (orders : List RestingOrder) (o : RestingOrder), o.id ≠ x →
      Keyed.find (fun o : RestingOrder => o.id) x orders = none →
        Keyed.find (fun o : RestingOrder => o.id) x (orders ++ [o]) = none := by
    intro orders o ho hnone
    rw [Keyed.find_append, hnone]
    simp [Keyed.find, ho]
  cases op with
  | add id side type price qty now =>
    have hid : id ≠ x := hop
    have hswept := sweep_find_eq_none (t := ⟨id, side, type, price⟩) qty h
    simp only [NaiveBook.step, NaiveBook.addOrder]
    generalize n.sweep ⟨id, side, type, price⟩ qty = w at hswept
    obtain ⟨trades, remaining, n'⟩ := w
    split_ifs
    · exact h
    · exact h
    · exact h
    · exact happend _ _ hid hswept
    · exact hswept
  | cancel id =>
    simp only [NaiveBook.step, NaiveBook.cancelOrder]
    cases n.find id with
    | none => exact h
    | some o =>
      by_cases hid : id = x
      · rw [hid]
        exact find_remove_self
      · exact (find_remove_of_ne (Ne.symm hid)).trans h
  | restore id side price qty timestamp =>
    have hid : id ≠ x := hop
    simp only [NaiveBook.step, NaiveBook.restoreRestingOrder]
    split_ifs
    · exact h
    · exact h
    · exact happend _ _ hid h
    · exact h

theorem run_find_eq_none {ops : List BookOp} (h : n.find x = none)
    (hops : ∀ op ∈ ops, ¬ op.adds x) : (Machine.run NaiveBook.step n ops).2.find x = none :=
  Machine.invariant_along (I := fun n => n.find x = none)
    (fun _ _ hop hn => step_find_eq_none hn hop) h (Machine.along_of_mem (fun op hm _ => hops op hm) n)

theorem cancel_notMem {ops : List BookOp} (hops : ∀ op ∈ ops, ¬ op.adds x)
    (h : (Machine.run NaiveBook.step n ops).2.find x ≠ none) : .cancel x ∉ ops := by
  intro hm
  obtain ⟨before, after, rfl⟩ := List.append_of_mem hm
  apply h
  rw [Machine.run_append]
  refine run_find_eq_none (n := ((Machine.run NaiveBook.step n before).2.step (.cancel x)).2) ?_
    fun op hop => hops op (by simp [hop])
  generalize (Machine.run NaiveBook.step n before).2 = n'
  simp only [NaiveBook.step, NaiveBook.cancelOrder]
  cases hf : n'.find x with
  | none => exact hf
  | some o => exact find_remove_self

end NaiveBook

/-- The naive run with an order that comes, does not trade and is cancelled, next to the run
without it. -/
theorem NaiveBook.run_without (n : NaiveBook) {x : ℕ} {before middle after : List BookOp}
    {side : Side} {price qty now : ℤ} {ob om oa : List BookOutcome} {resting : Option Quote}
    {removed : Quote}
    (hrun : (Machine.run NaiveBook.step n (before ++ .add x side .limit price qty now ::
      (middle ++ .cancel x :: after))).1 =
        ob ++ .added (.ok ⟨[], resting⟩) :: (om ++ .cancelled (.ok removed) :: oa))
    (hb : ob.length = before.length) (hm : om.length = middle.length)
    (hadd : ∀ op ∈ middle, ¬ op.adds x)
    (hpassive : ∀ o ∈ om, ∀ trade ∈ o.trades, trade.passiveOrderId ≠ x) :
    (Machine.run NaiveBook.step n (before ++ (middle ++ after))).1 = ob ++ (om ++ oa) ∧
      (Machine.run NaiveBook.step n (before ++ (middle ++ after))).2 =
        (Machine.run NaiveBook.step n (before ++ .add x side .limit price qty now ::
          (middle ++ .cancel x :: after))).2 := by
  simp only [Machine.run_append, Machine.run] at hrun ⊢
  generalize hn : (Machine.run NaiveBook.step n before).2 = n₁ at hrun ⊢
  obtain ⟨hob, hrest⟩ := List.append_inj hrun (by rw [Machine.length_run, hb])
  obtain ⟨hadded, hrest⟩ := List.cons.inj hrest
  obtain ⟨hom, hrest⟩ := List.append_inj hrest (by rw [Machine.length_run, hm])
  obtain ⟨hcancelled, hoa⟩ := List.cons.inj hrest
  have hstart : (n₁.step (.add x side .limit price qty now)).2.remove x = n₁ :=
    remove_of_unfilled (BookOutcome.added.inj hadded)
  generalize (n₁.step (.add x side .limit price qty now)).2 = n₂ at hom hcancelled hoa hstart ⊢
  have hfind : (Machine.run NaiveBook.step n₂ middle).2.find x ≠ none := by
    intro hnone
    simp [NaiveBook.step, NaiveBook.cancelOrder, hnone] at hcancelled
  have hmiddle := run_remove hadd (cancel_notMem hadd hfind) (by rwa [hom])
  rw [hstart] at hmiddle
  have hend : ((Machine.run NaiveBook.step n₂ middle).2.step (.cancel x)).2 =
      (Machine.run NaiveBook.step n₂ middle).2.remove x := by
    simp only [NaiveBook.step, NaiveBook.cancelOrder]
    cases hf : (Machine.run NaiveBook.step n₂ middle).2.find x with
    | none => exact absurd hf hfind
    | some o => rfl
  rw [hend] at hoa ⊢
  rw [hmiddle, hob, hom, hoa]
  exact ⟨rfl, rfl⟩

/-- An order that rests without a fill, is in no fill and is cancelled leaves no trace: the
run without its two calls gives the other calls the same results and ends in
the same book. -/
theorem cancelled_order_leaves_no_trace (symbol : Symbol) {x : ℕ}
    {before middle after reduced : List BookOp} {side : Side} {price qty now : ℤ}
    {rb rm ra : List BookResult} {resting : Option BookEntry} {removed : BookEntry}
    (hrun : (Machine.run OrderBook.step (OrderBook.new symbol) (before ++
      .add x side .limit price qty now :: (middle ++ .cancel x :: after))).1 =
        rb ++ .added (.ok ⟨[], resting⟩) :: (rm ++ .cancelled (.ok removed) :: ra))
    (hb : rb.length = before.length) (hm : rm.length = middle.length)
    (hadd : ∀ op ∈ middle, ¬ op.adds x)
    (hpassive : ∀ r ∈ rm, ∀ fill ∈ r.fills, fill.passiveOrderId ≠ x)
    (hreduced : reduced.map BookOp.untimed = (before ++ (middle ++ after)).map BookOp.untimed) :
    (Machine.run OrderBook.step (OrderBook.new symbol) reduced).1.map BookResult.view =
        (rb ++ (rm ++ ra)).map BookResult.view ∧
      SameBook (Machine.run OrderBook.step (OrderBook.new symbol) reduced).2
        (Machine.run OrderBook.step (OrderBook.new symbol) (before ++
          .add x side .limit price qty now :: (middle ++ .cancel x :: after))).2 := by
  have hnew := Refines.new symbol
  obtain ⟨hres, hend⟩ := hnew.run (before ++ .add x side .limit price qty now ::
    (middle ++ .cancel x :: after))
  obtain ⟨hres', hend'⟩ := hnew.run reduced
  have huntimed : Machine.run NaiveBook.step (NaiveBook.new symbol) reduced =
      Machine.run NaiveBook.step (NaiveBook.new symbol) (before ++ (middle ++ after)) := by
    rw [← NaiveBook.run_untimed, hreduced, NaiveBook.run_untimed]
  rw [hrun] at hres
  simp only [List.map_append, List.map_cons] at hres
  obtain ⟨hsame, hstate⟩ := NaiveBook.run_without (NaiveBook.new symbol) hres.symm
    (by rw [List.length_map, hb]) (by rw [List.length_map, hm]) hadd (by
      intro o ho trade htrade
      obtain ⟨r, hr, rfl⟩ := List.mem_map.mp ho
      rw [view_trades] at htrade
      obtain ⟨fill, hfill, rfl⟩ := List.mem_map.mp htrade
      exact hpassive r hr fill hfill)
  rw [huntimed] at hres' hend'
  rw [hstate] at hend'
  refine ⟨?_, hend'.sameBook hend⟩
  rw [hres', hsame, List.map_append, List.map_append]

def beforeBid : List BookOp := [.add 1 .sell .limit 101 4 0]

def duringBid : List BookOp := [.add 3 .buy .market 0 1 2]

def afterBid : List BookOp := [.add 4 .sell .limit 99 2 3]

def withoutBid : List BookOp :=
  [.add 1 .sell .limit 101 4 10, .add 3 .buy .market 0 1 20, .add 4 .sell .limit 99 2 30]

/-- A trade passes a bid, and the bid is cancelled. -/
theorem passedBid_leaves_no_trace :
    SameBook (Machine.run OrderBook.step (OrderBook.new ⟨str "AAPL"⟩) withoutBid).2
      (Machine.run OrderBook.step (OrderBook.new ⟨str "AAPL"⟩) (beforeBid ++
        .add 2 .buy .limit 100 5 1 :: (duringBid ++ .cancel 2 :: afterBid))).2 := by
  have hrun : (Machine.run OrderBook.step (OrderBook.new ⟨str "AAPL"⟩) (beforeBid ++
      .add 2 .buy .limit 100 5 1 :: (duringBid ++ .cancel 2 :: afterBid))).1 =
      [BookResult.added (.ok ⟨[], some ⟨1, .sell, 101, 4, 0⟩⟩)] ++
        BookResult.added (.ok ⟨[], some ⟨2, .buy, 100, 5, 1⟩⟩) ::
          ([BookResult.added (.ok ⟨[⟨1, ⟨str "AAPL"⟩, 3, 1, .buy, 101, 1, 2⟩], none⟩)] ++
            BookResult.cancelled (.ok ⟨2, .buy, 100, 5, 1⟩) ::
              [BookResult.added (.ok ⟨[], some ⟨4, .sell, 99, 2, 3⟩⟩)]) := rfl
  exact (cancelled_order_leaves_no_trace ⟨str "AAPL"⟩ hrun rfl rfl
    (by simp [duringBid, BookOp.adds]) (by simp [BookResult.fills])
    (by rfl : withoutBid.map BookOp.untimed =
      (beforeBid ++ (duringBid ++ afterBid)).map BookOp.untimed)).2

end Oems
