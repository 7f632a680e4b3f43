import Oems.RunInvariants

namespace Oems

open Lib OrderManager

theorem cancelIn_find {side : Side} {m m' : BookSide side} {price : ℤ} {id : ℕ} {removed : BookEntry}
    (h : OrderBook.cancelIn m price id = .ok (removed, m')) :
    (removed ∈ (m.find price).getD [] ∧ removed.orderId = id) ∧
      (m'.find price).getD [] = ((m.find price).getD []).eraseP (fun e => e.orderId = id) ∧
      ∀ p, p ≠ price → m'.find p = m.find p := by
  unfold OrderBook.cancelIn at h
  cases hl : m.find price with
  | none => simp [hl] at h
  | some level =>
    cases hf : level.find? fun e => e.orderId = id with
    | none => simp [hl, hf] at h
    | some x =>
      simp only [hl, hf, Except.ok.injEq, Prod.mk.injEq] at h
      obtain ⟨rfl, rfl⟩ := h
      refine ⟨⟨List.mem_of_find?_eq_some hf, by simpa using List.find?_some hf⟩, ?_, fun p hp => ?_⟩
      · split_ifs with hnil
        · rw [OrdMap.find_erase, Option.getD_some, hnil]
          rfl
        · rw [OrdMap.find_insert]
          rfl
      · split_ifs
        · exact OrdMap.find_erase_of_ne _ hp
        · exact OrdMap.find_insert_of_ne _ _ hp

section

variable {b b' : OrderBook} {n : NaiveBook} {id : ℕ} {entry : BookEntry}

theorem Refines.lookup_of_mem (h : Refines b n) {side : Side} {p : ℤ} {e : BookEntry}
    (he : e ∈ b.queue side p) : b.idIndex.lookup e.orderId = some ⟨side, p⟩ := by
  have hq : e.quote ∈ (b.queue side p).map BookEntry.quote := List.mem_map_of_mem he
  rw [h.queue side p] at hq
  obtain ⟨r, hr, hquote⟩ := List.mem_map.mp hq
  obtain ⟨hmem, hside, hprice⟩ := mem_queueAt.mp hr
  have hid : r.id = e.orderId := congrArg Quote.id hquote
  have hfind := Keyed.find_of_mem h.unique hmem
  rw [hid] at hfind
  rw [h.index, hfind, Option.map_some, hside, hprice]

theorem Refines.erase_other (h : Refines b n) {side : Side} {p : ℤ}
    (hl : b.idIndex.lookup id ≠ some ⟨side, p⟩) :
    (b.queue side p).eraseP (fun e => e.orderId = id) = b.queue side p := by
  apply List.eraseP_of_forall_not
  intro e he hid
  have hid : e.orderId = id := by simpa using hid
  rw [← hid] at hl
  exact hl (h.lookup_of_mem he)

theorem Refines.cancelOrder_queue (h : Refines b n) (hc : b.cancelOrder id = (.ok entry, b')) :
    (∃ side p, entry ∈ b.queue side p ∧ entry.orderId = id) ∧
      ∀ side p, b'.queue side p = (b.queue side p).eraseP fun e => e.orderId = id := by
  have hother := fun side p => @Refines.erase_other b n id h side p
  unfold OrderBook.cancelOrder at hc
  cases hl : b.idIndex.lookup id with
  | none => simp [hl] at hc
  | some i =>
    rw [hl] at hc hother
    obtain ⟨side, price⟩ := i
    cases side with
    | buy =>
      cases hin : OrderBook.cancelIn b.bids price id with
      | error err => simp [hin] at hc
      | ok r =>
        obtain ⟨removed, bids⟩ := r
        simp only [hin, Prod.mk.injEq, Except.ok.injEq] at hc
        obtain ⟨rfl, rfl⟩ := hc
        obtain ⟨hmem, hself, hrest⟩ := cancelIn_find hin
        refine ⟨⟨.buy, price, hmem⟩, fun side p => ?_⟩
        cases side with
        | sell => exact (hother .sell p (by simp)).symm
        | buy =>
          by_cases hp : p = price
          · rw [hp]
            exact hself
          · rw [hother .buy p (by simp [Ne.symm hp])]
            exact congrArg (fun q => q.getD []) (hrest p hp)
    | sell =>
      cases hin : OrderBook.cancelIn b.asks price id with
      | error err => simp [hin] at hc
      | ok r =>
        obtain ⟨removed, asks⟩ := r
        simp only [hin, Prod.mk.injEq, Except.ok.injEq] at hc
        obtain ⟨rfl, rfl⟩ := hc
        obtain ⟨hmem, hself, hrest⟩ := cancelIn_find hin
        refine ⟨⟨.sell, price, hmem⟩, fun side p => ?_⟩
        cases side with
        | buy => exact (hother .buy p (by simp)).symm
        | sell =>
          by_cases hp : p = price
          · rw [hp]
            exact hself
          · rw [hother .sell p (by simp [Ne.symm hp])]
            exact congrArg (fun q => q.getD []) (hrest p hp)

end

theorem EngineRefines.cancelOrder_queue {e e' : MatchingEngine}
    {live : Symbol → List RestingOrder} (h : EngineRefines e live) {symbol : Symbol} {id : ℕ}
    {entry : BookEntry} (hc : e.cancelOrder symbol id = (.ok entry, e')) :
    ((∃ side p, entry ∈ (e.bookOf symbol).queue side p ∧ entry.orderId = id) ∧
      ∀ side p, (e'.bookOf symbol).queue side p =
        ((e.bookOf symbol).queue side p).eraseP fun e => e.orderId = id) ∧
      ∀ s, s ≠ symbol → e'.bookOf s = e.bookOf s := by
  obtain ⟨k, hb⟩ := h symbol
  unfold MatchingEngine.cancelOrder at hc
  cases hl : e.books.lookup symbol.value with
  | none => simp [hl] at hc
  | some book =>
    have hbook : e.bookOf symbol = book := by
      rw [MatchingEngine.bookOf, hl, Option.getD_some]
    simp only [hl, Prod.mk.injEq] at hc
    obtain ⟨hok, rfl⟩ := hc
    rw [hbook] at hb ⊢
    constructor
    · rw [MatchingEngine.bookOf_setBook_self]
      exact hb.cancelOrder_queue (Prod.ext hok rfl)
    · exact fun s hs => MatchingEngine.bookOf_setBook_of_ne _ _ hs

/-- A cancel succeeds on every order that is still open. Success takes that
order out of its book and changes nothing else, and an error changes nothing. -/
structure CancelExact (m : OrderManager) (id : ℕ) : Prop where
  succeeds : ∀ o, m.orders.lookup id = some o →
    ¬ (o.status = .filled ∨ o.status = .cancelled ∨ o.status = .rejected) →
      ∃ o', (m.cancelOrder ⟨id⟩).1 = .ok o'
  exact : ∀ o' m', m.cancelOrder ⟨id⟩ = (.ok o', m') → ∃ o now, m.orders.lookup id = some o ∧
    o' = cancelledOrder o now ∧ m'.orders = m.orders.insert id o' ∧
    m'.executions = m.executions ∧
    (∃ side p, ∃ entry ∈ (m.engine.bookOf o.symbol).queue side p, entry.orderId = id) ∧
    (∀ side p, (m'.engine.bookOf o.symbol).queue side p =
      ((m.engine.bookOf o.symbol).queue side p).eraseP fun e => e.orderId = id) ∧
    ∀ s, s ≠ o.symbol → m'.engine.bookOf s = m.engine.bookOf s
  atomic : ∀ err m', m.cancelOrder ⟨id⟩ = (.error err, m') → m'.orders = m.orders ∧
    m'.events = m.events ∧ m'.executions = m.executions ∧ m'.engine = m.engine ∧ m'.db = m.db

/-- A market order that was filled in part: it is open, and in no book. -/
def PartlyFilledMarket (m : OrderManager) (id : ℕ) : Prop :=
  ∃ o, m.orders.lookup id = some o ∧ o.type = .market ∧ o.status = .partiallyFilled

theorem Kept.market_live {o : Order} (h : Kept o) (ht : o.type = .market) (hs : o.status.live) :
    o.status = .partiallyFilled := by
  obtain hs | hs := hs
  · have hlimit := h.accepted_limit hs
    simp [ht] at hlimit
  · exact hs

theorem CancelExact.of_unchanged {m : OrderManager} {id : ℕ} {err : OemsError}
    (hs : ∀ o, m.orders.lookup id = some o →
      o.status = .filled ∨ o.status = .cancelled ∨ o.status = .rejected)
    (hc : m.cancelOrder ⟨id⟩ = (.error err, m)) : CancelExact m id where
  succeeds := fun o ho hopen => absurd (hs o ho) hopen
  exact := fun o' m' ho => by simp [hc] at ho
  atomic := fun err' m' herr => by
    rw [hc] at herr
    cases herr
    exact ⟨rfl, rfl, rfl, rfl, rfl⟩

theorem Agrees.cancelExact_iff {m : OrderManager} (h : Agrees m) (id : ℕ) :
    CancelExact m id ↔ ¬ PartlyFilledMarket m id := by
  have hstep := h.cancelStep ⟨id⟩
  generalize hr : m.cancelOrder ⟨id⟩ = r at hstep
  cases hstep with
  | unknown hl =>
    constructor
    · rintro _ ⟨o, ho, _⟩
      simp [hl] at ho
    · intro _
      exact CancelExact.of_unchanged (fun o ho => by simp [hl] at ho) hr
  | closed order hl hs =>
    constructor
    · rintro _ ⟨o, ho, _, hp⟩
      obtain rfl : order = o := Option.some.inj (hl.symm.trans ho)
      exact hs (Or.inr hp)
    · intro _
      refine CancelExact.of_unchanged (fun o ho => ?_) hr
      obtain rfl : order = o := Option.some.inj (hl.symm.trans ho)
      exact (h.kept _ _ hl).closed_iff.mpr hs
  | notResting order err hl hs ht he =>
    have hp := (h.kept _ _ hl).market_live ht hs
    constructor
    · intro hexact
      obtain ⟨o', ho'⟩ := hexact.succeeds order hl (by simp [hp])
      simp [hr] at ho'
    · intro hno
      exact absurd ⟨order, hl, ht, hp⟩ hno
  | done order engine hl hid hs ht hc hn he =>
    obtain ⟨entry, hc⟩ := hc
    obtain ⟨⟨⟨side, p, hmem⟩, hqueue⟩, hbooks⟩ := h.engine.cancelOrder_queue hc
    constructor
    · rintro _ ⟨o, ho, hmarket, _⟩
      obtain rfl : order = o := Option.some.inj (hl.symm.trans ho)
      simp [ht] at hmarket
    · intro _
      refine ⟨fun o ho _ => ⟨_, congrArg Prod.fst hr⟩, fun o' m' ho' => ?_, fun err m' herr => ?_⟩
      · rw [hr] at ho'
        cases ho'
        dsimp only at hid
        subst hid
        exact ⟨order, _, hl, rfl, rfl, rfl, ⟨side, p, entry, hmem⟩, hqueue, hbooks⟩
      · simp [hr] at herr

/-- In a reachable state a cancel is exact and atomic for an id unless the id is
that of a market order that was filled in part. -/
theorem cancelOrder_exact_iff (risk : RiskManager) (db : Option Database) (clock : ℕ → ℤ)
    (ops : List Op) (id : ℕ) :
    CancelExact ((OrderManager.new risk MatchingEngine.new db clock).run ops) id ↔
      ¬ PartlyFilledMarket ((OrderManager.new risk MatchingEngine.new db clock).run ops) id :=
  ((Agrees.new risk db clock).run ops).cancelExact_iff id

def partlyFilledRun : List Op :=
  [.submit (RiskCheck.at 0) ⟨str "maker", ⟨str "AAPL"⟩, .sell, .limit, 100, 5⟩,
    .submit (RiskCheck.at 0) ⟨str "taker", ⟨str "AAPL"⟩, .buy, .market, 0, 10⟩]

/-- The market order is open, and its cancel fails after it was logged. -/
theorem partlyFilledRun_not_exact : ¬ CancelExact ((OrderManager.new
    (RiskManager.new RiskLimits.default) MatchingEngine.new none fun _ => 0).run partlyFilledRun) 2 := by
  intro h
  obtain ⟨o', ho'⟩ := h.succeeds ⟨2, str "taker", ⟨str "AAPL"⟩, .buy, .market, 0, 10, 5, 5,
    .partiallyFilled, 0, 0⟩ (by decide) (by decide)
  have herr : (((OrderManager.new (RiskManager.new RiskLimits.default) MatchingEngine.new none
      fun _ => 0).run partlyFilledRun).cancelOrder ⟨2⟩).1 = .error .orderNotFound := rfl
  rw [herr] at ho'
  cases ho'

end Oems
