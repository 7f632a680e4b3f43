import Oems.OrderManager
import Oems.BookLevels

namespace Oems

open Lib

structure Kept (o : Order) : Prop where
  ledger : o.orderQty = o.filledQty + o.remainingQty
  filled_nonneg : 0 ≤ o.filledQty
  remaining_nonneg : 0 ≤ o.remainingQty
  settled : o.status ≠ .pendingNew ∧ o.status ≠ .pendingCancel
  filled_iff : o.status = .filled ↔ o.remainingQty = 0
  partly : o.status = .partiallyFilled → 0 < o.filledQty
  untouched : o.status = .accepted ∨ o.status = .rejected → o.filledQty = 0
  accepted_limit : o.status = .accepted → o.type = .limit
  price_pos : o.type = .limit → 0 < o.price

/-- The statuses from which an order can still trade. -/
def OrderStatus.live (status : OrderStatus) : Prop :=
  status = .accepted ∨ status = .partiallyFilled

theorem Kept.remaining_pos {o : Order} (h : Kept o) (hl : o.status.live) : 0 < o.remainingQty := by
  have hn := h.remaining_nonneg
  have hne : o.remainingQty ≠ 0 := by
    intro hz
    have hf := h.filled_iff.mpr hz
    rcases hl with hl | hl <;> simp [hl] at hf
  omega

instance (status : OrderStatus) : Decidable status.live :=
  inferInstanceAs (Decidable (_ ∨ _))

/-- The place of an order in the book of a symbol, if it has one. -/
def restingOf (symbol : Symbol) (o : Order) : Option RestingOrder :=
  if h : o.symbol = symbol ∧ o.type = .limit ∧ o.status.live ∧ 0 < o.remainingQty then
    some ⟨⟨o.internalId, o.side, o.price, o.remainingQty⟩, h.2.2.2⟩
  else none

theorem restingOf_eq_some_iff {symbol : Symbol} {o : Order} {r : RestingOrder} :
    restingOf symbol o = some r ↔
      (o.symbol = symbol ∧ o.type = .limit ∧ o.status.live) ∧
        r.toQuote = ⟨o.internalId, o.side, o.price, o.remainingQty⟩ := by
  obtain ⟨q, hq⟩ := r
  unfold restingOf
  constructor
  · intro h
    split_ifs at h with hc
    cases h
    exact ⟨⟨hc.1, hc.2.1, hc.2.2.1⟩, rfl⟩
  · rintro ⟨⟨hs, ht, hl⟩, hr⟩
    dsimp only at hr
    subst hr
    rw [dif_pos ⟨hs, ht, hl, hq⟩]

theorem restingOf_eq_none {symbol : Symbol} {o : Order}
    (h : ¬ (o.symbol = symbol ∧ o.type = .limit ∧ o.status.live)) : restingOf symbol o = none :=
  dif_neg fun hc => h ⟨hc.1, hc.2.1, hc.2.2.1⟩

theorem forall_lookup_insert {P : ℕ → Order → Prop} {orders : OrderMap}
    (h : ∀ id o, orders.lookup id = some o → P id o) {id : ℕ} {o : Order} (ho : P id o) :
    ∀ id' x, (orders.insert id o).lookup id' = some x → P id' x := by
  intro id' x hx
  by_cases he : id' = id
  · subst he
    rw [Finmap.lookup_insert] at hx
    cases hx
    exact ho
  · rw [Finmap.lookup_insert_of_ne _ he] at hx
    exact h id' x hx

theorem exists_lookup_insert {R : Order → Order → Prop} (hrefl : ∀ o, R o o) {orders : OrderMap}
    {id : ℕ} {o' : Order} (h : ∀ o, orders.lookup id = some o → R o o') :
    ∀ id' x, orders.lookup id' = some x →
      ∃ x', (orders.insert id o').lookup id' = some x' ∧ R x x' := by
  intro id' x hx
  by_cases he : id' = id
  · subst he
    exact ⟨o', Finmap.lookup_insert _, h x hx⟩
  · exact ⟨x, by rw [Finmap.lookup_insert_of_ne _ he, hx], hrefl x⟩

theorem insert_of_lookup {orders : OrderMap} {id : ℕ} {o : Order}
    (h : orders.lookup id = some o) : orders.insert id o = orders := by
  apply Finmap.ext_lookup
  intro id'
  by_cases he : id' = id
  · rw [he, Finmap.lookup_insert, h]
  · rw [Finmap.lookup_insert_of_ne _ he]

/-- Each order is filed under its own id, and the ids are below the next one. -/
def Filed (orders : OrderMap) (bound : ℕ) : Prop :=
  ∀ id o, orders.lookup id = some o → o.internalId = id ∧ id < bound

/-- The live orders of a symbol by ascending id. -/
def liveOrders (orders : OrderMap) (bound : ℕ) (symbol : Symbol) : List RestingOrder :=
  (List.range bound).filterMap fun id => (orders.lookup id).bind (restingOf symbol)

section

variable {orders orders' : OrderMap} {bound : ℕ} {symbol : Symbol} {id : ℕ} {o o' : Order}

theorem mem_liveOrders (h : Filed orders bound) {r : RestingOrder} :
    r ∈ liveOrders orders bound symbol ↔
      ∃ o, orders.lookup r.id = some o ∧ restingOf symbol o = some r := by
  constructor
  · intro hr
    obtain ⟨id, _, hid⟩ := List.mem_filterMap.mp hr
    obtain ⟨o, ho, hres⟩ := Option.bind_eq_some_iff.mp hid
    have hq := (restingOf_eq_some_iff.mp hres).2
    have hid : r.id = id := (congrArg Quote.id hq).trans (h id o ho).1
    exact ⟨o, hid ▸ ho, hres⟩
  · rintro ⟨o, ho, hres⟩
    refine List.mem_filterMap.mpr ⟨r.id, List.mem_range.mpr (h _ o ho).2, ?_⟩
    rw [ho, Option.bind_some, hres]

theorem find_liveOrders (h : Filed orders bound) (id : ℕ) :
    Keyed.find (fun r : RestingOrder => r.id) id (liveOrders orders bound symbol) =
      (orders.lookup id).bind (restingOf symbol) := by
  cases hf : Keyed.find (fun r : RestingOrder => r.id) id (liveOrders orders bound symbol) with
  | some r =>
    obtain ⟨hr, hid⟩ := Keyed.mem_of_find hf
    obtain ⟨o, ho, hres⟩ := (mem_liveOrders h).mp hr
    rw [← hid, ho, Option.bind_some, hres]
  | none =>
    cases hb : (orders.lookup id).bind (restingOf symbol) with
    | none => rfl
    | some r =>
      exfalso
      obtain ⟨o, ho, hres⟩ := Option.bind_eq_some_iff.mp hb
      have hid : r.id = id :=
        (congrArg Quote.id (restingOf_eq_some_iff.mp hres).2).trans (h _ _ ho).1
      have hr : r ∈ liveOrders orders bound symbol := (mem_liveOrders h).mpr ⟨o, hid ▸ ho, hres⟩
      exact Keyed.find_eq_none_iff.mp hf (hid ▸ List.mem_map_of_mem hr)

theorem liveOrders_succ (orders : OrderMap) (bound : ℕ) (symbol : Symbol) :
    liveOrders orders (bound + 1) symbol =
      liveOrders orders bound symbol ++ ((orders.lookup bound).bind (restingOf symbol)).toList := by
  rw [liveOrders, List.range_succ, List.filterMap_append]
  rfl

theorem liveOrders_congr
    (h : ∀ id < bound, (orders'.lookup id).bind (restingOf symbol) =
      (orders.lookup id).bind (restingOf symbol)) :
    liveOrders orders' bound symbol = liveOrders orders bound symbol :=
  List.filterMap_congr fun id hid => h id (List.mem_range.mp hid)

theorem liveOrders_insert_new (o : Order) :
    liveOrders (orders.insert bound o) bound symbol = liveOrders orders bound symbol := by
  apply liveOrders_congr
  intro id hid
  rw [Finmap.lookup_insert_of_ne _ (by omega)]

theorem liveOrders_insert (h : Filed orders bound) (ho : orders.lookup id = some o)
    (f : RestingOrder → Option RestingOrder)
    (hf : restingOf symbol o' = (restingOf symbol o).bind f) :
    liveOrders (orders.insert id o') bound symbol =
      Keyed.update (fun r : RestingOrder => r.id) id f (liveOrders orders bound symbol) := by
  rw [liveOrders, liveOrders, Keyed.update, List.filterMap_filterMap]
  apply List.filterMap_congr
  intro id' _
  by_cases hid : id' = id
  · subst hid
    rw [Finmap.lookup_insert, ho, Option.bind_some, Option.bind_some, hf]
    cases hr : restingOf symbol o with
    | none => rfl
    | some r =>
      have hrid : r.id = id' :=
        (congrArg Quote.id (restingOf_eq_some_iff.mp hr).2).trans (h _ _ ho).1
      simp [hrid]
  · rw [Finmap.lookup_insert_of_ne _ hid]
    cases hl : orders.lookup id' with
    | none => rfl
    | some x =>
      cases hr : restingOf symbol x with
      | none => simp [hr]
      | some r =>
        have hrid : r.id = id' :=
          (congrArg Quote.id (restingOf_eq_some_iff.mp hr).2).trans (h _ _ hl).1
        simp [hr, hrid, hid]

theorem liveOrders_insert_other (ho : orders.lookup id = some o) (hs : o.symbol ≠ symbol)
    (hs' : o'.symbol = o.symbol) :
    liveOrders (orders.insert id o') bound symbol = liveOrders orders bound symbol := by
  apply liveOrders_congr
  intro id' _
  by_cases hid : id' = id
  · subst hid
    rw [Finmap.lookup_insert, ho, Option.bind_some, Option.bind_some,
      restingOf_eq_none fun hc => hs hc.1, restingOf_eq_none fun hc => hs (hs' ▸ hc.1)]
  · rw [Finmap.lookup_insert_of_ne _ hid]

theorem Filed.insert (h : Filed orders bound) (hid : o.internalId = id) (hlt : id < bound) :
    Filed (orders.insert id o) bound :=
  forall_lookup_insert h ⟨hid, hlt⟩

theorem Filed.succ (h : Filed orders bound) : Filed orders (bound + 1) :=
  fun id x hx => ⟨(h id x hx).1, Nat.lt_succ_of_lt (h id x hx).2⟩

theorem Filed.lookup_bound (h : Filed orders bound) : orders.lookup bound = none := by
  cases hl : orders.lookup bound with
  | none => rfl
  | some x => exact absurd (h _ _ hl).2 (lt_irrefl bound)

end

end Oems
