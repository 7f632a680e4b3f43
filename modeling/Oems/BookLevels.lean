import Oems.NaiveBook

namespace Oems

open Lib

/-- The resting orders of one side at one price, in the order of their arrival. -/
def queueAt (side : Side) (p : ℤ) (orders : List RestingOrder) : List RestingOrder :=
  orders.filter fun o => o.side = side ∧ o.price = p

/-- The price levels of a side hold its part of the flat list: each level the
orders at its price, oldest first, and no level without orders. -/
structure Arranged (side : Side) (levels : List (Σ _ : ℤ, List BookEntry))
    (orders : List RestingOrder) : Prop where
  sorted : levels.keys.Pairwise (better side)
  nonempty : ∀ l ∈ levels, l.2 ≠ []
  queue : ∀ p, ((levels.dlookup p).getD []).map BookEntry.quote =
    (queueAt side p orders).map RestingOrder.toQuote

abbrev UniqueIds (orders : List RestingOrder) : Prop :=
  (orders.map fun o : RestingOrder => o.id).Nodup

abbrev takeFrom (id : ℕ) (k : ℤ) (orders : List RestingOrder) : List RestingOrder :=
  Keyed.update (fun o : RestingOrder => o.id) id (RestingOrder.take k) orders

theorem mem_queueAt {side : Side} {p : ℤ} {orders : List RestingOrder} {o : RestingOrder} :
    o ∈ queueAt side p orders ↔ o ∈ orders ∧ o.side = side ∧ o.price = p := by
  simp [queueAt]

theorem queueAt_append (side : Side) (p : ℤ) (orders orders' : List RestingOrder) :
    queueAt side p (orders ++ orders') = queueAt side p orders ++ queueAt side p orders' :=
  List.filter_append ..

theorem RestingOrder.take_eq_some {k : ℤ} {o o' : RestingOrder} (h : o.take k = some o') :
    o'.toQuote = ⟨o.id, o.side, o.price, o.qty - k⟩ := by
  unfold RestingOrder.take at h
  split_ifs at h
  cases h
  rfl

theorem RestingOrder.take_of_lt {k : ℤ} {o : RestingOrder} (h : k < o.qty) :
    ∃ o', o.take k = some o' ∧ o'.toQuote = ⟨o.id, o.side, o.price, o.qty - k⟩ := by
  rw [take, dif_pos h]
  exact ⟨_, rfl, rfl⟩

theorem RestingOrder.take_eq_none {k : ℤ} {o : RestingOrder} (h : o.qty ≤ k) :
    o.take k = none := by
  rw [RestingOrder.take, dif_neg (by omega)]

theorem take_id {k : ℤ} {x y : RestingOrder} (h : x.take k = some y) : y.id = x.id := by
  simp [RestingOrder.take_eq_some h]

theorem UniqueIds.eq {orders : List RestingOrder} (h : UniqueIds orders) {x y : RestingOrder}
    (hx : x ∈ orders) (hy : y ∈ orders) (he : x.id = y.id) : x = y :=
  List.inj_on_of_nodup_map h hx hy he

theorem UniqueIds.takeFrom {orders : List RestingOrder} (h : UniqueIds orders) (id : ℕ) (k : ℤ) :
    UniqueIds (takeFrom id k orders) :=
  h.sublist (Keyed.keys_update (fun _ _ hxy => take_id hxy) orders)

theorem queueAt_takeFrom (side : Side) (p : ℤ) (id : ℕ) (k : ℤ) (orders : List RestingOrder) :
    queueAt side p (takeFrom id k orders) = takeFrom id k (queueAt side p orders) := by
  apply Keyed.filter_update
  intro x y hxy
  have hy := RestingOrder.take_eq_some hxy
  simp [hy]

theorem queueAt_takeFrom_self {side : Side} {p : ℤ} {orders tail : List RestingOrder}
    {o : RestingOrder} (hu : UniqueIds orders) (ho : queueAt side p orders = o :: tail) (k : ℤ) :
    queueAt side p (takeFrom o.id k orders) = (o.take k).toList ++ tail := by
  have hs : UniqueIds (o :: tail) := by
    rw [← ho]
    exact hu.sublist (List.filter_sublist.map _)
  rw [queueAt_takeFrom, ho]
  exact Keyed.update_cons_self hs

theorem queueAt_takeFrom_of_ne {side : Side} {p : ℤ} {orders : List RestingOrder}
    {o : RestingOrder} (hu : UniqueIds orders) (ho : o ∈ orders)
    (hne : ¬ (o.side = side ∧ o.price = p)) (k : ℤ) :
    queueAt side p (takeFrom o.id k orders) = queueAt side p orders := by
  rw [queueAt_takeFrom]
  apply Keyed.update_of_notMem
  intro hm
  obtain ⟨x, hx, hid⟩ := List.mem_map.mp hm
  obtain ⟨hxo, hxs⟩ := mem_queueAt.mp hx
  exact hne (hu.eq hxo ho hid ▸ hxs)

namespace Arranged

variable {side : Side} {p : ℤ} {e : BookEntry} {q : List BookEntry}
  {levels : List (Σ _ : ℤ, List BookEntry)} {orders : List RestingOrder}

theorem front (h : Arranged side (⟨p, e :: q⟩ :: levels) orders) :
    ∃ o tail, queueAt side p orders = o :: tail ∧ o.toQuote = e.quote ∧
      tail.map RestingOrder.toQuote = q.map BookEntry.quote := by
  have hq := h.queue p
  rw [List.dlookup_cons_eq] at hq
  cases hx : queueAt side p orders with
  | nil => simp [hx] at hq
  | cons o tail =>
    rw [hx] at hq
    simp only [Option.getD_some, List.map_cons, List.cons.injEq] at hq
    exact ⟨o, tail, rfl, hq.1.symm, hq.2.symm⟩

theorem key_of_mem {levels : List (Σ _ : ℤ, List BookEntry)} (h : Arranged side levels orders)
    {o : RestingOrder} (ho : o ∈ orders) (hs : o.side = side) : o.price ∈ levels.keys := by
  have hm : o ∈ queueAt side o.price orders := mem_queueAt.mpr ⟨ho, hs, rfl⟩
  have hq := h.queue o.price
  by_contra hk
  rw [List.dlookup_eq_none.mpr hk] at hq
  have hnil : queueAt side o.price orders = [] := by simpa using hq.symm
  simp [hnil] at hm

theorem not_better (h : Arranged side (⟨p, q⟩ :: levels) orders) {o : RestingOrder}
    (ho : o ∈ orders) (hs : o.side = side) : ¬ better side o.price p := by
  obtain he | hk := List.mem_cons.mp (h.key_of_mem ho hs)
  · rw [he]
    exact irrefl_of (better side) p
  · have hlt : better side p o.price := (List.pairwise_cons.mp h.sorted).1 _ hk
    exact asymm_of (better side) hlt

theorem tail_dlookup_eq_none (h : Arranged side (⟨p, q⟩ :: levels) orders) :
    levels.dlookup p = none := by
  rw [List.dlookup_eq_none]
  intro hp
  exact irrefl_of (better side) p ((List.pairwise_cons.mp h.sorted).1 p hp)

theorem nodup_keys {levels : List (Σ _ : ℤ, List BookEntry)} (h : Arranged side levels orders) :
    levels.NodupKeys := by
  refine h.sorted.imp ?_
  intro a b hab he
  subst he
  exact irrefl_of (better side) a hab

theorem replace_front (h : Arranged side (⟨p, q⟩ :: levels) orders) {q' : List BookEntry}
    {orders' : List RestingOrder} (hne : q' ≠ [])
    (hp : (queueAt side p orders').map RestingOrder.toQuote = q'.map BookEntry.quote)
    (hother : ∀ p', p' ≠ p → queueAt side p' orders' = queueAt side p' orders) :
    Arranged side (⟨p, q'⟩ :: levels) orders' where
  sorted := h.sorted
  nonempty := by
    intro l hl
    obtain rfl | hl := List.mem_cons.mp hl
    · exact hne
    · exact h.nonempty l (List.mem_cons_of_mem _ hl)
  queue := by
    intro p'
    by_cases he : p' = p
    · subst he
      simp [hp]
    · have hq := h.queue p'
      rw [List.dlookup_cons_ne _ _ he] at hq ⊢
      rw [hother p' he]
      exact hq

theorem drop_front (h : Arranged side (⟨p, q⟩ :: levels) orders) {orders' : List RestingOrder}
    (hp : queueAt side p orders' = [])
    (hother : ∀ p', p' ≠ p → queueAt side p' orders' = queueAt side p' orders) :
    Arranged side levels orders' where
  sorted := (List.pairwise_cons.mp h.sorted).2
  nonempty := fun l hl => h.nonempty l (List.mem_cons_of_mem _ hl)
  queue := by
    intro p'
    by_cases he : p' = p
    · subst he
      simp [hp, h.tail_dlookup_eq_none]
    · have hq := h.queue p'
      rw [List.dlookup_cons_ne _ _ he] at hq
      rw [hother p' he]
      exact hq

theorem takeFrom_other {levels : List (Σ _ : ℤ, List BookEntry)}
    (h : Arranged side levels orders) (hu : UniqueIds orders) {o : RestingOrder}
    (ho : o ∈ orders) (hs : o.side ≠ side) (k : ℤ) : Arranged side levels (takeFrom o.id k orders) where
  sorted := h.sorted
  nonempty := h.nonempty
  queue := by
    intro p
    rw [queueAt_takeFrom_of_ne hu ho (fun hc => hs hc.1)]
    exact h.queue p

end Arranged

section Counterparty

variable {t : Taker} {p : ℤ} {e : BookEntry} {q : List BookEntry}
  {levels : List (Σ _ : ℤ, List BookEntry)} {orders : List RestingOrder}

theorem accepts_iff {o : RestingOrder} : t.accepts o = true ↔
    o.side = t.side.opposite ∧ (t.type = .market ∨ limitAllows t.side t.limit o.price = true) := by
  simp [Taker.accepts]

theorem limitAllows_of_not_better {side : Side} {limit p p' : ℤ}
    (h : limitAllows side limit p' = true) (hb : ¬ better side.opposite p' p) :
    limitAllows side limit p = true := by
  cases side
  · simp only [limitAllows, decide_eq_true_eq, Side.opposite, better] at *
    omega
  · simp only [limitAllows, decide_eq_true_eq, Side.opposite, better] at *
    omega

theorem counterparty_nil (h : Arranged t.side.opposite [] orders) :
    t.counterparty orders = none := by
  rw [Taker.counterparty, List.find?_eq_none]
  intro o ho hacc
  simp only [decide_eq_true_eq] at hacc
  exact absurd (h.key_of_mem ho (accepts_iff.mp hacc.1).1) (by simp)

theorem counterparty_refused (h : Arranged t.side.opposite (⟨p, q⟩ :: levels) orders)
    (hr : ¬ (t.type = .market ∨ limitAllows t.side t.limit p = true)) :
    t.counterparty orders = none := by
  rw [Taker.counterparty, List.find?_eq_none]
  intro o ho hacc
  simp only [decide_eq_true_eq] at hacc
  obtain ⟨hs, hp⟩ := accepts_iff.mp hacc.1
  exact hr (hp.imp_right fun ha => limitAllows_of_not_better ha (h.not_better ho hs))

theorem counterparty_front (h : Arranged t.side.opposite (⟨p, e :: q⟩ :: levels) orders)
    (ha : t.type = .market ∨ limitAllows t.side t.limit p = true) :
    ∃ o tail, queueAt t.side.opposite p orders = o :: tail ∧ t.counterparty orders = some o ∧
      o.toQuote = e.quote ∧ tail.map RestingOrder.toQuote = q.map BookEntry.quote := by
  obtain ⟨o, tail, hqueue, hquote, htail⟩ := h.front
  refine ⟨o, tail, hqueue, ?_, hquote, htail⟩
  have ho : o ∈ queueAt t.side.opposite p orders := by simp [hqueue]
  obtain ⟨hmem, hside, hprice⟩ := mem_queueAt.mp ho
  have hacc : t.accepts o = true := accepts_iff.mpr ⟨hside, hprice ▸ ha⟩
  have hfind : t.counterparty orders =
      orders.find? fun x => x.side = t.side.opposite ∧ x.price = p := by
    apply List.find?_congr
    intro x hx
    rw [decide_eq_decide]
    constructor
    · rintro ⟨hxa, hbest⟩
      have hxs := (accepts_iff.mp hxa).1
      have hnot := hbest o hmem hacc
      rw [hprice] at hnot
      obtain hlt | heq | hgt := trichotomous_of (better t.side.opposite) x.price p
      · exact absurd hlt (h.not_better hx hxs)
      · exact ⟨hxs, heq⟩
      · exact absurd hgt hnot
    · rintro ⟨hxs, hxp⟩
      refine ⟨accepts_iff.mpr ⟨hxs, hxp ▸ ha⟩, fun y hy hya => ?_⟩
      rw [hxp]
      exact h.not_better hy (accepts_iff.mp hya).1
  rw [hfind, ← List.head?_filter]
  exact congrArg List.head? hqueue

end Counterparty

/-- The id index knows the resting orders, each with its side and price. -/
def Indexes (idIndex : IdIndex) (orders : List RestingOrder) : Prop :=
  ∀ id, idIndex.lookup id =
    (Keyed.find (fun o : RestingOrder => o.id) id orders).map fun o => ⟨o.side, o.price⟩

theorem Indexes.mem_iff {idIndex : IdIndex} {orders : List RestingOrder}
    (h : Indexes idIndex orders) (id : ℕ) :
    id ∈ idIndex ↔ (Keyed.find (fun o : RestingOrder => o.id) id orders).isSome = true := by
  rw [← Finmap.lookup_isSome, h id, Option.isSome_map]

theorem Indexes.takeFrom {idIndex : IdIndex} {orders : List RestingOrder}
    (h : Indexes idIndex orders) (hu : UniqueIds orders) {o : RestingOrder} (ho : o ∈ orders)
    {k : ℤ} (hk : k ≤ o.qty) :
    Indexes (if o.qty - k = 0 then idIndex.erase o.id else idIndex) (takeFrom o.id k orders) := by
  have hid : ∀ x y : RestingOrder, x.take k = some y → y.id = x.id := fun _ _ hxy => take_id hxy
  have hfind : Keyed.find (fun o : RestingOrder => o.id) o.id orders = some o :=
    Keyed.find_of_mem hu ho
  intro id
  by_cases hio : id = o.id
  · subst hio
    rw [Oems.takeFrom, Keyed.find_update_self hid hu, hfind, Option.bind_some]
    by_cases h0 : o.qty - k = 0
    · rw [if_pos h0, Finmap.lookup_erase, RestingOrder.take_eq_none (by omega)]
      rfl
    · rw [if_neg h0, h o.id, hfind, RestingOrder.take, dif_pos (by omega)]
      rfl
  · rw [Oems.takeFrom, Keyed.find_update_of_ne hid hio, ← h id]
    split_ifs
    · exact Finmap.lookup_erase_ne hio
    · rfl

end Oems
