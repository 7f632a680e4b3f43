import Oems.ApiConsistency

namespace Oems

open Lib OrderManager

section Values

variable {κ V W : Type*} [DecidableEq κ] {s s' : Finmap fun _ : κ => V}

theorem values_eq_keys (s : Finmap fun _ : κ => V) (g : V → W) :
    ((s.entries.map Sigma.snd).map g).map some = s.keys.val.map fun k => (s.lookup k).map g := by
  change _ = (s.entries.map Sigma.fst).map fun k => (s.lookup k).map g
  rw [Multiset.map_map, Multiset.map_map, Multiset.map_map]
  apply Multiset.map_congr rfl
  rintro ⟨k, v⟩ hkv
  have hlookup : s.lookup k = some v := Finmap.lookup_eq_some_iff.mpr hkv
  exact (congrArg (Option.map g) hlookup).symm

theorem values_congr {g g' : V → W} (h : ∀ k, (s'.lookup k).map g' = (s.lookup k).map g) :
    (s'.entries.map Sigma.snd).map g' = (s.entries.map Sigma.snd).map g := by
  have hkeys : s'.keys = s.keys := by
    ext k
    have hsome := congrArg Option.isSome (h k)
    rw [Option.isSome_map, Option.isSome_map] at hsome
    rw [Finmap.mem_keys, Finmap.mem_keys, ← Finmap.lookup_isSome, ← Finmap.lookup_isSome, hsome]
  apply Multiset.map_injective (Option.some_injective W)
  rw [values_eq_keys, values_eq_keys, hkeys]
  exact congrArg (fun f => s.keys.val.map f) (funext h)

end Values

namespace OrderDto

def Open (o : OrderDto) : Prop :=
  o.type = str "Limit" ∧ (o.status = str "Accepted" ∨ o.status = str "PartiallyFilled")

instance : DecidablePred Open := fun _ => inferInstanceAs (Decidable (_ ∧ _))

def cancelled (o : OrderDto) : OrderDto := { o with status := str "Cancelled" }

/-- The order after its book has been asked to cancel some ids. -/
def without (ids : List ℕ) (o : OrderDto) : OrderDto :=
  if o.Open ∧ ∃ id ∈ ids, (id : ℤ) = o.internalId then o.cancelled else o

theorem not_open_cancelled (o : OrderDto) : ¬ o.cancelled.Open := by
  rintro ⟨-, h⟩
  have hstatus :
      ¬ (str "Cancelled" = str "Accepted" ∨ str "Cancelled" = str "PartiallyFilled") := by
    decide
  exact hstatus h

theorem without_nil (o : OrderDto) : o.without [] = o := if_neg fun h => by simp at h

theorem without_append (ids later : List ℕ) (o : OrderDto) :
    (o.without ids).without later = o.without (ids ++ later) := by
  by_cases hids : o.Open ∧ ∃ id ∈ ids, (id : ℤ) = o.internalId
  · have hfirst : o.without ids = o.cancelled := if_pos hids
    obtain ⟨hopen, id, hid, he⟩ := hids
    rw [hfirst, without, if_neg fun h => o.not_open_cancelled h.1]
    exact (if_pos ⟨hopen, id, List.mem_append_left _ hid, he⟩).symm
  · have hfirst : o.without ids = o := if_neg hids
    rw [hfirst]
    apply if_congr _ rfl rfl
    constructor
    · rintro ⟨hopen, id, hid, he⟩
      exact ⟨hopen, id, List.mem_append_right _ hid, he⟩
    · rintro ⟨hopen, id, hid, he⟩
      obtain hid | hid := List.mem_append.mp hid
      · exact absurd ⟨hopen, id, hid, he⟩ hids
      · exact ⟨hopen, id, hid, he⟩

theorem open_without {ids : List ℕ} {o : OrderDto} :
    (o.without ids).Open ↔ o.Open ∧ ∀ id ∈ ids, (id : ℤ) ≠ o.internalId := by
  rw [without]
  split_ifs with h
  · obtain ⟨-, id, hid, he⟩ := h
    exact iff_of_false o.not_open_cancelled fun hall => hall.2 id hid he
  · constructor
    · exact fun hopen => ⟨hopen, fun id hid he => h ⟨hopen, id, hid, he⟩⟩
    · exact fun hopen => hopen.1

theorem internalId_without (ids : List ℕ) (o : OrderDto) :
    (o.without ids).internalId = o.internalId := by
  rw [without]
  split_ifs <;> rfl

theorem symbol_without (ids : List ℕ) (o : OrderDto) : (o.without ids).symbol = o.symbol := by
  rw [without]
  split_ifs <;> rfl

end OrderDto

theorem open_toDto {o : Order} : o.toDto.Open ↔ o.type = .limit ∧ o.status.live :=
  and_congr (type_limit_iff o.type) (status_live_iff o.status)

section Cancel

variable {m : OrderManager} {id : ℕ}

theorem without_toDto {o : Order} (h : ¬ (o.internalId = id ∧ o.type = .limit ∧ o.status.live)) :
    o.toDto.without [id] = o.toDto := by
  apply if_neg
  rintro ⟨hopen, id', hid, he⟩
  rw [List.mem_singleton.mp hid] at he
  exact h ⟨(Int.natCast_inj.mp he).symm, open_toDto.mp hopen⟩

theorem Agrees.allOrders_cancelOrder (h : Agrees m) (id : ℕ) :
    (m.cancelOrder ⟨id⟩).2.allOrders = m.allOrders.map (OrderDto.without [id]) := by
  rw [allOrders, allOrders, Multiset.map_map]
  apply values_congr
  intro k
  have hsame : ∀ {orders : OrderMap} {o : Order}, m.orders.lookup k = some o →
      orders.lookup k = some o → ¬ (o.internalId = id ∧ o.type = .limit ∧ o.status.live) →
      (orders.lookup k).map Order.toDto =
        (m.orders.lookup k).map (OrderDto.without [id] ∘ Order.toDto) := by
    intro orders o ho ho' hnot
    rw [ho, ho', Option.map_some, Option.map_some, Function.comp_apply, without_toDto hnot]
  have hstep := h.cancelStep ⟨id⟩
  generalize m.cancelOrder ⟨id⟩ = r at hstep
  cases hk : m.orders.lookup k with
  | none =>
    cases hstep with
    | unknown _ => exact congrArg (Option.map Order.toDto) hk
    | closed _ _ _ => exact congrArg (Option.map Order.toDto) hk
    | notResting _ _ _ _ _ _ => exact congrArg (Option.map Order.toDto) hk
    | done order engine hl _ _ _ _ _ _ =>
      obtain ⟨now, horders⟩ := withdraw_orders m order engine
      have hne : k ≠ order.internalId := by
        rintro rfl
        rw [(h.filed _ _ hl).1, hl] at hk
        cases hk
      rw [horders, Finmap.lookup_insert_of_ne _ hne, hk]
      rfl
  | some o =>
    rw [← hk]
    have hid := (h.filed _ _ hk).1
    cases hstep with
    | unknown hl =>
      refine hsame hk hk fun hc => ?_
      rw [← hid, hc.1, hl] at hk
      cases hk
    | closed order hl hs =>
      refine hsame hk hk fun hc => hs ?_
      rw [← hid, hc.1, hl] at hk
      cases hk
      exact hc.2.2
    | notResting order err hl _ ht _ =>
      refine hsame hk hk fun hc => ?_
      rw [← hid, hc.1, hl] at hk
      cases hk
      rw [ht] at hc
      cases hc.2.1
    | done order engine hl hoid hs ht _ _ _ =>
      obtain ⟨now, horders⟩ := withdraw_orders m order engine
      by_cases he : k = order.internalId
      · subst he
        dsimp only at hoid hl
        rw [hoid, hl] at hk
        cases hk
        rw [horders, Finmap.lookup_insert, hoid, hl, Option.map_some, Option.map_some,
          Function.comp_apply, OrderDto.without, if_pos]
        · rfl
        · exact ⟨open_toDto.mpr ⟨ht, hs⟩, id, List.mem_singleton_self id,
            congrArg Nat.cast hoid.symm⟩
      · refine hsame hk ?_ fun hc => he ?_
        · rw [horders, Finmap.lookup_insert_of_ne _ he, hk]
        · exact hid.symm.trans (hc.1.trans hoid.symm)

theorem Agrees.executions_cancelOrder (h : Agrees m) (id : ℕ) :
    (m.cancelOrder ⟨id⟩).2.executions = m.executions := by
  have hstep := h.cancelStep ⟨id⟩
  generalize m.cancelOrder ⟨id⟩ = r at hstep
  cases hstep <;> rfl

theorem Agrees.cancelOrder_answer (h : Agrees m) (id : ℤ) (dto : OrderDto) :
    (OrdersController.cancelOrder m (some id)).1 = .order 200 dto ↔
      ∃ o ∈ m.allOrders, o.internalId = toOrderId id ∧ o.Open ∧ dto = o.cancelled := by
  have hfound : ∀ {o : OrderDto}, o ∈ m.allOrders → o.internalId = toOrderId id →
      ∃ order, m.orders.lookup (toOrderId id) = some order ∧ o = order.toDto := by
    intro o ho hid
    obtain ⟨order, horder, rfl⟩ := Multiset.mem_map.mp ho
    have hlookup := h.filed.lookup horder
    rw [Int.natCast_inj.mp hid] at hlookup
    exact ⟨order, hlookup, rfl⟩
  rw [OrdersController.cancelOrder]
  dsimp only
  have hstep := h.cancelStep ⟨toOrderId id⟩
  generalize m.cancelOrder ⟨toOrderId id⟩ = r at hstep
  cases hstep with
  | unknown hl =>
    apply iff_of_false
    · intro he
      cases he
    · rintro ⟨o, ho, hid, -⟩
      obtain ⟨order, horder, -⟩ := hfound ho hid
      rw [hl] at horder
      cases horder
  | closed order hl hs =>
    apply iff_of_false
    · intro he
      cases he
    · rintro ⟨o, ho, hid, hopen, -⟩
      obtain ⟨order', horder, rfl⟩ := hfound ho hid
      rw [hl] at horder
      cases horder
      exact hs (open_toDto.mp hopen).2
  | notResting order err hl _ ht _ =>
    apply iff_of_false
    · intro he
      cases he
    · rintro ⟨o, ho, hid, hopen, -⟩
      obtain ⟨order', horder, rfl⟩ := hfound ho hid
      rw [hl] at horder
      cases horder
      exact absurd (open_toDto.mp hopen).1 (by rw [ht]; decide)
  | done order engine hl hoid hs ht _ _ _ =>
    have hanswer : ((m.withdraw order engine).1).toDto = order.toDto.cancelled := rfl
    change ApiResponse.order 200 (m.withdraw order engine).1.toDto = .order 200 dto ↔ _
    rw [hanswer]
    constructor
    · intro he
      refine ⟨order.toDto, Multiset.mem_map_of_mem _ (mem_tableOrders.mpr ⟨_, hl⟩),
        congrArg Nat.cast hoid, open_toDto.mpr ⟨ht, hs⟩, ?_⟩
      exact (ApiResponse.order.inj he).2.symm
    · rintro ⟨o, ho, hid, -, rfl⟩
      obtain ⟨order', horder, rfl⟩ := hfound ho hid
      dsimp only at hl
      rw [hl] at horder
      cases horder
      rfl

end Cancel

def cancelAll (ids : List ℤ) : List ApiRequest := ids.map fun id => .cancelOrder (some id)

def OrderManager.afterBatch (m : OrderManager) (ids : List ℤ) : OrderManager :=
  (Machine.run OrderManager.serve m (cancelAll ids)).2

theorem afterBatch_cons (m : OrderManager) (id : ℤ) (ids : List ℤ) :
    m.afterBatch (id :: ids) = (m.cancelOrder ⟨toOrderId id⟩).2.afterBatch ids := rfl

theorem Agrees.afterBatch {m : OrderManager} (h : Agrees m) (ids : List ℤ) :
    Agrees (m.afterBatch ids) := by
  induction ids generalizing m with
  | nil => exact h
  | cons id ids ih => exact ih (h.cancelOrder ⟨toOrderId id⟩)

theorem Agrees.allOrders_afterBatch {m : OrderManager} (h : Agrees m) (ids : List ℤ) :
    (m.afterBatch ids).allOrders = m.allOrders.map (OrderDto.without (ids.map toOrderId)) := by
  induction ids generalizing m with
  | nil =>
    have hid : OrderDto.without [] = id := by
      funext o
      exact o.without_nil
    rw [List.map_nil, hid, Multiset.map_id]
    rfl
  | cons id ids ih =>
    have hboth : OrderDto.without (ids.map toOrderId) ∘ OrderDto.without [toOrderId id] =
        OrderDto.without ((id :: ids).map toOrderId) := by
      funext o
      exact o.without_append [toOrderId id] (ids.map toOrderId)
    rw [afterBatch_cons, ih (h.cancelOrder _), h.allOrders_cancelOrder, Multiset.map_map, hboth]

theorem Agrees.executions_afterBatch {m : OrderManager} (h : Agrees m) (ids : List ℤ) :
    (m.afterBatch ids).executions = m.executions := by
  induction ids generalizing m with
  | nil => rfl
  | cons id ids ih => rw [afterBatch_cons, ih (h.cancelOrder _), h.executions_cancelOrder]

theorem Hosting.afterBatch {m : OrderManager} (h : Hosting m) (ids : List ℤ) :
    Hosting (m.afterBatch ids) := by
  induction ids generalizing m with
  | nil => exact h
  | cons id ids ih => exact ih (h.step (.cancel ⟨toOrderId id⟩))

/-- What a batch of cancels comes to, in whatever order the ids are, known or not, and however
often each of them is there. -/
structure CancelsExactly (m : OrderManager) (ids : List ℤ) : Prop where
  listed : OrdersController.listOrders m none none = .orders m.allOrders
  orders : OrdersController.listOrders (m.afterBatch ids) none none =
    .orders (m.allOrders.map (OrderDto.without (ids.map toOrderId)))
  executions : (m.afterBatch ids).getAllExecutions = m.getAllExecutions
  /-- The next cancel is answered with its order if that was open and is not in the batch. -/
  next : ∀ id dto, ((m.afterBatch ids).serve (.cancelOrder (some id))).1 = .order 200 dto ↔
    ∃ o ∈ m.allOrders, o.internalId = toOrderId id ∧ o.Open ∧ toOrderId id ∉ ids.map toOrderId ∧
      dto = o.cancelled
  /-- The books show the other orders, and nothing when there are none. -/
  books : ∀ symbol, symbol ≠ [] → ∃ bids asks,
    Publishes symbol (BooksController.getBook (m.afterBatch ids).engine (some symbol)) bids asks ∧
      Shows (m.allOrders.map (OrderDto.without (ids.map toOrderId))) symbol bids asks ∧
      ((∀ o ∈ m.allOrders, o.symbol = symbol → o.Open →
        ∃ id ∈ ids, toOrderId id = o.internalId) → bids = [] ∧ asks = [])
  /-- The book of a symbol is there as long as an order is left in it. -/
  opened : ∀ symbol, symbol ≠ [] → ∀ o ∈ m.allOrders, o.symbol = symbol → o.Open →
    (∀ id ∈ ids, (toOrderId id : ℤ) ≠ o.internalId) →
      ∃ b, BooksController.getBook (m.afterBatch ids).engine (some symbol) = .book b

theorem SumsUp.emptied {all : Multiset OrderDto} {ids : List ℕ} {symbol side : Str}
    {levels : List PriceLevelDto}
    (h : SumsUp (all.map (OrderDto.without ids)) symbol side levels)
    (hall : ∀ o ∈ all, o.symbol = symbol → o.Open → ∃ id ∈ ids, (id : ℤ) = o.internalId) :
    levels = [] := by
  apply List.eq_nil_iff_forall_not_mem.mpr
  intro l hl
  have hcount := h.nonempty l hl
  rw [h.orderCount l hl, Int.natCast_pos, Multiset.card_pos_iff_exists_mem] at hcount
  obtain ⟨dto, hdto⟩ := hcount
  obtain ⟨hmem, hsymbol, htype, hstatus, -, -⟩ := Multiset.mem_filter.mp hdto
  obtain ⟨o, ho, rfl⟩ := Multiset.mem_map.mp hmem
  obtain ⟨hopen, hnot⟩ := OrderDto.open_without.mp ⟨htype, hstatus⟩
  rw [OrderDto.symbol_without] at hsymbol
  obtain ⟨id, hid, he⟩ := hall o ho hsymbol hopen
  exact hnot id hid he

theorem OrderDto.Open.rests_without {o : OrderDto} (h : o.Open) {ids : List ℕ}
    (hids : ∀ id ∈ ids, (id : ℤ) ≠ o.internalId) :
    OrderDto.Rests o.symbol o.side o.price (o.without ids) := by
  have hsame : o.without ids = o := if_neg fun ⟨_, id, hid, he⟩ => hids id hid he
  rw [hsame]
  exact ⟨rfl, h.1, h.2, rfl, rfl⟩

theorem Booked.afterBatch {m : OrderManager} (hm : Hosting m) (h : Booked m) (ids : List ℤ) :
    Booked (m.afterBatch ids) := by
  induction ids generalizing m with
  | nil => exact h
  | cons id ids ih =>
    exact ih (hm.step (.cancel ⟨toOrderId id⟩))
      (booked_hostInvariant.step m (.cancel ⟨toOrderId id⟩) hm h)

theorem Hosting.cancelsExactly {m : OrderManager} (h : Hosting m) (hbooks : Booked m)
    (ids : List ℤ) : CancelsExactly m ids := by
  have hreconciled := (h.afterBatch ids).reconciled (hbooks.afterBatch h ids)
  have horders := h.agrees.allOrders_afterBatch ids
  refine ⟨listOrders_all m, (listOrders_all _).trans (congrArg ApiResponse.orders horders),
    h.agrees.executions_afterBatch ids, fun id dto => ?_, fun symbol hsymbol => ?_,
    fun symbol hsymbol o ho hs hopen hnot => ?_⟩
  · have hanswer := ((h.afterBatch ids).agrees.cancelOrder_answer id dto)
    rw [horders] at hanswer
    refine hanswer.trans ⟨?_, ?_⟩
    · rintro ⟨_, hmem, hid, hopen, rfl⟩
      obtain ⟨o, ho, rfl⟩ := Multiset.mem_map.mp hmem
      have hboth := OrderDto.open_without.mp hopen
      have hsame : o.without (ids.map toOrderId) = o :=
        if_neg fun ⟨_, x, hx, hxo⟩ => hboth.2 x hx hxo
      rw [OrderDto.internalId_without] at hid
      exact ⟨o, ho, hid, hboth.1, fun hin => hboth.2 _ hin hid.symm, by rw [hsame]⟩
    · rintro ⟨o, ho, hid, hopen, hnot, rfl⟩
      have hsame : o.without (ids.map toOrderId) = o := by
        apply if_neg
        rintro ⟨-, x, hx, hxo⟩
        rw [hid] at hxo
        exact hnot (Int.natCast_inj.mp hxo ▸ hx)
      exact ⟨o, Multiset.mem_map.mpr ⟨o, ho, hsame⟩, hid, hopen, rfl⟩
  · obtain ⟨bids, asks, hpublishes, hshows⟩ := hreconciled.book symbol hsymbol
    rw [horders] at hshows
    refine ⟨bids, asks, hpublishes, hshows, fun hall => ?_⟩
    have hnamed : ∀ o ∈ m.allOrders, o.symbol = symbol → o.Open →
        ∃ id ∈ ids.map toOrderId, (id : ℤ) = o.internalId := by
      intro o ho hs hopen
      obtain ⟨id, hid, he⟩ := hall o ho hs hopen
      exact ⟨_, List.mem_map_of_mem hid, he⟩
    exact ⟨hshows.bid.emptied hnamed, hshows.ask.emptied hnamed⟩
  · have hrests : OrderDto.Rests o.symbol o.side o.price (o.without (ids.map toOrderId)) := by
      apply hopen.rests_without
      intro x hx
      obtain ⟨id, hid, rfl⟩ := List.mem_map.mp hx
      exact hnot id hid
    have hmem : o.without (ids.map toOrderId) ∈ (m.afterBatch ids).allOrders := by
      rw [horders]
      exact Multiset.mem_map_of_mem _ ho
    rw [hs] at hrests
    exact hreconciled.opened symbol hsymbol _ hmem _ _ hrests

/-- At any time in the life of a server, a batch of cancels takes out the open orders that it
names, once each, and nothing else. One that names all open orders empties the books. -/
theorem cancel_batch_exact (risk : RiskManager) (clock : ℕ → ℤ) {tasks : List ServerTask}
    (h : PlainTasks tasks) :
    ∃ m, (Machine.run hostRows (.ok (boot risk clock)) tasks).2 = .ok m ∧
      ∀ ids, CancelsExactly m ids := by
  obtain ⟨m, hok, hm, hbooks⟩ :=
    booked_hostInvariant.hostRows h risk clock (Booked.boot risk clock)
  exact ⟨m, hok, fun ids => hm.cancelsExactly hbooks ids⟩

theorem tradeThenRestart_cancels : ∃ m, (Machine.run hostRows
    (.ok (boot (RiskManager.new RiskLimits.default) fun _ => 0)) tradeThenRestart).2 = .ok m ∧
      ∀ ids, CancelsExactly m ids :=
  cancel_batch_exact _ _ ⟨by decide, by decide⟩

end Oems
