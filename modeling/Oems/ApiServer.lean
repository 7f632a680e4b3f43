import Oems.Controllers
import Oems.DurableHistory
import Oems.PublishedBook

namespace Oems

open Lib OrderManager

/-- What happens to a server: a request, or an end of its process and a new one on its
database. -/
inductive ServerTask where
  | request (r : ApiRequest)
  | restart (risk : RiskManager) (clock : ℕ → ℤ)

/-- The life of a server. A process whose restore fails stops, and answers nothing more. -/
def host : Result OrderManager → ServerTask → Option ApiResponse × Result OrderManager
  | .error err, _ => (none, .error err)
  | .ok m, .request r => (some (m.serve r).1, .ok (m.serve r).2)
  | .ok m, .restart risk clock => (none, OrderManager.restart m.db risk clock)

def boot (risk : RiskManager) (clock : ℕ → ℤ) : OrderManager :=
  OrderManager.new risk MatchingEngine.new (some Database.empty) clock

/-- The state of a server between two tasks. -/
structure Hosting (m : OrderManager) : Prop where
  serving : Serving m
  ledger : Ledger m

theorem Hosting.agrees {m : OrderManager} (h : Hosting m) : Agrees m := h.serving.durable.agrees

theorem Hosting.boot (risk : RiskManager) (clock : ℕ → ℤ) : Hosting (boot risk clock) :=
  ⟨Serving.new risk clock, Ledger.new risk _ clock⟩

theorem Hosting.step {m : OrderManager} (h : Hosting m) (op : Op) : Hosting (m.step op).2 :=
  ⟨h.serving.call op, ledger_stepInvariant.run_always h.agrees h.ledger [op]⟩

theorem Hosting.serve {m : OrderManager} (h : Hosting m) (r : ApiRequest) :
    Hosting (m.serve r).2 := by
  rw [serve_manager]
  cases r.op with
  | none => exact h
  | some op => exact h.step op

/-- A new process on the database has the memory of the one before. -/
theorem Hosting.restart {m : OrderManager} (h : Hosting m) (risk : RiskManager) (clock : ℕ → ℤ) :
    ∃ m', OrderManager.restart m.db risk clock = .ok m' ∧ SameMemory m m' ∧ Hosting m' := by
  obtain ⟨d, hd, -⟩ := h.serving.db
  obtain ⟨m', hrestore, -, hsame, -⟩ := h.serving.durable.restart hd rfl risk clock
  obtain ⟨m'', hok, hserving⟩ := h.serving.restart risk clock
  have hrestart : OrderManager.restart m.db risk clock = .ok m' := by
    rw [hd, OrderManager.restart, hrestore]
  obtain rfl : m' = m'' := Except.ok.inj (hrestart.symm.trans hok)
  refine ⟨m', hok, hsame, hserving, ?_⟩
  rw [Ledger, hsame.orders, hsame.executions, hsame.nextOrderId]
  exact h.ledger

/-- What a call keeps, and a restart. -/
structure HostInvariant (I : OrderManager → Prop) : Prop where
  step : ∀ m op, Hosting m → I m → I (m.step op).2
  restart : ∀ m m' risk clock, Hosting m → I m → OrderManager.restart m.db risk clock = .ok m' →
    SameMemory m m' → I m'

namespace HostInvariant

variable {I J : OrderManager → Prop}

theorem serve (hI : HostInvariant I) {m : OrderManager} (hm : Hosting m) (h : I m)
    (r : ApiRequest) : I (m.serve r).2 := by
  rw [serve_manager]
  cases r.op with
  | none => exact h
  | some op => exact hI.step m op hm h

theorem and (hI : HostInvariant I) (hJ : HostInvariant J) : HostInvariant fun m => I m ∧ J m where
  step := fun m op hm h => ⟨hI.step m op hm h.1, hJ.step m op hm h.2⟩
  restart := fun m m' risk clock hm h hok hsame =>
    ⟨hI.restart m m' risk clock hm h.1 hok hsame, hJ.restart m m' risk clock hm h.2 hok hsame⟩

theorem host (hI : HostInvariant I) {m : OrderManager} (hm : Hosting m) (h : I m)
    (tasks : List ServerTask) :
    ∃ m', (Machine.run Oems.host (.ok m) tasks).2 = .ok m' ∧ Hosting m' ∧ I m' := by
  apply Machine.invariant (I := fun s : Result OrderManager => ∃ m', s = .ok m' ∧ Hosting m' ∧ I m')
    _ ⟨m, rfl, hm, h⟩ tasks
  rintro _ task ⟨m', rfl, hm', h'⟩
  cases task with
  | request r => exact ⟨_, rfl, hm'.serve r, hI.serve hm' h' r⟩
  | restart risk clock =>
    obtain ⟨m'', hok, hsame, hm''⟩ := hm'.restart risk clock
    exact ⟨m'', hok, hm'', hI.restart _ _ risk clock hm' h' hok hsame⟩

end HostInvariant

/-- What every call of a manager keeps, if the memory decides it. -/
theorem StepInvariant.hostInvariant {I : OrderManager → Prop} (hI : StepInvariant Always I)
    (hmemory : ∀ m m', SameMemory m m' → I m → I m') : HostInvariant I where
  step := fun _ op hm h => hI.step hm.agrees h op trivial
  restart := fun m m' _ _ _ h _ hsame => hmemory m m' hsame h

theorem Hosting.run {m : OrderManager} (hm : Hosting m) (tasks : List ServerTask) :
    ∃ m', (Machine.run Oems.host (.ok m) tasks).2 = .ok m' ∧ Hosting m' := by
  have hI : HostInvariant fun _ => True := ⟨fun _ _ _ _ => trivial, fun _ _ _ _ _ _ _ _ => trivial⟩
  obtain ⟨m', hok, hm', -⟩ := hI.host hm trivial tasks
  exact ⟨m', hok, hm'⟩

def tableOrders (orders : OrderMap) : Multiset Order := orders.entries.map Sigma.snd

theorem mem_tableOrders {orders : OrderMap} {o : Order} :
    o ∈ tableOrders orders ↔ ∃ id, orders.lookup id = some o := by
  rw [tableOrders, Multiset.mem_map]
  constructor
  · rintro ⟨⟨id, x⟩, hx, rfl⟩
    exact ⟨id, Finmap.lookup_eq_some_iff.mpr hx⟩
  · rintro ⟨id, ho⟩
    exact ⟨⟨id, o⟩, Finmap.lookup_eq_some_iff.mp ho, rfl⟩

theorem Filed.lookup {orders : OrderMap} {bound : ℕ} (h : Filed orders bound) {o : Order}
    (ho : o ∈ tableOrders orders) : orders.lookup o.internalId = some o := by
  obtain ⟨id, hid⟩ := mem_tableOrders.mp ho
  rw [(h id o hid).1, hid]

theorem Filed.nodup_tableOrders {orders : OrderMap} {bound : ℕ} (h : Filed orders bound) :
    (tableOrders orders).Nodup := by
  apply Multiset.Nodup.map_on _ orders.nodup_entries
  rintro ⟨id, o⟩ hx ⟨id', o'⟩ hy (rfl : o = o')
  have hid := (h id o (Finmap.lookup_eq_some_iff.mpr hx)).1
  have hid' := (h id' o (Finmap.lookup_eq_some_iff.mpr hy)).1
  rw [← hid, ← hid']

def Order.quote (o : Order) : Quote := ⟨o.internalId, o.side, o.price, o.remainingQty⟩

def AtLevel (s : Symbol) (side : Side) (p : ℤ) (o : Order) : Prop :=
  o.symbol = s ∧ o.type = .limit ∧ o.status.live ∧ o.side = side ∧ o.price = p

instance (s : Symbol) (side : Side) (p : ℤ) : DecidablePred (AtLevel s side p) :=
  fun _ => inferInstanceAs (Decidable (_ ∧ _))

theorem mem_queueAt_liveOrders {orders : OrderMap} {bound : ℕ} (hfiled : Filed orders bound)
    (hkept : ∀ id o, orders.lookup id = some o → Kept o) (s : Symbol) (side : Side) (p : ℤ)
    (q : Quote) :
    q ∈ (queueAt side p (liveOrders orders bound s)).map RestingOrder.toQuote ↔
      ∃ o ∈ tableOrders orders, AtLevel s side p o ∧ o.quote = q := by
  rw [List.mem_map]
  constructor
  · rintro ⟨r, hr, rfl⟩
    obtain ⟨hlive, hside, hprice⟩ := mem_queueAt.mp hr
    obtain ⟨o, ho, hres⟩ := (mem_liveOrders hfiled).mp hlive
    obtain ⟨⟨hs, ht, hl⟩, hq⟩ := restingOf_eq_some_iff.mp hres
    rw [hq] at hside hprice
    exact ⟨o, mem_tableOrders.mpr ⟨_, ho⟩, ⟨hs, ht, hl, hside, hprice⟩, hq.symm⟩
  · rintro ⟨o, ho, ⟨hs, ht, hl, hside, hprice⟩, rfl⟩
    have hlookup := hfiled.lookup ho
    have hpos := (hkept _ _ hlookup).remaining_pos hl
    refine ⟨⟨o.quote, hpos⟩, mem_queueAt.mpr ⟨?_, hside, hprice⟩, rfl⟩
    exact (mem_liveOrders hfiled).mpr
      ⟨o, hlookup, restingOf_eq_some_iff.mpr ⟨⟨hs, ht, hl⟩, rfl⟩⟩

theorem queueAt_liveOrders {orders : OrderMap} {bound : ℕ} (hfiled : Filed orders bound)
    (hkept : ∀ id o, orders.lookup id = some o → Kept o) (s : Symbol)
    (hunique : UniqueIds (liveOrders orders bound s)) (side : Side) (p : ℤ) :
    (((queueAt side p (liveOrders orders bound s)).map RestingOrder.toQuote : List Quote) :
        Multiset Quote) =
      ((tableOrders orders).filter (AtLevel s side p)).map Order.quote := by
  have hleft : ((queueAt side p (liveOrders orders bound s)).map RestingOrder.toQuote).Nodup := by
    apply List.Nodup.of_map Quote.id
    rw [List.map_map]
    exact List.Nodup.sublist (List.filter_sublist.map _) hunique
  have hright : (((tableOrders orders).filter (AtLevel s side p)).map Order.quote).Nodup := by
    apply Multiset.Nodup.map_on _ (hfiled.nodup_tableOrders.filter _)
    intro o ho o' ho' hq
    have hlookup := hfiled.lookup (Multiset.mem_of_mem_filter ho)
    have hlookup' := hfiled.lookup (Multiset.mem_of_mem_filter ho')
    have hid : o.internalId = o'.internalId := congrArg Quote.id hq
    rw [hid, hlookup'] at hlookup
    exact (Option.some.inj hlookup).symm
  apply (Multiset.Nodup.ext (Multiset.coe_nodup.mpr hleft) hright).mpr
  intro q
  rw [Multiset.mem_coe, mem_queueAt_liveOrders hfiled hkept, Multiset.mem_map]
  constructor
  · rintro ⟨o, ho, hat, hq⟩
    exact ⟨o, Multiset.mem_filter.mpr ⟨ho, hat⟩, hq⟩
  · rintro ⟨o, ho, hq⟩
    exact ⟨o, Multiset.mem_of_mem_filter ho, Multiset.of_mem_filter ho, hq⟩

theorem Agrees.priceLevels {m : OrderManager} (h : Agrees m) (s : Symbol) {side : Side}
    {levels : BookSide side}
    (harranged : Arranged side levels.entries (liveOrders m.orders m.nextOrderId s))
    (hunique : UniqueIds (liveOrders m.orders m.nextOrderId s)) :
    (∀ l ∈ OrderBook.priceLevels levels,
        l.totalQty = wrapInt64 (((tableOrders m.orders).filter (AtLevel s side l.price)).map
          Order.remainingQty).sum ∧
        l.orderCount = ((tableOrders m.orders).filter (AtLevel s side l.price)).card ∧
        0 < l.orderCount) ∧
      ∀ o ∈ tableOrders m.orders, ∀ p, AtLevel s side p o →
        ∃ l ∈ OrderBook.priceLevels levels, l.price = p := by
  constructor
  · intro l hl
    obtain ⟨⟨p, q⟩, hlevel, rfl⟩ := List.mem_map.mp hl
    have hfind : levels.entries.dlookup p = some q :=
      List.mem_dlookup harranged.nodup_keys hlevel
    have hqueue := harranged.queue p
    rw [hfind, Option.getD_some] at hqueue
    have hquotes : ((q.map BookEntry.quote : List Quote) : Multiset Quote) =
        ((tableOrders m.orders).filter (AtLevel s side p)).map Order.quote := by
      rw [hqueue]
      exact queueAt_liveOrders h.filed h.kept s hunique side p
    refine ⟨?_, ?_, List.length_pos_iff.mpr (harranged.nonempty _ hlevel)⟩
    · have hsum := congrArg (fun qs : Multiset Quote => (qs.map Quote.qty).sum) hquotes
      simp only [Multiset.map_coe, List.map_map, Multiset.map_map, Multiset.sum_coe] at hsum
      exact congrArg wrapInt64 hsum
    · have hcard := congrArg Multiset.card hquotes
      rw [Multiset.coe_card, List.length_map, Multiset.card_map] at hcard
      exact hcard
  · intro o ho p hat
    have hquote := (mem_queueAt_liveOrders h.filed h.kept s side p o.quote).mpr ⟨o, ho, hat, rfl⟩
    obtain ⟨r, hr, -⟩ := List.mem_map.mp hquote
    obtain ⟨hlive, hside, hprice⟩ := mem_queueAt.mp hr
    have hkey := harranged.key_of_mem hlive hside
    rw [hprice] at hkey
    rw [← OrderBook.priceLevels_price, List.mem_map] at hkey
    exact hkey

end Oems
