import Oems.RiskSpec
import Oems.Lib.Machine
import Oems.Lib.SlidingWindow

namespace Oems

open Lib SlidingWindow

/-- A call on the risk manager. A check comes with the reading of the clock that
it takes. -/
inductive RiskOp where
  | check (now : ℤ) (req : RiskRequest)
  | setLimits (limits : RiskLimits)
  | setReferencePrice (symbol : Symbol) (price : ℤ)
  | setSymbolConfig (symbol : Symbol) (config : SymbolConfig)

namespace RiskOp

def reading : RiskOp → Option ℤ
  | check now _ => some now
  | _ => none

def readings (ops : List RiskOp) : List ℤ := ops.filterMap reading

def admittedAt : RiskOp × Result Unit → Option ℤ
  | (check now _, .ok ()) => some now
  | _ => none

theorem eq_check_of_admittedAt {op : RiskOp} {res : Result Unit} {t : ℤ}
    (h : admittedAt (op, res) = some t) : ∃ req, op = check t req ∧ res = .ok () := by
  cases op with
  | check now req =>
    cases res with
    | error err => cases h
    | ok u =>
      cases h
      exact ⟨req, rfl, rfl⟩
  | setLimits limits => cases h
  | setReferencePrice symbol price => cases h
  | setSymbolConfig symbol config => cases h

theorem readings_cons (op : RiskOp) (ops : List RiskOp) :
    readings (op :: ops) = op.reading.toList ++ readings ops := by
  cases op <;> rfl

theorem readings_append (ops ops' : List RiskOp) :
    readings (ops ++ ops') = readings ops ++ readings ops' :=
  List.filterMap_append

end RiskOp

namespace RiskManager

open RiskOp

def step (r : RiskManager) : RiskOp → Result Unit × RiskManager
  | .check now req => r.check now req
  | .setLimits limits => (.ok (), r.setLimits limits)
  | .setReferencePrice symbol price => (.ok (), r.setReferencePrice symbol price)
  | .setSymbolConfig symbol config => (.ok (), r.setSymbolConfig symbol config)

abbrev run (r : RiskManager) (ops : List RiskOp) : RiskManager := (Machine.run step r ops).2

def admissions (r : RiskManager) (ops : List RiskOp) : List ℤ :=
  (ops.zip (Machine.run step r ops).1).filterMap admittedAt

theorem admissions_cons (r : RiskManager) (op : RiskOp) (ops : List RiskOp) :
    r.admissions (op :: ops) =
      (admittedAt (op, (r.step op).1)).toList ++ (r.step op).2.admissions ops := by
  rw [admissions, Machine.run, List.zip_cons_cons, List.filterMap_cons]
  cases admittedAt (op, (r.step op).1) <;> rfl

theorem admissions_append (r : RiskManager) (ops ops' : List RiskOp) :
    r.admissions (ops ++ ops') = r.admissions ops ++ (r.run ops).admissions ops' := by
  rw [admissions, Machine.run_append, List.zip_append (Machine.length_run step r ops).symm,
    List.filterMap_append]
  rfl

theorem admissions_split {r : RiskManager} {ops : List RiskOp} {before after : List ℤ} {t : ℤ}
    (h : r.admissions ops = before ++ t :: after) :
    ∃ pre req post, ops = pre ++ .check t req :: post ∧ r.admissions pre = before ∧
      ((r.run pre).check t req).1 = .ok () := by
  induction ops generalizing r before with
  | nil => exact absurd h.symm (List.append_ne_nil_of_right_ne_nil before (List.cons_ne_nil t after))
  | cons op ops ih =>
    rw [admissions_cons] at h
    cases hadm : admittedAt (op, (r.step op).1) with
    | none =>
      rw [hadm] at h
      obtain ⟨pre, req, post, rfl, hpre, hok⟩ := ih h
      refine ⟨op :: pre, req, post, rfl, ?_, hok⟩
      rw [admissions_cons, hadm, hpre]
      rfl
    | some s =>
      rw [hadm, Option.toList_some, List.singleton_append] at h
      cases before with
      | nil =>
        obtain ⟨rfl, -⟩ := List.cons.inj h
        obtain ⟨req, rfl, hok⟩ := eq_check_of_admittedAt hadm
        exact ⟨[], req, ops, rfl, rfl, hok⟩
      | cons b before =>
        obtain ⟨rfl, hrest⟩ := List.cons.inj h
        obtain ⟨pre, req, post, rfl, hpre, hok⟩ := ih hrest
        refine ⟨op :: pre, req, post, rfl, ?_, hok⟩
        rw [admissions_cons, hadm, hpre]
        rfl

theorem admissions_sublist (r : RiskManager) (ops : List RiskOp) :
    (r.admissions ops).Sublist (readings ops) := by
  induction ops generalizing r with
  | nil => exact List.Sublist.refl []
  | cons op ops ih =>
    rw [admissions_cons, readings_cons]
    apply List.Sublist.append _ (ih _)
    cases op with
    | check now req =>
      cases hout : (r.step (.check now req)).1 with
      | error err => exact List.nil_sublist _
      | ok u => exact List.Sublist.refl _
    | setLimits limits => exact List.nil_sublist _
    | setReferencePrice symbol price => exact List.nil_sublist _
    | setSymbolConfig symbol config => exact List.nil_sublist _

/-- The times that a check finds in the deque once the old ones are gone. -/
def window (r : RiskManager) (now : ℤ) : List ℤ := expire (now - 10 ^ 9) r.recentOrders

theorem hasRoom_iff {r : RiskManager} {now : ℤ} :
    r.HasRoom now ↔ ((r.window now).length : ℤ) < r.limits.maxOrdersPerSecond :=
  Iff.rfl

/-- What a check can do: a rule fails and nothing changes, or the deque is pruned
and the request is refused or noted. -/
theorem check_cases (r : RiskManager) (now : ℤ) (req : RiskRequest) :
    (∃ err, r.checkRules req = .error err ∧ r.check now req = (.error err, r)) ∨
    (r.checkRules req = .ok () ∧ ¬ r.HasRoom now ∧ r.check now req =
      (.error .riskBreachRateLimit, { r with recentOrders := r.window now })) ∨
    (r.checkRules req = .ok () ∧ r.HasRoom now ∧ r.check now req =
      (.ok (), { r with recentOrders := r.window now ++ [now] })) := by
  rw [check]
  cases hrules : r.checkRules req with
  | error err => exact Or.inl ⟨err, rfl, rfl⟩
  | ok u =>
    rw [hasRoom_iff]
    by_cases hroom : ((r.window now).length : ℤ) < r.limits.maxOrdersPerSecond
    · exact Or.inr (Or.inr ⟨rfl, hroom, if_neg (not_le.mpr hroom)⟩)
    · exact Or.inr (Or.inl ⟨rfl, hroom, if_pos (not_lt.mp hroom)⟩)

/-- The deque is the end of the log of admissions. What it has lost had expired
for a check before. -/
def Kept (log seen : List ℤ) (r : RiskManager) : Prop :=
  ∃ old, log = old ++ r.recentOrders ∧ ∀ t ∈ old, ∃ now ∈ seen, t < now - 10 ^ 9

variable {log seen : List ℤ} {r : RiskManager}

theorem Kept.mono {r' : RiskManager} (h : Kept log seen r) (hsame : r'.recentOrders = r.recentOrders)
    (seen' : List ℤ) : Kept log (seen ++ seen') r' := by
  obtain ⟨old, hlog, hold⟩ := h
  refine ⟨old, by rw [hlog, hsame], fun t ht => ?_⟩
  obtain ⟨now, hnow, hlt⟩ := hold t ht
  exact ⟨now, List.mem_append_left _ hnow, hlt⟩

theorem Kept.expire (h : Kept log seen r) (now : ℤ) :
    ∃ old, log = old ++ r.window now ∧ ∀ t ∈ old, ∃ s ∈ seen ++ [now], t < s - 10 ^ 9 := by
  obtain ⟨old, hlog, hold⟩ := h
  obtain ⟨gone, hgone, hlt⟩ := expire_append (now - 10 ^ 9) r.recentOrders
  refine ⟨old ++ gone, ?_, fun t ht => ?_⟩
  · rw [hlog, List.append_assoc, window, ← hgone]
  · obtain ht | ht := List.mem_append.mp ht
    · obtain ⟨s, hs, hts⟩ := hold t ht
      exact ⟨s, List.mem_append_left _ hs, hts⟩
    · exact ⟨now, by simp, hlt t ht⟩

theorem Kept.step (h : Kept log seen r) (op : RiskOp) :
    Kept (log ++ (admittedAt (op, (r.step op).1)).toList) (seen ++ op.reading.toList)
      (r.step op).2 := by
  cases op with
  | check now req =>
    obtain ⟨err, -, hcheck⟩ | ⟨-, -, hcheck⟩ | ⟨-, -, hcheck⟩ := r.check_cases now req
    · simp only [RiskManager.step, hcheck, admittedAt, Option.toList_none, List.append_nil]
      exact h.mono rfl _
    · obtain ⟨old, hlog, hold⟩ := h.expire now
      simp only [RiskManager.step, hcheck, admittedAt, Option.toList_none, List.append_nil]
      exact ⟨old, hlog, hold⟩
    · obtain ⟨old, hlog, hold⟩ := h.expire now
      simp only [RiskManager.step, hcheck, admittedAt, Option.toList_some]
      exact ⟨old, by rw [hlog, List.append_assoc], hold⟩
  | setLimits limits =>
    simp only [admittedAt, Option.toList_none, List.append_nil]
    exact h.mono rfl _
  | setReferencePrice symbol price =>
    simp only [admittedAt, Option.toList_none, List.append_nil]
    exact h.mono rfl _
  | setSymbolConfig symbol config =>
    simp only [admittedAt, Option.toList_none, List.append_nil]
    exact h.mono rfl _

theorem Kept.run (h : Kept log seen r) (ops : List RiskOp) :
    Kept (log ++ r.admissions ops) (seen ++ readings ops) (r.run ops) := by
  induction ops generalizing log seen r with
  | nil =>
    change Kept (log ++ []) (seen ++ []) r
    rwa [List.append_nil, List.append_nil]
  | cons op ops ih =>
    have hrest := ih (h.step op)
    rwa [List.append_assoc, List.append_assoc, ← admissions_cons, ← readings_cons] at hrest

/-- With a clock that never goes back, a check finds the admissions of the last
second in the deque, all of them and nothing else. -/
theorem window_eq (limits : RiskLimits) (ops : List RiskOp) (now : ℤ)
    (hle : ∀ t ∈ readings ops, t ≤ now) (hsorted : (readings ops).Pairwise (· ≤ ·)) :
    ((new limits).run ops).window now =
      since (now - 10 ^ 9) ((new limits).admissions ops) := by
  have hstart : Kept [] [] (new limits) := ⟨[], rfl, by simp⟩
  obtain ⟨old, hlog, hold⟩ := hstart.run ops
  rw [List.nil_append] at hlog hold
  have hadm : ((new limits).admissions ops).Pairwise (· ≤ ·) :=
    hsorted.sublist (admissions_sublist _ _)
  have hrecent : ((new limits).run ops).recentOrders.Pairwise (· ≤ ·) := by
    rw [hlog] at hadm
    exact (List.pairwise_append.mp hadm).2.1
  have hexpired : ∀ t ∈ old, t < now - 10 ^ 9 := by
    intro t ht
    obtain ⟨s, hs, hlt⟩ := hold t ht
    have := hle s hs
    omega
  rw [window, expire_eq_since hrecent, hlog, since_append_of_lt hexpired]

/-- The second manager is the first, or has already dropped what no check from
`bound` on will count. -/
def Alike (bound : ℤ) (r r' : RiskManager) : Prop :=
  r' = r ∨ r' = { r with recentOrders := r.window bound }

theorem checkRateLimit_window {bound now : ℤ} (h : bound ≤ now) (r : RiskManager) :
    checkRateLimit { r with recentOrders := r.window bound } now = r.checkRateLimit now := by
  have hexpire := expire_expire (sub_le_sub_right h (10 ^ 9)) r.recentOrders
  simp only [expire] at hexpire
  simp only [checkRateLimit, window, expire, hexpire]

theorem Alike.step {bound : ℤ} {r r' : RiskManager} (h : Alike bound r r') (op : RiskOp)
    (hop : ∀ now ∈ op.reading, bound ≤ now) :
    (r.step op).1 = (r'.step op).1 ∧ Alike bound (r.step op).2 (r'.step op).2 := by
  obtain rfl | rfl := h
  · exact ⟨rfl, Or.inl rfl⟩
  · cases op with
    | check now req =>
      have hrules : checkRules { r with recentOrders := r.window bound } req = r.checkRules req :=
        rfl
      simp only [RiskManager.step, check, hrules]
      cases r.checkRules req with
      | error err => exact ⟨rfl, Or.inr rfl⟩
      | ok u =>
        have hsame := checkRateLimit_window (hop now rfl) r
        exact ⟨congrArg Prod.fst hsame.symm, Or.inl (congrArg Prod.snd hsame)⟩
    | setLimits limits => exact ⟨rfl, Or.inr rfl⟩
    | setReferencePrice symbol price => exact ⟨rfl, Or.inr rfl⟩
    | setSymbolConfig symbol config => exact ⟨rfl, Or.inr rfl⟩

theorem Alike.run {bound : ℤ} {r r' : RiskManager} (h : Alike bound r r') {ops : List RiskOp}
    (hops : ∀ now ∈ readings ops, bound ≤ now) :
    (Machine.run RiskManager.step r ops).1 = (Machine.run RiskManager.step r' ops).1 := by
  have hall : ∀ op ∈ ops, ∀ now ∈ op.reading, bound ≤ now := fun op hop now hnow =>
    hops now (List.mem_filterMap.mpr ⟨op, hop, hnow⟩)
  have hsim := Machine.simulation_along (R := Alike bound) (O := Eq)
    (C := fun _ (op : RiskOp) => ∀ now ∈ op.reading, bound ≤ now)
    (fun _ _ op hop hr => hr.step op hop) h (Machine.along_of_mem (fun op hop _ => hall op hop) r)
  rw [List.forall₂_eq_eq_eq] at hsim
  exact hsim.1

end RiskManager

open RiskOp

/-- The rate limit over a run. -/
structure EnforcesWindow (limits : RiskLimits) (ops : List RiskOp) : Prop where
  /-- A request that meets the other rules is let through exactly when the last
  second has seen fewer admissions than the limit now allows. -/
  admitted_iff : ∀ pre now req post, ops = pre ++ check now req :: post →
    ((RiskManager.new limits).run pre).checkRules req = .ok () →
    ((((RiskManager.new limits).run pre).check now req).1 = .ok () ↔
      ((since (now - 10 ^ 9) ((RiskManager.new limits).admissions pre)).length : ℤ) <
        ((RiskManager.new limits).run pre).limits.maxOrdersPerSecond)
  /-- A request that is refused, by whichever rule, is no admission, and what comes
  later is answered as if it had not been made. -/
  refused_free : ∀ pre now req post err, ops = pre ++ check now req :: post →
    (((RiskManager.new limits).run pre).check now req).1 = .error err →
    (RiskManager.new limits).admissions (pre ++ [check now req]) =
        (RiskManager.new limits).admissions pre ∧
      (Machine.run RiskManager.step ((RiskManager.new limits).run (pre ++ [check now req]))
          post).1 =
        (Machine.run RiskManager.step ((RiskManager.new limits).run pre) post).1
  /-- While the limit stays the same, no closed interval of a second has more
  admissions than it allows. Those made before count where a later one falls into
  the interval. -/
  per_second : ∀ pre ops' post m, ops = pre ++ ops' ++ post →
    (∀ part, part <+: ops' →
      ((RiskManager.new limits).run (pre ++ part)).limits.maxOrdersPerSecond = (m : ℕ)) →
    ∀ a, (inside (10 ^ 9) a (((RiskManager.new limits).run pre).admissions ops')).length ≤ m ∧
      (inside (10 ^ 9) a (((RiskManager.new limits).run pre).admissions ops') ≠ [] →
        (inside (10 ^ 9) a ((RiskManager.new limits).admissions (pre ++ ops'))).length ≤ m)

section Claims

variable {limits : RiskLimits} {ops pre post : List RiskOp} {now : ℤ} {req : RiskRequest}

theorem readings_pre (h : (readings ops).Pairwise (· ≤ ·)) (hsplit : ops = pre ++ post) :
    (readings pre).Pairwise (· ≤ ·) := by
  rw [hsplit, readings_append] at h
  exact (List.pairwise_append.mp h).1

theorem readings_le (h : (readings ops).Pairwise (· ≤ ·))
    (hsplit : ops = pre ++ check now req :: post) :
    (∀ t ∈ readings pre, t ≤ now) ∧ ∀ t ∈ readings post, now ≤ t := by
  rw [hsplit, readings_append, readings_cons] at h
  obtain ⟨-, hlater, hle⟩ := List.pairwise_append.mp h
  exact ⟨fun t ht => hle t ht now (by simp [reading]), (List.pairwise_cons.mp hlater).1⟩

theorem admitted_iff (h : (readings ops).Pairwise (· ≤ ·))
    (hsplit : ops = pre ++ check now req :: post)
    (hrules : ((RiskManager.new limits).run pre).checkRules req = .ok ()) :
    (((RiskManager.new limits).run pre).check now req).1 = .ok () ↔
      ((since (now - 10 ^ 9) ((RiskManager.new limits).admissions pre)).length : ℤ) <
        ((RiskManager.new limits).run pre).limits.maxOrdersPerSecond := by
  rw [← RiskManager.window_eq limits pre now (readings_le h hsplit).1 (readings_pre h hsplit),
    ← RiskManager.hasRoom_iff]
  obtain ⟨err, herr, -⟩ | ⟨-, hroom, hcheck⟩ | ⟨-, hroom, hcheck⟩ :=
    ((RiskManager.new limits).run pre).check_cases now req
  · rw [hrules] at herr
    cases herr
  · simp [hcheck, hroom]
  · simp [hcheck, hroom]

theorem refused_free {err : OemsError} (h : (readings ops).Pairwise (· ≤ ·))
    (hsplit : ops = pre ++ check now req :: post)
    (herr : (((RiskManager.new limits).run pre).check now req).1 = .error err) :
    (RiskManager.new limits).admissions (pre ++ [check now req]) =
        (RiskManager.new limits).admissions pre ∧
      (Machine.run RiskManager.step ((RiskManager.new limits).run (pre ++ [check now req]))
          post).1 =
        (Machine.run RiskManager.step ((RiskManager.new limits).run pre) post).1 := by
  constructor
  · rw [RiskManager.admissions_append, RiskManager.admissions_cons]
    have hnone : admittedAt (check now req,
        (((RiskManager.new limits).run pre).step (check now req)).1) = none := by
      rw [RiskManager.step, herr]
      rfl
    rw [hnone]
    exact List.append_nil _
  · have hstate : (RiskManager.new limits).run (pre ++ [check now req]) =
        (((RiskManager.new limits).run pre).check now req).2 := by
      rw [RiskManager.run, Machine.run_append]
      rfl
    have halike : RiskManager.Alike now ((RiskManager.new limits).run pre)
        ((RiskManager.new limits).run (pre ++ [check now req])) := by
      rw [hstate]
      obtain ⟨_, -, hcheck⟩ | ⟨-, -, hcheck⟩ | ⟨-, -, hcheck⟩ :=
        ((RiskManager.new limits).run pre).check_cases now req
      · rw [hcheck]
        exact Or.inl rfl
      · rw [hcheck]
        exact Or.inr rfl
      · rw [hcheck] at herr
        cases herr
    exact (halike.run (readings_le h hsplit).2).symm

theorem paced {ops' : List RiskOp} {m : ℕ} (h : (readings ops).Pairwise (· ≤ ·))
    (hsplit : ops = pre ++ ops' ++ post)
    (hlimit : ∀ part, part <+: ops' →
      ((RiskManager.new limits).run (pre ++ part)).limits.maxOrdersPerSecond = m) :
    Paced (10 ^ 9) m ((RiskManager.new limits).admissions pre)
      (((RiskManager.new limits).run pre).admissions ops') := by
  intro before t after hadm
  obtain ⟨part, req, rest, rfl, rfl, hok⟩ := RiskManager.admissions_split hadm
  have hrun : (RiskManager.new limits).run (pre ++ part) =
      ((RiskManager.new limits).run pre).run part := by
    rw [RiskManager.run, Machine.run_append]
  have hpart : ops = (pre ++ part) ++ check t req :: (rest ++ post) := by
    rw [hsplit]
    simp
  rw [← hrun] at hok
  have hrules : ((RiskManager.new limits).run (pre ++ part)).checkRules req = .ok () := by
    obtain ⟨_, -, hcheck⟩ | ⟨hrules, -, -⟩ | ⟨hrules, -, -⟩ :=
      ((RiskManager.new limits).run (pre ++ part)).check_cases t req
    · rw [hcheck] at hok
      cases hok
    · exact hrules
    · exact hrules
  have hfew := (admitted_iff h hpart hrules).mp hok
  rw [hlimit part (List.prefix_append _ _), RiskManager.admissions_append] at hfew
  exact Int.ofNat_lt.mp hfew

end Claims

/-- The rate limiter enforces a sliding window, whatever calls are made and however
the limits change, as long as the clock does not go back. -/
theorem rateLimit_slidingWindow (limits : RiskLimits) (ops : List RiskOp)
    (h : (readings ops).Pairwise (· ≤ ·)) : EnforcesWindow limits ops where
  admitted_iff _ _ _ _ hsplit hrules := admitted_iff h hsplit hrules
  refused_free _ _ _ _ _ hsplit herr := refused_free h hsplit herr
  per_second pre ops' post m hsplit hlimit a := by
    have hpaced := paced h hsplit hlimit
    rw [RiskManager.admissions_append]
    exact ⟨hpaced.length_inside_le' a, hpaced.length_inside_le a⟩

def burst : List RiskOp :=
  [check 0 nearReference, check (10 ^ 9) nearReference, setLimits ⟨10000, 100000000, 1000, 2⟩,
    check (10 ^ 9) nearReference]

theorem burst_slidingWindow : EnforcesWindow ⟨10000, 100000000, 1000, 1⟩ burst :=
  rateLimit_slidingWindow _ burst (by decide)

-- an admission one second ago still counts
example : (RiskManager.new ⟨10000, 100000000, 1000, 1⟩).admissions burst = [0, 10 ^ 9] := by
  decide

end Oems
