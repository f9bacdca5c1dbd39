import AgentDocker.Core.Usage
import AgentDocker.Lib.Outcomes

/-!
# Aggregates as sums

Everything an aggregate holds is a count or a sum over samples. `Measure` names
these figures, `read` reads one off an aggregate and `weigh` says what one sample
adds to it. `plus` puts two aggregates together without the range of a `u64`, and
the functions of the source are that sum where it fits and one refusal where it
does not; so putting a sample in, taking one out and pricing one are one equation
each for every figure of an aggregate that knows how many samples are exact.
-/

namespace AgentDocker.Core

open Lib

inductive Measure where
  | samples
  | exact
  | sum (c : Counter)
  | known (c : Counter)
  | costSum
  | costKnown

/-- What one sample adds to each figure. -/
def weigh (counters : Counters) (exact : Option Bool) (cost : Option Nat) : Measure → Nat
  | .samples => 1
  | .exact => if exact = some true then 1 else 0
  | .sum c => (counters.values c).getD 0
  | .known c => (counters.values c).elim 0 fun _ => 1
  | .costSum => cost.getD 0
  | .costKnown => cost.elim 0 fun _ => 1

/-- What a price adds to them. -/
def weighPrice (cost : Nat) : Measure → Nat
  | .costSum => cost
  | .costKnown => 1
  | _ => 0

theorem weigh_priced (counters : Counters) (exact : Option Bool) (cost : Nat) (m : Measure) :
    weigh counters exact (some cost) m = weigh counters exact none m + weighPrice cost m := by
  cases m <;> simp [weigh, weighPrice]

/-- What an aggregate is told of a sample. -/
structure Counted where
  counters : Counters
  exact : Option Bool
  cost : Option Nat

def Total.plus (t u : Total) : Total := ⟨t.sum + u.sum, t.knownSamples + u.knownSamples⟩

/-- The total of one sample. -/
def Total.one (value : Option Nat) : Total := ⟨value.getD 0, value.elim 0 fun _ => 1⟩

namespace Aggregate

def read (a : Aggregate) : Measure → Nat
  | .samples => a.samples
  | .exact => a.exact.getD 0
  | .sum c => (a.totals c).sum
  | .known c => (a.totals c).knownSamples
  | .costSum => a.cost.sum
  | .costKnown => a.cost.knownSamples

/-- Every figure is a `u64`. -/
def Bounded (a : Aggregate) : Prop := ∀ m, a.read m < u64Bound

theorem read_empty (m : Measure) : empty.read m = 0 := by
  cases m <;> rfl

theorem empty_valid : empty.Valid := by decide

variable {a b : Aggregate} {s : Counted} {n m : Nat} {t t' u : Total} {value : Option Nat}

/-- The figures are all there is to an aggregate that knows its exact samples. -/
theorem eq_of_read (ha : a.exact.isSome = true) (hb : b.exact.isSome = true)
    (h : ∀ m, a.read m = b.read m) : a = b := by
  obtain ⟨samples, totals, _, cost⟩ := a
  obtain ⟨samples', totals', _, cost'⟩ := b
  obtain ⟨n, rfl⟩ := Option.isSome_iff_exists.mp ha
  obtain ⟨n', rfl⟩ := Option.isSome_iff_exists.mp hb
  have hsamples : samples = samples' := h .samples
  have hexact : n = n' := h .exact
  have htotals : totals = totals' := by
    funext c
    have hsum := h (.sum c)
    have hknown := h (.known c)
    simp only [read] at hsum hknown
    cases hc : totals c
    cases hc' : totals' c
    simp_all
  have hcost : cost = cost' := by
    have hsum := h .costSum
    have hknown := h .costKnown
    simp only [read] at hsum hknown
    cases cost
    cases cost'
    simp_all
  rw [hsamples, hexact, htotals, hcost]

/-- An aggregate of no sample is empty in every figure. -/
theorem read_eq_zero (hvalid : a.Valid) (hzero : a.samples = 0) (m : Measure) : a.read m = 0 := by
  obtain ⟨htotals, hcost, hexact⟩ := hvalid
  cases m with
  | samples => exact hzero
  | exact =>
    simp only [read]
    cases h : a.exact with
    | none => rfl
    | some n =>
      have := hexact n h
      simp only [Option.getD_some]
      omega
  | sum c =>
    have h := htotals c
    exact h.2 (by have := h.1; omega)
  | known c =>
    have := (htotals c).1
    simp only [read]
    omega
  | costSum => exact hcost.2 (by have := hcost.1; omega)
  | costKnown =>
    have := hcost.1
    simp only [read]
    omega

/-! ## Sums of aggregates -/

def plus (a b : Aggregate) : Aggregate :=
  ⟨a.samples + b.samples, fun c => (a.totals c).plus (b.totals c),
    a.exact.bind fun n => b.exact.map (n + ·), a.cost.plus b.cost⟩

def one (s : Counted) : Aggregate :=
  ⟨1, fun c => .one (s.counters.values c), s.exact.map fun e => if e then 1 else 0, .one s.cost⟩

/-- The samples and the sums are in range, and then so is every count. -/
def Fits (a : Aggregate) : Prop :=
  a.samples < u64Bound ∧ (∀ c, (a.totals c).sum < u64Bound) ∧ a.cost.sum < u64Bound

theorem coherent_plus (ht : coherent n t) (hu : coherent m u) : coherent (n + m) (t.plus u) := by
  simp only [coherent, Total.plus] at *
  omega

theorem Valid.plus (ha : a.Valid) (hb : b.Valid) : (a.plus b).Valid := by
  refine ⟨fun c => coherent_plus (ha.1 c) (hb.1 c), coherent_plus ha.2.1 hb.2.1, fun n hn => ?_⟩
  obtain ⟨m, hm, k, hk, rfl⟩ : ∃ m, a.exact = some m ∧ ∃ k, b.exact = some k ∧ m + k = n := by
    simpa [Aggregate.plus, Option.bind_eq_some_iff] using hn
  exact Nat.add_le_add (ha.2.2 m hm) (hb.2.2 k hk)

theorem coherent_one : coherent 1 (.one value) := by
  cases value <;> simp [coherent, Total.one]

theorem one_valid (s : Counted) : (one s).Valid := by
  refine ⟨fun c => coherent_one, coherent_one, fun n hn => ?_⟩
  obtain ⟨e, -, rfl⟩ : ∃ e, s.exact = some e ∧ (if e then 1 else 0) = n := by simpa [one] using hn
  cases e <;> simp [one]

theorem validate_eq_ok {u : Unit} : a.validate = .ok u ↔ a.Valid := by
  unfold validate
  split
  · next h => simp [h]
  · next h => simp [h]

theorem eachTotal_eq_ok {f : Counter → Except String Total} {g : Counter → Total} :
    eachTotal f = .ok g ↔ ∀ c, f c = .ok (g c) := by
  simp only [eachTotal, bind_eq_ok, pure_eq_ok]
  constructor
  · rintro ⟨_, _, _, _, _, _, _, _, _, _, rfl⟩ c
    cases c <;> assumption
  · intro h
    refine ⟨_, h .input, _, h .cacheReadInput, _, h .cacheWriteInput, _, h .output, _,
      h .reasoningOutput, ?_⟩
    funext c
    cases c <;> rfl

/-! ## Each function is the sum where it fits -/

theorem changeBy_checked : Checked outOfRange (n + m < u64Bound) (n + m) (changeBy false n m) := by
  simp +contextual [Checked, changeBy]

theorem mergeTotal_checked (u : Total) :
    Checked outOfRange ((t.plus u).sum < u64Bound ∧ (t.plus u).knownSamples < u64Bound) (t.plus u)
      (mergeTotal t u) :=
  .bind changeBy_checked fun _ => .map changeBy_checked

theorem changeTotal_checked (t : Total) (value : Option Nat) (h : t.sum < u64Bound)
    (hknown : t.knownSamples < u64Bound) :
    Checked outOfRange
      ((t.plus (.one value)).sum < u64Bound ∧ (t.plus (.one value)).knownSamples < u64Bound)
      (t.plus (.one value)) (changeTotal false t value) := by
  cases value with
  | none => exact .of_ok _ ⟨h, hknown⟩
  | some value => exact mergeTotal_checked (.one (some value))

theorem eachTotal_checked {f : Counter → Except String Total} {p : Counter → Prop}
    {g : Counter → Total} (h : ∀ c, Checked outOfRange (p c) (g c) (f c)) :
    Checked outOfRange (∀ c, p c) g (eachTotal f) := by
  have heach : Checked outOfRange _ _ (eachTotal f) :=
    .bind (h .input) fun _ => .bind (h .cacheReadInput) fun _ => .bind (h .cacheWriteInput) fun _ =>
      .bind (h .output) fun _ => .map (h .reasoningOutput)
  constructor
  · intro hall
    rw [heach.1 ⟨hall _, hall _, hall _, hall _, hall _⟩]
    congr 1
    funext c
    cases c <;> rfl
  · intro hnot
    refine heach.2 fun ⟨hi, hr, hw, ho, hg⟩ => hnot fun c => ?_
    cases c <;> assumption

/-- The counts of a valid aggregate are at most its samples. -/
theorem Valid.fits_iff (h : a.Valid) : a.Fits ↔ a.samples < u64Bound ∧
      (∀ c, (a.totals c).sum < u64Bound ∧ (a.totals c).knownSamples < u64Bound) ∧
      (a.cost.sum < u64Bound ∧ a.cost.knownSamples < u64Bound) ∧
      ∀ n, a.exact = some n → n < u64Bound := by
  constructor
  · rintro ⟨hsamples, htotals, hcost⟩
    exact ⟨hsamples, fun c => ⟨htotals c, Nat.lt_of_le_of_lt (h.1 c).1 hsamples⟩,
      ⟨hcost, Nat.lt_of_le_of_lt h.2.1.1 hsamples⟩,
      fun n hn => Nat.lt_of_le_of_lt (h.2.2 n hn) hsamples⟩
  · rintro ⟨hsamples, htotals, hcost, -⟩
    exact ⟨hsamples, fun c => (htotals c).1, hcost.1⟩

/-- A sum of valid aggregates is never found inconsistent. -/
theorem validate_checked (h : a.Valid) : Checked outOfRange True a (do a.validate; return a) := by
  rw [(validate_eq_ok (u := ())).mpr h]
  exact .of_ok _ trivial

theorem mergeExact_checked {n m : Option Nat} :
    Checked outOfRange (∀ k, (n.bind fun n => m.map (n + ·)) = some k → k < u64Bound)
      (n.bind fun n => m.map (n + ·)) (mergeExact n m) := by
  cases n with
  | none => exact .of_ok _ (by simp)
  | some =>
    cases m with
    | none => exact .of_ok _ (by simp)
    | some => exact Checked.congr (.map changeBy_checked) (by simp)

theorem changeExact_checked {n : Option Nat} {e : Option Bool}
    (h : ∀ k, n = some k → k < u64Bound) :
    Checked outOfRange
      (∀ k, (n.bind fun n => (e.map fun e => if e then 1 else 0).map (n + ·)) =
        some k → k < u64Bound)
      (n.bind fun n => (e.map fun e => if e then 1 else 0).map (n + ·))
        (changeExact false n e) := by
  cases n with
  | none => exact .of_ok _ (by simp)
  | some n =>
    match e with
    | none => exact .of_ok _ (by simp)
    | some false => exact .of_ok _ (by simpa using h n rfl)
    | some true => exact mergeExact_checked

theorem merge_checked (ha : a.Valid) (hb : b.Valid) :
    Checked outOfRange (a.plus b).Fits (a.plus b) (a.merge b) := by
  refine Checked.congr (.bind changeBy_checked fun _ =>
    .bind (eachTotal_checked fun c => mergeTotal_checked (b.totals c)) fun _ =>
    .bind (mergeTotal_checked b.cost) fun _ =>
    .bind mergeExact_checked fun _ => validate_checked (ha.plus hb)) ?_
  rw [(ha.plus hb).fits_iff]
  tauto

theorem addPriced_checked (h : a.Valid) (hfits : a.Fits) (s : Counted) :
    Checked outOfRange (a.plus (one s)).Fits (a.plus (one s))
      (a.addPriced s.counters s.exact s.cost) := by
  obtain ⟨-, htotals, hcost, hexact⟩ := h.fits_iff.mp hfits
  refine Checked.congr (.bind changeBy_checked fun _ =>
    .bind (changeExact_checked hexact) fun _ =>
    .bind (eachTotal_checked fun c =>
      changeTotal_checked (a.totals c) (s.counters.values c) (htotals c).1 (htotals c).2) fun _ =>
    .bind (changeTotal_checked a.cost s.cost hcost.1 hcost.2) fun _ =>
    validate_checked (h.plus (one_valid s))) ?_
  rw [(h.plus (one_valid s)).fits_iff]
  tauto

/-! ## Samples put in, taken out and priced -/

section

variable {a a' : Aggregate} {counters : Counters} {exact : Option Bool} {cost : Option Nat}

theorem Bounded.fits (h : a.Bounded) : a.Fits := ⟨h .samples, fun c => h (.sum c), h .costSum⟩

theorem Valid.bounded (h : a.Valid) (hfits : a.Fits) : a.Bounded := by
  obtain ⟨hsamples, htotals, hcost, hexact⟩ := h.fits_iff.mp hfits
  intro m
  cases m with
  | samples => exact hsamples
  | exact =>
    show a.exact.getD 0 < u64Bound
    cases hn : a.exact with
    | none => decide
    | some n => exact hexact n hn
  | sum c => exact (htotals c).1
  | known c => exact (htotals c).2
  | costSum => exact hcost.1
  | costKnown => exact hcost.2

theorem read_plus_one (hknows : a.exact.isSome = true) (hexact : exact.isSome = true)
    (m : Measure) :
    (a.plus (one ⟨counters, exact, cost⟩)).read m = a.read m + weigh counters exact cost m := by
  obtain ⟨_, hn⟩ := Option.isSome_iff_exists.mp hknows
  obtain ⟨_, rfl⟩ := Option.isSome_iff_exists.mp hexact
  cases m with
  | exact => simp [read, plus, one, weigh, hn]
  | _ => rfl

theorem addPriced_ok (hknows : a.exact.isSome = true) (hvalid : a.Valid) (hbounded : a.Bounded)
    (hexact : exact.isSome = true) (h : a.addPriced counters exact cost = .ok a') :
    a'.exact.isSome = true ∧ a'.Valid ∧ (∀ m, a'.read m = a.read m + weigh counters exact cost m) ∧
      a'.Bounded := by
  obtain ⟨hfits, rfl⟩ :=
    (addPriced_checked hvalid hbounded.fits ⟨counters, exact, cost⟩).ok_iff.mp h
  have hvalid' := hvalid.plus (one_valid ⟨counters, exact, cost⟩)
  refine ⟨?_, hvalid', read_plus_one hknows hexact, hvalid'.bounded hfits⟩
  obtain ⟨_, hn⟩ := Option.isSome_iff_exists.mp hknows
  simp [plus, one, hn, hexact]

/-- A sample whose figures fit is never refused. -/
theorem exists_addPriced (hknows : a.exact.isSome = true) (hvalid : a.Valid)
    (hexact : exact.isSome = true)
    (hfits : ∀ m, a.read m + weigh counters exact cost m < u64Bound) :
    ∃ a', a.addPriced counters exact cost = .ok a' := by
  have hbounded : a.Bounded := fun m => Nat.lt_of_le_of_lt (Nat.le_add_right ..) (hfits m)
  have hnext : (a.plus (one ⟨counters, exact, cost⟩)).Bounded := fun m =>
    read_plus_one hknows hexact m ▸ hfits m
  exact ⟨_, (addPriced_checked hvalid hbounded.fits ⟨counters, exact, cost⟩).1 hnext.fits⟩

theorem changeBy_remove {k : Nat} : changeBy true n m = .ok k ↔ n = k + m := by
  unfold changeBy
  simp only [if_true]
  split
  · next h =>
    rw [Except.ok.injEq]
    omega
  next h =>
  simp only [reduceCtorEq, false_iff]
  omega

theorem changeTotal_remove (h : changeTotal true t value = .ok t') :
    t.sum = t'.sum + value.getD 0 ∧ t.knownSamples = t'.knownSamples + value.elim 0 fun _ => 1 := by
  cases value with
  | none =>
    cases h
    exact ⟨rfl, rfl⟩
  | some =>
    simp only [changeTotal, bind_eq_ok, pure_eq_ok, changeBy_remove] at h
    obtain ⟨_, hsum, _, hknown, rfl⟩ := h
    exact ⟨hsum, hknown⟩

theorem changeExact_remove {count exact : Option Nat} {e : Option Bool}
    (hcount : count.isSome = true)
    (he : e.isSome = true) (h : changeExact true count e = .ok exact) :
    exact.isSome = true ∧ count.getD 0 = exact.getD 0 + if e = some true then 1 else 0 := by
  obtain ⟨_, rfl⟩ := Option.isSome_iff_exists.mp hcount
  obtain ⟨b, rfl⟩ := Option.isSome_iff_exists.mp he
  cases b with
  | false =>
    cases h
    simp
  | true =>
    simp only [changeExact, bind_eq_ok, pure_eq_ok, changeBy_remove] at h
    obtain ⟨_, hk, rfl⟩ := h
    simp [hk]

theorem removePriced_ok (hknows : a.exact.isSome = true) (hexact : exact.isSome = true)
    (h : a.removePriced counters exact cost = .ok a') :
    a'.exact.isSome = true ∧ a'.Valid ∧
      ∀ m, a.read m = a'.read m + weigh counters exact cost m := by
  simp only [removePriced, change, bind_eq_ok, pure_eq_ok, changeBy_remove, eachTotal_eq_ok,
    validate_eq_ok] at h
  obtain ⟨samples, hsamples, _, he, _, htotals, _, hprice, _, hvalid, rfl⟩ := h
  obtain ⟨hesome, he⟩ := changeExact_remove hknows hexact he
  refine ⟨hesome, hvalid, fun m => ?_⟩
  cases m with
  | samples => exact hsamples
  | exact => exact he
  | sum c => exact (changeTotal_remove (htotals c)).1
  | known c => exact (changeTotal_remove (htotals c)).2
  | costSum => exact (changeTotal_remove hprice).1
  | costKnown => exact (changeTotal_remove hprice).2

/-- The price is the only figure that changes. -/
theorem price_ok {cost : Nat} (h : a.price cost = .ok a') :
    a'.exact = a.exact ∧ a'.Valid ∧ (∀ m, a'.read m = a.read m + weighPrice cost m) ∧
      (a.Bounded → a'.Bounded) := by
  simp only [price, bind_eq_ok, pure_eq_ok, validate_eq_ok] at h
  obtain ⟨_, hprice, _, hvalid, rfl⟩ := h
  obtain ⟨hlt, rfl⟩ := (mergeTotal_checked (.one (some cost))).ok_iff.mp hprice
  refine ⟨rfl, hvalid, fun m => ?_,
    fun hb => hvalid.bounded ⟨hb .samples, fun c => hb (.sum c), hlt.1⟩⟩
  cases m <;> rfl

/-- A sample of the bucket still without a price can be given one that fits. -/
theorem exists_price {cost : Nat} (hvalid : a.Valid) (hroom : a.cost.knownSamples < a.samples)
    (hfits : ∀ m, a.read m + weighPrice cost m < u64Bound) : ∃ a', a.price cost = .ok a' := by
  refine ⟨{ a with cost := a.cost.plus (.one (some cost)) }, ?_⟩
  simp only [Aggregate.price, bind_eq_ok, pure_eq_ok, validate_eq_ok]
  refine ⟨_, (mergeTotal_checked (.one (some cost))).1 ⟨hfits .costSum, hfits .costKnown⟩, (),
    ⟨hvalid.1, ⟨hroom, fun h => ?_⟩, hvalid.2.2⟩, rfl⟩
  exact absurd h (Nat.succ_ne_zero _)

end

end Aggregate

end AgentDocker.Core
