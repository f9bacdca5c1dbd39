import AgentDocker.Core.Lease
import Mathlib.Data.Fintype.Pi

/-!
# Token accounting

Counters as a provider reports them, each known or not, and the aggregates that
add them up an hour at a time. Input and output totals include their cache and
reasoning components; an unknown counter stays unknown, and a known zero is not
missing data. An aggregate keeps, next to each sum, how many samples it is a sum
of, so that taking a sample out again gives back what was there before.

Counts are `u64`s: a proposal whose arithmetic leaves their range is refused, and
a refused proposal changes nothing.
-/

namespace AgentDocker.Core

/-- One more than the greatest `u64`. -/
def u64Bound : Nat := 18446744073709551616

inductive Counter where
  | input
  | cacheReadInput
  | cacheWriteInput
  | output
  | reasoningOutput
deriving DecidableEq, Repr

instance : Fintype Counter where
  elems := {.input, .cacheReadInput, .cacheWriteInput, .output, .reasoningOutput}
  complete c := by cases c <;> decide

structure Counters where
  inputTokens : Option Nat := none
  cacheReadInputTokens : Option Nat := none
  cacheWriteInputTokens : Option Nat := none
  outputTokens : Option Nat := none
  reasoningOutputTokens : Option Nat := none
deriving DecidableEq, Repr

namespace Counters

def values (counters : Counters) : Counter → Option Nat
  | .input => counters.inputTokens
  | .cacheReadInput => counters.cacheReadInputTokens
  | .cacheWriteInput => counters.cacheWriteInputTokens
  | .output => counters.outputTokens
  | .reasoningOutput => counters.reasoningOutputTokens

def fromValues (values : Counter → Option Nat) : Counters where
  inputTokens := values .input
  cacheReadInputTokens := values .cacheReadInput
  cacheWriteInputTokens := values .cacheWriteInput
  outputTokens := values .output
  reasoningOutputTokens := values .reasoningOutput

/-- Whether a running total went down. -/
def decreased (now old : Option Nat) : Bool :=
  now.any fun n => old.any fun o => decide (n < o)

/-- What was used between two running totals, unless one went down. A field that
lacks either baseline is unknown even if others advanced. -/
def delta (now previous : Counters) : Option Counters :=
  if ∃ c, decreased (now.values c) (previous.values c) = true then none
  else some (fromValues fun c =>
    (now.values c).bind fun n => (previous.values c).bind fun o =>
      if o ≤ n then some (n - o) else none)

end Counters

/-! ## Running totals -/

structure Baseline where
  time : Time
  counters : Counters
  epoch : Nat
deriving DecidableEq, Repr

structure CountGap where
  /-- Unknown means the earlier history is unknown, not that it began now. -/
  since : Option Time
  upTo : Time
deriving DecidableEq, Repr

structure Observation where
  baseline : Baseline
  contribution : Option Counters
  gap : Option CountGap
deriving DecidableEq, Repr

/-- One cumulative snapshot against the last. A decrease begins a new epoch,
never a negative contribution; an exact replay is nothing new. -/
def observeCumulative (previous : Option Baseline) (time : Time) (counters : Counters)
    (provesZeroBaseline : Bool) : Except String (Option Observation) :=
  match previous with
  | none =>
    if provesZeroBaseline then
      .ok (some ⟨⟨time, counters, 0⟩, some counters, none⟩)
    else
      .ok (some ⟨⟨time, counters, 0⟩, none, some ⟨none, time⟩⟩)
  | some previous =>
    if time < previous.time then
      .error "cumulative snapshot precedes its durable baseline"
    else if time = previous.time then
      if counters = previous.counters then .ok none
      else .error "cumulative snapshots disagree at the same timestamp"
    else
      match counters.delta previous.counters with
      | some delta => .ok (some ⟨⟨time, counters, previous.epoch⟩, some delta, none⟩)
      | none =>
        if previous.epoch + 1 < u64Bound then
          .ok (some ⟨⟨time, counters, previous.epoch + 1⟩, none, some ⟨some previous.time, time⟩⟩)
        else
          .error "counter epoch overflows"

/-! ## Aggregates -/

structure Total where
  sum : Nat := 0
  knownSamples : Nat := 0
deriving DecidableEq, Repr

structure Aggregate where
  samples : Nat
  totals : Counter → Total
  /-- How many of `samples` are a provider's own figure for one response; unknown
  once a bucket written before this was counted is in it. -/
  exact : Option Nat
  /-- The cost of the samples that carried one, in micro-dollars. -/
  cost : Total
deriving DecidableEq

namespace Aggregate

def empty : Aggregate := ⟨0, fun _ => {}, some 0, {}⟩

def outOfRange : String := "usage bucket arithmetic is out of range"

def inconsistent : String := "usage bucket coverage is inconsistent"

/-- `a` with `b` put in or taken out, within the range of a `u64`. -/
def changeBy (remove : Bool) (a b : Nat) : Except String Nat :=
  if remove then
    if b ≤ a then .ok (a - b) else .error outOfRange
  else
    if a + b < u64Bound then .ok (a + b) else .error outOfRange

/-- A total with one sample's value put in or taken out, when it has one. -/
def changeTotal (remove : Bool) (total : Total) (value : Option Nat) : Except String Total :=
  match value with
  | none => .ok total
  | some value => do
      let sum ← changeBy remove total.sum value
      let knownSamples ← changeBy remove total.knownSamples 1
      return ⟨sum, knownSamples⟩

/-- Each counter's total in turn. -/
def eachTotal (f : Counter → Except String Total) : Except String (Counter → Total) := do
  let input ← f .input
  let cacheReadInput ← f .cacheReadInput
  let cacheWriteInput ← f .cacheWriteInput
  let output ← f .output
  let reasoningOutput ← f .reasoningOutput
  return fun
    | .input => input
    | .cacheReadInput => cacheReadInput
    | .cacheWriteInput => cacheWriteInput
    | .output => output
    | .reasoningOutput => reasoningOutput

def changeExact (remove : Bool) (count : Option Nat) (exact : Option Bool) :
    Except String (Option Nat) :=
  match count, exact with
  | some count, some true => return some (← changeBy remove count 1)
  | some count, some false => .ok (some count)
  | _, _ => .ok none

/-- A total over no sample is zero, and none is over more samples than there
are. -/
def coherent (samples : Nat) (total : Total) : Prop :=
  total.knownSamples ≤ samples ∧ (total.knownSamples = 0 → total.sum = 0)

instance (samples : Nat) (total : Total) : Decidable (coherent samples total) :=
  inferInstanceAs (Decidable (_ ∧ _))

variable (a : Aggregate)

/-- What a stored aggregate has to satisfy. -/
def Valid : Prop :=
  (∀ c, coherent a.samples (a.totals c)) ∧ coherent a.samples a.cost ∧
    ∀ count, a.exact = some count → count ≤ a.samples

instance (a : Aggregate) : Decidable a.Valid :=
  have : Decidable (∀ count, a.exact = some count → count ≤ a.samples) :=
    match h : a.exact with
    | none => .isTrue (by simp)
    | some count => decidable_of_iff (count ≤ a.samples) (by simp)
  inferInstanceAs (Decidable (_ ∧ _ ∧ _))

def validate : Except String Unit :=
  if a.Valid then .ok () else .error inconsistent

section

variable (counters : Counters) (exact : Option Bool) (costUsdMicros : Option Nat)

/-- The aggregate with one sample put in or taken out. -/
def change (remove : Bool) : Except String Aggregate := do
  let samples ← changeBy remove a.samples 1
  let exact ← changeExact remove a.exact exact
  let totals ← eachTotal fun c => changeTotal remove (a.totals c) (counters.values c)
  let cost ← changeTotal remove a.cost costUsdMicros
  let next : Aggregate := ⟨samples, totals, exact, cost⟩
  next.validate
  return next

def add (counters : Counters) (exact : Option Bool) : Except String Aggregate :=
  a.change counters exact none false

def addPriced : Except String Aggregate :=
  a.change counters exact costUsdMicros false

def removePriced : Except String Aggregate :=
  a.change counters exact costUsdMicros true

end

/-- A price learnt after the sample was counted: the tokens are unchanged. -/
def price (costUsdMicros : Nat) : Except String Aggregate := do
  let cost ← changeTotal false a.cost (some costUsdMicros)
  let next : Aggregate := { a with cost }
  next.validate
  return next

def mergeTotal (total added : Total) : Except String Total := do
  let sum ← changeBy false total.sum added.sum
  let knownSamples ← changeBy false total.knownSamples added.knownSamples
  return ⟨sum, knownSamples⟩

def mergeExact : Option Nat → Option Nat → Except String (Option Nat)
  | some mine, some theirs => return some (← changeBy false mine theirs)
  | _, _ => .ok none

/-- Disjoint hourly buckets put together. -/
def merge (other : Aggregate) : Except String Aggregate := do
  let samples ← changeBy false a.samples other.samples
  let totals ← eachTotal fun c => mergeTotal (a.totals c) (other.totals c)
  let cost ← mergeTotal a.cost other.cost
  let exact ← mergeExact a.exact other.exact
  let next : Aggregate := ⟨samples, totals, exact, cost⟩
  next.validate
  return next

end Aggregate

/-- The hour a time is in. Times are nanoseconds since an hour began. -/
def hour (time : Time) : Time := time - time % 3600000000000

theorem hour_le (time : Time) : hour time ≤ time := by
  have h : 0 ≤ (time : Int) % 3600000000000 := Int.emod_nonneg _ (by decide)
  exact Int.sub_le_self _ h

end AgentDocker.Core
