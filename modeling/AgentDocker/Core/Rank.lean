import AgentDocker.Lib.Ranks
import Mathlib.Data.String.Basic

/-!
# Ranks

A card's rank is a word of digits and lowercase letters, and a lane's cards
stand in the order of their ranks. A card put between two others gets a rank
between theirs, so nobody else's changes.

The empty word comes before everything and is what a card from before ranks
has. Nothing can be put before it: asked for a rank below it, `between` answers
as if it had been asked for none.
-/

namespace AgentDocker.Core.Rank

open Lib

def digits : Alphabet Char where
  digits := "0123456789abcdefghijklmnopqrstuvwxyz".toList
  sorted := by decide
  two := by decide

/-- A rank after `before` and before `after`; either may be absent. -/
def between (before after : Option String) : String :=
  String.ofList (digits.midpoint (before.getD "").toList (after.getD "").toList)

/-- A word of the digits that does not end in the lowest. -/
def IsRank (r : String) : Prop := digits.IsRank r.toList

theorem isRank_empty : IsRank "" := Alphabet.isRank_nil

variable {after before : Option String} {r : String}

/-- What `between` makes of words the alphabet's midpoint is asked about. -/
theorem between_spec (hbefore : ∀ r ∈ before, IsRank r) (hafter : ∀ r ∈ after, IsRank r)
    (hlt : ∀ b ∈ after, b ≠ "" → before.getD "" < b) :
    digits.Between (before.getD "").toList (after.getD "").toList
      (between before after).toList := by
  rw [between, String.toList_ofList]
  refine Alphabet.midpoint_between ?_ ?_ fun hne => ?_
  · cases before with
    | none => exact isRank_empty
    | some r => exact hbefore r rfl
  · cases after with
    | none => exact isRank_empty
    | some r => exact hafter r rfl
  · cases after with
    | none => exact absurd rfl hne
    | some b => exact String.lt_iff_toList_lt.mp (hlt b rfl fun h => hne (by rw [h]; rfl))

/-- A rank with itself on both sides is followed by something. -/
theorem between_self :
    between (some r) (some r) = String.ofList (r.toList ++ digits.midpoint [] []) := by
  rw [between, Option.getD_some, Alphabet.midpoint_self]

theorem empty_lt (h : r ≠ "") : "" < r := by
  rw [String.lt_iff_toList_lt]
  cases hr : r.toList with
  | nil => exact absurd (String.toList_eq_nil_iff.mp hr) h
  | cons => exact List.nil_lt_cons _ _

/-- A rank strictly between two. -/
structure Within (before after : Option String) (r : String) : Prop where
  rank : IsRank r
  ne_empty : r ≠ ""
  above : ∀ a ∈ before, a < r
  below : ∀ b ∈ after, r < b

theorem within_between (hbefore : ∀ r ∈ before, IsRank r) (hafter : ∀ r ∈ after, IsRank r ∧ r ≠ "")
    (hlt : ∀ a ∈ before, ∀ b ∈ after, a < b) :
    Within before after (between before after) := by
  -- in order as options, in order as words
  have hless : ∀ b ∈ after, b ≠ "" → before.getD "" < b := by
    intro b hb _
    cases before with
    | none => exact empty_lt (hafter b hb).2
    | some a => exact hlt a rfl b hb
  have hspec := between_spec hbefore (fun r hr => (hafter r hr).1) hless
  refine ⟨hspec.rank, fun h => ?_, fun a ha => ?_, fun b hb => ?_⟩
  · have hne := hspec.ne_nil
    rw [h] at hne
    exact hne rfl
  · have habove := hspec.above
    rw [Option.mem_def.mp ha] at habove ⊢
    exact String.lt_iff_toList_lt.mpr habove
  · have hbelow := hspec.below
    rw [Option.mem_def.mp hb] at hbelow ⊢
    have hne := (hafter b hb).2
    exact String.lt_iff_toList_lt.mpr (hbelow fun h => hne (String.toList_eq_nil_iff.mp h))

/-- A rank a card can be given. -/
def Proper (r : String) : Prop := IsRank r ∧ r ≠ ""

theorem midpoint_nil_nil : digits.IsRank (digits.midpoint [] []) ∧ digits.midpoint [] [] ≠ [] :=
  have h := Alphabet.midpoint_nil (A := digits) Alphabet.isRank_nil
  ⟨h.rank, h.ne_nil⟩

theorem proper_between_self (h : IsRank r) : Proper (between (some r) (some r)) := by
  rw [between_self, Proper, IsRank, String.toList_ofList]
  refine ⟨h.append midpoint_nil_nil.1 midpoint_nil_nil.2, fun hempty => ?_⟩
  have hnil := congrArg String.toList hempty
  rw [String.toList_ofList] at hnil
  exact midpoint_nil_nil.2 (List.append_eq_nil_iff.mp hnil).2

/-- Between a rank and itself there is no room: the answer is above both. -/
theorem lt_between_self (r : String) : r < between (some r) (some r) := by
  rw [between_self, String.lt_iff_toList_lt, String.toList_ofList]
  cases hmid : digits.midpoint [] [] with
  | nil => exact absurd hmid midpoint_nil_nil.2
  | cons c w =>
    have hlt : r.toList ++ [] < r.toList ++ c :: w := List.append_left_lt (List.nil_lt_cons _ _)
    rwa [List.append_nil] at hlt

theorem proper_between (hbefore : ∀ r ∈ before, Proper r) (hafter : ∀ r ∈ after, Proper r)
    (hle : ∀ a ∈ before, ∀ b ∈ after, a ≤ b) :
    Proper (between before after) := by
  by_cases hlt : ∀ a ∈ before, ∀ b ∈ after, a < b
  · have hwithin := within_between (fun r hr => (hbefore r hr).1) hafter hlt
    exact ⟨hwithin.rank, hwithin.ne_empty⟩
  · push Not at hlt
    obtain ⟨a, ha, b, hb, hba⟩ := hlt
    have heq : a = b := le_antisymm (hle a ha b hb) hba
    rw [Option.mem_def.mp ha, Option.mem_def.mp hb, ← heq]
    exact proper_between_self (hbefore a ha).1

/-- The ranks `between` builds, from nothing and from one another. -/
inductive Built : String → Prop
  | between {before after : Option String} (hbefore : ∀ r ∈ before, Built r)
      (hafter : ∀ r ∈ after, Built r) (hlt : ∀ a ∈ before, ∀ b ∈ after, a < b) :
      Built (between before after)

theorem Built.isRank (h : Built r) : IsRank r ∧ r ≠ "" := by
  induction h with
  | between _ _ hlt hbefore hafter =>
    have hwithin := within_between (fun r hr => (hbefore r hr).1) hafter hlt
    exact ⟨hwithin.rank, hwithin.ne_empty⟩

/-- There is a rank between any two, and between any two that were built there
is another to build. -/
theorem between_dense : (∀ before after : Option String, (∀ r ∈ before, IsRank r) →
      (∀ r ∈ after, IsRank r ∧ r ≠ "") → (∀ a ∈ before, ∀ b ∈ after, a < b) →
      Within before after (between before after)) ∧
    ∀ before after : Option String, (∀ r ∈ before, Built r) → (∀ r ∈ after, Built r) →
      (∀ a ∈ before, ∀ b ∈ after, a < b) →
      Built (between before after) ∧ Within before after (between before after) := by
  refine ⟨fun before after => within_between, fun before after hbefore hafter hlt => ?_⟩
  refine ⟨.between hbefore hafter hlt, ?_⟩
  exact within_between (fun r hr => (hbefore r hr).isRank.1) (fun r hr => (hafter r hr).isRank) hlt

/-- A single digit above the lowest is a rank. -/
theorem isRank_of_digit {i : Nat} (hr : r.toList = [digits.digit i]) (hi : i < digits.base)
    (hpos : 0 < i) : IsRank r := by
  rw [IsRank, hr]
  exact Alphabet.isRank_digit hi hpos

theorem between_dense_neighbours :
    Within (some "1") (some "2") (between (some "1") (some "2")) := by
  have hone : IsRank "1" := isRank_of_digit (i := 1) (by decide) (by decide) (by decide)
  have htwo : IsRank "2" := isRank_of_digit (i := 2) (by decide) (by decide) (by decide)
  refine between_dense.1 (some "1") (some "2") (fun r hr => ?_) (fun r hr => ?_) fun a ha b hb => ?_
  · cases hr
    exact hone
  · cases hr
    exact ⟨htwo, by decide⟩
  · cases ha
    cases hb
    decide

/-- Nothing is below the empty rank. -/
theorem between_empty_not_below : IsRank "" ∧ ¬ between none (some "") < "" := by
  refine ⟨isRank_empty, ?_⟩
  exact List.not_lt_nil _

end AgentDocker.Core.Rank
