import AgentDocker.Core.Range

/-!
# The hours within the bounds

Rounded four ways, the bounds still cover exactly the retained hours that the span asked
for meets.
-/

namespace AgentDocker.Core.Range

open Lib

variable {bucket time : Time}

/-- An hour is at or after the one a time is in when the time is before its end. -/
theorem hour_le_iff (hbucket : hour bucket = bucket) :
    hour time ≤ bucket ↔ time < bucket + oneHour := by
  have hrounds : ∀ b t : Int, b - b % 3600000000000 = b →
      (t - t % 3600000000000 ≤ b ↔ t < b + 3600000000000) := by
    omega
  exact hrounds bucket time hbucket

/-- No hour begins between a time and the end of the hour it is in. -/
theorem lt_hour_add_iff (hbucket : hour bucket = bucket) (htime : hour time ≠ time) :
    bucket < hour time + oneHour ↔ bucket < time := by
  have hrounds : ∀ b t : Int, b - b % 3600000000000 = b → t - t % 3600000000000 ≠ t →
      (b < t - t % 3600000000000 + 3600000000000 ↔ b < t) := by
    omega
  exact hrounds bucket time hbucket htime

/-- An hour and a span have an instant in common. -/
def Meets (bucket since upTo : Time) : Prop :=
  ∃ time, (bucket ≤ time ∧ time < bucket + oneHour) ∧ since ≤ time ∧ time < upTo

/-- They do when each begins before the other ends. -/
theorem meets_iff_lt {since upTo : Time} (h : since < upTo) :
    Meets bucket since upTo ↔ since < bucket + oneHour ∧ bucket < upTo := by
  constructor
  · rintro ⟨_, ⟨hbegun, hends⟩, hsince, hbefore⟩
    exact ⟨lt_of_le_of_lt hsince hends, lt_of_le_of_lt hbegun hbefore⟩
  · rintro ⟨hbegins, hbefore⟩
    have hlater : bucket < bucket + oneHour := Int.lt_add_of_pos_right bucket (by decide)
    exact ⟨max bucket since, ⟨le_max_left .., max_lt hlater hbegins⟩, le_max_right ..,
      max_lt hbefore h⟩

variable {since upTo : Option Time} {asOf retainedSince : Time} {range : Range}

/-- What an accepted query asked for, and the bounds it is given. -/
theorem new_ok (h : new since upTo asOf retainedSince = .ok range) :
    let first := since.getD (asOf - 24 * oneHour)
    let clamped := min (upTo.getD asOf) asOf
    first < clamped ∧ range.effectiveSince = max (hour first) retainedSince ∧ range.effectiveUntil =
        max (if hour clamped = clamped then clamped else hour clamped + oneHour) retainedSince := by
  have hadds : ∀ {t d u : Time}, checkedAdd t d = some u → t + d = u := by
    intro t d u hadd
    rw [checkedAdd] at hadd
    split at hadd
    · exact Option.some.inj hadd
    · cases hadd
  simp only [new, bind_eq_ok, pure_eq_ok, okOr_ok, require_ok, Bool.and_eq_true, decide_eq_true_eq,
    exists_const] at h
  obtain ⟨first, hfirst, -, -, helapsed, last, hlast, rfl⟩ := h
  have hfirst : since.getD (asOf - 24 * oneHour) = first := by
    cases since with
    | some => exact Option.some.inj hfirst
    | none => exact hadds hfirst
  have hlast : (if hour (min (upTo.getD asOf) asOf) = min (upTo.getD asOf) asOf then
      min (upTo.getD asOf) asOf else hour (min (upTo.getD asOf) asOf) + oneHour) = last := by
    split at hlast
    · next hwhole =>
      rw [if_pos hwhole]
      exact Option.some.inj hlast
    next hbegun =>
    rw [if_neg hbegun]
    exact hadds hlast
  dsimp only
  rw [hfirst, hlast]
  exact ⟨helapsed, rfl, rfl⟩

/-- An hour is within the bounds exactly when it is retained and meets the span asked
for. -/
theorem meets_iff (since upTo : Option Time) (h : new since upTo asOf retainedSince = .ok range)
    (hbucket : hour bucket = bucket) :
    range.effectiveSince ≤ bucket ∧ bucket < range.effectiveUntil ↔ retainedSince ≤ bucket ∧
        Meets bucket (since.getD (asOf - 24 * oneHour)) (min (upTo.getD asOf) asOf) := by
  obtain ⟨helapsed, hsince, huntil⟩ := new_ok h
  rw [meets_iff_lt helapsed, hsince, huntil, max_le_iff, lt_max_iff, hour_le_iff hbucket]
  generalize min (upTo.getD asOf) asOf = clamped at helapsed ⊢
  have hends : (bucket < if hour clamped = clamped then clamped else hour clamped + oneHour) ↔
      bucket < clamped := by
    split
    · exact Iff.rfl
    · next hbegun => exact lt_hour_add_iff hbucket hbegun
  rw [hends]
  constructor
  · rintro ⟨⟨hbegins, hretained⟩, hbefore⟩
    exact ⟨hretained, hbegins, hbefore.resolve_right hretained.not_gt⟩
  · rintro ⟨hretained, hbegins, hbefore⟩
    exact ⟨⟨hbegins, hretained⟩, .inl hbefore⟩

/-- From half past the first hour to a quarter past the third, with the first hour no
longer retained. -/
theorem meets_iff_quarters :
    ∃ range, new (some 1800000000000) (some 8100000000000) 9000000000000 3600000000000 = .ok range ∧
      (range.effectiveSince ≤ 7200000000000 ∧ 7200000000000 < range.effectiveUntil ↔
        3600000000000 ≤ (7200000000000 : Time) ∧
          Meets 7200000000000 1800000000000 (min 8100000000000 9000000000000)) :=
  ⟨_, rfl, meets_iff (some _) (some _) rfl (by decide)⟩

end AgentDocker.Core.Range
