import AgentDocker.Proofs.Aggregates

/-!
# Aggregates add up

Without the range of a `u64` an aggregate is a sum: `plus` puts two together, one
sample is `one`, and order and grouping do not show. Every function of the source
is that sum where it fits and the one refusal where it does not, and a sum that
does not fit never fits with more put in.
-/

namespace AgentDocker.Core

open Lib

namespace Aggregate

/-- The samples folded into an aggregate, one by one. -/
def gather (a : Aggregate) (samples : List Counted) : Except String Aggregate :=
  samples.foldlM (fun a s => a.addPriced s.counters s.exact s.cost) a

/-- What they come to without the range. -/
def total (a : Aggregate) (samples : List Counted) : Aggregate :=
  samples.foldl (fun a s => a.plus (one s)) a

variable {a b : Aggregate} {s : Counted}

theorem plus_comm (a b : Aggregate) : a.plus b = b.plus a := by
  simp only [plus, Total.plus, Nat.add_comm]
  cases a.exact <;> cases b.exact <;> simp [Nat.add_comm]

theorem plus_assoc (a b c : Aggregate) : (a.plus b).plus c = a.plus (b.plus c) := by
  simp only [plus, Total.plus, Nat.add_assoc]
  cases a.exact <;> cases b.exact <;> cases c.exact <;> simp [Nat.add_assoc]

theorem empty_plus (a : Aggregate) : empty.plus a = a := by
  simp [plus, Total.plus, empty]

theorem Fits.left (h : (a.plus b).Fits) : a.Fits := by
  obtain ⟨hsamples, htotals, hcost⟩ := h
  exact ⟨Nat.lt_of_le_of_lt (Nat.le_add_right ..) hsamples,
    fun c => Nat.lt_of_le_of_lt (Nat.le_add_right ..) (htotals c),
    Nat.lt_of_le_of_lt (Nat.le_add_right ..) hcost⟩

/-! ## Folding samples -/

theorem total_eq (a : Aggregate) {samples : List Counted} :
    a.total samples = a.plus (empty.total samples) := by
  induction samples generalizing a with
  | nil => exact ((plus_comm a empty).trans (empty_plus a)).symm
  | cons s rest ih =>
    calc (a.plus (one s)).total rest
        = (a.plus (one s)).plus (empty.total rest) := ih _
      _ = a.plus ((one s).plus (empty.total rest)) := plus_assoc ..
      _ = a.plus ((empty.plus (one s)).total rest) := by rw [ih (empty.plus (one s)), empty_plus]

theorem total_valid (h : a.Valid) (samples : List Counted) : (a.total samples).Valid := by
  induction samples generalizing a with
  | nil => exact h
  | cons s _ ih => exact ih (h.plus (one_valid s))

theorem gather_checked (h : a.Valid) (hfits : a.Fits) (samples : List Counted) :
    Checked outOfRange (a.total samples).Fits (a.total samples) (a.gather samples) := by
  induction samples generalizing a with
  | nil => exact .of_ok _ hfits
  | cons s rest ih =>
    -- What is gathered to the end fits only if the first sample does.
    have hfirst : (a.total (s :: rest)).Fits → (a.plus (one s)).Fits := fun hall =>
      Fits.left (b := empty.total rest) (total_eq (a.plus (one s)) ▸ hall)
    exact ((addPriced_checked h hfits s).bind fun hone => ih (h.plus (one_valid s)) hone).congr
      ⟨fun hall => ⟨hfirst hall, hall⟩, fun hall => hall.2⟩

theorem empty_fits : empty.Fits := by
  simp [Fits, empty, u64Bound]

theorem total_perm {xs ys : List Counted} (h : xs.Perm ys) : empty.total xs = empty.total ys := by
  refine h.foldl_eq' (fun s _ s' _ a => ?_) empty
  rw [plus_assoc, plus_comm (one s), ← plus_assoc]

/-! ## Taking a sample out, and pricing it later -/

theorem changeTotal_plus_one {t : Total} {value : Option Nat} :
    changeTotal true (t.plus (.one value)) value = .ok t := by
  cases value <;> simp [changeTotal, changeBy, Total.plus, Total.one, bind, Except.bind,
    pure, Except.pure]

theorem changeExact_plus_one {n : Option Nat} {e : Option Bool} (he : e.isSome = true) :
    changeExact true (n.bind fun n => (e.map fun e => if e then 1 else 0).map (n + ·)) e =
      .ok n := by
  obtain ⟨e, rfl⟩ := Option.isSome_iff_exists.mp he
  cases n <;> cases e <;> simp [changeExact, changeBy, bind, Except.bind, pure, Except.pure]

theorem removePriced_plus_one (h : a.Valid) (hexact : s.exact.isSome = true) :
    (a.plus (one s)).removePriced s.counters s.exact s.cost = .ok a := by
  simp only [removePriced, change, bind_eq_ok, pure_eq_ok, eachTotal_eq_ok, validate_eq_ok]
  exact ⟨a.samples, by simp [changeBy, plus, one], a.exact,
    changeExact_plus_one hexact, a.totals,
    fun c => changeTotal_plus_one .., a.cost, changeTotal_plus_one .., (), h, rfl⟩

theorem price_checked {counters : Counters} {exact : Option Bool} {cost : Nat} (h : a.Valid)
    (hfits : (a.plus (one ⟨counters, exact, none⟩)).Fits) :
    Checked outOfRange (a.plus (one ⟨counters, exact, some cost⟩)).Fits
      (a.plus (one ⟨counters, exact, some cost⟩))
      ((a.plus (one ⟨counters, exact, none⟩)).price cost) := by
  obtain ⟨hsamples, htotals, hcost⟩ := hfits
  have hvalid := h.plus (one_valid ⟨counters, exact, some cost⟩)
  have hknown : a.cost.knownSamples < u64Bound := by
    have := h.2.1.1
    simp only [plus, one] at hsamples
    omega
  refine Checked.congr (.bind (changeTotal_checked a.cost (some cost) hcost hknown) fun _ =>
    validate_checked hvalid) ⟨fun hpriced => ?_, fun hpriced => ⟨hsamples, htotals, hpriced.1.1⟩⟩
  exact ⟨(hvalid.fits_iff.mp hpriced).2.2.1, trivial⟩

/-- A price that fits leaves no doubt about the sample without it. -/
theorem Fits.unpriced {counters : Counters} {exact : Option Bool} {cost : Nat}
    (h : (a.plus (one ⟨counters, exact, some cost⟩)).Fits) :
    (a.plus (one ⟨counters, exact, none⟩)).Fits :=
  ⟨h.1, h.2.1, Nat.lt_of_le_of_lt (Nat.le_add_right ..) h.2.2⟩

/-- Aggregates of samples are a commutative monoid as far as they are in range,
and out of range whichever way they are put together. -/
theorem aggregates_add_up (xs ys : List Counted) (s : Counted) (cost : Nat) :
    (∀ zs, xs.Perm zs → empty.gather zs = empty.gather xs) ∧
      empty.gather (xs ++ ys) = (do (← empty.gather xs).merge (← empty.gather ys)) ∧
      (∀ e, empty.gather xs = .error e → e = outOfRange) ∧
      ∀ a, empty.gather xs = .ok a → a.validate = .ok () ∧
        (∀ b, s.exact.isSome = true → a.addPriced s.counters s.exact s.cost = .ok b →
          b.removePriced s.counters s.exact s.cost = .ok a) ∧
        (do (← a.add s.counters s.exact).price cost) =
          a.addPriced s.counters s.exact (some cost) := by
  have hgather := fun xs => gather_checked empty_valid empty_fits xs
  refine ⟨fun zs h => ?_, ?_, fun e he => ?_, fun a ha => ?_⟩
  · exact (total_perm h ▸ hgather zs).unique (hgather xs)
  · have happend : empty.total (xs ++ ys) = (empty.total xs).plus (empty.total ys) := by
      rw [← total_eq]
      exact List.foldl_append
    refine (happend ▸ hgather (xs ++ ys)).unique (Checked.congr (.bind (hgather xs) fun _ =>
      .bind (hgather ys) fun _ => merge_checked (total_valid empty_valid xs)
        (total_valid empty_valid ys)) ⟨fun h => ⟨h.left, ?_, h⟩, fun h => h.2.2⟩)
    exact Fits.left (plus_comm (empty.total xs) _ ▸ h)
  · by_cases hfits : (empty.total xs).Fits
    · cases ((hgather xs).1 hfits).symm.trans he
    · cases ((hgather xs).2 hfits).symm.trans he
      rfl
  · obtain ⟨hfits, rfl⟩ := (hgather xs).ok_iff.mp ha
    have hvalid := total_valid empty_valid xs
    refine ⟨validate_eq_ok.mpr hvalid, fun b hexact hadd => ?_, ?_⟩
    · obtain ⟨-, rfl⟩ := (addPriced_checked hvalid hfits s).ok_iff.mp hadd
      exact removePriced_plus_one hvalid hexact
    · exact Checked.unique (Checked.congr (.bind
        (addPriced_checked hvalid hfits ⟨s.counters, s.exact, none⟩) fun h =>
          price_checked hvalid h)
        ⟨fun h => ⟨h.unpriced, h⟩, fun h => h.2⟩)
        (addPriced_checked hvalid hfits ⟨s.counters, s.exact, some cost⟩)

end Aggregate

end AgentDocker.Core
