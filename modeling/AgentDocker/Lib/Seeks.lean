import AgentDocker.Lib.StableSort
import Mathlib.Data.List.Dedup

/-!
# Walking a set by seeking

A reader that never holds the whole set asks for its least member, then for the
least above the one it has, until there is none. It visits every member once, in
order.
-/

namespace AgentDocker.Lib

variable {α σ : Type} [LinearOrder α]

/-- The least member above a point. -/
def seek (l : List α) (past : Option α) : Option α :=
  (sortBy (fun a => a) (l.filter fun a => past.all fun p => decide (p < a))).head?

/-- Visit what is found, and seek past it; as often as there can be something. -/
def seekAll (visit : σ → α → σ) (l : List α) : Nat → Option α → σ → σ
  | 0, _, s => s
  | n + 1, past, s =>
    match seek l past with
    | none => s
    | some a => seekAll visit l n (some a) (visit s a)

/-- The members, each once, in order. -/
def distinct (l : List α) : List α := sortBy (fun a => a) l.dedup

theorem distinct_pairwise (l : List α) : (distinct l).Pairwise (· < ·) :=
  pairwise_lt_sortBy (by simpa using l.nodup_dedup)

@[simp] theorem mem_distinct {l : List α} {a : α} : a ∈ distinct l ↔ a ∈ l := by
  rw [distinct, (sortBy_perm _ _).mem_iff, List.mem_dedup]

/-- A strictly sorted list is what it has. -/
theorem eq_of_mem_iff {l m : List α} (hl : l.Pairwise (· < ·)) (hm : m.Pairwise (· < ·))
    (h : ∀ a, a ∈ l ↔ a ∈ m) : l = m := by
  have hperm : l.Perm m := (List.perm_ext_iff_of_nodup (hl.imp fun h => h.ne)
    (hm.imp fun h => h.ne)).mpr h
  exact hperm.eq_of_pairwise (fun a b _ _ hab hba => absurd hba (lt_asymm hab)) hl hm

/-- What is left to visit past a point. -/
def beyond (l : List α) (past : Option α) : List α :=
  (distinct l).filter fun a => past.all fun p => decide (p < a)

/-- Sorted lists of the same members start with the same one, the least. -/
theorem head?_eq_of_mem_iff {l m : List α} (hl : l.Pairwise (· ≤ ·)) (hm : m.Pairwise (· ≤ ·))
    (h : ∀ a, a ∈ l ↔ a ∈ m) : l.head? = m.head? := by
  cases l with
  | nil =>
    have hnil : m = [] := List.eq_nil_iff_forall_not_mem.mpr fun a ha => by cases (h a).mpr ha
    rw [hnil]
  | cons a =>
    cases m with
    | nil => cases (h a).mp List.mem_cons_self
    | cons b =>
      have hab : a ≤ b := key_head_le hl ((h b).mpr List.mem_cons_self)
      have hba : b ≤ a := key_head_le hm ((h a).mp List.mem_cons_self)
      rw [le_antisymm hab hba, List.head?_cons, List.head?_cons]

theorem seek_eq (l : List α) (past : Option α) : seek l past = (beyond l past).head? := by
  refine head?_eq_of_mem_iff (pairwise_sortBy (fun a => a) _)
    (((distinct_pairwise l).filter _).imp le_of_lt) fun a => ?_
  rw [(sortBy_perm _ _).mem_iff, beyond, List.mem_filter, List.mem_filter, mem_distinct]

theorem beyond_step {l : List α} {past : Option α} {a : α} {more : List α}
    (h : beyond l past = a :: more) : beyond l (some a) = more := by
  have hsorted : (a :: more).Pairwise (· < ·) := h ▸ (distinct_pairwise l).filter _
  obtain ⟨ha, hmore⟩ := List.pairwise_cons.mp hsorted
  refine eq_of_mem_iff ((distinct_pairwise l).filter _) hmore fun b => ?_
  have hpast : past.all (fun p => decide (p < a)) = true := by
    have hmem : a ∈ beyond l past := h ▸ List.mem_cons_self
    exact (List.mem_filter.mp hmem).2
  have hin : b ∈ beyond l past ↔ b = a ∨ b ∈ more := by rw [h, List.mem_cons]
  rw [beyond, List.mem_filter] at hin
  rw [beyond, List.mem_filter, Option.all_some, decide_eq_true_eq]
  constructor
  · rintro ⟨hb, hlt⟩
    have hpassed : past.all (fun p => decide (p < b)) = true := by
      cases past with
      | none => rfl
      | some =>
        simp only [Option.all_some, decide_eq_true_eq] at hpast ⊢
        exact hpast.trans hlt
    exact (hin.mp ⟨hb, hpassed⟩).resolve_left fun heq => lt_irrefl _ (heq ▸ hlt)
  · intro hb
    exact ⟨(hin.mpr (.inr hb)).1, ha b hb⟩

theorem seekAll_beyond (visit : σ → α → σ) (l : List α) (n : Nat) (past : Option α) (s : σ)
    (h : (beyond l past).length ≤ n) :
    seekAll visit l n past s = (beyond l past).foldl visit s := by
  induction n generalizing past s with
  | zero =>
    rw [List.length_eq_zero_iff.mp (Nat.le_zero.mp h)]
    rfl
  | succ n ih =>
    rw [seekAll, seek_eq]
    cases hb : beyond l past with
    | nil => rfl
    | cons a =>
      have hstep := beyond_step hb
      rw [hb, List.length_cons] at h
      show seekAll visit l n (some a) (visit s a) = _
      rw [ih _ _ (by rw [hstep]; omega), hstep, List.foldl_cons]

/-- Seeking visits every member once, in order. -/
theorem seekAll_eq (visit : σ → α → σ) (l : List α) (s : σ) :
    seekAll visit l l.length none s = (distinct l).foldl visit s := by
  have hbeyond : beyond l none = distinct l := List.filter_eq_self.mpr fun _ _ => rfl
  rw [seekAll_beyond, hbeyond]
  rw [hbeyond, distinct, (sortBy_perm _ _).length_eq]
  exact l.dedup_sublist.length_le

end AgentDocker.Lib
