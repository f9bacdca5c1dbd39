import AgentDocker.Lib.Keyed
import Mathlib.Data.List.Perm.Subperm

/-!
# Totals over tables

The sum of a weight over the rows of a table that pass a test. Rows are told
apart by their keys, so a table each of whose rows is another's, weight and all,
sums to no more than the other.
-/

namespace AgentDocker.Lib

variable {α κ : Type} {key : α → κ} {p : α → Bool} {weight : α → Nat}

/-- A total, added up from the front. -/
def totalOf (weight : α → Nat) (rows : List α) : Nat :=
  rows.foldl (fun sum a => sum + weight a) 0

theorem foldl_add_eq (rows : List α) (n : Nat) :
    rows.foldl (fun sum a => sum + weight a) n = n + totalOf weight rows := by
  induction rows generalizing n with
  | nil => rfl
  | cons a _ ih =>
    simp only [totalOf, List.foldl_cons]
    rw [ih, ih (0 + weight a)]
    omega

theorem totalOf_cons (a : α) (rest : List α) :
    totalOf weight (a :: rest) = weight a + totalOf weight rest := by
  rw [totalOf, List.foldl_cons, foldl_add_eq, Nat.zero_add]

theorem totalOf_append (rows more : List α) :
    totalOf weight (rows ++ more) = totalOf weight rows + totalOf weight more := by
  rw [totalOf, List.foldl_append, foldl_add_eq, ← totalOf]

theorem totalOf_map {β : Type} (f : β → α) (rows : List β) :
    totalOf weight (rows.map f) = totalOf (fun b => weight (f b)) rows :=
  List.foldl_map

variable {rows rows' : List α} {weight' : α → Nat}

theorem totalOf_congr (h : ∀ a ∈ rows, weight a = weight' a) :
    totalOf weight rows = totalOf weight' rows := by
  induction rows with
  | nil => rfl
  | cons a _ ih =>
    rw [totalOf_cons, totalOf_cons, h a List.mem_cons_self,
      ih fun b hb => h b (List.mem_cons_of_mem _ hb)]

theorem totalOf_eq_zero (h : ∀ a ∈ rows, weight a = 0) : totalOf weight rows = 0 := by
  induction rows with
  | nil => rfl
  | cons a _ ih =>
    rw [totalOf_cons, h a List.mem_cons_self, ih fun b hb => h b (List.mem_cons_of_mem _ hb)]

theorem totalOf_le (h : ∀ a ∈ rows, weight a ≤ weight' a) :
    totalOf weight rows ≤ totalOf weight' rows := by
  induction rows with
  | nil => exact Nat.le_refl _
  | cons a _ ih =>
    rw [totalOf_cons, totalOf_cons]
    exact Nat.add_le_add (h a List.mem_cons_self) (ih fun b hb => h b (List.mem_cons_of_mem _ hb))

/-- Two weights that differ in one row differ by it in total. -/
theorem totalOf_change {a : α} (hnodup : rows.Nodup) (ha : a ∈ rows)
    (h : ∀ b ∈ rows, b ≠ a → weight b = weight' b) :
    totalOf weight rows + weight' a = totalOf weight' rows + weight a := by
  induction rows with
  | nil => cases ha
  | cons b rest ih =>
    rw [totalOf_cons, totalOf_cons]
    rw [List.nodup_cons] at hnodup
    by_cases hb : b = a
    · subst hb
      have hrest : totalOf weight rest = totalOf weight' rest :=
        totalOf_congr fun c hc =>
          h c (List.mem_cons_of_mem _ hc) fun heq => hnodup.1 (heq ▸ hc)
      omega
    · have hmem : a ∈ rest := (List.mem_cons.mp ha).resolve_left fun heq => hb heq.symm
      have hrest := ih hnodup.2 hmem fun c hc => h c (List.mem_cons_of_mem _ hc)
      have hhead := h b List.mem_cons_self hb
      omega

/-- A fold each step of which keeps within what the next may begin with ends within what
the last may leave. -/
theorem foldl_bounded {β : Type} {f : β → α → β} {P : Nat → β → Prop} (first after : α → Nat)
    {n bound : Nat} {b : β} (hmono : ∀ {m n b}, m ≤ n → P m b → P n b)
    (hstep : ∀ a ∈ rows, ∀ b, P (first a) b → P (after a) (f b a))
    (hnext : rows.Pairwise fun a a' => after a ≤ first a') (hbegin : ∀ a ∈ rows, n ≤ first a)
    (hend : ∀ a ∈ rows, after a ≤ bound) (hle : n ≤ bound) (h : P n b) :
    P bound (rows.foldl f b) := by
  induction rows generalizing n b with
  | nil => exact hmono hle h
  | cons _ _ ih =>
    rw [List.pairwise_cons] at hnext
    rw [List.forall_mem_cons] at hstep hbegin hend
    exact ih hstep.2 hnext.2 hnext.1 hend.2 hend.1 (hstep.1 b (hmono hbegin.1 h))

/-- A row of a list replaced, or left out. -/
theorem totalOf_split (weight : α → Nat) {l : List α} {i : Nat} {old : α}
    (h : l[i]? = some old) (new : α) :
    totalOf weight (l.set i new) + weight old = totalOf weight l + weight new ∧
      totalOf weight (l.eraseIdx i) + weight old = totalOf weight l := by
  induction l generalizing i with
  | nil => simp at h
  | cons a _ ih =>
    cases i with
    | zero =>
      obtain rfl : a = old := by simpa using h
      simp only [List.set_cons_zero, List.eraseIdx_cons_zero, totalOf_cons]
      omega
    | succ =>
      obtain ⟨_, _⟩ := ih (by simpa using h)
      simp only [List.set_cons_succ, List.eraseIdx_cons_succ, totalOf_cons]
      omega

/-- The total over the rows that pass a test, read off all of them. -/
theorem totalOf_filter {p : α → Prop} [DecidablePred p] (rows : List α) :
    totalOf weight (rows.filter fun a => decide (p a)) =
      totalOf (fun a => if p a then weight a else 0) rows := by
  induction rows with
  | nil => rfl
  | cons a _ ih =>
    rw [totalOf_cons]
    by_cases ha : p a
    · rw [List.filter_cons_of_pos (by simpa using ha), totalOf_cons, ih, if_pos ha]
    · rw [List.filter_cons_of_neg (by simpa using ha), ih, if_neg ha, Nat.zero_add]

theorem totalOf_perm (h : rows.Perm rows') : totalOf weight rows = totalOf weight rows' := by
  induction h with
  | nil => rfl
  | cons _ _ ih => rw [totalOf_cons, totalOf_cons, ih]
  | swap =>
    simp only [totalOf_cons]
    omega
  | trans _ _ ih ih' => exact ih.trans ih'

theorem totalOf_sublist_le (h : rows.Sublist rows') :
    totalOf weight rows ≤ totalOf weight rows' := by
  induction h with
  | slnil => exact Nat.le_refl _
  | cons =>
    rw [totalOf_cons]
    omega
  | cons_cons =>
    rw [totalOf_cons, totalOf_cons]
    omega

namespace Keyed

def total (t : Keyed key) (p : α → Bool) (weight : α → Nat) : Nat :=
  totalOf weight (t.rows.filter p)

/-- Every counted row of `t'` has a counted row of `t` of its key and weight. -/
theorem total_le {t t' : Keyed key}
    (h : ∀ a' ∈ t', p a' = true → ∃ a ∈ t, p a = true ∧ key a = key a' ∧ weight a = weight a') :
    t'.total p weight ≤ t.total p weight := by
  let tagged (t : Keyed key) := (t.rows.filter p).map fun a => (key a, weight a)
  have hsum (t : Keyed key) : t.total p weight = totalOf Prod.snd (tagged t) := by
    rw [totalOf_map, total]
  have hnodup : (tagged t').Nodup := by
    refine .of_map Prod.fst ?_
    rw [List.map_map]
    exact t'.nodup.sublist (List.filter_sublist.map key)
  have hsub : tagged t' ⊆ tagged t := by
    intro x hx
    obtain ⟨a', ha', rfl⟩ := List.mem_map.mp hx
    obtain ⟨hmem, hp⟩ := List.mem_filter.mp ha'
    obtain ⟨a, ha, hpa, hkey, hweight⟩ := h a' hmem hp
    exact List.mem_map.mpr ⟨a, List.mem_filter.mpr ⟨ha, hpa⟩, by rw [hkey, hweight]⟩
  rw [hsum, hsum]
  obtain ⟨_, hperm, hsublist⟩ := List.subperm_of_subset hnodup hsub
  rw [← totalOf_perm hperm]
  exact totalOf_sublist_le hsublist

/-- A row put in adds at most its weight. -/
theorem total_insert_le [DecidableEq κ] (t : Keyed key) (a : α) :
    (t.insert a).total p weight ≤ t.total p weight + weight a := by
  have herase : (t.erase (key a)).total p weight ≤ t.total p weight :=
    total_le fun b hb hp => ⟨b, (mem_erase.mp hb).1, hp, rfl, rfl⟩
  have hsplit : (t.insert a).total p weight =
      (t.erase (key a)).total p weight + totalOf weight ([a].filter p) := by
    rw [total, insert, List.filter_append, totalOf_append, total]
  rw [hsplit]
  refine Nat.add_le_add herase ?_
  cases hp : p a <;> simp [hp, totalOf]

/-! ## Totals after a write -/

variable [DecidableEq κ]

/-- A total is what the row under a key adds to the rest. -/
theorem totalOf_erase (t : Keyed key) (k : κ) :
    totalOf weight t.rows = totalOf weight (t.erase k).rows + ((t.get? k).map weight).getD 0 := by
  obtain ⟨rows, hnodup⟩ := t
  simp only [erase, filter, get?]
  induction rows with
  | nil => rfl
  | cons a rest ih =>
    rw [List.map_cons, List.nodup_cons] at hnodup
    by_cases hk : key a = k
    · have hrest : rest.filter (fun b => decide (key b ≠ k)) = rest := by
        refine List.filter_eq_self.mpr fun b hb => decide_eq_true fun hkb => hnodup.1 ?_
        rw [hk, ← hkb]
        exact List.mem_map_of_mem hb
      rw [List.filter_cons_of_neg (by simp [hk]), hrest, List.find?_cons_of_pos (by simp [hk]),
        totalOf_cons, Option.map_some, Option.getD_some, Nat.add_comm]
    · rw [List.filter_cons_of_pos (by simp [hk]), List.find?_cons_of_neg (by simp [hk]),
        totalOf_cons, totalOf_cons, ih hnodup.2, Nat.add_assoc]

/-- A row put in adds its weight, less that of the row it takes the place of. -/
theorem totalOf_insert (t : Keyed key) (a : α) :
    totalOf weight (t.insert a).rows + ((t.get? (key a)).map weight).getD 0 =
      totalOf weight t.rows + weight a := by
  rw [insert, totalOf_append, totalOf_erase t (key a), totalOf_cons]
  simp only [totalOf, List.foldl_nil]
  omega

/-- One row rewritten changes the total by its own weight. -/
theorem totalOf_update {t : Keyed key} {f : α → α} {hf : ∀ a, key (f a) = key a} {k : κ}
    (hother : ∀ b, key b ≠ k → f b = b) :
    totalOf weight (t.update f hf).rows + ((t.get? k).map weight).getD 0 =
      totalOf weight t.rows + (((t.get? k).map f).map weight).getD 0 := by
  have herase : ((t.update f hf).erase k).rows = (t.erase k).rows := by
    simp only [erase, filter, update, List.filter_map]
    have hsame : (t.rows.filter ((fun a => decide (key a ≠ k)) ∘ f)) =
        t.rows.filter fun a => decide (key a ≠ k) :=
      List.filter_congr fun a _ => by rw [Function.comp_apply, hf]
    rw [hsame]
    refine (List.map_congr_left fun a ha => ?_).trans (List.map_id _)
    exact hother a (by simpa using (List.mem_filter.mp ha).2)
  rw [totalOf_erase (t.update f hf) k, totalOf_erase t k, herase, get?_update]
  omega

end Keyed

end AgentDocker.Lib
