import Mathlib.Data.List.Sort

/-!
# Sorting by a key, stably

`sortBy key` puts a list in the order of a key and leaves what has one key in
the order it was in. A list sorted by a key is given by its parts of one key,
and sorting stably keeps each of those as it is; both together say when the
sorted list is some list known beforehand.

The case of interest is a list split in two by a test and put together again,
the part that passes first. Sorting brings the original back exactly when the
original was sorted and, of two with one key, one that fails the test never
came before one that passes it.
-/

namespace AgentDocker.Lib

variable {α β κ : Type} [LinearOrder κ] {key : α → κ}

section

variable (key : α → κ) (l : List α)

/-- The list in the order of the key. -/
def sortBy : List α :=
  l.insertionSort fun a b => key a ≤ key b

theorem sortBy_perm : (sortBy key l).Perm l :=
  List.perm_insertionSort _ l

theorem pairwise_sortBy : (sortBy key l).Pairwise fun a b => key a ≤ key b := by
  exact List.pairwise_insertionSort _ l

end

theorem map_sortBy (key : β → κ) (f : α → β) (l : List α) :
    (sortBy (fun a => key (f a)) l).map f = sortBy key (l.map f) :=
  List.map_insertionSort _ _ f l fun _ _ _ _ => Iff.rfl

variable {l m : List α} {a : α} {p : α → Bool}

/-- A function that tells the members of two lists apart tells the lists
apart. -/
theorem eq_of_map_eq {f : α → β} (hf : ∀ a ∈ l, ∀ b ∈ m, f a = f b → a = b)
    (h : l.map f = m.map f) : l = m := by
  induction l generalizing m with
  | nil => exact (List.map_eq_nil_iff.mp h.symm).symm
  | cons a _ ih =>
    cases m with
    | nil => cases h
    | cons b =>
      rw [List.map_cons, List.map_cons, List.cons.injEq] at h
      rw [hf a List.mem_cons_self b List.mem_cons_self h.1,
        ih (fun a ha b hb => hf a (List.mem_cons_of_mem _ ha) b (List.mem_cons_of_mem _ hb)) h.2]

/-- What has one key stays in order. -/
theorem filter_sortBy (key : α → κ) (l : List α) (k : κ) :
    (sortBy key l).filter (fun a => key a = k) = l.filter fun a => key a = k := by
  have hpart : (l.filter fun a => key a = k).Pairwise fun a b => key a ≤ key b := by
    refine List.pairwise_of_forall_mem_list fun a ha b hb => ?_
    simp only [List.mem_filter, decide_eq_true_eq] at ha hb
    rw [ha.2, hb.2]
  have hsub : (l.filter fun a => key a = k).Sublist ((sortBy key l).filter fun a => key a = k) := by
    have h := (List.sublist_insertionSort hpart List.filter_sublist).filter fun a => key a = k
    simpa only [sortBy, List.filter_filter, Bool.and_self] using h
  exact (hsub.eq_of_length ((sortBy_perm key l).filter _).length_eq.symm).symm

/-- The first of a list in the order of a key has the least. -/
theorem key_head_le {x : α} (h : (a :: l).Pairwise fun a b => key a ≤ key b) (hx : x ∈ a :: l) :
    key a ≤ key x := by
  rcases List.mem_cons.mp hx with rfl | hx
  · exact le_refl _
  · exact List.rel_of_pairwise_cons h hx

/-- Lists in the order of a key are told apart by their parts of one key. -/
theorem eq_of_filter_eq (hl : l.Pairwise fun a b => key a ≤ key b)
    (hm : m.Pairwise fun a b => key a ≤ key b)
    (h : ∀ k, l.filter (fun a => key a = k) = m.filter fun a => key a = k) : l = m := by
  induction l generalizing m with
  | nil =>
    cases m with
    | nil => rfl
    | cons b => simpa using h (key b)
  | cons a l ih =>
    cases m with
    | nil => simpa using h (key a)
    | cons b m =>
      have hmem : ∀ x, x ∈ a :: l ↔ x ∈ b :: m := by
        intro x
        have hx := congrArg (x ∈ ·) (h (key x))
        simpa [List.mem_filter] using hx
      -- so the two start with the least key of one and the same set
      have hkey : key a = key b :=
        le_antisymm (key_head_le hl ((hmem b).mpr List.mem_cons_self))
          (key_head_le hm ((hmem a).mp List.mem_cons_self))
      have hab := h (key b)
      simp only [List.filter_cons, hkey, decide_true, if_true, List.cons.injEq] at hab
      have htail : l = m := by
        refine ih hl.tail hm.tail fun k => ?_
        have hk := h k
        rw [hab.1] at hk
        by_cases hkb : key b = k <;> simpa [List.filter_cons, hkb] using hk
      rw [hab.1, htail]

/-- A list is its part that passes a test followed by the rest exactly when
nothing that passes comes after something that does not. -/
theorem filter_append_filter_not_eq_iff :
    l.filter p ++ l.filter (!p ·) = l ↔ l.Pairwise fun a b => p b = true → p a = true := by
  induction l with
  | nil => simp
  | cons a l ih =>
    rw [List.pairwise_cons, ← ih]
    cases ha : p a with
    | true => simp [ha]
    | false =>
      simp only [List.filter_cons, ha, Bool.false_eq_true, if_false, Bool.not_false, if_true,
        imp_false]
      constructor
      · intro h
        have hnone : l.filter p = [] := by
          cases hl : l.filter p with
          | nil => rfl
          | cons b =>
            rw [hl, List.cons_append, List.cons.injEq] at h
            have hb := (List.mem_filter.mp (hl ▸ List.mem_cons_self : b ∈ l.filter p)).2
            rw [h.1, ha] at hb
            cases hb
        rw [hnone, List.nil_append, List.cons.injEq] at h
        exact ⟨fun b hb => by simpa using List.filter_eq_nil_iff.mp hnone b hb,
          by rw [hnone, List.nil_append, h.2]⟩
      · rintro ⟨hnone, h⟩
        have hnil : l.filter p = [] := List.filter_eq_nil_iff.mpr fun b hb => hnone b hb
        rw [hnil, List.nil_append] at h ⊢
        rw [h]

/-- A list split by a test and put together again with the part that passes
first, sorted, is the list itself exactly when it was sorted and its ties came
with those that pass first. -/
theorem sortBy_partition_eq_iff (key : α → κ) (p : α → Bool) (l : List α) :
    sortBy key (l.filter p ++ l.filter (!p ·)) = l ↔
      l.Pairwise fun a b => key a < key b ∨ (key a = key b ∧ (p b = true → p a = true)) := by
  -- the part of one key, of the list put together again
  have hpart : ∀ k, (l.filter p ++ l.filter (!p ·)).filter (fun a => key a = k) =
      (l.filter fun a => key a = k).filter p ++ (l.filter fun a => key a = k).filter (!p ·) := by
    intro k
    rw [List.filter_append, List.filter_comm, List.filter_comm (q := (!p ·))]
  constructor
  · intro h
    rw [List.pairwise_iff_forall_sublist]
    intro a b hab
    have hle := pairwise_sortBy key (l.filter p ++ l.filter (!p ·))
    rw [h] at hle
    refine (List.pairwise_iff_forall_sublist.mp hle hab).lt_or_eq.imp_right fun heq => ⟨heq, ?_⟩
    have hk := filter_sortBy key (l.filter p ++ l.filter (!p ·)) (key b)
    rw [h, hpart] at hk
    refine List.pairwise_iff_forall_sublist.mp (filter_append_filter_not_eq_iff.mp hk.symm) ?_
    simpa [heq] using hab.filter fun a => key a = key b
  · intro h
    refine eq_of_filter_eq (pairwise_sortBy key _)
      (h.imp fun h => h.elim le_of_lt fun h => h.1.le) fun k => ?_
    rw [filter_sortBy, hpart, filter_append_filter_not_eq_iff, List.pairwise_filter]
    refine h.imp fun h ha hb => ?_
    rw [decide_eq_true_eq] at ha hb
    exact (h.resolve_left (by rw [ha, hb]; exact lt_irrefl k)).2

/-! ## Keys that tell apart -/

/-- A list whose keys go up is what sorting any order of it gives. -/
theorem sortBy_eq_of_perm (h : l.Perm m) (hm : m.Pairwise fun a b => key a < key b) :
    sortBy key l = m := by
  refine ((sortBy_perm key l).trans h).eq_of_pairwise ?_ (pairwise_sortBy key l)
    (hm.imp le_of_lt)
  intro a b ha hb hab hba
  have ha : a ∈ m := h.mem_iff.mp ((sortBy_perm key l).mem_iff.mp ha)
  have hkeys : (m.map key).Nodup := List.pairwise_map.mpr (hm.imp fun h => h.ne)
  exact List.inj_on_of_nodup_map hkeys ha hb (le_antisymm hab hba)

/-- Where keys tell apart, sorting leaves them going up. -/
theorem pairwise_lt_sortBy (hnodup : (l.map key).Nodup) :
    (sortBy key l).Pairwise fun a b => key a < key b := by
  have hkeys : ((sortBy key l).map key).Nodup := ((sortBy_perm key l).map key).nodup_iff.mpr hnodup
  rw [List.Nodup, List.pairwise_map] at hkeys
  exact (pairwise_sortBy key l).imp₂ (fun _ _ hle hne => lt_of_le_of_ne hle hne) hkeys

/-- Leaving some out does not change the order of the others. -/
theorem filter_sortBy_eq (hnodup : (l.map key).Nodup) (p : α → Bool) :
    (sortBy key l).filter p = sortBy key (l.filter p) :=
  (sortBy_eq_of_perm ((sortBy_perm key l).symm.filter p)
    ((pairwise_lt_sortBy hnodup).filter p)).symm

/-- The first of them that a test picks, once they are sorted, is the least it picks. -/
theorem find?_sortBy_eq_some (hnodup : (l.map key).Nodup) : (sortBy key l).find? p = some a ↔
      a ∈ l ∧ p a = true ∧ ∀ x ∈ l, p x = true → x = a ∨ key a < key x := by
  have hlt := pairwise_lt_sortBy hnodup
  constructor
  · intro h
    obtain ⟨hpa, _, _, hsplit, hpre⟩ := List.find?_eq_some_iff_append.mp h
    rw [hsplit] at hlt
    obtain ⟨-, hpost, -⟩ := List.pairwise_append.mp hlt
    refine ⟨(sortBy_perm key l).mem_iff.mp (List.mem_of_find?_eq_some h), hpa, fun x hx hpx => ?_⟩
    have hx := (sortBy_perm key l).mem_iff.mpr hx
    rw [hsplit, List.mem_append, List.mem_cons] at hx
    rcases hx with hx | rfl | hx
    · exact absurd hpx (by simpa using hpre x hx)
    · exact .inl rfl
    · exact .inr ((List.pairwise_cons.mp hpost).1 x hx)
  · rintro ⟨ha, hpa, hleast⟩
    obtain ⟨pre, post, hsplit⟩ := List.append_of_mem ((sortBy_perm key l).mem_iff.mpr ha)
    rw [hsplit] at hlt
    obtain ⟨-, -, hpre⟩ := List.pairwise_append.mp hlt
    refine List.find?_eq_some_iff_append.mpr ⟨hpa, pre, post, hsplit, fun x hx => ?_⟩
    have hxa : key x < key a := hpre x hx a List.mem_cons_self
    have hxl : x ∈ l := by
      rw [← (sortBy_perm key l).mem_iff, hsplit]
      exact List.mem_append_left _ hx
    -- a test that picked it would have it above what it is below
    simp only [Bool.not_eq_true']
    refine Bool.eq_false_iff.mpr fun hpx => ?_
    rcases hleast x hxl hpx with rfl | hax
    · exact lt_irrefl _ hxa
    · exact lt_asymm hxa hax

end AgentDocker.Lib
