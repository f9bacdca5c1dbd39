import AgentDocker.Core.Resource
import Mathlib.Data.List.Infix

/-!
# When two resource keys overlap

`overlaps` compares text: it strips slashes in two places, compares lengths, and looks
at the one character behind the shorter value. What it means is about components: a
nesting key covers another when the components of its value are the first components
of the other's.

The two ways of stripping agree because a key that was made by `new` either has no
slash left at its end or is the root alone, and the root's components are those of the
empty value.
-/

namespace AgentDocker.Core

/-! ## Text in components -/

section Components

variable {α : Type} {sep : α}

theorem intercalate_append {xs ys : List (List α)} (hxs : xs ≠ []) (hys : ys ≠ []) :
    [sep].intercalate (xs ++ ys) = [sep].intercalate xs ++ sep :: [sep].intercalate ys := by
  induction xs with
  | nil => exact absurd rfl hxs
  | cons _ xs ih =>
    cases xs with
    | nil =>
      obtain ⟨y, ys, rfl⟩ := List.exists_cons_of_ne_nil hys
      simp [List.intercalate_cons_cons]
    | cons =>
      have h := ih (List.cons_ne_nil _ _)
      simp only [List.cons_append, List.intercalate_cons_cons] at h ⊢
      rw [h]
      simp

variable [DecidableEq α]

/-- The components of one text are the first of another's exactly when the other is
the same text, or continues it behind a separator. -/
theorem splitOn_prefix_iff {v w : List α} :
    v.splitOn sep <+: w.splitOn sep ↔ w = v ∨ ∃ rest, w = v ++ sep :: rest := by
  constructor
  · rintro ⟨tail, htail⟩
    have hw : [sep].intercalate (v.splitOn sep ++ tail) = w := by
      rw [htail, List.intercalate_splitOn]
    by_cases hnil : tail = []
    · subst hnil
      rw [List.append_nil, List.intercalate_splitOn] at hw
      exact .inl hw.symm
    · rw [intercalate_append (List.splitOn_ne_nil _ _) hnil, List.intercalate_splitOn] at hw
      exact .inr ⟨_, hw.symm⟩
  · rintro (rfl | ⟨rest, rfl⟩)
    · exact List.prefix_refl _
    · rw [List.splitOn_append_cons_self]
      exact List.prefix_append _ _

end Components

/-! ## Trailing slashes -/

@[simp] theorem trimEndSlashes_concat_slash {text : List Char} :
    trimEndSlashes (text ++ ['/']) = trimEndSlashes text := by
  simp [trimEndSlashes]

variable {c : Char}

theorem trimEndSlashes_concat {text : List Char} (h : c ≠ '/') :
    trimEndSlashes (text ++ [c]) = text ++ [c] := by
  simp [trimEndSlashes, h]

theorem trimEndSlashes_idem {text : List Char} :
    trimEndSlashes (trimEndSlashes text) = trimEndSlashes text := by
  induction text using List.reverseRecOn with
  | nil => rfl
  | append_singleton _ c ih =>
    by_cases h : c = '/'
    · subst h
      rw [trimEndSlashes_concat_slash, ih]
    · rw [trimEndSlashes_concat h, trimEndSlashes_concat h]

/-- Stripping stops at a character that is no slash. -/
theorem trimEndSlashes_append {front : List Char} (h : c ≠ '/') {text : List Char} :
    trimEndSlashes (front ++ c :: text) = front ++ c :: trimEndSlashes text := by
  induction text using List.reverseRecOn with
  | nil => exact trimEndSlashes_concat h
  | append_singleton text d ih =>
    have hassoc : front ++ c :: (text ++ [d]) = (front ++ c :: text) ++ [d] := by simp
    rw [hassoc]
    by_cases hd : d = '/'
    · subst hd
      rw [trimEndSlashes_concat_slash, trimEndSlashes_concat_slash, ih]
    · rw [trimEndSlashes_concat hd, trimEndSlashes_concat hd]
      simp

theorem length_le_utf8ByteSize (text : List Char) :
    text.length ≤ (String.ofList text).utf8ByteSize := by
  induction text with
  | nil => exact Nat.zero_le _
  | cons c text =>
    have h : String.ofList (c :: text) = String.singleton c ++ String.ofList text := by
      simp
    rw [h, String.utf8ByteSize_append, String.utf8ByteSize_singleton, List.length_cons]
    have hc := Char.utf8Size_pos c
    omega

namespace ResourceKey

/-- The parts of a value between its slashes, those it ends in left out. -/
def components (value : List Char) : List (List Char) :=
  (trimEndSlashes value).splitOn '/'

/-! ## Reading a key -/

theorem splitOnce_eq_some {c : Char} {text kind value : List Char} :
    splitOnce c text = some (kind, value) ↔ text = kind ++ c :: value ∧ c ∉ kind := by
  unfold splitOnce
  constructor
  · intro h
    split at h
    · cases h
    next d rest hdrop =>
    have hd : d = c := by
      have := List.head?_dropWhile_not (· != c) text
      rw [hdrop] at this
      simpa using this
    cases h
    subst hd
    refine ⟨?_, ?_⟩
    · rw [← hdrop]
      exact (List.takeWhile_append_dropWhile).symm
    · intro hmem
      simpa using List.all_eq_true.mp List.all_takeWhile _ hmem
  · rintro ⟨rfl, hc⟩
    have hall : ∀ d ∈ kind, (d != c) = true := by
      intro d hd
      have hne : d ≠ c := fun heq => hc (heq ▸ hd)
      simpa using hne
    rw [List.dropWhile_append_of_pos hall, List.takeWhile_append_of_pos hall]
    simp

variable {v w : List Char} {other r : ResourceKey} {s : String}

theorem eq_of_kind {kind : List Char} (hr : r.kind = kind) (hne : kind ≠ "resource".toList) :
    r.key.toList = kind ++ ':' :: r.value ∧ ':' ∉ kind := by
  unfold ResourceKey.kind at hr
  unfold value
  cases h : splitOnce ':' r.key.toList with
  | none =>
    rw [h] at hr
    exact absurd hr.symm hne
  | some =>
    rw [h] at hr
    subst hr
    exact splitOnce_eq_some.mp h

theorem kind_value_of {kind value : List Char} (h : r.key.toList = kind ++ ':' :: value)
    (hk : ':' ∉ kind) :
    r.kind = kind ∧ r.value = value := by
  have hs := splitOnce_eq_some.mpr ⟨h, hk⟩
  unfold ResourceKey.kind ResourceKey.value
  rw [hs]
  exact ⟨rfl, rfl⟩

theorem isHierarchical_iff :
    r.isHierarchical = true ↔ r.kind = "path".toList ∨ r.kind = "file".toList := by
  simp [isHierarchical]

/-- The key of a nesting kind is its kind and its value. -/
theorem eq_of_isHierarchical (h : r.isHierarchical = true) :
    r.key.toList = r.kind ++ ':' :: r.value ∧ ':' ∉ r.kind := by
  rcases isHierarchical_iff.mp h with h | h <;> exact eq_of_kind rfl (by rw [h]; decide)

theorem eq_iff_value (h : r.isHierarchical = true) (hk : r.kind = other.kind) :
    r = other ↔ r.value = other.value := by
  have hother : other.isHierarchical = true := by
    rw [← h]
    simp only [isHierarchical, hk]
  constructor
  · rintro rfl
    rfl
  · intro hv
    have hkey : r.key.toList = other.key.toList := by
      rw [(eq_of_isHierarchical h).1, (eq_of_isHierarchical hother).1, hk, hv]
    cases r
    cases other
    exact congrArg mk (String.toList_inj.mp hkey)

/-! ## Keys as they are made -/

/-- Whether `new` looks at the slashes a key ends in. -/
theorem new_hierarchical :
    ("path:".toList.isPrefixOf s.toList || "file:".toList.isPrefixOf s.toList) = true ↔
      (mk s).isHierarchical = true := by
  have hread : ∀ kind : List Char, ':' ∉ kind → kind ≠ "resource".toList →
      (kind ++ [':'] <+: s.toList ↔ (mk s).kind = kind) := by
    intro kind hk hne
    constructor
    · rintro ⟨v, hv⟩
      have hkey : (mk s).key.toList = kind ++ ':' :: v := by
        rw [← hv]
        simp
      exact (kind_value_of hkey hk).1
    · intro h
      refine ⟨(mk s).value, ?_⟩
      rw [List.append_assoc]
      exact (eq_of_kind h hne).1.symm
  rw [isHierarchical_iff, Bool.or_eq_true, List.isPrefixOf_iff_prefix, List.isPrefixOf_iff_prefix]
  exact or_congr (hread "path".toList (by decide) (by decide))
    (hread "file".toList (by decide) (by decide))

theorem new_of_short (h : ¬ s.utf8ByteSize > "path:/".utf8ByteSize) : new s = mk s := by
  unfold new
  dsimp only
  rw [decide_eq_false h, Bool.and_false, if_neg Bool.false_ne_true]

theorem new_of_long (h : (mk s).isHierarchical = true)
    (hlong : s.utf8ByteSize > "path:/".utf8ByteSize) :
    new s = mk (String.ofList (trimEndSlashes s.toList)) := by
  unfold new
  dsimp only
  rw [new_hierarchical.mpr h, decide_eq_true hlong, Bool.true_and, if_pos rfl]

theorem new_of_flat (h : (mk s).isHierarchical = false) : new s = mk s := by
  unfold new
  dsimp only
  have hflat := mt new_hierarchical.mp (Bool.eq_false_iff.mp h)
  rw [Bool.eq_false_iff.mpr hflat, Bool.false_and, if_neg Bool.false_ne_true]

/-- Behind the colon of a key too short to be stripped stands one character at most. -/
theorem value_of_short (h : (mk s).isHierarchical = true)
    (hshort : ¬ s.utf8ByteSize > "path:/".utf8ByteSize) : (mk s).value.length ≤ 1 := by
  have hkey : s.toList = (mk s).kind ++ ':' :: (mk s).value := (eq_of_isHierarchical h).1
  have hle := length_le_utf8ByteSize s.toList
  have hkind : (mk s).kind.length = 4 := by
    rcases isHierarchical_iff.mp h with h | h <;> rw [h] <;> rfl
  have hsum : s.toList.length = (mk s).kind.length + ((mk s).value.length + 1) := by
    conv_lhs => rw [hkey]
    rw [List.length_append, List.length_cons]
  have hroot : "path:/".utf8ByteSize = 6 := by decide
  rw [String.ofList_toList] at hle
  omega

/-- A nesting key keeps its kind, and of its value what is left without the slashes it
ends in; the root alone keeps its one slash. -/
theorem new_of_isHierarchical (h : (mk s).isHierarchical = true) : (new s).kind = (mk s).kind ∧
      ((new s).value = trimEndSlashes (mk s).value ∨
        ((mk s).value = ['/'] ∧ (new s).value = ['/'])) := by
  obtain ⟨hkey, hk⟩ := eq_of_isHierarchical h
  by_cases hsize : s.utf8ByteSize > "path:/".utf8ByteSize
  · have hnew : (new s).key.toList = (mk s).kind ++ ':' :: trimEndSlashes (mk s).value := by
      rw [new_of_long h hsize, ← trimEndSlashes_append (by decide), ← hkey]
      exact String.toList_ofList
    obtain ⟨hkind, hvalue⟩ := kind_value_of hnew hk
    exact ⟨hkind, .inl hvalue⟩
  · rw [new_of_short hsize]
    refine ⟨rfl, ?_⟩
    have hlen := value_of_short h hsize
    generalize (mk s).value = v at hlen
    cases v with
    | nil => exact .inl rfl
    | cons c rest =>
      have hrest : rest = [] := List.eq_nil_of_length_eq_zero (by simpa using hlen)
      subst hrest
      by_cases hc : c = '/'
      · subst hc
        exact .inr ⟨rfl, rfl⟩
      · have hkeep : trimEndSlashes ([] ++ [c]) = [] ++ [c] := trimEndSlashes_concat hc
        exact .inl hkeep.symm

/-- A value of a key that was made: nothing left to strip, or the root alone. -/
def Stripped (value : List Char) : Prop := trimEndSlashes value = value ∨ value = ['/']

theorem isHierarchical_new : (new s).isHierarchical = (mk s).isHierarchical := by
  cases h : (mk s).isHierarchical with
  | true =>
    have hkind := (new_of_isHierarchical h).1
    rw [isHierarchical_iff, hkind]
    exact isHierarchical_iff.mp h
  | false =>
    rw [new_of_flat h, h]

theorem stripped_new (h : (new s).isHierarchical = true) :
    Stripped (new s).value ∧ components (new s).value = components (mk s).value := by
  rw [isHierarchical_new] at h
  unfold components
  rcases (new_of_isHierarchical h).2 with hv | ⟨hs, hv⟩
  · rw [hv, trimEndSlashes_idem]
    exact ⟨.inl trimEndSlashes_idem, rfl⟩
  · rw [hv, hs]
    exact ⟨.inr rfl, rfl⟩

/-! ## Nesting -/

theorem isAncestor_iff {parent child : List Char} :
    isAncestor parent child = true ↔ ∃ rest, child = trimEndSlashes parent ++ '/' :: rest := by
  unfold isAncestor
  simp only [Bool.and_eq_true, decide_eq_true_eq, List.isPrefixOf_iff_prefix, beq_iff_eq]
  constructor
  · rintro ⟨⟨-, ⟨tail, rfl⟩⟩, hat⟩
    cases tail with
    | nil => simp at hat
    | cons c rest =>
      have hc : c = '/' := by simpa using hat
      exact ⟨rest, by rw [hc]⟩
  · rintro ⟨rest, rfl⟩
    refine ⟨⟨?_, List.prefix_append _ _⟩, ?_⟩
    · rw [List.length_append, List.length_cons]
      omega
    · rw [List.getElem?_append_right (Nat.le_refl _), Nat.sub_self]
      rfl

/-- A value whose components come first is stripped to the same, or is an ancestor. -/
theorem prefix_iff (hw : Stripped w) : components v <+: components w ↔
      trimEndSlashes v = trimEndSlashes w ∨ isAncestor v w = true := by
  unfold components
  rw [splitOn_prefix_iff, isAncestor_iff, eq_comm]
  rcases hw with hw | rfl
  · rw [hw]
  · -- The root is the one value that is not what it is stripped to.
    have hroot : trimEndSlashes ['/'] = [] := rfl
    rw [hroot]
    constructor
    · rintro (h | ⟨rest, h⟩)
      · exact .inl h
      · exact absurd h.symm (by simp)
    · rintro (h | ⟨rest, h⟩)
      · exact .inl h
      · cases hv : trimEndSlashes v with
        | nil => exact .inl rfl
        | cons =>
          rw [hv] at h
          exact absurd (congrArg List.length h) (by simp)

theorem overlaps_of_stripped_eq (hv : Stripped v) (hw : Stripped w)
    (h : trimEndSlashes v = trimEndSlashes w) :
    v = w ∨ isAncestor v w = true ∨ isAncestor w v = true := by
  have hroot : trimEndSlashes ['/'] = [] := rfl
  rw [isAncestor_iff, isAncestor_iff]
  rcases hv with hv | rfl <;> rcases hw with hw | rfl
  · exact .inl (by rw [← hv, h, hw])
  · exact .inr (.inl ⟨[], by rw [h, hroot]; rfl⟩)
  · exact .inr (.inr ⟨[], by rw [← h, hroot]; rfl⟩)
  · exact .inl rfl

/-- Keys of one nesting kind overlap exactly when the components of one come first
among the other's. -/
theorem overlaps_iff_prefix (hr : r.isHierarchical = true) (hkind : r.kind = other.kind)
    (hv : Stripped r.value) (hw : Stripped other.value) :
    r.overlaps other = true ↔ components r.value <+: components other.value ∨
        components other.value <+: components r.value := by
  have hunfold : r.overlaps other = true ↔ r.value = other.value ∨
      isAncestor r.value other.value = true ∨ isAncestor other.value r.value = true := by
    unfold overlaps
    rw [hr, hkind, ← eq_iff_value hr hkind]
    split
    · next h => exact iff_of_true rfl (.inl h)
    · next h => simp [h]
  rw [hunfold, prefix_iff hw, prefix_iff hv]
  constructor
  · rintro (h | h | h)
    · exact .inl (.inl (congrArg trimEndSlashes h))
    · exact .inl (.inr h)
    · exact .inr (.inr h)
  · rintro ((h | h) | (h | h))
    · exact overlaps_of_stripped_eq hv hw h
    · exact .inr (.inl h)
    · exact overlaps_of_stripped_eq hv hw h.symm
    · exact .inr (.inr h)

theorem overlaps_self : r.overlaps r = true := by
  unfold overlaps
  rw [if_pos rfl]

theorem not_overlaps_of_kind (h : r.kind ≠ other.kind) : r.overlaps other = false := by
  have hne : r ≠ other := fun heq => h (congrArg kind heq)
  unfold overlaps
  rw [if_neg hne, if_pos]
  simp [h]

theorem not_overlaps_of_value (hr : r.isHierarchical = false) (h : r.value ≠ other.value) :
    r.overlaps other = false := by
  have hne : r ≠ other := fun heq => h (congrArg value heq)
  unfold overlaps
  rw [if_neg hne, if_pos]
  simp [hr]

/-- What overlapping means for the keys two requests spelt `s` and `t`. -/
structure OverlapsByComponents (s t : String) : Prop where
  refl : (new s).overlaps (new s) = true
  symm : (new s).overlaps (new t) = (new t).overlaps (new s)
  /-- Two of one nesting kind, their values absolute or not. -/
  nesting : (new s).kind = (new t).kind →
    (new s).kind = "path".toList ∨ (new s).kind = "file".toList → ((new s).overlaps (new t) = true ↔
        components (new s).value <+: components (new t).value ∨
          components (new t).value <+: components (new s).value)
  /-- Making a key leaves a nesting value's components as they were spelt. -/
  spelt : (new s).kind = "path".toList ∨ (new s).kind = "file".toList →
    components (new s).value = components (mk s).value
  kinds : (new s).kind ≠ (new t).kind → (new s).overlaps (new t) = false
  flat : (new s).kind ≠ "path".toList → (new s).kind ≠ "file".toList →
    (new s).value ≠ (new t).value → (new s).overlaps (new t) = false

/-- Overlap is reflexive and symmetric; on keys of one nesting kind it is one value's
components being a prefix of the other's; and other keys overlap only when they have
kind and value in common. -/
theorem overlaps_by_components (s t : String) : OverlapsByComponents s t where
  refl := overlaps_self
  symm := overlaps_comm _ _
  nesting := by
    intro hkind hs
    have hr := isHierarchical_iff.mpr hs
    have ht := isHierarchical_iff.mpr (hkind ▸ hs)
    exact overlaps_iff_prefix hr hkind (stripped_new hr).1 (stripped_new ht).1
  spelt := by
    intro hs
    exact (stripped_new (isHierarchical_iff.mpr hs)).2
  kinds := not_overlaps_of_kind
  flat := by
    intro hpath hfile hvalue
    refine not_overlaps_of_value ?_ hvalue
    rw [Bool.eq_false_iff]
    intro h
    rcases isHierarchical_iff.mp h with h | h
    · exact hpath h
    · exact hfile h

end ResourceKey

end AgentDocker.Core
