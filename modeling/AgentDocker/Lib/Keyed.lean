import Mathlib.Data.List.Nodup

/-!
# Tables of rows with distinct keys

A map from keys to values whose values carry their own key, and a database
table with a primary key, are the same thing: a collection of rows no two of
which share a key. `Keyed key` is that collection, with the distinctness as a
field, so a table that holds one key twice cannot be built.

The rows come in a list because a program that walks the table walks it in
some order. Which order is nobody's promise, so what is proved about a table
is proved about membership.
-/

namespace AgentDocker.Lib

/-- Rows of type `α`, told apart by `key`. -/
structure Keyed {α κ : Type} (key : α → κ) where
  rows : List α
  nodup : (rows.map key).Nodup

namespace Keyed

variable {α κ : Type} {key : α → κ}

instance : Membership α (Keyed key) := ⟨fun t a => a ∈ t.rows⟩

variable {t : Keyed key} {xs : List α} {a b : α} {p : α → Bool} {f : α → α} {k : κ}
  {hf : ∀ a, key (f a) = key a}

theorem mem_def : a ∈ t ↔ a ∈ t.rows := Iff.rfl

instance [DecidableEq α] (t : Keyed key) (a : α) : Decidable (a ∈ t) :=
  inferInstanceAs (Decidable (a ∈ t.rows))

def empty : Keyed key := ⟨[], List.nodup_nil⟩

@[simp] theorem not_mem_empty : ¬ a ∈ (empty : Keyed key) :=
  List.not_mem_nil

/-- A key names at most one row. -/
theorem eq_of_key_eq (ha : a ∈ t) (hb : b ∈ t) (h : key a = key b) : a = b :=
  List.inj_on_of_nodup_map t.nodup ha hb h

/-- The rows that pass a test. -/
def filter (t : Keyed key) (p : α → Bool) : Keyed key :=
  ⟨t.rows.filter p, t.nodup.sublist (List.filter_sublist.map key)⟩

@[simp] theorem mem_filter : a ∈ t.filter p ↔ a ∈ t ∧ p a = true :=
  List.mem_filter

/-- The keys of the rows whose key passes a test. -/
theorem exists_filter {p : κ → Bool} :
    (∃ a ∈ t.filter fun a => p (key a), key a = k) ↔ (∃ a ∈ t, key a = k) ∧ p k = true := by
  constructor
  · rintro ⟨a, ha, rfl⟩
    exact ⟨⟨a, (mem_filter.mp ha).1, rfl⟩, (mem_filter.mp ha).2⟩
  · rintro ⟨⟨a, ha, rfl⟩, hp⟩
    exact ⟨a, mem_filter.mpr ⟨ha, hp⟩, rfl⟩

theorem filter_eq_self (h : ∀ a ∈ t, p a = true) : t.filter p = t := by
  obtain ⟨rows, _⟩ := t
  have hrows : rows.filter p = rows := List.filter_eq_self.mpr h
  simp only [filter, hrows]

/-- Every row rewritten in place by a function that leaves its key alone. -/
def update (t : Keyed key) (f : α → α) (hf : ∀ a, key (f a) = key a) : Keyed key :=
  ⟨t.rows.map f, by
    have h : (t.rows.map f).map key = t.rows.map key := by
      rw [List.map_map]
      exact List.map_congr_left fun a _ => hf a
    rw [h]
    exact t.nodup⟩

@[simp] theorem mem_update : b ∈ t.update f hf ↔ ∃ a ∈ t, f a = b :=
  List.mem_map

/-- The same rows walked in another order. -/
def reorder (t : Keyed key) (rows : List α) (h : rows.Perm t.rows) : Keyed key :=
  ⟨rows, (h.map key).nodup_iff.mpr t.nodup⟩

@[simp] theorem mem_reorder {rows : List α} {h : rows.Perm t.rows} : a ∈ t.reorder rows h ↔ a ∈ t :=
  h.mem_iff

variable [DecidableEq κ]

/-- The row under a key. -/
def get? (t : Keyed key) (k : κ) : Option α :=
  t.rows.find? fun a => decide (key a = k)

theorem get?_eq_some : t.get? k = some a ↔ a ∈ t ∧ key a = k := by
  constructor
  · intro h
    exact ⟨List.mem_of_find?_eq_some h, by simpa using List.find?_some h⟩
  · rintro ⟨ha, rfl⟩
    cases hf : t.get? (key a) with
    | none =>
      exact absurd (List.find?_eq_none.mp hf a ha) (by simp)
    | some b =>
      have hb : key b = key a := by simpa using List.find?_some hf
      rw [eq_of_key_eq (List.mem_of_find?_eq_some hf) ha hb]

theorem get?_eq_none : t.get? k = none ↔ ∀ a ∈ t, key a ≠ k := by
  simp only [get?, List.find?_eq_none, decide_eq_true_eq]
  exact Iff.rfl

/-- The table without the row under a key. -/
def erase (t : Keyed key) (k : κ) : Keyed key :=
  t.filter fun a => decide (key a ≠ k)

@[simp] theorem mem_erase : a ∈ t.erase k ↔ a ∈ t ∧ key a ≠ k := by
  simp [erase]

theorem exists_erase {k' : κ} :
    (∃ a ∈ t.erase k, key a = k') ↔ (∃ a ∈ t, key a = k') ∧ k' ≠ k := by
  rw [erase, exists_filter (p := fun k' => decide (k' ≠ k)), decide_eq_true_eq]

/-- A row put in, in place of whatever its key named. -/
def insert (t : Keyed key) (a : α) : Keyed key :=
  ⟨(t.erase (key a)).rows ++ [a], by
    rw [List.map_append, List.map_singleton]
    refine List.Nodup.append (t.erase (key a)).nodup (List.nodup_singleton _) ?_
    intro k hk hka
    obtain ⟨_, hb, rfl⟩ := List.mem_map.mp hk
    exact (mem_erase.mp hb).2 (List.mem_singleton.mp hka)⟩

@[simp] theorem mem_insert : b ∈ t.insert a ↔ b = a ∨ (b ∈ t ∧ key b ≠ key a) := by
  have h : b ∈ t.insert a ↔ b ∈ (t.erase (key a)).rows ∨ b ∈ [a] :=
    List.mem_append
  rw [h, ← mem_def, mem_erase, List.mem_singleton, or_comm]

theorem get?_filter : (t.filter p).get? k = (t.get? k).filter p := by
  cases h : t.get? k with
  | none =>
    rw [Option.filter_none, get?_eq_none]
    exact fun a ha => get?_eq_none.mp h a (mem_filter.mp ha).1
  | some a =>
    obtain ⟨ha, hk⟩ := get?_eq_some.mp h
    cases hp : p a with
    | true =>
      rw [Option.filter_some_pos hp]
      exact get?_eq_some.mpr ⟨mem_filter.mpr ⟨ha, hp⟩, hk⟩
    | false =>
      rw [Option.filter_some_neg (by simp [hp]), get?_eq_none]
      intro b hb hkb
      obtain ⟨hb, hpb⟩ := mem_filter.mp hb
      rw [eq_of_key_eq hb ha (hkb.trans hk.symm), hp] at hpb
      cases hpb

theorem get?_update : (t.update f hf).get? k = (t.get? k).map f := by
  cases h : t.get? k with
  | none =>
    rw [Option.map_none, get?_eq_none]
    intro b hb
    obtain ⟨a, ha, rfl⟩ := mem_update.mp hb
    rw [hf]
    exact get?_eq_none.mp h a ha
  | some a =>
    obtain ⟨ha, hk⟩ := get?_eq_some.mp h
    exact get?_eq_some.mpr ⟨mem_update.mpr ⟨a, ha, rfl⟩, (hf a).trans hk⟩

theorem get?_insert : (t.insert a).get? k = if key a = k then some a else t.get? k := by
  split
  · next heq => exact get?_eq_some.mpr ⟨mem_insert.mpr (.inl rfl), heq⟩
  next hne =>
  cases h : t.get? k with
  | some =>
    obtain ⟨hmem, rfl⟩ := get?_eq_some.mp h
    exact get?_eq_some.mpr ⟨mem_insert.mpr (.inr ⟨hmem, fun heq => hne heq.symm⟩), rfl⟩
  | none =>
    rw [get?_eq_none] at h ⊢
    intro b hb heq
    rcases mem_insert.mp hb with rfl | ⟨hb, -⟩
    · exact hne heq
    · exact h b hb heq

/-- The keys of a table a row was put into. -/
theorem exists_insert : (∃ b ∈ t.insert a, key b = k) ↔ (∃ b ∈ t, key b = k) ∨ key a = k := by
  constructor
  · rintro ⟨b, hb, rfl⟩
    rcases mem_insert.mp hb with rfl | ⟨hb, -⟩
    · exact .inr rfl
    · exact .inl ⟨b, hb, rfl⟩
  · intro h
    by_cases hk : key a = k
    · exact ⟨a, mem_insert.mpr (.inl rfl), hk⟩
    · obtain ⟨b, hb, rfl⟩ := h.resolve_right hk
      exact ⟨b, mem_insert.mpr (.inr ⟨hb, Ne.symm hk⟩), rfl⟩

theorem mem_of_mem_foldl_insert (h : b ∈ xs.foldl insert t) : b ∈ xs ∨ b ∈ t := by
  induction xs generalizing t with
  | nil => exact .inr h
  | cons _ _ ih =>
    rcases ih h with h | h
    · exact .inl (List.mem_cons_of_mem _ h)
    · rcases mem_insert.mp h with rfl | ⟨h, -⟩
      · exact .inl List.mem_cons_self
      · exact .inr h

/-- A list of rows put in one after the other, none twice. -/
theorem mem_foldl_insert (hxs : (xs.map key).Nodup) :
    b ∈ xs.foldl insert t ↔ b ∈ xs ∨ (b ∈ t ∧ ∀ x ∈ xs, key b ≠ key x) := by
  induction xs generalizing t with
  | nil => simp
  | cons x rest ih =>
    rw [List.map_cons, List.nodup_cons] at hxs
    rw [List.foldl_cons, ih hxs.2, mem_insert, List.mem_cons, List.forall_mem_cons]
    constructor
    · rintro (hb | ⟨rfl | ⟨hb, hne⟩, hrest⟩)
      · exact .inl (.inr hb)
      · exact .inl (.inl rfl)
      · exact .inr ⟨hb, hne, hrest⟩
    · rintro ((rfl | hb) | ⟨hb, hne, hrest⟩)
      · by_cases hmem : b ∈ rest
        · exact .inl hmem
        · refine .inr ⟨.inl rfl, fun x hx heq => hxs.1 ?_⟩
          rw [heq]
          exact List.mem_map_of_mem hx
      · exact .inl hb
      · exact .inr ⟨.inr ⟨hb, hne⟩, hrest⟩

end Keyed

end AgentDocker.Lib
