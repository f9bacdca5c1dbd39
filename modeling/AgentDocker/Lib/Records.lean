import Mathlib.Data.List.Basic
import Mathlib.Data.List.Induction

/-!
# Records that end with a mark

A stream of items is a sequence of records, each ending with the mark `t` and
holding it nowhere else, and then a tail that is not finished. `readUntil` is
one record's worth of reading; `records` is what is complete.

A chain of digests takes one record in at a time. Where one link can be told
from another, two chains over equally many items are over the same records.
-/

namespace AgentDocker.Lib

variable {α : Type} {t : α}

/-- The mark ends it, and is nowhere else. -/
def IsRecord (t : α) (line : List α) : Prop :=
  ∃ body, t ∉ body ∧ line = body ++ [t]

theorem IsRecord.ne_nil {line : List α} (h : IsRecord t line) : line ≠ [] := by
  obtain ⟨_, -, rfl⟩ := h
  simp

/-- A part without the mark, and a record after it. -/
theorem IsRecord.append {part line : List α} (h : IsRecord t line) (hpart : t ∉ part) :
    IsRecord t (part ++ line) := by
  obtain ⟨body, hbody, rfl⟩ := h
  refine ⟨part ++ body, ?_, by simp⟩
  simp [hpart, hbody]

/-- A stream begins with one part, and what follows with another. -/
theorem append_begins {xs ys all : List α} (hxs : xs <+: all) (hys : ys <+: all.drop xs.length) :
    xs ++ ys <+: all := by
  obtain ⟨_, rfl⟩ := hxs
  rw [List.drop_left] at hys
  exact (List.prefix_append_right_inj xs).mpr hys

section Reading

variable [DecidableEq α]

/-- The items up to the first mark, the mark included; all of them when there is none. -/
def readUntil (t : α) : List α → List α
  | [] => []
  | x :: xs => if x = t then [x] else x :: readUntil t xs

/-- The complete records after a part of one. -/
def recordsFrom (t : α) : List α → List α → List (List α)
  | _, [] => []
  | part, x :: xs =>
    if x = t then (part ++ [x]) :: recordsFrom t [] xs else recordsFrom t (part ++ [x]) xs

/-- The complete records. -/
def records (t : α) (xs : List α) : List (List α) := recordsFrom t [] xs

/-! ## Reading one record -/

variable {lines : List (List α)} {part rest xs ys : List α}

theorem readUntil_of_mem {body : List α} (h : t ∉ body) :
    readUntil t (body ++ t :: rest) = body ++ [t] := by
  induction body with
  | nil => simp [readUntil]
  | cons _ _ ih =>
    simp only [List.mem_cons, not_or] at h
    rw [List.cons_append, readUntil, if_neg (Ne.symm h.1), ih h.2, List.cons_append]

theorem readUntil_of_not_mem (h : t ∉ xs) : readUntil t xs = xs := by
  induction xs with
  | nil => rfl
  | cons _ _ ih =>
    simp only [List.mem_cons, not_or] at h
    rw [readUntil, if_neg (Ne.symm h.1), ih h.2]

/-- There is a first mark, or none. -/
theorem exists_first_or_not_mem (t : α) (xs : List α) :
    (∃ body rest, t ∉ body ∧ xs = body ++ t :: rest) ∨ t ∉ xs := by
  by_cases h : t ∈ xs
  · obtain ⟨body, rest, hxs, hbody⟩ := List.eq_append_cons_of_mem h
    exact Or.inl ⟨body, rest, hbody, hxs⟩
  · exact Or.inr h

theorem readUntil_append_drop (t : α) (xs : List α) :
    readUntil t xs ++ xs.drop (readUntil t xs).length = xs := by
  rcases exists_first_or_not_mem t xs with ⟨body, rest, hbody, rfl⟩ | h
  · have hxs : body ++ t :: rest = (body ++ [t]) ++ rest := by simp
    rw [readUntil_of_mem hbody, hxs, List.drop_left]
  · rw [readUntil_of_not_mem h]
    simp

theorem readUntil_begins (t : α) (xs : List α) : readUntil t xs <+: xs :=
  ⟨_, readUntil_append_drop t xs⟩

@[simp] theorem readUntil_eq_nil : readUntil t xs = [] ↔ xs = [] := by
  cases xs with
  | nil => simp [readUntil]
  | cons =>
    rw [readUntil]
    split <;> simp

/-- What was read ends with the mark: it is a record. -/
theorem isRecord_readUntil (h : (readUntil t xs).getLast? = some t) :
    IsRecord t (readUntil t xs) := by
  rcases exists_first_or_not_mem t xs with ⟨body, _, hbody, rfl⟩ | hnot
  · exact ⟨body, hbody, readUntil_of_mem hbody⟩
  · rw [readUntil_of_not_mem hnot] at h
    exact absurd (List.mem_of_getLast? h) hnot

/-- What was read does not end with the mark: there is none. -/
theorem not_mem_of_readUntil (h : (readUntil t xs).getLast? ≠ some t) : t ∉ xs := by
  rcases exists_first_or_not_mem t xs with ⟨_, _, hbody, rfl⟩ | hnot
  · rw [readUntil_of_mem hbody] at h
    simp at h
  · exact hnot

/-- A record read within a part is the record. -/
theorem readUntil_of_begins (hpre : xs <+: ys) (h : (readUntil t xs).getLast? = some t) :
    readUntil t ys = readUntil t xs := by
  obtain ⟨_, rfl⟩ := hpre
  rcases exists_first_or_not_mem t xs with ⟨_, _, hbody, rfl⟩ | hnot
  · rw [readUntil_of_mem hbody, List.append_assoc, List.cons_append, readUntil_of_mem hbody]
  · rw [readUntil_of_not_mem hnot] at h
    exact absurd (List.mem_of_getLast? h) hnot

/-- A part without the mark is read over. -/
theorem readUntil_append_of_not_mem (h : t ∉ xs) :
    readUntil t (xs ++ ys) = xs ++ readUntil t ys := by
  induction xs with
  | nil => rfl
  | cons _ _ ih =>
    simp only [List.mem_cons, not_or] at h
    rw [List.cons_append, readUntil, if_neg (Ne.symm h.1), ih h.2, List.cons_append]

/-- A piece read after a part finishes the record, or there is still only a part of it. -/
theorem part_append_readUntil (hpart : t ∉ part) (hne : readUntil t xs ≠ []) :
    ((part ++ readUntil t xs).getLast? = some t ∧ IsRecord t (part ++ readUntil t xs)) ∨
      ((part ++ readUntil t xs).getLast? ≠ some t ∧ t ∉ part ++ readUntil t xs) := by
  rw [List.getLast?_append_of_ne_nil _ hne]
  by_cases hend : (readUntil t xs).getLast? = some t
  · exact Or.inl ⟨hend, (isRecord_readUntil hend).append hpart⟩
  · refine Or.inr ⟨hend, ?_⟩
    have hnot := not_mem_of_readUntil hend
    rw [readUntil_of_not_mem hnot, List.mem_append, not_or]
    exact ⟨hpart, hnot⟩

/-! ## All complete records -/

theorem recordsFrom_append {line : List α} (h : IsRecord t line) :
    recordsFrom t part (line ++ rest) = (part ++ line) :: recordsFrom t [] rest := by
  obtain ⟨body, hbody, rfl⟩ := h
  induction body generalizing part with
  | nil => simp [recordsFrom]
  | cons _ _ ih =>
    simp only [List.mem_cons, not_or] at hbody
    rw [List.cons_append, List.cons_append, recordsFrom, if_neg (Ne.symm hbody.1), ih hbody.2]
    simp

variable (h : ∀ line ∈ lines, IsRecord t line)
include h

theorem records_append (rest : List α) :
    records t (lines.flatten ++ rest) = lines ++ records t rest := by
  induction lines with
  | nil => rfl
  | cons line _ ih =>
    rw [List.forall_mem_cons] at h
    rw [List.flatten_cons, List.append_assoc, records, recordsFrom_append h.1, List.nil_append]
    exact congrArg (line :: ·) (ih h.2)

/-- Records are read back. -/
theorem records_flatten : records t lines.flatten = lines := by
  have happend := records_append h []
  rw [List.append_nil] at happend
  rw [happend]
  simp [records, recordsFrom]

/-- What a stream begins with are its first records. -/
theorem records_begin (hpre : lines.flatten <+: xs) : lines <+: records t xs := by
  obtain ⟨_, rfl⟩ := hpre
  rw [records_append h]
  exact List.prefix_append ..

end Reading

/-! ## Chains -/

section Chain

variable {δ : Type}

/-- The digest of records, each taken into that of those before it. -/
def chain (link : δ → List α → δ) (zero : δ) (lines : List (List α)) : δ :=
  lines.foldl link zero

variable {link : δ → List α → δ} {zero : δ}

theorem chain_append (lines more : List (List α)) :
    chain link zero (lines ++ more) = chain link (chain link zero lines) more :=
  List.foldl_append

theorem chain_concat (lines : List (List α)) (line : List α) :
    chain link zero (lines ++ [line]) = link (chain link zero lines) line := by
  rw [chain_append]
  rfl

/-- One link tells what it was made from. -/
def LinkInjective (link : δ → List α → δ) : Prop :=
  ∀ d line d' line', link d line = link d' line' → d = d' ∧ line = line'

/-- Chains of equal digest over equally many items are the same: neither can end before
the other, as no record is empty. -/
theorem chain_inj (hlink : LinkInjective link) {lines others : List (List α)}
    (hlines : ∀ line ∈ lines, line ≠ []) (hothers : ∀ line ∈ others, line ≠ [])
    (hlength : lines.flatten.length = others.flatten.length)
    (heq : chain link zero lines = chain link zero others) : lines = others := by
  induction lines using List.reverseRecOn generalizing others with
  | nil =>
    cases others with
    | nil => rfl
    | cons line =>
      have hne := List.length_pos_of_ne_nil (hothers line List.mem_cons_self)
      simp only [List.flatten_nil, List.length_nil, List.flatten_cons,
        List.length_append] at hlength
      omega
  | append_singleton lines line ih =>
    have hne := List.length_pos_of_ne_nil (hlines line (by simp))
    rcases List.eq_nil_or_concat others with rfl | ⟨others, _, rfl⟩
    · simp only [List.flatten_append, List.flatten_nil, List.length_nil, List.length_append,
        List.flatten_cons, List.append_nil] at hlength
      omega
    · rw [List.concat_eq_append] at hothers hlength heq ⊢
      rw [chain_concat, chain_concat] at heq
      obtain ⟨hrest, rfl⟩ := hlink _ _ _ _ heq
      have hshort : lines.flatten.length = others.flatten.length := by
        simp only [List.flatten_append, List.length_append] at hlength
        omega
      rw [ih (fun l hl => hlines l (by simp [hl]))
        (fun l hl => hothers l (by simp [hl])) hshort hrest]

end Chain

end AgentDocker.Lib
