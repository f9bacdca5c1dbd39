import Mathlib.Data.List.Infix

/-!
# Glob patterns

A pattern is a list of letters three of which are read specially: one star
stands for letters up to the next separator, two stars for any letters at all,
and the query for one letter that is no separator. Every other letter stands
for itself, and a pattern has to match the whole text.

A part of a pattern without stars and queries is *literal*. What can be said of
every pattern that begins with one is `glob_literal_append`.
-/

namespace AgentDocker.Lib

/-- The letters a pattern does not read as themselves, and the one that bounds
a star. -/
structure Wildcards (α : Type) where
  star : α
  query : α
  separator : α

namespace Wildcards

variable {α : Type} [DecidableEq α] (w : Wildcards α)

/-- What may be left of a text behind one star. -/
def behindStar (text : List α) : List (List α) :=
  text.tails.take ((text.takeWhile fun b => decide (b ≠ w.separator)).length + 1)

/-- One letter of a pattern, and `rest` for what follows it. -/
def letter (p : α) (rest : List α → Bool) (text : List α) : Bool :=
  if p = w.star then
    (w.behindStar text).any rest
  else
    match text with
    | [] => false
    | b :: text => decide (if p = w.query then b ≠ w.separator else b = p) && rest text

def glob : List α → List α → Bool
  | [], text => text.isEmpty
  | [p], text => w.letter p (glob []) text
  | p :: q :: pattern, text =>
    if p = w.star ∧ q = w.star then text.tails.any (glob pattern)
    else w.letter p (glob (q :: pattern)) text

/-- Every letter stands for itself. -/
def Literal (l : List α) : Prop := ∀ p ∈ l, p ≠ w.star ∧ p ≠ w.query

instance (l : List α) : Decidable (w.Literal l) :=
  inferInstanceAs (Decidable (∀ p ∈ l, p ≠ w.star ∧ p ≠ w.query))

variable {w}

theorem glob_cons {p : α} (hstar : p ≠ w.star) (hquery : p ≠ w.query) {pattern text : List α} :
    w.glob (p :: pattern) text = true ↔
      ∃ after, text = p :: after ∧ w.glob pattern after = true := by
  have hletter : w.glob (p :: pattern) text = w.letter p (w.glob pattern) text := by
    cases pattern with
    | nil => rfl
    | cons => rw [glob, if_neg fun h => hstar h.1]
  rw [hletter]
  cases text with
  | nil => simp [letter, hstar]
  | cons => simp [letter, hstar, hquery, and_assoc]

/-- A literal beginning has to be the text's. -/
theorem glob_literal_append {l : List α} (hl : w.Literal l) {pattern text : List α} :
    w.glob (l ++ pattern) text = true ↔ ∃ rest, text = l ++ rest ∧ w.glob pattern rest = true := by
  induction l generalizing text with
  | nil => simp
  | cons p l ih =>
    obtain ⟨hstar, hquery⟩ := hl p List.mem_cons_self
    have hl' : w.Literal l := fun q hq => hl q (List.mem_cons_of_mem _ hq)
    rw [List.cons_append, glob_cons hstar hquery]
    constructor
    · rintro ⟨_, rfl, h⟩
      obtain ⟨rest, rfl, hrest⟩ := (ih hl').mp h
      exact ⟨rest, rfl, hrest⟩
    · rintro ⟨rest, rfl, h⟩
      exact ⟨l ++ rest, rfl, (ih hl').mpr ⟨rest, rfl, h⟩⟩

/-- Two stars at the end take whatever there is. -/
theorem glob_star_star {text : List α} : w.glob [w.star, w.star] text = true := by
  rw [glob, if_pos ⟨rfl, rfl⟩, List.any_eq_true]
  exact ⟨[], (List.mem_tails _ _).mpr (List.nil_suffix), rfl⟩

/-- The pattern of a tree: the texts that begin as it does. -/
theorem glob_tree {l : List α} (hl : w.Literal l) {text : List α} :
    w.glob (l ++ [w.star, w.star]) text = true ↔ l <+: text := by
  rw [glob_literal_append hl]
  constructor
  · rintro ⟨rest, rfl, -⟩
    exact List.prefix_append l rest
  · rintro ⟨rest, rfl⟩
    exact ⟨rest, rfl, glob_star_star⟩

end Wildcards

end AgentDocker.Lib
