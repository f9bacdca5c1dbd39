import Mathlib.Data.List.Lex
import Mathlib.Data.List.GetD
import Mathlib.Order.Lattice

/-!
# Room between any two words

Words over an ordered alphabet, compared letter by letter, are dense once a
word may not end in the lowest letter: `midpoint` finds one between two. It
keeps the letters the two share, the shorter one read as if the lowest letter
went on for ever, and decides at the first where they differ. Where two letters
leave one between them that one is the answer; where they are neighbours the
upper one is, if its word goes on, and else the lower one followed by something
above the rest of its word, which always has room.

That no word ends in the lowest letter is what makes the endless reading
harmless: between a word and the same word with lowest letters after it there
is nothing.
-/

namespace AgentDocker.Lib

structure Alphabet (α : Type) [LinearOrder α] where
  digits : List α
  sorted : digits.Pairwise (· < ·)
  two : 2 ≤ digits.length

namespace Alphabet

variable {α : Type} [LinearOrder α] (A : Alphabet α)

def base : Nat := A.digits.length

def zero : α := A.digits.head (List.ne_nil_of_length_pos (Nat.lt_of_lt_of_le Nat.two_pos A.two))

/-- Where a letter stands; a stranger counts as the lowest. -/
def index (a : α) : Nat := (A.digits.findIdx? fun d => decide (d = a)).getD 0

def digit (i : Nat) : α := A.digits.getD i A.zero

/-- How far two words agree, the first read on with the lowest letter. -/
def common : List α → List α → Nat
  | _, [] => 0
  | [], h :: hs => if A.zero = h then common [] hs + 1 else 0
  | l :: ls, h :: hs => if l = h then common ls hs + 1 else 0

/-- Where a word's first letter stands. -/
def lead (w : List α) (absent : Nat) : Nat := (w.head?.map A.index).getD absent

theorem common_le (low high : List α) : A.common low high ≤ high.length := by
  fun_induction common with
  | case1 | case3 | case5 => exact Nat.zero_le _
  | case2 hs ih | case4 _ _ _ ih => simpa using ih

/-- A word between two; an empty upper one is none. -/
def midpoint (low high : List α) : List α :=
  if 0 < A.common low high then
    high.take (A.common low high) ++
      midpoint (low.drop (A.common low high)) (high.drop (A.common low high))
  else if A.lead low 0 + 1 < A.lead high A.base then
    [A.digit ((A.lead low 0 + A.lead high A.base) / 2)]
  -- neighbours: a longer upper word's first letter is between
  else if 1 < high.length then
    high.take 1
  else
    A.digit (A.lead low 0) :: midpoint low.tail []
termination_by low.length + high.length
decreasing_by
  · have hle := A.common_le low high
    simp only [List.length_drop]
    omega
  next _ hnear _ =>
  have htwo := A.two
  cases low with
  | cons => simp only [List.tail_cons, List.length_nil, List.length_cons]; omega
  | nil =>
    cases high with
    | cons => simp
    | nil => simp [lead, base] at hnear; omega

/-! ## Letters and where they stand -/

variable {A} {a b : α} {i j : Nat}

@[simp] theorem lead_nil : A.lead [] i = i := rfl

variable {high low w : List α}

@[simp] theorem lead_cons : A.lead (a :: w) i = A.index a := rfl

theorem base_pos : 0 < A.base := Nat.lt_of_lt_of_le Nat.two_pos A.two

theorem digit_eq (hi : i < A.base) : A.digit i = A.digits.get ⟨i, hi⟩ :=
  List.getD_eq_getElem _ _ hi

theorem digit_zero : A.digit 0 = A.zero := by
  rw [digit_eq base_pos, zero, List.head_eq_getElem]
  rfl

theorem mem_digit (hi : i < A.base) : A.digit i ∈ A.digits := by
  rw [digit_eq hi]
  exact List.get_mem ..

theorem digit_lt_digit (hij : i < j) (hj : j < A.base) : A.digit i < A.digit j := by
  rw [digit_eq (hij.trans hj), digit_eq hj]
  exact List.pairwise_iff_getElem.mp A.sorted i j (hij.trans hj) hj hij

/-- A letter of the alphabet is the one that stands where it does. -/
theorem index_spec (ha : a ∈ A.digits) : A.index a < A.base ∧ A.digit (A.index a) = a := by
  unfold index
  cases hfind : A.digits.findIdx? fun d => decide (d = a) with
  | none =>
    have := List.findIdx?_eq_none_iff.mp hfind a ha
    simp at this
  | some =>
    obtain ⟨hi, hat, -⟩ := List.findIdx?_eq_some_iff_getElem.mp hfind
    refine ⟨hi, ?_⟩
    rw [Option.getD_some, digit_eq hi]
    simpa using hat

theorem index_lt_index (ha : a ∈ A.digits) (hb : b ∈ A.digits) (hab : a < b) :
    A.index a < A.index b := by
  obtain ⟨hi, hia⟩ := index_spec ha
  obtain ⟨_, hjb⟩ := index_spec hb
  rcases lt_trichotomy (A.index a) (A.index b) with h | h | h
  · exact h
  · rw [h, hjb] at hia
    exact absurd hia.symm hab.ne
  · have hlt := digit_lt_digit h hi
    rw [hia, hjb] at hlt
    exact absurd hab hlt.not_gt

theorem zero_mem : A.zero ∈ A.digits := List.head_mem _

theorem index_zero : A.index A.zero = 0 := by
  obtain ⟨hi, hia⟩ := index_spec (A := A) zero_mem
  by_contra hne
  have hlt := digit_lt_digit (Nat.pos_of_ne_zero hne) hi
  rw [hia, digit_zero] at hlt
  exact lt_irrefl _ hlt

theorem index_pos (ha : a ∈ A.digits) (hne : a ≠ A.zero) : 0 < A.index a := by
  refine Nat.pos_of_ne_zero fun h => hne ?_
  rw [← (index_spec ha).2, h, digit_zero]

theorem digit_ne_zero (hi : i < A.base) (hpos : 0 < i) : A.digit i ≠ A.zero := by
  rw [← digit_zero]
  exact (digit_lt_digit hpos hi).ne'

theorem lt_digit (ha : a ∈ A.digits) (h : A.index a < i) (hi : i < A.base) : a < A.digit i := by
  rw [← (index_spec ha).2]
  exact digit_lt_digit h hi

theorem digit_lt (ha : a ∈ A.digits) (h : i < A.index a) : A.digit i < a := by
  have hlt := digit_lt_digit h (index_spec ha).1
  rwa [(index_spec ha).2] at hlt

/-! ## Words that leave room -/

/-- A word of the alphabet that does not end in the lowest letter. -/
structure IsRank (A : Alphabet α) (w : List α) : Prop where
  digits : ∀ c ∈ w, c ∈ A.digits
  last : w.getLast? ≠ some A.zero

theorem isRank_nil : A.IsRank [] := ⟨by simp, by simp⟩

theorem isRank_digit (hi : i < A.base) (hpos : 0 < i) : A.IsRank [A.digit i] :=
  ⟨by simpa using mem_digit hi, by simpa using digit_ne_zero hi hpos⟩

theorem IsRank.tail (h : A.IsRank (a :: w)) : A.IsRank w := by
  refine ⟨fun c hc => h.digits c (List.mem_cons_of_mem _ hc), ?_⟩
  cases w with
  | nil => simp
  | cons => simpa using h.last

theorem IsRank.head (h : A.IsRank (a :: w)) : a ∈ A.digits :=
  h.digits a List.mem_cons_self

theorem IsRank.cons (ha : a ∈ A.digits) (h : A.IsRank w) (hne : w ≠ []) : A.IsRank (a :: w) := by
  refine ⟨List.forall_mem_cons.mpr ⟨ha, h.digits⟩, ?_⟩
  rw [List.getLast?_cons, Option.getD_of_ne_none (by simpa using hne)]
  exact h.last

theorem IsRank.append {more : List α} (hw : A.IsRank w) (h : A.IsRank more) (hne : more ≠ []) :
    A.IsRank (w ++ more) := by
  induction w with
  | nil => exact h
  | cons _ _ ih => exact (ih hw.tail).cons hw.head (by simp [hne])

/-! ## What the midpoint is -/

theorem midpoint_cons_cons {c : α} :
    A.midpoint (c :: low) (c :: high) = c :: A.midpoint low high := by
  rw [midpoint]
  simp only [common, if_true, Nat.succ_pos, List.take_succ_cons, List.drop_succ_cons,
    List.cons_append]
  by_cases hpos : 0 < A.common low high
  · conv_rhs => rw [midpoint, if_pos hpos]
  · rw [Nat.eq_zero_of_not_pos hpos]
    simp

theorem midpoint_nil_zero : A.midpoint [] (A.zero :: high) = A.zero :: A.midpoint [] high := by
  rw [midpoint]
  simp only [common, if_true, Nat.succ_pos, List.take_succ_cons, List.drop_succ_cons,
    List.cons_append, List.drop_nil]
  by_cases hpos : 0 < A.common [] high
  · conv_rhs => rw [midpoint, if_pos hpos, List.drop_nil]
  · rw [Nat.eq_zero_of_not_pos hpos]
    simp

theorem midpoint_apart (h : A.common low high = 0) : A.midpoint low high =
      if A.lead low 0 + 1 < A.lead high A.base then
        [A.digit ((A.lead low 0 + A.lead high A.base) / 2)]
      else if 1 < high.length then high.take 1
      else A.digit (A.lead low 0) :: A.midpoint low.tail [] := by
  conv_lhs => rw [midpoint]
  rw [h, if_neg (Nat.lt_irrefl 0)]

/-- A word taken twice is followed by something. -/
theorem midpoint_self (w : List α) : A.midpoint w w = w ++ A.midpoint [] [] := by
  induction w with
  | nil => rfl
  | cons _ _ ih => rw [midpoint_cons_cons, ih, List.cons_append]

/-- A word strictly between two, an empty upper one being none. -/
structure Between (A : Alphabet α) (low high mid : List α) : Prop where
  rank : A.IsRank mid
  ne_nil : mid ≠ []
  above : low < mid
  below : high ≠ [] → mid < high

/-- There is always room above. -/
theorem midpoint_nil (hlow : A.IsRank low) : A.Between low [] (A.midpoint low []) := by
  induction low with
  | nil =>
    have htwo : 2 ≤ A.base := A.two
    rw [midpoint_apart rfl, lead_nil, lead_nil, if_pos (by omega)]
    exact ⟨isRank_digit (by omega) (by omega), by simp, List.nil_lt_cons _ _, by simp⟩
  | cons l _ ih =>
    obtain ⟨_, hdigit⟩ := index_spec hlow.head
    have hrest := ih hlow.tail
    rw [midpoint_apart (by simp [common]), lead_cons, lead_nil]
    by_cases hroom : A.index l + 1 < A.base
    · rw [if_pos hroom]
      refine ⟨isRank_digit (by omega) (by omega), by simp, ?_, by simp⟩
      exact List.cons_lt_cons_iff.mpr (.inl (lt_digit hlow.head (by omega) (by omega)))
    · rw [if_neg hroom, if_neg (by simp), hdigit, List.tail_cons]
      refine ⟨hrest.rank.cons hlow.head hrest.ne_nil, by simp, ?_, by simp⟩
      exact List.cons_lt_cons_iff.mpr (.inr ⟨rfl, hrest.above⟩)

/-- Where the two words part, the lower letter first. -/
theorem midpoint_between_apart {h : α} (hlow : A.IsRank low) (hhigh : A.IsRank (h :: high))
    (happart : A.common low (h :: high) = 0) (hlead : A.lead low 0 < A.index h)
    (hless : ∀ l ∈ low.head?, l < h) :
    A.Between low (h :: high) (A.midpoint low (h :: high)) := by
  have hbase := (index_spec hhigh.head).1
  have hlt : ∀ d w, (∀ l ∈ low.head?, l < d) → low < d :: w := by
    intro d w hd
    cases low with
    | nil => exact List.nil_lt_cons _ _
    | cons l => exact List.cons_lt_cons_iff.mpr (.inl (hd l rfl))
  have hhead : ∀ l ∈ low.head?, l ∈ A.digits ∧ A.index l = A.lead low 0 := by
    intro l hl
    refine ⟨hlow.digits l (List.mem_of_head? hl), ?_⟩
    rw [lead, hl, Option.map_some, Option.getD_some]
  rw [midpoint_apart happart, lead_cons]
  by_cases hroom : A.lead low 0 + 1 < A.index h
  · rw [if_pos hroom]
    refine ⟨isRank_digit (by omega) (by omega), by simp, ?_, fun _ => ?_⟩
    · refine hlt _ _ fun l hl => lt_digit (hhead l hl).1 ?_ (by omega)
      rw [(hhead l hl).2]
      omega
    · exact List.cons_lt_cons_iff.mpr (.inl (digit_lt hhigh.head (by omega)))
  · rw [if_neg hroom]
    by_cases hlong : 1 < (h :: high).length
    · rw [if_pos hlong, List.take_succ_cons, List.take_zero]
      have hne : h ≠ A.zero := by
        rintro rfl
        rw [index_zero] at hlead
        omega
      refine ⟨⟨by simpa using hhigh.head, by simpa using hne⟩, by simp, hlt _ _ hless,
        fun _ => ?_⟩
      cases high with
      | nil => simp at hlong
      | cons => exact List.cons_lt_cons_iff.mpr (.inr ⟨rfl, List.nil_lt_cons _ _⟩)
    · rw [if_neg hlong]
      have hdigit : A.digit (A.lead low 0) < h := digit_lt hhigh.head hlead
      cases low with
      | nil =>
        have hrest := midpoint_nil (isRank_nil (A := A))
        exact ⟨hrest.rank.cons (mem_digit base_pos) hrest.ne_nil, by simp,
          List.nil_lt_cons _ _, fun _ => List.cons_lt_cons_iff.mpr (.inl hdigit)⟩
      | cons l ls =>
        have hrest := midpoint_nil hlow.tail
        have hl : A.digit (A.lead (l :: ls) 0) = l := (index_spec hlow.head).2
        rw [hl] at hdigit ⊢
        exact ⟨hrest.rank.cons hlow.head hrest.ne_nil, by simp,
          List.cons_lt_cons_iff.mpr (.inr ⟨rfl, hrest.above⟩),
          fun _ => List.cons_lt_cons_iff.mpr (.inl hdigit)⟩

/-- The midpoint of two words is between them. -/
theorem midpoint_between (hlow : A.IsRank low) (hhigh : A.IsRank high)
    (hlt : high ≠ [] → low < high) : A.Between low high (A.midpoint low high) := by
  induction high generalizing low with
  | nil => exact midpoint_nil hlow
  | cons h hs ih =>
    have hlt := hlt (by simp)
    -- A letter both words have, and something between what follows it.
    have hshared : ∀ {rest}, A.IsRank rest → rest < hs →
        A.IsRank (h :: A.midpoint rest hs) ∧ rest < A.midpoint rest hs ∧
          h :: A.midpoint rest hs < h :: hs := by
      intro rest hrest hless
      have hne : hs ≠ [] := by
        rintro rfl
        exact List.not_lt_nil _ hless
      have hmid := ih hrest hhigh.tail fun _ => hless
      exact ⟨hmid.rank.cons hhigh.head hmid.ne_nil, hmid.above,
        List.cons_lt_cons_iff.mpr (.inr ⟨rfl, hmid.below hne⟩)⟩
    cases low with
    | nil =>
      by_cases hzero : A.zero = h
      · subst hzero
        have hne : hs ≠ [] := by
          rintro rfl
          exact hhigh.last rfl
        have hless : [] < hs := by
          cases hs with
          | nil => exact absurd rfl hne
          | cons => exact List.nil_lt_cons _ _
        obtain ⟨hrank, -, hbelow⟩ := hshared isRank_nil hless
        rw [midpoint_nil_zero]
        exact ⟨hrank, by simp, List.nil_lt_cons _ _, fun _ => hbelow⟩
      · exact midpoint_between_apart hlow hhigh (by simp [common, hzero])
          (index_pos hhigh.head (Ne.symm hzero)) (by simp)
    | cons =>
      rcases List.cons_lt_cons_iff.mp hlt with hless | ⟨rfl, hless⟩
      · refine midpoint_between_apart hlow hhigh (by simp [common, hless.ne]) ?_
          (by simpa using hless)
        exact index_lt_index hlow.head hhigh.head hless
      · obtain ⟨hrank, habove, hbelow⟩ := hshared hlow.tail hless
        rw [midpoint_cons_cons]
        exact ⟨hrank, by simp, List.cons_lt_cons_iff.mpr (.inr ⟨rfl, habove⟩),
          fun _ => hbelow⟩

end Alphabet

end AgentDocker.Lib
