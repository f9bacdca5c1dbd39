import AgentDocker.Core.Channel

/-!
# What a comment does to a decision

A decision is read from who blocks and, where nobody does, from how many approve. A comment
takes the place of its reviewer's word, so it is seen where that word was one of these.
-/

namespace AgentDocker.Core.Channel

/-- The word a reviewer has among the latest. -/
def wordOf (latest : List Review) (reviewer : AgentId) : Option Review :=
  latest.find? (·.reviewer = reviewer)

/-- A review lands in the place of its reviewer's word, or after all the others. -/
theorem hear_cases (latest : List Review) (review : Review) :
    (wordOf latest review.reviewer = none ∧ hear latest review = latest ++ [review]) ∨
      ∃ pre kept post, wordOf latest review.reviewer = some kept ∧ latest = pre ++ kept :: post ∧
        hear latest review = pre ++ (if kept.time ≤ review.time then review else kept) :: post := by
  induction latest with
  | nil => exact .inl ⟨rfl, rfl⟩
  | cons kept rest ih =>
    rw [hear, wordOf, List.find?_cons]
    by_cases hsame : kept.reviewer = review.reviewer
    · simp only [hsame, decide_true, if_true]
      exact .inr ⟨[], kept, rest, rfl, rfl, rfl⟩
    · simp only [hsame, decide_false, if_false]
      rcases ih with ⟨hnone, hhear⟩ | ⟨pre, first, post, hfirst, rfl, hhear⟩
      · exact .inl ⟨hnone, by rw [hhear, List.cons_append]⟩
      · exact .inr ⟨kept :: pre, first, post, hfirst, rfl, by rw [hhear, List.cons_append]⟩

theorem latestOn_append (reviews : List Review) (review : Review) (author : AgentId) :
    latestOn (reviews ++ [review]) author =
      if review.author = author ∧ review.reviewer ≠ author then
        hear (latestOn reviews author) review
      else latestOn reviews author := by
  by_cases h : review.author = author ∧ review.reviewer ≠ author <;> simp [latestOn, h]

/-- Two histories decide alike when the same reviewers block, or when nobody does and
as many approve. -/
theorem decision_eq_iff {reviews reviews' : List Review} {author : AgentId} {required : Nat} :
    decision reviews' author required = decision reviews author required ↔
      blocking (latestOn reviews' author) = blocking (latestOn reviews author) ∧
        (blocking (latestOn reviews author) = [] →
          approvals (latestOn reviews' author) = approvals (latestOn reviews author)) := by
  grind [decision]

/-- A comment leaves a decision as it is exactly when it does not take the place of a
word that decides: a request for changes, or an approval nobody's request outweighs. -/
theorem decision_comment_iff (reviews : List Review) (author : AgentId) (required : Nat)
    (review : Review) (hcomment : review.verdict = .comment) :
    decision (reviews ++ [review]) author required = decision reviews author required ↔
      (review.author = author → review.reviewer ≠ author →
        ∀ kept, wordOf (latestOn reviews author) review.reviewer = some kept →
          kept.time ≤ review.time → kept.verdict = .comment ∨
            kept.verdict = .approve ∧ ∃ r ∈ latestOn reviews author, r.verdict = .changes) := by
  rw [decision_eq_iff, latestOn_append]
  by_cases hcounts : review.author = author ∧ review.reviewer ≠ author
  swap
  · rw [if_neg hcounts]
    exact iff_of_true ⟨rfl, fun _ => rfl⟩ fun hauthor hother => absurd ⟨hauthor, hother⟩ hcounts
  simp only [hcounts.1, true_implies, ne_eq, hcounts.2, not_false_eq_true]
  rcases hear_cases (latestOn reviews author) review with
    ⟨hnone, hhear⟩ | ⟨pre, kept, post, hkept, hlatest, hhear⟩
  · -- a first word, and a comment: no request more and no approval more
    simp [hhear, hnone, blocking, approvals, hcomment]
  rw [hhear, hkept, hlatest]
  by_cases hnewer : kept.time ≤ review.time
  · cases hverdict : kept.verdict with
    | comment | changes => simp [blocking, approvals, hnewer, hverdict, hcomment]
    | approve =>
      -- one approval less is seen only where nobody asks for changes
      have hsome : (∃ r ∈ pre ++ kept :: post, r.verdict = .changes) ↔
          ((∀ r ∈ pre, r.verdict ≠ .changes) → ∃ r ∈ post, r.verdict = .changes) := by
        grind
      simp [blocking, approvals, hnewer, hverdict, hcomment, ← hsome]
  · simp [hnewer]

def asksChanges : Review := ⟨⟨"b2"⟩, ⟨"a1"⟩, .changes, 1⟩

def comments : Review := ⟨⟨"b2"⟩, ⟨"a1"⟩, .comment, 2⟩

/-- A reviewer who asked for changes no longer blocks once they comment. -/
theorem comment_unblocks : decision [asksChanges] ⟨"a1"⟩ 1 = .blocked [⟨"b2"⟩] ∧
      decision [asksChanges, comments] ⟨"a1"⟩ 1 = .pending 0 1 := by
  decide

def approves : Review := ⟨⟨"b2"⟩, ⟨"a1"⟩, .approve, 0⟩

def blocks : Review := ⟨⟨"c3"⟩, ⟨"a1"⟩, .changes, 1⟩

/-- A comment in the place of an approval is not seen while somebody else blocks, and is
seen where nobody does. -/
theorem decision_comment_iff_approval :
    decision ([approves, blocks] ++ [comments]) ⟨"a1"⟩ 1 = decision [approves, blocks] ⟨"a1"⟩ 1 ∧
      decision ([approves] ++ [comments]) ⟨"a1"⟩ 1 ≠ decision [approves] ⟨"a1"⟩ 1 := by
  have hword : wordOf (latestOn [approves, blocks] ⟨"a1"⟩) ⟨"b2"⟩ = some approves := by decide
  refine ⟨(decision_comment_iff _ _ 1 comments rfl).mpr fun _ _ kept hkept _ => .inr ?_, ?_⟩
  · obtain rfl : approves = kept := Option.some.inj (hword.symm.trans hkept)
    exact ⟨rfl, blocks, by decide, rfl⟩
  · intro h
    have hkept := (decision_comment_iff _ _ 1 comments rfl).mp h rfl (by decide) approves
    exact absurd (hkept (by decide) (by decide)) (by decide)

end AgentDocker.Core.Channel
