import AgentDocker.Core.Lease

/-!
# Where an agent's work stands with its reviewers

Each reviewer has one word on an author, the latest they gave, and the decision
reads those words alone. A comment is a word like the others there: it takes the
place of an approval or of a request for changes by the same reviewer, which the
gate on a branch does not let it do.
-/

namespace AgentDocker.Core.Channel

/-- What a reviewer said about somebody's work. -/
inductive Verdict where
  | approve
  /-- Not yet: the note says what to change. -/
  | changes
  /-- Something worth saying that neither approves nor blocks. -/
  | comment
deriving DecidableEq, Repr

structure Review where
  reviewer : AgentId
  /-- Whose work is under review. -/
  author : AgentId
  verdict : Verdict
  time : Time
deriving DecidableEq, Repr

inductive Decision where
  | approved (approvals : Nat)
  | blocked (reviewers : List AgentId)
  | pending (approvals needed : Nat)
deriving DecidableEq, Repr

/-- One more review: in the place of its reviewer's, unless that one is newer. -/
def hear : List Review → Review → List Review
  | [], review => [review]
  | kept :: rest, review =>
    if kept.reviewer = review.reviewer then
      (if kept.time ≤ review.time then review else kept) :: rest
    else kept :: hear rest review

/-- Only a reviewer's latest word on a given author counts, and nobody reviews
themselves. -/
def latestOn (reviews : List Review) (author : AgentId) : List Review :=
  (reviews.filter fun r => r.author = author ∧ r.reviewer ≠ author).foldl hear []

def blocking (latest : List Review) : List AgentId :=
  (latest.filter (·.verdict = .changes)).map Review.reviewer

def approvals (latest : List Review) : Nat := latest.countP (·.verdict = .approve)

/-- Blocked by anyone asking for changes, else approved once `required` reviewers
have said so. -/
def decision (reviews : List Review) (author : AgentId) (required : Nat) : Decision :=
  let latest := latestOn reviews author
  if blocking latest ≠ [] then .blocked (blocking latest)
  else if max required 1 ≤ approvals latest then .approved (approvals latest)
  else .pending (approvals latest) (max required 1)

end AgentDocker.Core.Channel
