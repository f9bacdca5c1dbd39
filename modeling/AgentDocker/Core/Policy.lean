import AgentDocker.Core.Resource
import AgentDocker.Lib.Globs

/-!
# Policy

What an agent is allowed to do, before it does it. A policy file is a list of
rules; a rule says whom it is about and which actions it allows or denies, as
glob patterns over the action's text. There is a file for the host and may be
one for a project, which can narrow what the host permits and never widen it.

Patterns are matched byte by byte, so a query stands for one byte. What a policy
file says about quotas and about inbound messages is read elsewhere.
-/

namespace AgentDocker.Core

open Lib

/-- A text as the pattern matcher reads it. -/
def bytes (text : String) : List UInt8 := text.toByteArray.data.toList

/-- `*`, `?` and `/`. -/
def wildcards : Wildcards UInt8 := ⟨42, 63, 47⟩

/-- Glob matching for action patterns. -/
def matchesGlob (pattern text : String) : Bool := wildcards.glob (bytes pattern) (bytes text)

/-- The project an agent's record is in. -/
structure ProjectRef where
  id : String
  name : String
  dir : String
deriving DecidableEq, Repr

/-- An agent's record, as far as rules ask about it. -/
structure Subject where
  name : String
  runtime : String
  project : Option ProjectRef
  labels : List (String × String)
  /-- What its `role` label lists. -/
  roles : List String
deriving DecidableEq, Repr

def roleLabel : String := "role"

/-- One rule: who it is about, and what they may or may not do. A condition
left out holds of everyone. -/
structure Rule where
  name : Option String
  runtime : Option String
  agent : Option String
  project : Option String
  labels : List (String × String)
  allow : List String
  deny : List String
deriving DecidableEq, Repr

structure Policy where
  rules : List Rule
deriving DecidableEq, Repr

inductive Ruling where
  | allow
  | deny (rule reason : String)
deriving DecidableEq, Repr

namespace Rule

/-- A project id the rule's is a beginning of, or the project's name. -/
def inProject (own : Option ProjectRef) (project : String) : Bool :=
  own.any fun p => project.toList.isPrefixOf p.id.toList || p.name == project

/-- Whether the agent has a label. It may hold several roles, and a rule on one
of them is about it. -/
def labelled (agent : Subject) (label : String × String) : Bool :=
  if label.1 = roleLabel then decide (label.2 ∈ agent.roles)
  else agent.labels.lookup label.1 == some label.2

/-- Whether the rule is about this agent. -/
def covers (r : Rule) (agent : Subject) : Bool :=
  r.runtime.all (· == agent.runtime) && r.agent.all (matchesGlob · agent.name) &&
    r.project.all (inProject agent.project) && r.labels.all (labelled agent)

/-- What a refusal calls the rule. -/
def label (r : Rule) : String :=
  r.name.getD <|
    let parts := (r.runtime.map ("runtime=" ++ ·)).toList ++ (r.agent.map ("agent=" ++ ·)).toList ++
      (r.project.map ("project=" ++ ·)).toList
    if parts = [] then "the rule for everyone" else " ".intercalate parts

def denies (r : Rule) (action : String) : Bool := r.deny.any (matchesGlob · action)

def allows (r : Rule) (action : String) : Bool := r.allow.any (matchesGlob · action)

end Rule

namespace Policy

def covering (p : Policy) (agent : Subject) : List Rule := p.rules.filter (·.covers agent)

/-- The rules that put the agent in whitelist mode. -/
def whitelisting (p : Policy) (agent : Subject) : List Rule :=
  (p.covering agent).filter fun r => !r.allow.isEmpty

/-- Whether this policy, on its own, permits the action: a matching deny refuses
outright; with an allow list the action has to be in one; otherwise it is
permitted. -/
def check (p : Policy) (agent : Subject) (action : String) : Ruling :=
  match (p.covering agent).find? (·.denies action) with
  | some rule => .deny rule.label ("`" ++ action ++ "` is denied")
  | none =>
    match p.whitelisting agent with
    | [] => .allow
    | first :: rest =>
      if (first :: rest).any (·.allows action) then .allow
      else .deny first.label
        ("`" ++ action ++ "` is not in any allow list that covers this agent")

theorem check_eq_allow {p : Policy} {agent : Subject} {action : String} :
    p.check agent action = .allow ↔ (∀ r ∈ p.covering agent, r.denies action = false) ∧
        (p.whitelisting agent = [] ∨ ∃ r ∈ p.whitelisting agent, r.allows action = true) := by
  unfold check
  split
  · next rule hfind =>
    have hdenies : rule.denies action = true := by simpa using List.find?_some hfind
    refine iff_of_false (by simp) fun h => ?_
    rw [h.1 rule (List.mem_of_find?_eq_some hfind)] at hdenies
    cases hdenies
  next hfind =>
  have hnone : ∀ r ∈ p.covering agent, r.denies action = false := by
    simpa [List.find?_eq_none] using hfind
  rw [and_iff_right hnone]
  split
  · next hw => simp [hw]
  next first rest hw =>
  rw [hw]
  split
  · next hany => simpa using hany
  · next hany => simpa using hany

end Policy

/-- Where a ruling comes from. -/
def Ruling.inFile (scope : String) : Ruling → Ruling
  | .allow => .allow
  | .deny rule reason => .deny (scope ++ ": " ++ rule) reason

/-- The host is asked first and its refusal is final; then the project, if it
has a policy. -/
def checkPolicies (host : Policy) (project : Option Policy) (agent : Subject) (action : String) :
    Ruling :=
  match host.check agent action with
  | .deny rule reason => (Ruling.deny rule reason).inFile "host"
  | .allow =>
    match project with
    | none => .allow
    | some project => (project.check agent action).inFile "project"

variable {host : Policy} {project : Option Policy} {agent : Subject} {action : String}

/-- A project can narrow the host and never widen it. -/
theorem checkPolicies_eq_allow : checkPolicies host project agent action = .allow ↔
      host.check agent action = .allow ∧ ∀ p ∈ project, p.check agent action = .allow := by
  unfold checkPolicies
  split
  · next rule reason h => simp [h, Ruling.inFile]
  next h =>
  cases project with
  | none => simp [h]
  | some p => cases hp : p.check agent action <;> simp [h, hp, Ruling.inFile]

/-! ## Trees -/

theorem bytes_append (a b : String) : bytes (a ++ b) = bytes a ++ bytes b := by
  simp [bytes, String.toByteArray_append]

/-- A text without wildcards. -/
def Plain (text : String) : Prop := wildcards.Literal (bytes text)

instance (text : String) : Decidable (Plain text) :=
  inferInstanceAs (Decidable (wildcards.Literal _))

theorem Plain.append {a b : String} (ha : Plain a) (hb : Plain b) : Plain (a ++ b) := by
  intro p hp
  rw [bytes_append] at hp
  exact (List.mem_append.mp hp).elim (ha p) (hb p)

/-- The pattern of a tree matches what begins as it does, which is never its own
root. -/
theorem matchesGlob_tree {root text : String} (h : Plain root) :
    matchesGlob (root ++ "/**") text = true ↔ bytes (root ++ "/") <+: bytes text := by
  have hstars : bytes (root ++ "/**") =
      bytes (root ++ "/") ++ [wildcards.star, wildcards.star] := by
    have hend : bytes "/**" = bytes "/" ++ [wildcards.star, wildcards.star] := by decide
    rw [bytes_append, hend, ← List.append_assoc, ← bytes_append]
  have hplain : Plain (root ++ "/") := h.append (by decide)
  rw [matchesGlob, hstars, Wildcards.glob_tree hplain]

end AgentDocker.Core
