import AgentDocker.Daemon.Identities
import AgentDocker.Daemon.Verdicts

/-!
# Reviewers and their verdicts

A verdict is kept under the id its reviewer went by when it was given. The person
goes by `user` until they register, and by their record's id from then on; an agent
goes by the record its id stands for, and a session that comes back has its new
record retired into its prior one. The verdicts on file are not rewritten.

An operation is one hold of the state lock. The id a verdict is kept under was
resolved by an earlier hold of its request, so it comes with the operation; so does
whether everything else a verdict is checked for lets it through.
-/

namespace AgentDocker.Daemon

open AgentDocker.Core Lib

structure Reviews where
  docket : Docket
  registry : Registry
  /-- The person's record, once they have one. -/
  person : Option AgentId

namespace Reviews

/-- What the person goes by without a record. -/
def user : AgentId := ⟨"user"⟩

variable (s : Reviews)

/-- What the person goes by now. -/
def personId : AgentId := s.person.getD user

/-- The ids the person goes or went by. -/
def isPerson (id : AgentId) : Bool := decide (id = user) || decide (s.person = some id)

/-- Agents, none of which has said anything. -/
def start (agents : List AgentId) : Reviews := ⟨{}, ⟨agents, .empty⟩, none⟩

/-- Whose word is taken: the person's, and that of an agent with a record and a role. -/
def mayReview (reviewer : AgentId) (human : Bool) (roles : List String) : Bool :=
  if human then s.isPerson reviewer
  else decide (s.registry.canonicalId reviewer ∈ s.registry.agents) && !roles.isEmpty

/-- A reviewer's word, under the id they were resolved to. -/
def codeVerdict (s : Reviews) (reviewer : AgentId) (human : Bool) (said : CodeVerdict)
    (lands : Bool) : Reviews :=
  if s.mayReview reviewer human said.roles = true ∧ lands = true then
    { s with docket :=
        s.docket.codeVerdict verdictsPerProject { said with byAgent := reviewer, human } }
  else s

/-- Register the person, unless they have a record. -/
def me (record : AgentId) : Reviews :=
  match s.person with
  | some _ => s
  | none => { s with person := some record }

/-- Retire a provider session's new record into its prior one. -/
def resumeInput (prior caller : AgentId) (lands : Bool) : Reviews :=
  if prior ≠ caller ∧ lands = true then
    match s.registry.retireInto caller prior with
    | .ok registry => { s with registry }
    | .error _ => s
  else s

inductive Op where
  | register (agent : AgentId)
  | me (record : AgentId)
  | verdict (reviewer : AgentId) (human : Bool) (said : CodeVerdict) (lands : Bool)
  | resume (prior caller : AgentId) (lands : Bool)

def step : Op → Reviews
  | .register agent => { s with registry.agents := s.registry.agents ++ [agent] }
  | .me record => s.me record
  | .verdict reviewer human said lands => s.codeVerdict reviewer human said lands
  | .resume prior caller lands => s.resumeInput prior caller lands

/-- One reviewer behind two ids: the person, or one agent. -/
def SameReviewer (a b : AgentId) : Prop :=
  (s.isPerson a = true ∧ s.isPerson b = true) ∨ s.registry.canonicalId a = s.registry.canonicalId b

instance (s : Reviews) (a b : AgentId) : Decidable (s.SameReviewer a b) := by
  unfold SameReviewer
  infer_instance

end Reviews

end AgentDocker.Daemon
