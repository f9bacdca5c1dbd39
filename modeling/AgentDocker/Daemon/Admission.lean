import AgentDocker.Core.Policy
import AgentDocker.Daemon.Service

/-!
# Admission

A claim is asked about before its first attempt, once: the resource it names is
made a physical one, and the host's and the project's policy are asked whether
its agent may claim that. What comes after is the lease table's business alone,
however long the claim waits and whatever the policy files say meanwhile.

What a key is made of on disk is an input. A refusal is announced; that event is
kept here and not in the daemon's own log.
-/

namespace AgentDocker.Daemon

open AgentDocker.Core Lib

/-- A policy file as it was last read. -/
structure LoadedPolicy where
  policy : Policy
  /-- Whether it was ever read without an error. -/
  hasGood : Bool
  error : Option String
deriving DecidableEq, Repr

namespace LoadedPolicy

/-- A file that never could be read refuses everything. -/
def unavailable (loaded : LoadedPolicy) : Bool := !loaded.hasGood && loaded.error.isSome

end LoadedPolicy

/-- What a ruling is made from. -/
structure Policies where
  registry : AgentId → Option Subject
  host : LoadedPolicy
  /-- The policies of the projects, by directory. -/
  projects : String → Option LoadedPolicy

namespace Policies

def policyUnavailable (scope : String) : Ruling :=
  .deny (scope ++ " policy unavailable") "policy could not be loaded; no valid rules available"

def permitsRecord (p : Policies) (agent : Subject) (action : String) : Ruling :=
  let project := agent.project.bind fun own => p.projects own.dir
  if p.host.unavailable then
    policyUnavailable "host"
  else if project.any (·.unavailable) then
    policyUnavailable "project"
  else
    checkPolicies p.host.policy (project.map (·.policy)) agent action

/-- An agent without a record has nothing a rule could be matched against. -/
def permits (p : Policies) (agent : AgentId) (action : String) : Ruling :=
  match p.registry agent with
  | none => .allow
  | some record => p.permitsRecord record action

end Policies

/-- The action of claiming a resource. -/
def claimAction (resource : ResourceKey) : String := "claim:" ++ resource.key

/-- A claim that was let in, and what let it in. -/
structure Admitted where
  number : Nat
  requester : AgentId
  policies : Policies
  resource : ResourceKey

/-- The event a refusal is announced with. -/
structure PolicyDenied where
  agent : AgentId
  action : String
  rule : String
deriving DecidableEq, Repr

structure Admission where
  service : Service
  policies : Policies
  admitted : List Admitted
  denied : List PolicyDenied

namespace Admission

/-- What refuses a claim before its policy is asked. -/
def refusesEarly (s : State) (args : ClaimArgs) : Bool :=
  s.storageFailure.isSome || s.transferring.isSome || !validPriority args.priority

/-- A claim's request, with what its resource is made of, if anything. -/
def claim (a : Admission) (number : Nat) (requester : AgentId) (args : ClaimArgs)
    (localised : Option ResourceKey) : Admission :=
  if (a.service.claims.get? number).isSome then
    a
  else if refusesEarly a.service.state args then
    { a with service := a.service.step (.request number requester args) }
  else
    match localised with
    | none => a
    | some resource =>
      match a.policies.permits requester (claimAction resource) with
      | .deny rule _ => { a with denied := a.denied ++ [⟨requester, claimAction resource, rule⟩] }
      | .allow =>
        { a with
          service := a.service.step (.request number requester { args with resource })
          admitted := a.admitted ++ [⟨number, requester, a.policies, resource⟩] }

inductive Op where
  | claim (number : Nat) (requester : AgentId) (args : ClaimArgs) (localised : Option ResourceKey)
  /-- Policy files are read, and records change. -/
  | load (policies : Policies)
  /-- A hold of the lock that asks for nothing new. -/
  | hold (op : Service.Op)

def step (a : Admission) : Op → Admission
  | .claim number requester args localised => a.claim number requester args localised
  | .load policies => { a with policies }
  | .hold (.request ..) => a
  | .hold op => { a with service := a.service.step op }

def start (policies : Policies) (env : Env) (leases : LeaseTable)
    (faults : Nat → Option String) : Admission :=
  ⟨.start env leases faults, policies, [], []⟩

end Admission

end AgentDocker.Daemon
