import AgentDocker.Core.Lease
import AgentDocker.Lib.Latest
import Mathlib.Data.Prod.Lex
import Mathlib.Data.String.Basic

/-!
# Code verdicts and the review gate

A reviewer's word on a branch is bound to the commit it read. The gate asks
each reviewer's latest word on the branch: one request for changes blocks, an
approval of exactly the asked commit passes, an approval of another commit is
stale. A project keeps a bounded number of verdicts, so a new one may need an
old one forgotten; `toForget` chooses among those that stand for nobody.

`BTreeMap`s and `BTreeSet`s are the ordered lists of what they hold. A role
says whose word counts besides the person's.
-/

namespace AgentDocker.Core

open Lib

/-- The role whose verdicts the gate counts when asked for none. -/
def gateRole : String := "reviewer"

/-- Verdicts a project keeps. -/
def verdictsPerProject : Nat := 2000

/-- How many findings of each severity a review raised. -/
structure Findings where
  important : Nat := 0
  nit : Nat := 0
  preExisting : Nat := 0
deriving DecidableEq, Repr

inductive Word where
  /-- Good to land at this commit. -/
  | pass
  | changes
  /-- Read, and no verdict given: neither passes nor blocks. -/
  | none
deriving DecidableEq, Repr

structure CodeVerdict where
  id : String
  /-- Its place in the project's verdicts: which word is a reviewer's latest
  is decided by this, never by a clock. -/
  seq : Nat
  branch : String
  /-- The commit the reviewer read. -/
  head : String
  /-- The commit an earlier review read, when this one read only what came
  after it. -/
  fromCommit : Option String := .none
  byAgent : AgentId
  byName : String := ""
  /-- Whether the person gave it. -/
  human : Bool := false
  /-- The roles its reviewer held when it was given. -/
  roles : List String := []
  runtime : String := ""
  verdict : Word
  findings : Findings := {}
  note : String := ""
  givenAt : Time
deriving DecidableEq, Repr

namespace CodeVerdict

/-- Whether its word counts at the gate for `role`. -/
def countsFor (v : CodeVerdict) (role : String) : Bool :=
  v.human || v.roles.any fun r => r == role

/-- The order verdicts were given in. -/
def order (v : CodeVerdict) : Nat ×ₗ Int ×ₗ String :=
  toLex (v.seq, toLex (v.givenAt, v.id))

/-- An approval or a request for changes that counts for `role`. -/
def speaksFor (v : CodeVerdict) (role : String) : Bool :=
  decide (v.verdict ≠ .none) && v.countsFor role

/-- Whose word on which branch it is. -/
def place (v : CodeVerdict) : String × AgentId := (v.branch, v.byAgent)

theorem id_eq_of_order_eq {v w : CodeVerdict} (h : v.order = w.order) : v.id = w.id := by
  have hpair := toLex_inj.mp h
  have htail := toLex_inj.mp (Prod.ext_iff.mp hpair).2
  exact (Prod.ext_iff.mp htail).2

end CodeVerdict

open CodeVerdict

def AgentId.before (a b : AgentId) : Bool := decide (a.id < b.id)

/-- Tuples are compared by their first part, then by their second. -/
def placeBefore (p q : String × AgentId) : Bool :=
  decide (p.1 < q.1) || (decide (p.1 = q.1) && p.2.before q.2)

variable (verdicts : List CodeVerdict)

/-- The verdicts of a list that count for a role. -/
def counting (role : String) : List CodeVerdict :=
  verdicts.filter fun v => v.speaksFor role

theorem mem_counting {verdicts : List CodeVerdict} {role : String} {v : CodeVerdict} :
    v ∈ counting verdicts role ↔ v ∈ verdicts ∧ v.speaksFor role = true :=
  List.mem_filter

/-- The roles a gate may be asked about. -/
def rolesOf : List String :=
  (verdicts.flatMap (·.roles) ++ [gateRole]).dedup

/-- The ids of each reviewer's standing word on each branch, for every role. -/
def standing : List String :=
  (rolesOf verdicts).flatMap fun role =>
    (latest place placeBefore order (counting verdicts role)).map (·.id)

/-- Which verdicts to forget so that `given` fits under `cap`: the oldest that
stand for nobody; nothing when too few do. -/
def toForget (existing : List CodeVerdict) (given : CodeVerdict) (cap : Nat) :
    Option (List String) :=
  let excess := existing.length + 1 - cap
  if excess = 0 then some []
  else
    let standing := standing (existing ++ [given])
    let idle := (existing.filter fun v => !standing.contains v.id).mergeSort
      fun a b => decide (a.order ≤ b.order)
    if excess ≤ idle.length then some ((idle.take excess).map (·.id)) else .none

/-- What the gate says about a branch at a commit. -/
inductive Gate where
  | approved (verdict : CodeVerdict)
  | changes (verdict : CodeVerdict)
  /-- The latest approval read an earlier commit. -/
  | stale (verdict : CodeVerdict)
  | missing
deriving DecidableEq, Repr

/-- Each reviewer's latest word on one branch. -/
def words (branch role : String) : List CodeVerdict :=
  latest byAgent AgentId.before order
    (verdicts.filter fun v => decide (v.branch = branch) && v.speaksFor role)

/-- The newest of the words that are `word`. -/
def newest (latest : List CodeVerdict) (word : Word) : Option CodeVerdict :=
  maxByKey order (latest.filter fun v => decide (v.verdict = word))

/-- The gate for `branch` at `head`, counting the verdicts of `role` holders
and the person. -/
def gate (branch head role : String) : Gate :=
  let latest := words verdicts branch role
  match newest latest .changes with
  | some verdict => .changes verdict
  | .none =>
    match maxByKey order (latest.filter fun v => decide (v.verdict = .pass ∧ v.head = head)) with
    | some verdict => .approved verdict
    | .none =>
      match newest latest .pass with
      | some verdict => .stale verdict
      | .none => .missing

end AgentDocker.Core
