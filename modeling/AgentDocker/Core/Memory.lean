import AgentDocker.Core.Lease
import AgentDocker.Lib.Latest
import AgentDocker.Lib.StableSort
import Mathlib.Data.Prod.Lex
import Mathlib.Data.String.Basic

/-!
# What a reader is told of a project's memory

Supersession is the reader's: a memory replaced by one the reader may not read is
still said to them.
-/

namespace AgentDocker.Core

open Lib

inductive Reader where
  | person
  | holding (roles : List String)
deriving DecidableEq, Repr

structure Memory where
  id : String
  text : String
  /-- The memory this one replaces: that one is kept, but no longer said. -/
  supersedes : Option String
  createdAt : Time
  standing : Bool
  forgetAfter : Option Time
  /-- Said only to the agents holding one of these roles, and to the person; to
  everyone when it names none. -/
  roles : List String
  /-- When its fact became true, where that is before it was kept. -/
  validFrom : Option Time
deriving DecidableEq, Repr

/-- What replaced a superseded memory, and when that one became true. -/
structure Replaced where
  old : String
  new : String
  time : Time
deriving DecidableEq, Repr

namespace Memory

def trueSince (m : Memory) : Time := m.validFrom.getD m.createdAt

def saidAt (m : Memory) (now : Time) : Bool := m.forgetAfter.all fun when => decide (now < when)

def seenBy (m : Memory) : Reader → Bool
  | .person => true
  | .holding held => m.roles.isEmpty || m.roles.any fun role => held.contains role

variable (memories : List Memory)

section

variable (reader : Reader) (time : Time)

/-- The memories `reader` may read whose facts were true by `time`. -/
def known : List Memory :=
  memories.filter fun m => m.seenBy reader && decide (m.trueSince ≤ time)

def replaces (m : Memory) : Option Replaced := m.supersedes.map fun old => ⟨old, m.id, m.trueSince⟩

/-- The memories superseded for `reader`, each with the one that replaced it: the
latest such, by when it became true. -/
def superseded : List Replaced :=
  latest Replaced.old (fun a b => decide (a ≤ b)) (fun r => toLex (r.time, r.new))
    ((known memories reader time).filterMap replaces)

/-- The memories said to `reader` at `time`, newest first. -/
def current : List Memory :=
  let replaced := superseded memories reader time
  sortBy (fun m => toLex (-m.createdAt, m.id)) ((known memories reader time).filter fun m =>
    !(replaced.any fun r => decide (r.old = m.id)) && m.saidAt time)

end

/-- As many as fit: one too long for what is left is passed over, not the end. -/
def fitting (maxChars : Nat) : Nat → List Memory → List Memory
  | _, [] => []
  | used, m :: rest =>
    let size := m.text.length + 1
    if used + size ≤ maxChars then m :: fitting maxChars (used + size) rest
    else fitting maxChars used rest

/-- What `reader` should know first: its standing memories, the oldest first, then the
others, newest first. -/
def profile (maxChars : Nat) (reader : Reader) (time : Time) : List Memory :=
  let said := current memories reader time
  fitting maxChars 0 (sortBy (fun m => toLex (m.createdAt, m.id)) (said.filter Memory.standing) ++
    said.filter fun m => !m.standing)

end Memory

end AgentDocker.Core
