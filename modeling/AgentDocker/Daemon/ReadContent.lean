import AgentDocker.Core.Lease
import AgentDocker.Lib.Maps
import Mathlib.Data.Prod.Lex
import Mathlib.Data.String.Basic

/-!
# Who is interested in a path

The recorded reads are an ordered map from agents and paths, and paths are ordered
component by component.
-/

namespace AgentDocker.Daemon

open AgentDocker.Core Lib

instance : LinearOrder AgentId :=
  LinearOrder.lift' AgentId.id fun a b h => by cases a; cases b; exact congrArg _ h

/-- A component of a path, in the order the source gives them; a name is its bytes. -/
inductive Component where
  | rootDir
  | curDir
  | parentDir
  | normal (name : List (Fin 256))
deriving DecidableEq, Repr

def Component.key : Component → Nat ×ₗ List (Fin 256)
  | .rootDir => toLex (0, [])
  | .curDir => toLex (1, [])
  | .parentDir => toLex (2, [])
  | .normal name => toLex (3, name)

instance : LinearOrder Component :=
  LinearOrder.lift' Component.key fun a b h => by
    cases a <;> cases b <;> simp_all [Component.key]

abbrev Path := List Component

/-- The paths above a path whose components are given last first, itself included: up
to the root, or to the empty path when it starts at none. -/
def Path.upwards : List Component → List Path
  | [] => [[]]
  | .rootDir :: rest => [(.rootDir :: rest).reverse]
  | c :: rest => (c :: rest).reverse :: upwards rest

def Path.ancestors (path : Path) : List Path := upwards path.reverse

namespace Proofs

variable {R : Type}

/-- Ancestor reads cover this entry; the first ordered key at or after it detects
descendant reads. -/
def interested (reads : Map (AgentId ×ₗ Path) R) (agent : AgentId) (path : Path) : Bool :=
  path.ancestors.any (fun ancestor => (reads.get (toLex (agent, ancestor))).isSome) ||
    (reads.firstFrom (toLex (agent, path))).any fun row =>
      decide ((ofLex row.1).1 = agent) && path.isPrefixOf (ofLex row.1).2

end Proofs

end AgentDocker.Daemon
