import AgentDocker.Connector.Server

/-!
# The connector's state file

Several processes use one state file. The serving connector loads it when it starts
and keeps the store in memory; a handler changes that store and then saves it
whole. Each `connector revoke` command loads the file into a copy of its own,
ends the grant there and saves the copy whole. Each holds the file only for the
moment of its load or its save, so any interleaving is possible, of any number of
commands, and a save may fail.

The machine also notes the grants whose end a command has saved, and those of
them the token endpoint gave out tokens for afterwards.
-/

namespace AgentDocker.Connector

open AgentDocker.Core Lib

/-- What a state file keeps of a store. -/
def Store.saved (s : Store) : Store := { clients := s.clients, grants := s.grants }

/-- Whether the store has the grant, and has it ended. -/
def Store.hasEnded (s : Store) (g : String) : Bool :=
  match s.grants.get g with
  | some grant => !grant.active
  | none => false

/-- The revoke command between its load and its save. -/
structure Revoking where
  copy : Store
  grant : String

structure Disk where
  file : Store := {}
  /-- The store of the serving connector, while one runs. -/
  memory : Option Store := none
  /-- The commands that have loaded the file and not yet saved. -/
  commands : List Revoking := []
  /-- The grants whose end a command has saved. -/
  ended : List String := []
  /-- Those of them the token endpoint gave out tokens for since. -/
  breached : List String := []

inductive Move where
  /-- A connector starts, in place of the one that ran. -/
  | start (issuer : String)
  | stop
  /-- A handler of the serving connector works on its store. -/
  | serve (now : Time) (op : Op)
  /-- The serving connector saves its store. -/
  | persist (fails : Bool)
  /-- A command loads the file and looks its grant up. -/
  | load (reference : String)
  /-- One of the commands ends the grant in its copy and saves that. -/
  | save (command : Nat) (now : Time) (fails : Bool)

namespace Disk

/-- The grants among those ended that an event gave out tokens for. -/
def breaches (w : Disk) : Option Event → List String
  | some (.gave g _ _ _) => if w.ended.contains g then [g] else []
  | _ => []

def step (d : Digests) (w : Disk) : Move → Disk
  | .start issuer => { w with memory := some { w.file with issuer } }
  | .stop => { w with memory := none }
  | .serve now op =>
    match w.memory with
    | none => w
    | some s =>
      let (s, event) := op.act d s now
      { w with memory := some s, breached := w.breaches event ++ w.breached }
  | .persist fails =>
    match w.memory with
    | none => w
    | some s => if fails then w else { w with file := s.saved }
  | .load reference =>
    match w.file.grantForAgent reference with
    | none => w
    | some (grant, _) => { w with commands := w.commands ++ [⟨w.file, grant⟩] }
  | .save command now fails =>
    match w.commands[command]? with
    | none => w
    | some c =>
      let left := { w with commands := w.commands.eraseIdx command }
      if fails then left
      else
        { left with file := (c.copy.revoke c.grant now).2.saved, ended := c.grant :: w.ended }

end Disk

end AgentDocker.Connector
