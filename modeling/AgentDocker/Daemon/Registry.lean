import AgentDocker.Daemon.Identities

/-!
# The registry

The records of the agents the daemon knows, and the ids that stand for them. A
live agent's name is its own; a record that ended keeps its name and reserves
nothing. An id that was retired is never given out again while it stands for a
record.

`Registry` keeps the ids of the records alone, which is all that resolving an id
asks. `ids` is what it keeps of a registry with records.
-/

namespace AgentDocker.Daemon

open AgentDocker.Core Lib

structure AliasError where
  retired : AgentId
  reason : String
deriving DecidableEq, Repr

inductive RegistryError where
  | identityReserved (id : AgentId)
  | nameTaken (name : String)
deriving DecidableEq, Repr

/-- An alias on file; one written before names were kept has none. -/
structure AliasRow extends AgentAlias where
  retiredName : Option String
deriving DecidableEq, Repr

structure RetiredName where
  retired : AgentId
  name : String
deriving DecidableEq, Repr

structure RecordRegistry where
  agents : Keyed AgentRecord.id
  aliases : Keyed AgentAlias.retired
  retiredNames : Keyed RetiredName.retired

namespace RecordRegistry

def new : RecordRegistry := ⟨.empty, .empty, .empty⟩

variable (r : RecordRegistry)

def ids : Registry := ⟨r.agents.rows.map AgentRecord.id, r.aliases⟩

def owns (id : AgentId) : Bool := (r.agents.get? id).isSome

def canonicalId (id : AgentId) : AgentId :=
  ((r.aliases.get? id).map AgentAlias.canonical).getD id

/-- Add a record. Names are unique among live agents. -/
def insert (r : RecordRegistry) (record : AgentRecord) :
    Except RegistryError Unit × RecordRegistry :=
  if (r.aliases.get? record.id).isSome then (.error (.identityReserved record.id), r)
  else if record.status.isLive &&
      r.agents.rows.any fun a => a.status.isLive && decide (a.name = record.name) then
    (.error (.nameTaken record.name), r)
  else (.ok (), { r with agents := r.agents.insert record })

/-- The aliases on file, each checked in its turn. -/
def checkAliases (r : RecordRegistry) :
    List AliasRow → Keyed AgentAlias.retired → Except AliasError (Keyed AgentAlias.retired)
  | [], checked => .ok checked
  | row :: rest, checked =>
    if row.retired = row.canonical then .error ⟨row.retired, "self reference"⟩
    else if r.owns row.retired then .error ⟨row.retired, "retired ID still owns a record"⟩
    else if !r.owns row.canonical then .error ⟨row.retired, "canonical record is missing"⟩
    else if (checked.get? row.retired).isSome then .error ⟨row.retired, "duplicate retired ID"⟩
    else checkAliases r rest (checked.insert row.toAgentAlias)

def restoredNames (rows : List AliasRow) : Keyed RetiredName.retired :=
  (rows.filterMap fun row => row.retiredName.map fun name => ⟨row.retired, name⟩).foldl
    Keyed.insert .empty

/-- Restore the whole set of aliases, only after all checks succeed. -/
def restoreAliases (rows : List AliasRow) : Except AliasError Unit × RecordRegistry :=
  match r.checkAliases rows .empty with
  | .error error => (.error error, r)
  | .ok checked => (.ok (), { r with aliases := checked, retiredNames := restoredNames rows })

/-- A record leaves, and its id is the other's from now on. -/
def retire (canonical : AgentId) (record : AgentRecord) : RecordRegistry where
  agents := r.agents.erase record.id
  aliases := r.aliases.insert ⟨record.id, canonical⟩
  retiredNames := r.retiredNames.insert ⟨record.id, record.name⟩

/-- Retire one record into another; a chain or a self-reference is refused. -/
def retireInto (retired canonical : AgentId) : Except AliasError AgentRecord × RecordRegistry :=
  if retired = canonical then (.error ⟨retired, "self reference"⟩, r)
  else if !r.owns canonical then (.error ⟨retired, "canonical record is missing"⟩, r)
  else
    match r.agents.get? retired with
    | none => (.error ⟨retired, "retired ID owns no record"⟩, r)
    | some record =>
      if r.aliases.rows.any fun known => decide (known.canonical = retired) then
        (.error ⟨retired, "retired ID is already a canonical alias target"⟩, r)
      else (.ok record, r.retire canonical record)

def foldError (r : RecordRegistry) (canonical : AgentId) :
    List AgentId → List AgentId → Option AliasError
  | [], _ => none
  | id :: rest, seen =>
    if id = canonical then some ⟨id, "self reference"⟩
    else if !r.owns id then some ⟨id, "retired ID owns no record"⟩
    else if id ∈ seen then some ⟨id, "duplicate retired ID"⟩
    else foldError r canonical rest (id :: seen)

/-- The records leave one after the other, and are answered in the order given. -/
def retireAll (canonical : AgentId) :
    List AgentId → RecordRegistry → List AgentRecord × RecordRegistry
  | [], r => ([], r)
  | id :: rest, r =>
    match r.agents.get? id with
    -- each was checked to own a record, and is there once
    | none => retireAll canonical rest r
    | some record =>
      let (records, left) := retireAll canonical rest (r.retire canonical record)
      (record :: records, left)

/-- Aliases of the records that leave, pointed at the one that stays. -/
def retargeted (retired : List AgentId) (canonical : AgentId) : RecordRegistry :=
  { r with
    aliases := r.aliases.update (Registry.retarget retired canonical)
      (Registry.retarget_retired retired canonical) }

/-- Retire several records into one at once; checked whole before anything moves. -/
def foldInto (retired : List AgentId) (canonical : AgentId) :
    Except AliasError (List AgentRecord) × RecordRegistry :=
  if !r.owns canonical then (.error ⟨canonical, "canonical record is missing"⟩, r)
  else
    match r.foldError canonical retired [] with
    | some error => (.error error, r)
    | none =>
      let (records, left) := retireAll canonical retired (r.retargeted retired canonical)
      (.ok records, left)

/-- Forget a record, with the ids that stood for it. -/
def remove (id : AgentId) : Option AgentRecord × RecordRegistry :=
  let canonical := r.canonicalId id
  let aliases := r.aliases.filter fun known => decide (known.canonical ≠ canonical)
  (r.agents.get? canonical,
    { agents := r.agents.erase canonical
      aliases := aliases
      retiredNames := r.retiredNames.filter fun n => (aliases.get? n.retired).isSome })

/-! ## Runs -/

inductive Call where
  | insert (record : AgentRecord)
  | retireInto (retired canonical : AgentId)
  | foldInto (retired : List AgentId) (canonical : AgentId)
  | restoreAliases (rows : List AliasRow)
  | remove (id : AgentId)

inductive Refusal where
  | registry (error : RegistryError)
  | identity (error : AliasError)
deriving DecidableEq, Repr

/-- What is refused of a call, and what it leaves. -/
def call : Call → Except Refusal Unit × RecordRegistry
  | .insert record => (r.insert record).map (.mapError .registry) id
  | .retireInto retired canonical =>
    (r.retireInto retired canonical).map
      (fun answer => (answer.mapError .identity).map fun _ => ()) id
  | .foldInto retired canonical =>
    (r.foldInto retired canonical).map
      (fun answer => (answer.mapError .identity).map fun _ => ()) id
  | .restoreAliases rows => (r.restoreAliases rows).map (.mapError .identity) id
  | .remove id => (.ok (), (r.remove id).2)

def step (c : Call) : RecordRegistry := (r.call c).2

end RecordRegistry

end AgentDocker.Daemon
