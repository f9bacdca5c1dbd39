import AgentDocker.Daemon.Registry

/-!
# The index of provider blocks

The registry keeps the ids of the records whose provider reported an issue, so that
a send need not scan every retained record. A record that may have changed has its
id set aside and is looked at again when the index is next asked for; one that
leaves has its id taken out of both.
-/

namespace AgentDocker.Daemon

open AgentDocker.Core Lib

structure ProviderAvailability where
  /-- None means this block was reconciled, not proof that a model is ready. -/
  issue : Option String

/-- A registry with the part of its records that the index is of. -/
structure IndexedRegistry extends RecordRegistry where
  /-- What the record under an id has for its `provider_availability`. -/
  availability : AgentId → Option ProviderAvailability
  providerBlocks : List AgentId
  providerBlocksDirty : List AgentId

namespace IndexedRegistry

def new : IndexedRegistry := ⟨.new, fun _ => none, [], []⟩

variable (s : IndexedRegistry)

def insert (record : AgentRecord) (availability : Option ProviderAvailability) : IndexedRegistry :=
  match s.toRecordRegistry.insert record with
  | (.error _, _) => s
  | (.ok (), r) =>
    { s with
      toRecordRegistry := r
      availability := Function.update s.availability record.id availability
      providerBlocksDirty := s.providerBlocksDirty.insert record.id }

/-- A record rewritten by its id or one that stands for it; it stays under its key. -/
def getMut (id : AgentId)
    (change : AgentRecord → Option ProviderAvailability →
      AgentRecord × Option ProviderAvailability) :
    IndexedRegistry :=
  let canonical := s.canonicalId id
  let dirty := s.providerBlocksDirty.insert canonical
  match s.agents.get? canonical with
  | none => { s with providerBlocksDirty := dirty }
  | some record =>
    let (next, availability) := change record (s.availability canonical)
    { s with
      agents := s.agents.insert { next with id := canonical }
      availability := Function.update s.availability canonical availability
      providerBlocksDirty := dirty }

def blocked (id : AgentId) : Bool :=
  s.owns id && (s.availability id).any fun state => state.issue.isSome

/-- One id that may have changed, looked at again. -/
def recheck (blocks : List AgentId) (id : AgentId) : List AgentId :=
  if s.blocked id then blocks.insert id else blocks.filter (· ≠ id)

/-- Active provider reports, including those retained by finished sessions. -/
def providerBlockIds : List AgentId × IndexedRegistry :=
  let blocks := s.providerBlocksDirty.foldl s.recheck s.providerBlocks
  (blocks, { s with providerBlocks := blocks, providerBlocksDirty := [] })

/-- The registry without the records that left, and the index without their ids. -/
def without (r : RecordRegistry) (gone : List AgentId) : IndexedRegistry :=
  { s with
    toRecordRegistry := r
    providerBlocks := s.providerBlocks.filter (· ∉ gone)
    providerBlocksDirty := s.providerBlocksDirty.filter (· ∉ gone) }

def retireInto (retired canonical : AgentId) : IndexedRegistry :=
  match s.toRecordRegistry.retireInto retired canonical with
  | (.error _, _) => s
  | (.ok _, r) => s.without r [retired]

def foldInto (retired : List AgentId) (canonical : AgentId) : IndexedRegistry :=
  match s.toRecordRegistry.foldInto retired canonical with
  | (.error _, _) => s
  | (.ok _, r) => s.without r retired

def restoreAliases (rows : List AliasRow) : IndexedRegistry :=
  { s with toRecordRegistry := (s.toRecordRegistry.restoreAliases rows).2 }

def remove (id : AgentId) : IndexedRegistry :=
  s.without (s.toRecordRegistry.remove id).2 [s.canonicalId id]

inductive Call where
  | insert (record : AgentRecord) (availability : Option ProviderAvailability)
  | getMut (id : AgentId)
      (change : AgentRecord → Option ProviderAvailability →
        AgentRecord × Option ProviderAvailability)
  | retireInto (retired canonical : AgentId)
  | foldInto (retired : List AgentId) (canonical : AgentId)
  | restoreAliases (rows : List AliasRow)
  | remove (id : AgentId)
  | providerBlockIds

def step : Call → IndexedRegistry
  | .insert record availability => s.insert record availability
  | .getMut id change => s.getMut id change
  | .retireInto retired canonical => s.retireInto retired canonical
  | .foldInto retired canonical => s.foldInto retired canonical
  | .restoreAliases rows => s.restoreAliases rows
  | .remove id => s.remove id
  | .providerBlockIds => s.providerBlockIds.2

end IndexedRegistry

end AgentDocker.Daemon
