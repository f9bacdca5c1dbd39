import AgentDocker.Lib.Outcomes
import AgentDocker.Lib.Totals

/-!
# The byte count of the usage tables

Every row of the usage tables is counted in one number, which triggers keep current
row by row: nothing sums the tables again once the count is there. A write that
leaves the count over the capacity, and higher than it was, is undone.
-/

namespace AgentDocker.Store.Tracking

open Lib

inductive Value where
  | null
  | integer (n : Int)
  | text (s : String)
deriving DecidableEq

/-- `COALESCE(length(CAST(.. AS BLOB)),0)` -/
def Value.bytes : Value → Nat
  | .null => 0
  | .integer n => (toString n).utf8ByteSize
  | .text s => s.utf8ByteSize

inductive Table where
  | usageEmissions
  | usageSamples
  | usageBaselines
  | usageAccounts
  | usageFiles
  | usageBuckets
  | usageGaps
deriving DecidableEq

def tables : List Table :=
  [.usageEmissions, .usageSamples, .usageBaselines, .usageAccounts, .usageFiles, .usageBuckets,
    .usageGaps]

def Table.columns : Table → List String
  | .usageEmissions => ["id", "agent", "project", "channel", "bytes", "at"]
  | .usageSamples => ["source_id", "fingerprint", "at", "contribution"]
  | .usageBaselines => ["key", "json"]
  | .usageAccounts => ["key", "account"]
  | .usageFiles => ["key", "json"]
  | .usageBuckets => ["key", "hour", "agent", "project", "json"]
  | .usageGaps => ["key", "since", "until", "runtime", "session", "reason"]

/-- A row by its columns. -/
abbrev Row := String → Value

def maxBytes : Nat := 268435456

def gapKey : String := "tracking-capacity"

/-- Everything pays a per-row allowance in addition to its bytes; one coverage marker is
free even when accounting is full. -/
def size (table : Table) (row : Row) : Nat :=
  if table = .usageGaps ∧ row "key" = .text gapKey then 0
  else 128 + totalOf (fun column => (row column).bytes) table.columns

structure Db where
  rows : Table → List Row
  bytes : Int
  capacity : Int

/-- The size recomputed from the rows. -/
def total (rows : Table → List Row) : Nat :=
  totalOf (fun table => totalOf (size table) (rows table)) tables

def i64Bound : Nat := 9223372036854775808

def addTable (rows : Table → List Row) (bytes : Nat) (table : Table) : Except String Nat :=
  if bytes + totalOf (size table) (rows table) < i64Bound then
    .ok (bytes + totalOf (size table) (rows table))
  else .error "usage tracking byte overflow"

/-- The count as it is first taken. -/
def init (rows : Table → List Row) : Except String Db := do
  let bytes ← tables.foldlM (addTable rows) 0
  return ⟨rows, bytes, maxBytes⟩

/-! ## Statements, one row at a time -/

inductive Change where
  | insert (table : Table) (row : Row)
  | update (table : Table) (i : Nat) (rewrite : Row → Row)
  | delete (table : Table) (i : Nat)

/-- A row written, and the trigger its table has for it. -/
def Db.change (db : Db) : Change → Db
  | .insert table row =>
    { db with
      rows := Function.update db.rows table (db.rows table ++ [row])
      bytes := db.bytes + size table row }
  | .update table i rewrite =>
    match (db.rows table)[i]? with
    | none => db
    | some old =>
      { db with
        rows := Function.update db.rows table ((db.rows table).set i (rewrite old))
        bytes := db.bytes + size table (rewrite old) - size table old }
  | .delete table i =>
    match (db.rows table)[i]? with
    | none => db
    | some old =>
      { db with
        rows := Function.update db.rows table ((db.rows table).eraseIdx i)
        bytes := db.bytes - size table old }

/-- What the code of a write does: it reads, changes rows and writes within bounds again,
and may end in an error after any of them. -/
inductive Write where
  | done
  | fail (error : String)
  | look (next : Db → Write)
  | change (c : Change) (next : Write)
  | bounded (write : Write) (next : Bool → Write)

/-- Roll back only this accounting operation at capacity; a failure is passed on. -/
def usageBoundedWrite (write : Db → Except String Unit × Db) (db : Db) : Except String Bool × Db :=
  match write db with
  | (.ok (), after) =>
    if after.bytes ≤ db.capacity ∨ after.bytes ≤ db.bytes then (.ok true, after)
    else (.ok false, db)
  | (.error error, _) => (.error error, db)

def Write.run : Write → Db → Except String Unit × Db
  | .done, db => (.ok (), db)
  | .fail error, db => (.error error, db)
  | .look next, db => (next db).run db
  | .change c next, db => next.run (db.change c)
  | .bounded write next, db =>
    match usageBoundedWrite write.run db with
    | (.ok kept, db) => (next kept).run db
    | (.error error, db) => (.error error, db)

def later : Value → String → Value
  | .text a, b => .text (if a < b then b else a)
  | value, _ => value

/-- The one marker that says accounting was refused for want of room. -/
def usageTrackingGap (upTo : String) (db : Db) : Nat × Db :=
  match (db.rows .usageGaps).findIdx? fun row => decide (row "key" = .text gapKey) with
  | none =>
    (1, db.change (.insert .usageGaps fun
      | "key" => .text gapKey
      | "until" => .text upTo
      | "reason" => .text "usage tracking capacity reached; untracked records were not counted"
      | _ => .null))
  | some i =>
    (0, db.change (.update .usageGaps i fun row =>
      Function.update row "until" (later (row "until") upTo)))

inductive Call where
  | write (w : Write)
  | gap (upTo : String)

def step (db : Db) : Call → Db
  | .write w => (usageBoundedWrite w.run db).2
  | .gap upTo => (usageTrackingGap upTo db).2

end AgentDocker.Store.Tracking
