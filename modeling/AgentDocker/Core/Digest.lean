import AgentDocker.Core.Lease

/-!
# Digests of the journal

A reader is handed the newest entries after its cursor, the older ones folded into a count,
and its cursor moves to the newest there was.
-/

namespace AgentDocker.Core.Journal

inductive JournalKind where
  | release | note | commit | join | leave | handoff | review
deriving DecidableEq

/-- `describe` is the entry's line with how long ago it was, at the time it is read. -/
structure JournalEntry where
  seq : Nat
  agentName : String
  branch : Option String
  kind : JournalKind
  describe : Time → String

structure DigestBudget where
  maxEntries : Nat
  maxChars : Nat

structure Digest where
  text : String
  headSeq : Nat
  shown : Nat
  collapsed : Nat
  otherBranches : Nat

structure Reader where
  name : String
  branch : Option String
  /-- Show every branch instead of counting the others. -/
  allBranches : Bool

/-- Whether an entry is shown to this reader or only counted. -/
def Reader.keeps (reader : Reader) (entry : JournalEntry) : Bool :=
  reader.allBranches || entry.kind ∈ [.join, .leave, .handoff, .commit] ||
    match reader.branch, entry.branch with
    | some mine, some theirs => mine == theirs
    | _, _ => true

def Reader.isOwnArrival (reader : Reader) (entry : JournalEntry) : Bool :=
  entry.kind ∈ [.join, .leave] && entry.agentName == reader.name

def plural (n : Nat) (one many : String) : String :=
  if n = 1 then one else many

/-- The oldest fold first, down to one. -/
def fold (render : Nat → String) (maxChars : Nat) : Nat → Nat
  | 0 => 0
  | shown + 1 =>
    if maxChars < (render (shown + 1)).length ∧ 1 < shown + 1 then fold render maxChars shown
    else shown + 1

def truncate (text : String) (maxChars : Nat) : String :=
  if maxChars < text.length then
    String.ofList (text.toList.take (maxChars - 1)) ++ if 0 < maxChars then "…" else ""
  else text

/-- A journal, and how far its reader has read. -/
structure Reading where
  entries : List JournalEntry
  cursor : Nat

namespace Reading

variable (reader : Reader) (s : Reading) (budget : DigestBudget) (now : Time)

def headSeq : Nat :=
  ((s.entries.filter fun entry => s.cursor < entry.seq).map JournalEntry.seq).max?.getD s.cursor

/-- After the cursor, but for the reader's own joins and leaves. -/
def news : List JournalEntry :=
  s.entries.filter fun entry => s.cursor < entry.seq && !reader.isOwnArrival entry

def matched : List JournalEntry := (s.news reader).filter reader.keeps

def otherBranches : Nat := ((s.news reader).filter fun entry => !reader.keeps entry).length

def render (shown : Nat) : String :=
  let total := (s.matched reader).length
  let collapsed := total - shown
  let others := s.otherBranches reader
  let header := "Since you last looked (" ++ toString total ++ " " ++
    plural total "entry" "entries" ++ "):\n"
  let folded := if collapsed = 0 then "" else
    "… " ++ toString collapsed ++ " earlier " ++ plural collapsed "entry" "entries" ++
      " (agentdocker journal --since " ++ toString s.cursor ++ ")\n"
  let lines := ((s.matched reader).drop collapsed).map fun entry => entry.describe now ++ "\n"
  let trailer := if others = 0 then "" else
    toString others ++ " " ++ plural others "entry" "entries" ++
      " on other branches: agentdocker journal --all-branches\n"
  (if total = 0 then "" else header ++ folded ++ String.join lines) ++ trailer

/-- What happened after the cursor for a reader, within a budget. -/
def digest : Digest :=
  let total := (s.matched reader).length
  let others := s.otherBranches reader
  if total = 0 ∧ others = 0 then ⟨"", s.headSeq, 0, 0, 0⟩
  else
    let shown := fold (s.render reader now) budget.maxChars (min total (max budget.maxEntries 1))
    ⟨truncate (s.render reader now shown) budget.maxChars, s.headSeq, shown, total - shown, others⟩

inductive Move where
  | append (more : List JournalEntry)
  | look (budget : DigestBudget) (now : Time)

def step : Move → Reading
  | .append more => { s with entries := s.entries ++ more }
  | .look budget now => { s with cursor := (s.digest reader budget now).headSeq }

end Reading

end AgentDocker.Core.Journal
