import AgentDocker.Core.Board
import AgentDocker.Lib.StableSort
import Mathlib.Data.List.MinMax

/-!
# Topics

A topic keeps its messages for those who subscribe later. Who may read a kept
message, where a subscription starts, and how much one subscription replays: the
newest of each topic, and of all topics together the newest again.
-/

namespace AgentDocker.Core

open Lib

namespace Topic

/-- Whether a reader confined to `reader` may see a message kept for `keptFor`: one
kept for nobody in particular reaches everyone, and an unconfined reader sees every
project's. -/
def visible (keptFor reader : Option ProjectId) : Bool :=
  match keptFor, reader with
  | some keptFor, some reader => decide (keptFor = reader)
  | _, _ => true

/-- Where a subscription starts reading a topic: after a point it names, after its
cursor when it is an agent, and nowhere otherwise. -/
def start (agent : Bool) (cursor after : Option Nat) : Option Nat :=
  match after with
  | some after => some after
  | none => if agent then some (cursor.getD 0) else none

def matchLevels : List (List Char) → List (List Char) → Bool
  | [], [] => true
  | [], _ :: _ => false
  | level :: _, [] => decide (level = ['#'])
  | level :: pattern, name :: topic =>
    if level = ['#'] then true
    else if level = ['+'] ∨ level = name then matchLevels pattern topic
    else false

/-- A `+` matches exactly one level, a `#` the remainder. -/
def topicMatches (pattern topic : String) : Bool :=
  matchLevels (pattern.toList.splitOn '/') (topic.toList.splitOn '/')

end Topic

/-- What one subscription replays, oldest first; how many messages past where it
starts it leaves out; and the most it held while choosing. -/
structure ReplayPlan where
  seqs : List Nat
  skipped : Nat
  peak : Nat
deriving DecidableEq, Repr

/-- A replay's bounds, as its topics are read one after the other. -/
structure ReplayBound where
  perTopic : Nat
  total : Nat
  /-- The heap; its order is nobody's business, only its least is asked for. -/
  kept : List Nat
  waiting : Nat
  taken : Nat
  peak : Nat
deriving DecidableEq, Repr

namespace ReplayBound

def new (perTopic total : Nat) : ReplayBound := ⟨perTopic, total, [], 0, 0, 0⟩

variable (b : ReplayBound)

/-- The next topic: how many of its messages wait. -/
def topic (waiting : Nat) : ReplayBound :=
  { b with waiting := b.waiting + waiting, taken := 0 }

/-- What stays when one more is kept: the oldest goes when there is no room, and stays
when the new one is no newer. -/
def room (seq : Nat) : Option (List Nat) :=
  if b.total ≤ b.kept.length then
    b.kept.min?.bind fun oldest => if oldest < seq then some (b.kept.erase oldest) else none
  else some b.kept

/-- Offer the topic's next, newest first; and whether to go on with this topic. -/
def offer (seq : Nat) : Bool × ReplayBound :=
  if b.perTopic ≤ b.taken ∨ b.total = 0 then (false, b)
  else
    match b.room seq with
    | none => (false, b)
    | some kept =>
      (decide (b.taken + 1 < b.perTopic),
        { b with
          kept := seq :: kept
          taken := b.taken + 1
          peak := max b.peak (kept.length + 1) })

/-- A topic's sequences, until nothing more of it can be kept. -/
def offerAll (b : ReplayBound) : List Nat → ReplayBound
  | [] => b
  | seq :: rest =>
    let (more, b) := b.offer seq
    if more then offerAll b rest else b

def finish : ReplayPlan :=
  ⟨sortBy (fun seq => seq) b.kept, b.waiting - b.kept.length, b.peak⟩

end ReplayBound

end AgentDocker.Core
