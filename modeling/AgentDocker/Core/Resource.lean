/-!
# Resource keys

A resource is named `kind:value`. The kinds `path` and `file` nest: a key
covers everything beneath its value, so two of them overlap when one value is
an ancestor of the other. Every other kind overlaps only with itself.

The source works on UTF-8 strings; a key is read here as the list of its
characters. The one place that counts bytes on the way to a decision is
`isAncestor`, whose byte index falls right behind a prefix that matched, which
is the character index behind the same prefix.
-/

namespace AgentDocker.Core

/-- The part before the first `c` and the part behind it. -/
def splitOnce (c : Char) (text : List Char) : Option (List Char × List Char) :=
  match text.dropWhile (· != c) with
  | [] => none
  | _ :: rest => some (text.takeWhile (· != c), rest)

/-- The text without the slashes it ends in. -/
def trimEndSlashes (text : List Char) : List Char :=
  (text.reverse.dropWhile (· == '/')).reverse

/-- What agents coordinate over. -/
structure ResourceKey where
  key : String
deriving DecidableEq, Repr

namespace ResourceKey

/-- A key as a request spelt it: a nesting kind loses its trailing slashes,
unless its value is the root alone. -/
def new (key : String) : ResourceKey :=
  let hierarchical := "path:".toList.isPrefixOf key.toList ||
    "file:".toList.isPrefixOf key.toList
  if hierarchical && decide (key.utf8ByteSize > "path:/".utf8ByteSize) then
    ⟨String.ofList (trimEndSlashes key.toList)⟩
  else
    ⟨key⟩

def asStr (r : ResourceKey) : String := r.key

/-- The part before the first `:`; `resource` when there is none. -/
def kind (r : ResourceKey) : List Char :=
  match splitOnce ':' r.key.toList with
  | some (kind, _) => kind
  | none => "resource".toList

def value (r : ResourceKey) : List Char :=
  match splitOnce ':' r.key.toList with
  | some (_, value) => value
  | none => r.key.toList

/-- Whether the kind nests. -/
def isHierarchical (r : ResourceKey) : Bool :=
  r.kind == "path".toList || r.kind == "file".toList

/-- Whether `child` lies strictly beneath `parent`. -/
def isAncestor (parent child : List Char) : Bool :=
  let parent := trimEndSlashes parent
  decide (child.length > parent.length) && parent.isPrefixOf child &&
    child[parent.length]? == some '/'

def overlaps (r other : ResourceKey) : Bool :=
  if r = other then
    true
  else if !r.isHierarchical || r.kind != other.kind then
    false
  else
    isAncestor r.value other.value || isAncestor other.value r.value

/-- Nesting is looked for in both directions, and the kinds that may nest are
compared before either is. -/
theorem overlaps_comm (r other : ResourceKey) : r.overlaps other = other.overlaps r := by
  unfold overlaps
  by_cases heq : r = other
  · subst heq
    rfl
  · rw [if_neg heq, if_neg (Ne.symm heq)]
    by_cases hkind : r.kind = other.kind
    · have hier : r.isHierarchical = other.isHierarchical := by
        simp only [isHierarchical, hkind]
      rw [hier, hkind]
      split
      · rfl
      · rw [Bool.or_comm]
    · have h₁ : (r.kind != other.kind) = true := by simpa using hkind
      have h₂ : (other.kind != r.kind) = true := by simpa using Ne.symm hkind
      rw [h₁, h₂]
      simp

end ResourceKey

end AgentDocker.Core
