import Mathlib.Data.List.DropRight

/-!
# Mentions in a text

`@codex-4242` mentions `codex-4242`. The scanner cuts the text at each `@`, reads the name
behind it and goes on after the name; whether the `@` stands inside a word it tells from
what is left of the text before it. Of an `@` right behind a name nothing is left before
it, so that it counts as the start of a text: `@a@b` mentions `b`, and so does `a@a@b`,
where a single `a@b` mentions nobody.
-/

namespace AgentDocker.Core

/-- The alphanumeric characters; of ASCII, the letters and the digits. -/
structure Alphanumerics where
  isAlphanumeric : Char → Bool
  ascii : ∀ c : Char, c.val < 128 → isAlphanumeric c = c.isAlphanum

variable (u : Alphanumerics)

def isName (c : Char) : Bool := u.isAlphanumeric c || c == '-' || c == '_' || c == '.'

def isWord (c : Char) : Bool := u.isAlphanumeric c || c == '_'

/-- The name a text begins with, less the dots it ends in. -/
def nameOf (after : List Char) : List Char := (after.takeWhile (isName u)).rdropWhile (· == '.')

/-- The scan of what is left of a text, at most so many signs on. -/
def mentionsFrom : Nat → List Char → List String
  | 0, _ => []
  | n + 1, rest =>
    match rest.dropWhile (· != '@') with
    | [] => []
    | _ :: after =>
      let before := (rest.takeWhile (· != '@')).getLast?
      let found := if before.all (fun c => !isWord u c) ∧ nameOf u after ≠ [] then
        [String.ofList (nameOf u after)] else []
      found ++ mentionsFrom n (after.dropWhile (isName u))

def mentionsIn (text : String) : List String := mentionsFrom u text.toList.length text.toList

end AgentDocker.Core
