import LineShell.Completion.Common
import LineShell.Names

/-!
# Completing a word from candidates

Of the candidates, those that start with the word are its *hits*. What happens depends on them:

| hits    | and                                    | outcome                              |
|---------|----------------------------------------|--------------------------------------|
| none    |                                        | the bell rings                       |
| one     | ends in a slash                        | it replaces the word                 |
| one     | does not                               | it and a space replace the word      |
| several | have more in common than the word      | what they have in common replaces it |
| several | do not, at the first request           | the bell rings                       |
| several | do not, at a repeated request          | they are listed                      |

A request is repeated when the same text stood before the cursor the last time. `Presses` counts
the requests in a row.
-/

namespace LineShell
namespace Completion

/-- What a request to complete a word leads to. -/
inductive Suggestion where
  /-- The word is replaced. -/
  | replace (text : String)
  /-- The bell rings. -/
  | bell
  /-- The hits are listed, in increasing order. -/
  | list (hits : List String)
  deriving DecidableEq, Repr

/-- What a single hit puts in the place of the word: a directory is left open for more, anything
else is closed by a space. -/
def close (hit : String) : String :=
  if hit.toList.getLast? = some '/' then hit else hit ++ " "

/-- The candidates that start with a word, in increasing order. -/
def hits (word : String) (candidates : List String) : List String :=
  Names.sorted (candidates.filter fun c => Names.startsWith c word)

/-- What the hits of a word lead to at the given number of requests in a row. -/
def suggest (word : String) (candidates : List String) (presses : Nat) : Suggestion :=
  match hits word candidates with
  | [] => .bell
  | [hit] => .replace (close hit)
  | hs =>
    let shared := common hs
    if word.utf8ByteSize < shared.utf8ByteSize then .replace shared
    else if 2 ≤ presses then .list hs
    else .bell

/-- The requests in a row for the same text. -/
structure Presses where
  /-- The text of the last request. -/
  text : String := ""
  /-- How many requests in a row were for it; zero before the first. -/
  count : Nat := 0
  deriving DecidableEq, Repr

namespace Presses

/-- Counts one more request. -/
def press (p : Presses) (text : String) : Presses :=
  if 0 < p.count ∧ p.text = text then { p with count := p.count + 1 } else { text, count := 1 }

/-- Forgets the requests, as at the start of a line. -/
def reset (_ : Presses) : Presses :=
  {}

/-- Counts a request and answers it. -/
def complete (p : Presses) (text word : String) (candidates : List String) :
    Suggestion × Presses :=
  let p := p.press text
  (suggest word candidates p.count, p)

end Presses
end Completion
end LineShell
