import HydrogenHttpd.Base.Lines
import HydrogenHttpd.Base.Words

/-!
# What rule files say about access

A line says something about access if its words, up to a comment, are
`Require all denied` or `Require all granted`; more words do not matter. Of a
file the last such line counts, and of a chain of directories the deepest one
with such a line. Where no file says anything, access is granted.
-/

namespace HydrogenHttpd.Spec

open Base

/-- What the words of a line say about access: `true` for denied. -/
def accessWords : List Bytes → Option Bool
  | first :: second :: third :: _ =>
      if first = bytes "Require" ∧ second = bytes "all" ∧ third = bytes "denied" then some true
      else if first = bytes "Require" ∧ second = bytes "all" ∧ third = bytes "granted" then
        some false
      else none
  | _ => none

/-- What a line says: its words up to a comment. -/
def accessLine (line : Bytes) : Option Bool := accessWords (wordsOf (line.takeWhile (· ≠ 35)))

/-- What a file says. -/
def decision (text : Bytes) : Option Bool := ((getlines text).filterMap accessLine).getLast?

/-- What the files of a chain of directories, from the root down, decide for
what is in the last one. -/
def inherited (chain : List (Option Bytes)) : Bool :=
  ((chain.filterMap fun file => file.bind decision).getLast?).getD false

/-- The file of the deepest directory that has one. -/
def deepestFile (chain : List (Option Bytes)) : Option Bytes := (chain.filterMap id).getLast?

end HydrogenHttpd.Spec
