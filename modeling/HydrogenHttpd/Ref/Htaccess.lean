import HydrogenHttpd.Base.Assoc
import HydrogenHttpd.Base.Lines
import HydrogenHttpd.Ref.Security

/-!
# Access rules (`Htaccess.cpp`)

`evaluate` climbs from the requested path to the document root, at most
`maxDepth` directories, and then applies the rule files it passed from the top
down. `parseFile` reads one of them line by line.
-/

namespace HydrogenHttpd.Ref

open Base

structure HtaccessRules where
  denyAll : Bool := false
  optionsIndexesDisabled : Bool := true
  responseHeaders : List (Bytes × Bytes) := []
  deriving DecidableEq, Repr

namespace Htaccess

/-- Names of fields are compared as byte strings. -/
local instance lawfulBEqName : LawfulBEq Bytes := inferInstance

/-- The header names a rule file may not set. -/
def criticalHeaders : List Bytes :=
  [bytes "Content-Length", bytes "Connection", bytes "Transfer-Encoding", bytes "Server"]

/-- What `Header set` does with its name and the rest of its line. -/
def setHeader (name rest : Bytes) (rules : HtaccessRules) : HtaccessRules :=
  let value := trim rest
  let value :=
    if 2 ≤ value.length ∧ value.head? = some quote ∧ value.getLast? = some quote then
      substr value 1 (value.length - 2)
    else value
  let safeName := !name.isEmpty && name.all fun c => isAlnum c || c == 45
  if safeName ∧ name ∉ criticalHeaders then
    { rules with responseHeaders := put name value rules.responseHeaders }
  else rules

/-- The words a line still holds; there are no more of them than bytes. -/
def words : Nat → Bytes → List Bytes
  | 0, _ => []
  | fuel + 1, text =>
      match readWord text with
      | ([], _) => []
      | (word, rest) => word :: words fuel rest

/-- One line of a rule file. -/
def parseLine (line : Bytes) (rules : HtaccessRules) : HtaccessRules :=
  let line := match find? [35] line with
    | none => line
    | some comment => line.take comment
  let line := trim line
  if line = [] then rules
  else
    let (first, rest) := readWord line
    if first = bytes "Require" then
      let (second, rest) := readWord rest
      let (third, _) := readWord rest
      let rules :=
        if second = bytes "all" ∧ third = bytes "denied" then { rules with denyAll := true }
        else rules
      if second = bytes "all" ∧ third = bytes "granted" then { rules with denyAll := false }
      else rules
    else if first = bytes "Options" then
      if bytes "-Indexes" ∈ words rest.length rest then
        { rules with optionsIndexesDisabled := true }
      else rules
    else if first = bytes "Header" then
      let (action, rest) := readWord rest
      let (name, rest) := readWord rest
      if action = bytes "set" ∧ name ≠ [] then setHeader name rest rules else rules
    else rules

/-- `content` is what the file holds, `none` when it cannot be opened. -/
def parseFile (content : Option Bytes) : HtaccessRules :=
  match content with
  | none => {}
  | some text => (getlines text).foldl (fun rules line => parseLine line rules) {}

/-- The loop that climbs: the directories from the root down to `current`, as
far as the depth allows. -/
def climb (root : Path) : Nat → Path → List Path → List Path
  | 0, _, dirs => dirs
  | depth + 1, current, dirs =>
      let rel := current.lexicallyRelative root
      if rel.isEmpty ∨ (bytes "..").isPrefixOf rel.toBytes then dirs
      else if current = root then current :: dirs
      else climb root depth current.parentPath (current :: dirs)

/-- What the rules of a deeper directory add to those above it. -/
def override (result localRules : HtaccessRules) : HtaccessRules :=
  { denyAll := localRules.denyAll
    optionsIndexesDisabled := result.optionsIndexesDisabled || localRules.optionsIndexesDisabled
    responseHeaders :=
      localRules.responseHeaders.foldl (fun headers h => put h.1 h.2 headers)
        result.responseHeaders }

/-- The loop over the directories, from the root down. -/
def applyRules (files : Files) (filename : Bytes) :
    List Path → HtaccessRules → Except Bytes HtaccessRules
  | [], result => .ok result
  | dir :: rest, result =>
      let file := dir / Path.ofBytes filename
      match files.found file with
      | .error e => .error e
      | .ok false => applyRules files filename rest result
      | .ok true =>
          match files.isRegularFile file with
          | .error e => .error e
          | .ok false => applyRules files filename rest result
          | .ok true =>
              applyRules files filename rest (override result (parseFile (files.content file)))

def evaluate (files : Files) (documentRoot requestedPath : Path) (filename : Bytes)
    (maxDepth : Nat) : Except Bytes HtaccessRules :=
  match files.weaklyCanonical documentRoot with
  | .error e => .error e
  | .ok root =>
      match files.isDirectory requestedPath with
      | .error e => .error e
      | .ok directory =>
          match files.weaklyCanonical
              (if directory then requestedPath else requestedPath.parentPath) with
          | .error e => .error e
          | .ok current => applyRules files filename (climb root maxDepth current []) {}

end Htaccess

end HydrogenHttpd.Ref
