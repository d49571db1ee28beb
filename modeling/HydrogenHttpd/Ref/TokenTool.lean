import HydrogenHttpd.Base.Assoc
import HydrogenHttpd.Base.Text
import HydrogenHttpd.Ref.Auth

/-!
# The token tool (`manage_auth_tokens.py`)

The script that writes the secrets file the server reads. A file is the text
its bytes decode to, `none` where there is no file; a command reads it, changes
the dictionary and writes the whole file again. An error is the text the script
exits with.

`TOKEN_RE` is followed from left to right: no two neighbouring parts of it can
share a character, except for the white space in front of a scope list that is
white space itself, where the expression gives the list the last one.
-/

namespace HydrogenHttpd.Ref

open Base

structure TokenEntry where
  name : Text
  digest : Text
  scopes : List Text
  expires : Text
  deriving DecidableEq, Repr

/-- `serialize`. -/
def TokenEntry.serialize (e : TokenEntry) : Text :=
  text "token." ++ e.name ++ text " = sha256:" ++ e.digest ++ text " | " ++
    [','].intercalate e.scopes ++ text " | " ++ e.expires

/-- The dictionary of entries, in the order they were put into it. -/
abbrev TokenEntries := List (Text × TokenEntry)

/-! ## Reading -/

def asciiDigit (c : Char) : Bool := '0' ≤ c && c ≤ '9'

def asciiAlnum (c : Char) : Bool :=
  asciiDigit c || ('A' ≤ c && c ≤ 'Z') || ('a' ≤ c && c ≤ 'z')

def hexDigit (c : Char) : Bool :=
  asciiDigit c || ('A' ≤ c && c ≤ 'F') || ('a' ≤ c && c ≤ 'f')

/-- The characters of `NAME_RE`. -/
def nameChar (c : Char) : Bool := asciiAlnum c || c == '_' || c == '.' || c == '-'

/-- The characters of `SCOPE_RE`. -/
def scopeChar (c : Char) : Bool := nameChar c || c == ':'

/-- `lower()` of a character. Beside the ASCII letters only the Kelvin sign has
an ASCII lower case; no other character's lower case is in `SCOPE_RE`, and it
stands for itself here. -/
def lowerChar (c : Char) : Char :=
  if 'A' ≤ c ∧ c ≤ 'Z' then Char.ofNat (c.toNat + 32)
  else if c.toNat = 0x212a then 'k'
  else c

def lower (s : Text) : Text := s.map lowerChar

/-- What follows a literal at the front of a text. -/
def afterLiteral (literal : String) (s : Text) : Option Text :=
  if (text literal).isPrefixOf s then some (s.drop (text literal).length) else none

/-- `value.split(",")`. -/
def splitCommas (value : Text) : List Text := value.splitOn ','

def validateName (name : Text) : Except Text Text :=
  let value := strip name
  if value ≠ [] ∧ value.all nameChar then .ok value
  else
    .error (text "token name may contain only letters, numbers, dot, underscore, and dash")

def parseScopes (value : Text) : Except Text (List Text) :=
  let scopes := ((splitCommas value).filter fun scope => strip scope ≠ []).map fun scope =>
    lower (strip scope)
  if scopes = [] then .error (text "at least one scope is required")
  else if scopes.any fun scope => !(scope.all scopeChar) then .error (text "invalid scope")
  else .ok scopes

/-- The groups of `TOKEN_RE`: name, digest, scopes, expires. -/
def matchToken (raw : Text) : Option (Text × Text × Text × Text) := do
  let rest ← afterLiteral "token." (raw.dropWhile textSpace)
  let name := rest.takeWhile nameChar
  guard (name ≠ [])
  let rest ← afterLiteral "=" ((rest.dropWhile nameChar).dropWhile textSpace)
  let rest ← afterLiteral "sha256:" (rest.dropWhile textSpace)
  let digest := rest.take 64
  guard (digest.length = 64 ∧ digest.all hexDigit)
  let rest ← afterLiteral "|" ((rest.drop 64).dropWhile textSpace)
  let middle := rest.takeWhile (· ≠ '|')
  guard (middle ≠ [])
  let scopes := if blank middle then middle.drop (middle.length - 1) else strip middle
  let rest ← afterLiteral "|" (rest.dropWhile (· ≠ '|'))
  let expires := strip rest
  guard (expires = text "never" ∨ expires ≠ [] ∧ expires.all asciiDigit)
  some (name, digest, scopes, expires)

/-- What one line adds: to the preserved lines or to the dictionary. -/
def loadLine (path : Text) (lineNumber : Nat) (raw : Text) (preserved : List Text)
    (entries : TokenEntries) : Except Text (List Text × TokenEntries) :=
  let stripped := strip raw
  if stripped = [] ∨ (text "#").isPrefixOf stripped then .ok (preserved ++ [raw], entries)
  else
    match matchToken raw with
    | none =>
        .error (text "invalid token rule at " ++ path ++ text ":" ++
          Nat.toDigits 10 lineNumber)
    | some (name, digest, scopesText, expires) =>
        if (entries.lookup name).isSome then .error (text "duplicate token name: " ++ name)
        else
          match parseScopes scopesText with
          | .error e => .error e
          | .ok scopes =>
              .ok (preserved,
                put name { name := name, digest := lower digest, scopes := scopes,
                           expires := lower expires } entries)

/-- The loop of `load_entries`. -/
def loadLoop (path : Text) : Nat → List Text → List Text → TokenEntries →
    Except Text (List Text × TokenEntries)
  | _, [], preserved, entries => .ok (preserved, entries)
  | lineNumber, raw :: lines, preserved, entries =>
      match loadLine path lineNumber raw preserved entries with
      | .error e => .error e
      | .ok (preserved, entries) => loadLoop path (lineNumber + 1) lines preserved entries

def loadEntries (path : Text) (file : Option Text) : Except Text (List Text × TokenEntries) :=
  match file with
  | none => .ok ([], [])
  | some content => loadLoop path 1 (splitlines (universalNewlines content)) [] []

/-! ## Writing -/

/-- `sorted(entries)`, each name with its entry. -/
def sortedEntries (entries : TokenEntries) : List TokenEntry :=
  (entries.insertionSort fun p q => p.1 ≤ q.1).map (·.2)

/-- The lines `atomic_write` joins. -/
def writtenLines (preserved : List Text) (entries : TokenEntries) : List Text :=
  (if (preserved.getLast?.any fun last => strip last ≠ []) then preserved ++ [[]]
   else preserved) ++ (sortedEntries entries).map TokenEntry.serialize

/-- `payload`, what `atomic_write` writes. -/
def atomicWrite (preserved : List Text) (entries : TokenEntries) : Text :=
  rstrip (joinLines (writtenLines preserved entries)) ++ text "\n"

/-! ## Commands -/

inductive TokenCommand where
  /-- The options, the plaintext `secrets` makes up, and the clock. -/
  | rotate (name scopes : Text) (tokenBytes ttlDays : Int) (plaintext : Text) (now : Int)
  | revoke (name : Text)
  deriving DecidableEq, Repr

/-- `str(n)`. -/
def intText (n : Int) : Text :=
  if n < 0 then '-' :: Nat.toDigits 10 n.natAbs else Nat.toDigits 10 n.natAbs

/-- `hexdigest()`. -/
def hexdigest (plaintext : Text) : Text :=
  (Auth.sha256Hex (utf8 plaintext)).map fun b => Char.ofNat b.toNat

/-- The dictionary `command_rotate` writes. -/
def commandRotate (name scopes : Text) (tokenBytes ttlDays : Int) (plaintext : Text)
    (now : Int) (entries : TokenEntries) : Except Text TokenEntries :=
  match validateName name with
  | .error e => .error e
  | .ok name =>
      match parseScopes scopes with
      | .error e => .error e
      | .ok scopes =>
          if tokenBytes < 24 then .error (text "--bytes must be at least 24")
          else if ttlDays < 0 then .error (text "--ttl-days cannot be negative")
          else
            let expiresEpoch := if ttlDays = 0 then 0 else now + ttlDays * 86400
            let expires := if expiresEpoch = 0 then text "never" else intText expiresEpoch
            .ok (put name { name := name, digest := hexdigest plaintext, scopes := scopes,
                            expires := expires } entries)

/-- The dictionary `command_revoke` writes. -/
def commandRevoke (name : Text) (entries : TokenEntries) : Except Text TokenEntries :=
  match validateName name with
  | .error e => .error e
  | .ok name =>
      if (entries.lookup name).isNone then .error (text "token not found: " ++ name)
      else .ok (entries.filter (·.1 ≠ name))

def TokenCommand.change (command : TokenCommand) (entries : TokenEntries) :
    Except Text TokenEntries :=
  match command with
  | .rotate name scopes tokenBytes ttlDays plaintext now =>
      commandRotate name scopes tokenBytes ttlDays plaintext now entries
  | .revoke name => commandRevoke name entries

/-- A command that succeeded: the file it found, and the dictionary and the file
it left. -/
structure TokenStep where
  before : Option Text
  command : TokenCommand
  entries : TokenEntries
  written : Text
  deriving DecidableEq, Repr

/-- `main`, with one of the two commands that write. -/
def runCommand (path : Text) (file : Option Text) (command : TokenCommand) :
    Except Text TokenStep :=
  match loadEntries path file with
  | .error e => .error e
  | .ok (preserved, entries) =>
      match command.change entries with
      | .error e => .error e
      | .ok changed =>
          .ok { before := file, command := command, entries := changed
                written := atomicWrite preserved changed }

/-- Runs of the script one after the other, each on the file the last one left,
as long as they succeed. -/
def runCommands (path : Text) : Option Text → List TokenCommand → Except Text (List TokenStep)
  | _, [] => .ok []
  | file, command :: commands =>
      match runCommand path file command with
      | .error e => .error e
      | .ok step =>
          match runCommands path (some step.written) commands with
          | .error e => .error e
          | .ok steps => .ok (step :: steps)

end HydrogenHttpd.Ref
