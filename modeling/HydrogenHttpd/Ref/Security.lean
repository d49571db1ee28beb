import HydrogenHttpd.Base.Path
import HydrogenHttpd.Base.Numbers

/-!
# Request targets and the paths they name (`Security.cpp`)

`resolveSafePath` turns a target into a path below the document root, or
refuses it. The file system it consults is a record of answers: each query may
throw, and the canonical form of a path is whatever `weakly_canonical` says it
is, as only the file system knows its symbolic links.
-/

namespace HydrogenHttpd.Ref

open Base

/-- The answers of `std::filesystem`, and of opening a file. A query that
throws answers the text of its exception. -/
structure Files where
  weaklyCanonical : Path → Except Bytes Path
  isDirectory : Path → Except Bytes Bool
  found : Path → Except Bytes Bool
  isRegularFile : Path → Except Bytes Bool
  fileSize : Path → Option Nat
  /-- In the ticks of `file_time_type`. -/
  lastWriteTime : Path → Option Int
  /-- What a stream opened on the path reads, `none` when it cannot be opened. -/
  content : Path → Option Bytes

namespace security

def containsDangerousResidualEncoding (value : Bytes) : Bool :=
  let lowerValue := lowercase value
  (find? (bytes "%2e") lowerValue).isSome || (find? (bytes "%2f") lowerValue).isSome ||
    (find? (bytes "%5c") lowerValue).isSome

def startsWithPath (files : Files) (path root : Path) : Except Bytes Bool :=
  match files.weaklyCanonical path with
  | .error e => .error e
  | .ok p =>
      match files.weaklyCanonical root with
      | .error e => .error e
      | .ok r => .ok (decide (r.IsPrefix p))

/-! ## Percent decoding -/

/-- The value of a hexadecimal digit. -/
def hexValue (c : UInt8) : Nat :=
  if isDigit c then c.toNat - 48 else if isUpper c then c.toNat - 55 else c.toNat - 87

/-- `std::strtol(text, &end, 16)` on a C string: the value, and the text at
`end`. Without a digit nothing is consumed. -/
def strtol16 (text : Bytes) : Int × Bytes :=
  let text := text.takeWhile (· ≠ 0)
  let body := text.dropWhile isSpace
  let negative := body.head? == some 45
  let unsigned := if negative || body.head? == some 43 then body.drop 1 else body
  let unsigned :=
    if (unsigned.take 2 == bytes "0x" || unsigned.take 2 == bytes "0X") &&
        ((unsigned.drop 2).head?.any isXDigit) then unsigned.drop 2
    else unsigned
  let digits := unsigned.takeWhile isXDigit
  if digits.isEmpty then (0, text)
  else
    let value := digits.foldl (fun acc c => acc * 16 + hexValue c) 0
    (if negative then -(value : Int) else value, unsigned.dropWhile isXDigit)

/-- The byte the two characters behind a `%` stand for, if `urlDecode` takes
them for one. -/
def decodeEscape (a b : UInt8) : Option UInt8 :=
  let (decoded, stop) := strtol16 [a, b]
  if stop.isEmpty then some (UInt8.ofNat (decoded % 256).toNat) else none

/-- The position after a decoded escape is three further on, else one. -/
def urlDecode : Bytes → Bytes
  | c :: a :: b :: rest =>
      if c = 37 then
        match decodeEscape a b with
        | some decoded => decoded :: urlDecode rest
        | none => c :: urlDecode (a :: b :: rest)
      else c :: urlDecode (a :: b :: rest)
  | short => short

/-! ## Targets -/

def isMethodAllowed (method : Bytes) : Bool :=
  method == bytes "GET" || method == bytes "HEAD" || method == bytes "POST"

def hasSuspiciousTarget (target : Bytes) : Bool :=
  if target = [] then true
  else if 2048 < target.length then true
  else if target.head? ≠ some slash then true
  else target.contains 0 || target.contains 92

/-- The path of a target: decoded, without its leading slashes, `none` when
the screening refuses it. -/
def decodedTarget (rawTarget : Bytes) : Option Bytes :=
  if hasSuspiciousTarget rawTarget then none
  else if containsDangerousResidualEncoding rawTarget then none
  else
    let target := match find? [63] rawTarget with
      | none => rawTarget
      | some queryPos => rawTarget.take queryPos
    let target := urlDecode target
    if containsDangerousResidualEncoding target then none
    else if target.contains 0 then none
    else if target.contains 92 then none
    else
      let target := target.dropWhile (· = slash)
      some (if target = [] then bytes "index.html" else target)

def resolveSafePath (files : Files) (documentRoot : Path) (rawTarget : Bytes) :
    Except Bytes (Option Path) :=
  match decodedTarget rawTarget with
  | none => .ok none
  | some target =>
      let candidate := documentRoot / Path.ofBytes target
      match files.isDirectory candidate with
      | .error e => .error e
      | .ok directory =>
          let candidate :=
            if directory then candidate / Path.ofBytes (bytes "index.html") else candidate
          match files.weaklyCanonical documentRoot with
          | .error e => .error e
          | .ok rootCanonical =>
              match files.weaklyCanonical candidate with
              | .error e => .error e
              | .ok candidateCanonical =>
                  match startsWithPath files candidateCanonical rootCanonical with
                  | .error e => .error e
                  | .ok false => .ok none
                  | .ok true => .ok (some candidateCanonical)

def normalizeHost (host : Bytes) : Bytes :=
  let host := match find? [58] host with
    | none => host
    | some colon => host.take colon
  trim (lowercase host)

end security

end HydrogenHttpd.Ref
