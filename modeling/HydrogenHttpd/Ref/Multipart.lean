import HydrogenHttpd.Base.Assoc
import HydrogenHttpd.Base.Lines
import HydrogenHttpd.Base.Numbers
import HydrogenHttpd.Base.Path

/-!
# Multipart uploads (`Multipart.cpp`)

Two parsers for one format. `saveUploads` works on a body held in memory and
searches it for the delimiter; `saveUploadsFromSpoolFile` reads a spool file
line by line, one line behind, and writes each file part as it goes.

What they leave behind is the upload directory, kept as `Uploads`: its files
by name, and how many stored names and write calls have been used up so far.
The world answers through `UploadEnv`: the clock readings the stored names
are built from, which files can be created, and how much of each write call
reaches its file. An output stream that took less than it was given is bad
and takes nothing more, and neither parser looks.

The loop over the parts ends by the part count. Its argument is the number of
parts still allowed, so that running out of it is the check
`++partCount > limits.maxParts`.
-/

namespace HydrogenHttpd.Ref

open Base

structure MultipartLimits where
  maxParts : Nat := 16
  maxFileBytes : Nat := 1024 * 1024
  maxFieldBytes : Nat := 16 * 1024
  deriving DecidableEq, Repr

structure MultipartSavedFile where
  fieldName : Bytes
  originalFilename : Bytes
  storedFilename : Bytes
  storedPath : Path
  size : Nat
  deriving DecidableEq, Repr

structure MultipartResult where
  ok : Bool := false
  status : Nat := 400
  error : Bytes := []
  files : List MultipartSavedFile := []
  deriving DecidableEq, Repr

/-! ## The upload directory -/

/-- The upload directory, and the stored names and writes used so far. -/
structure Uploads where
  dir : List (Bytes × Bytes) := []
  opened : Nat := 0
  writes : Nat := 0
  deriving DecidableEq, Repr

/-- What the world answers an upload. -/
structure UploadEnv where
  /-- `fs::create_directories`, or the text of the exception it throws. -/
  createDirectories : Except Bytes Unit := .ok ()
  /-- The clock in microseconds, at each stored name in turn. -/
  micros : Nat → Nat
  /-- Whether the file of each stored name can be created. -/
  canCreate : Nat → Bool := fun _ => true
  /-- How many bytes each write call takes, `none` for all it is given. -/
  accepts : Nat → Option Nat := fun _ => none

/-- An open `std::ofstream`. -/
structure OutFile where
  name : Bytes
  good : Bool := true
  deriving DecidableEq, Repr

def uniquePrefix (env : UploadEnv) (st : Uploads) : Bytes := decimal (env.micros st.opened)

/-- `std::ofstream out(path, binary | trunc)`. -/
def Uploads.create (env : UploadEnv) (name : Bytes) (st : Uploads) :
    Option OutFile × Uploads :=
  if env.canCreate st.opened then
    (some { name := name }, { st with dir := put name [] st.dir, opened := st.opened + 1 })
  else (none, { st with opened := st.opened + 1 })

/-- `out.write(data)`. -/
def OutFile.write (env : UploadEnv) (out : OutFile) (data : Bytes) (st : Uploads) :
    OutFile × Uploads :=
  if out.good then
    let kept := match env.accepts st.writes with
      | none => data
      | some n => data.take n
    ({ out with good := kept.length == data.length },
      { st with
        dir := put out.name ((st.dir.lookup out.name).getD [] ++ kept) st.dir
        writes := st.writes + 1 })
  else (out, st)

/-! ## Names and headers -/

def basenameOnly (value : Bytes) : Bytes := value.rtakeWhile fun c => c ≠ 47 ∧ c ≠ 92

def validBoundaryChar (c : UInt8) : Bool := isAlnum c || (bytes "'()+_,-./:=?").contains c

/-- One line of a part's header block. -/
def addPartHeader (headers : List (Bytes × Bytes)) (line : Bytes) : List (Bytes × Bytes) :=
  match find? [58] line with
  | none => headers
  | some colon =>
      put (lowercase ((line.take colon).rdropWhile isSpace))
        (trimWith isBlank (line.drop (colon + 1))) headers

/-- `parsePartHeaders`. Its loop reads the text between CRLFs, and a piece
without a colon adds nothing. -/
def parsePartHeaders (raw : Bytes) : List (Bytes × Bytes) :=
  (splitCrlf raw).foldl addPartHeader []

def dispositionValue (disposition key : Bytes) : Bytes :=
  match find? (key ++ bytes "=\"") disposition with
  | some pos =>
      let rest := disposition.drop (pos + key.length + 2)
      match find? [quote] rest with
      | none => []
      | some stop => rest.take stop
  | none =>
      match find? (key ++ bytes "=") disposition with
      | none => []
      | some pos =>
          let rest := disposition.drop (pos + key.length + 1)
          match find? [59] rest with
          | none => rest
          | some stop => rest.take stop

def Multipart.extractBoundary (contentType : Bytes) : Option Bytes :=
  let lower := lowercase contentType
  if (find? (bytes "multipart/form-data") lower).isNone then none
  else
    match find? (bytes "boundary=") lower with
    | none => none
    | some pos =>
        let boundary := contentType.drop (pos + 9)
        let boundary := match find? [59] boundary with
          | none => boundary
          | some semi => boundary.take semi
        if boundary.contains cr ∨ boundary.contains lf then none
        else
          let boundary := trim boundary
          let boundary :=
            if 2 ≤ boundary.length ∧ boundary.head? = some quote ∧
                boundary.getLast? = some quote then
              substr boundary 1 (boundary.length - 2)
            else boundary
          if boundary = [] ∨ 70 < boundary.length then none
          else if boundary.all validBoundaryChar then some boundary
          else none

/-- The bytes `sanitizeFilename` keeps. -/
def safeNameByte (c : UInt8) : Bool := isAlnum c || c == 46 || c == 95 || c == 45

/-- A dot or a space, which no stored name starts or ends with. -/
def isDotOrSpace (c : UInt8) : Bool := c == dot || c == space

def Multipart.sanitizeFilename (input : Bytes) : Bytes :=
  let out := (basenameOnly input).map fun c => if safeNameByte c then c else 95
  let out := trimWith isDotOrSpace out
  let out := if out.isEmpty then bytes "upload.bin" else out
  let out := if 96 < out.length then out.drop (out.length - 96) else out
  if out.head? = some dot then bytes "upload_" ++ out else out

def blockedUploadExtensions : List Bytes :=
  [".php", ".phtml", ".php3", ".php4", ".php5", ".phar",
   ".cgi", ".pl", ".py", ".rb", ".lua",
   ".sh", ".bash", ".zsh", ".fish",
   ".bat", ".cmd", ".ps1", ".vbs",
   ".exe", ".dll", ".so", ".dylib",
   ".htaccess", ".conf", ".ini", ".db", ".sqlite", ".sqlite3",
   ".key", ".pem", ".crt", ".csr", ".log"].map bytes

def Multipart.isSafeUploadFilename (filename : Bytes) : Bool :=
  let lower := lowercase (Multipart.sanitizeFilename filename)
  if lower = [] then false
  else if lower = bytes ".htaccess" ∨ lower = bytes "server.conf" ∨
      lower = bytes "server.production.conf" then false
  else !blockedUploadExtensions.contains (Path.extensionOf lower)

/-- A refusal; the files stored so far stay in the result. -/
def refuse (files : List MultipartSavedFile) (status : Nat) (error : String) :
    MultipartResult :=
  { ok := false, status := status, error := bytes error, files := files }

def accept (files : List MultipartSavedFile) : MultipartResult :=
  { ok := true, status := 200, files := files }

/-! ## From memory -/

/-- The loop of `saveUploads`, from the delimiter at `pos` on. -/
def memoryLoop (env : UploadEnv) (uploadDirectory : Path) (limits : MultipartLimits)
    (body delimiter : Bytes) (allowed pos : Nat) (files : List MultipartSavedFile)
    (st : Uploads) : MultipartResult × Uploads :=
  let pos := pos + delimiter.length
  if substr body pos 2 = bytes "--" then (accept files, st)
  else if substr body pos 2 ≠ crlf then (refuse files 400 "Malformed multipart boundary", st)
  else
    let pos := pos + 2
    match findFrom (crlf ++ delimiter) body pos with
    | none => (refuse files 400 "Multipart terminator missing", st)
    | some next =>
        let part := substr body pos (next - pos)
        let pos := next + 2
        match allowed with
        | 0 => (refuse files 413 "Too many multipart parts", st)
        | allowed + 1 =>
            match find? crlf2 part with
            | none => (refuse files 400 "Multipart part headers missing", st)
            | some headerEnd =>
                let headers := parsePartHeaders (part.take headerEnd)
                let content := part.drop (headerEnd + 4)
                match headers.lookup (bytes "content-disposition") with
                | none =>
                    memoryLoop env uploadDirectory limits body delimiter allowed pos files st
                | some disposition =>
                    let fieldName := dispositionValue disposition (bytes "name")
                    let originalFilename := dispositionValue disposition (bytes "filename")
                    if originalFilename = [] then
                      if limits.maxFieldBytes < content.length then
                        (refuse files 413 "Multipart field too large", st)
                      else
                        memoryLoop env uploadDirectory limits body delimiter allowed pos files st
                    else if limits.maxFileBytes < content.length then
                      (refuse files 413 "Uploaded file too large", st)
                    else
                      let clean := Multipart.sanitizeFilename originalFilename
                      if Multipart.isSafeUploadFilename clean = false then
                        (refuse files 415 "Upload filename or extension is not allowed", st)
                      else
                        let storedName := uniquePrefix env st ++ bytes "_" ++ clean
                        match st.create env storedName with
                        | (none, st) => (refuse files 500 "Failed to create uploaded file", st)
                        | (some out, st) =>
                            let (_, st) := out.write env content st
                            memoryLoop env uploadDirectory limits body delimiter allowed pos
                              (files ++ [{ fieldName := fieldName
                                           originalFilename := originalFilename
                                           storedFilename := storedName
                                           storedPath := uploadDirectory / Path.ofBytes storedName
                                           size := content.length }]) st

def Multipart.saveUploads (env : UploadEnv) (body contentType : Bytes)
    (uploadDirectory : Path) (limits : MultipartLimits) (st : Uploads) :
    Except Bytes MultipartResult × Uploads :=
  match Multipart.extractBoundary contentType with
  | none => (.ok (refuse [] 415 "Unsupported Media Type"), st)
  | some boundary =>
      if limits.maxParts = 0 ∨ limits.maxFileBytes = 0 then
        (.ok (refuse [] 500 "Upload limits are invalid"), st)
      else
        match env.createDirectories with
        | .error e => (.error e, st)
        | .ok () =>
            let delimiter := bytes "--" ++ boundary
            match find? delimiter body with
            | none => (.ok (refuse [] 400 "Multipart boundary not found"), st)
            | some pos =>
                let (result, st) := memoryLoop env uploadDirectory limits body delimiter
                  limits.maxParts pos [] st
                (.ok result, st)

/-! ## From a spool file -/

/-- The `out.back() == '\r'` half of `getlineClean`. -/
def dropCr (line : Bytes) : Bytes := if line.getLast? = some cr then line.dropLast else line

/-- The loop that collects a part's header lines: what it collected, and the
lines behind the empty one, or `none` when the stream failed first. -/
def readPartHeaders : List Bytes → Bytes → Bytes × Option (List Bytes)
  | [], raw => (raw, none)
  | line :: rest, raw =>
      if dropCr line = [] then (raw, some rest)
      else readPartHeaders rest (raw ++ dropCr line ++ crlf)

/-- The locals of one part. `out` is set for a file part and for no other. -/
structure PartState where
  fieldName : Bytes := []
  originalFilename : Bytes := []
  storedName : Bytes := []
  out : Option OutFile := none
  bytesWritten : Nat := 0
  fieldBytes : Nat := 0
  pending : Option Bytes := none
  deriving DecidableEq, Repr

/-- The pending line goes to its file, or counts as field bytes; `newline`
says whether a line feed follows it. -/
def storePending (env : UploadEnv) (limits : MultipartLimits)
    (files : List MultipartSavedFile) (newline : Bool) (p : PartState) (st : Uploads) :
    Except MultipartResult PartState × Uploads :=
  match p.pending with
  | none => (.ok p, st)
  | some pending =>
      let size := pending.length + (if newline then 1 else 0)
      match p.out with
      | some out =>
          if limits.maxFileBytes < p.bytesWritten + size then
            (.error (refuse files 413 "Uploaded file too large"), st)
          else
            let (out, st) := out.write env pending st
            let (out, st) := if newline then out.write env [lf] st else (out, st)
            (.ok { p with out := some out, bytesWritten := p.bytesWritten + size }, st)
      | none =>
          if limits.maxFieldBytes < p.fieldBytes + size then
            (.error (refuse files 413 "Multipart field too large"), st)
          else (.ok { p with fieldBytes := p.fieldBytes + size }, st)

/-- How the loop over a part's content ends. -/
inductive PartEnd where
  /-- The function returned from inside the part. -/
  | returned (result : MultipartResult)
  /-- A delimiter line closed the part. -/
  | next (files : List MultipartSavedFile) (rest : List Bytes)
  /-- The stream failed. -/
  | failed
  deriving DecidableEq, Repr

/-- The files of the result when a part closes. -/
def closePart (uploadDirectory : Path) (files : List MultipartSavedFile) (p : PartState) :
    List MultipartSavedFile :=
  match p.out with
  | none => files
  | some _ =>
      files ++ [{ fieldName := p.fieldName
                  originalFilename := p.originalFilename
                  storedFilename := p.storedName
                  storedPath := uploadDirectory / Path.ofBytes p.storedName
                  size := p.bytesWritten }]

/-- The loop over a part's content lines. -/
def contentLoop (env : UploadEnv) (uploadDirectory : Path) (limits : MultipartLimits)
    (delimiter : Bytes) (files : List MultipartSavedFile) :
    List Bytes → PartState → Uploads → PartEnd × Uploads
  | [], _, st => (.failed, st)
  | raw :: rest, p, st =>
      let line := dropCr raw
      if line = delimiter ∨ line = delimiter ++ bytes "--" then
        match storePending env limits files false p st with
        | (.error result, st) => (.returned result, st)
        | (.ok p, st) =>
            let files := closePart uploadDirectory files p
            if line = delimiter ++ bytes "--" then (.returned (accept files), st)
            else (.next files rest, st)
      else
        match storePending env limits files true p st with
        | (.error result, st) => (.returned result, st)
        | (.ok p, st) =>
            contentLoop env uploadDirectory limits delimiter files rest
              { p with pending := some line } st

/-- What a part's header block says about it: its field name and file name. -/
def partNames (rawHeaders : Bytes) : Bytes × Bytes :=
  match (parsePartHeaders rawHeaders).lookup (bytes "content-disposition") with
  | none => ([], [])
  | some disposition =>
      (dispositionValue disposition (bytes "name"),
        dispositionValue disposition (bytes "filename"))

/-- The part as the loop over its content starts on it, or the refusal. -/
def openPart (env : UploadEnv) (files : List MultipartSavedFile) (rawHeaders : Bytes)
    (st : Uploads) : Except MultipartResult PartState × Uploads :=
  let (fieldName, originalFilename) := partNames rawHeaders
  if originalFilename = [] then (.ok { fieldName := fieldName }, st)
  else
    let clean := Multipart.sanitizeFilename originalFilename
    if Multipart.isSafeUploadFilename clean = false then
      (.error (refuse files 415 "Upload filename or extension is not allowed"), st)
    else
      let storedName := uniquePrefix env st ++ bytes "_" ++ clean
      match st.create env storedName with
      | (none, st) => (.error (refuse files 500 "Failed to create uploaded file"), st)
      | (some out, st) =>
          (.ok { fieldName := fieldName, originalFilename := originalFilename
                 storedName := storedName, out := some out }, st)

/-- The loop over the parts; the number is the parts still allowed. -/
def spoolLoop (env : UploadEnv) (uploadDirectory : Path) (limits : MultipartLimits)
    (delimiter : Bytes) :
    Nat → List Bytes → List MultipartSavedFile → Uploads → MultipartResult × Uploads
  | 0, _, files, st => (refuse files 413 "Too many multipart parts", st)
  | allowed + 1, lines, files, st =>
      match readPartHeaders lines [] with
      | (rawHeaders, rest) =>
          if rest = none ∧ rawHeaders = [] then
            (refuse files 400 "Multipart part headers missing", st)
          else
            match openPart env files rawHeaders st with
            | (.error result, st) => (result, st)
            | (.ok p, st) =>
                match contentLoop env uploadDirectory limits delimiter files
                    (rest.getD []) p st with
                | (.returned result, st) => (result, st)
                | (.failed, st) => (refuse files 400 "Multipart terminator missing", st)
                | (.next files rest, st) =>
                    spoolLoop env uploadDirectory limits delimiter allowed rest files st

/-- `spoolFile` is the file's content, `none` when it cannot be opened. -/
def Multipart.saveUploadsFromSpoolFile (env : UploadEnv) (spoolFile : Option Bytes)
    (contentType : Bytes) (uploadDirectory : Path) (limits : MultipartLimits)
    (st : Uploads) : Except Bytes MultipartResult × Uploads :=
  match Multipart.extractBoundary contentType with
  | none => (.ok (refuse [] 415 "Unsupported Media Type"), st)
  | some boundary =>
      if limits.maxParts = 0 ∨ limits.maxFileBytes = 0 then
        (.ok (refuse [] 500 "Upload limits are invalid"), st)
      else
        match spoolFile with
        | none => (.ok (refuse [] 500 "Failed to open upload spool"), st)
        | some content =>
            match env.createDirectories with
            | .error e => (.error e, st)
            | .ok () =>
                let delimiter := bytes "--" ++ boundary
                match getlines content with
                | [] => (.ok (refuse [] 400 "Multipart boundary not found"), st)
                | first :: rest =>
                    if dropCr first ≠ delimiter then
                      (.ok (refuse [] 400 "Multipart boundary not found"), st)
                    else
                      let (result, st) := spoolLoop env uploadDirectory limits delimiter
                        limits.maxParts rest [] st
                      (.ok result, st)

end HydrogenHttpd.Ref
