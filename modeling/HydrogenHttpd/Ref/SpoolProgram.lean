import HydrogenHttpd.Base.Interaction
import HydrogenHttpd.Ref.Server

/-!
# The spool file of one upload (`Server.cpp`)

`spoolUpload` again, the end of the upload branch of `handleClientStream`, as a
program that asks for what it needs of the world: the spool directory, the
clock its file is named after, the file, the bytes of the connection, the
parser, and the removals. Any of these may fail as the code lets it fail; the
`try` block is `spoolTry`, and its handler removes the file and throws on.
Alone on its connection it is `spoolUpload`.

A write is never looked at: the stream keeps its failure to itself. A read that
is no end and no error delivers at least one byte.
-/

namespace HydrogenHttpd.Ref

open Base

/-- What the branch asks of the world. -/
inductive SpoolQuestion where
  /-- `fs::create_directories` -/
  | createDirectories
  /-- The clock, inside `uniqueSpoolPath`. -/
  | micros
  /-- `std::ofstream spool(path, binary | trunc)` -/
  | openSpool (path : Path)
  /-- `spool.write` -/
  | write (path : Path) (data : Bytes)
  /-- `stream.read_some` on a buffer of this size -/
  | readSome (size : Nat)
  /-- `spool.close` -/
  | close (path : Path)
  | saveUploadsFromSpoolFile (path : Path)
  /-- `fs::remove` -/
  | remove (path : Path)
  deriving DecidableEq, Repr

/-- What a read delivers. -/
inductive SpoolRead where
  | data (first : UInt8) (rest : Bytes)
  | eof
  | failed (e : Bytes)

abbrev SpoolAnswer : SpoolQuestion → Type
  | .createDirectories => Except Bytes Unit
  | .micros => Nat
  | .openSpool _ => Bool
  | .readSome _ => SpoolRead
  | .saveUploadsFromSpoolFile _ => Except Bytes MultipartResult
  | .write .. | .close _ | .remove _ => Unit

abbrev SpoolProgram := Prog SpoolQuestion SpoolAnswer

namespace SpoolProgram

/-- The loop over `read_some`: how much was written in the end. -/
def receiveLoop (path : Path) (contentLength written : Nat) : SpoolProgram (Except Bytes Nat) :=
  if written < contentLength then
    .ask (.readSome (min 8192 (contentLength - written))) fun (answer : SpoolRead) =>
      match answer with
      | .eof => .done (.ok written)
      | .failed e => .done (.error (bytes "failed to stream upload body: " ++ e))
      | .data first rest =>
          let piece := (first :: rest).take (min 8192 (contentLength - written))
          .ask (.write path piece) fun _ =>
            receiveLoop path contentLength (written + piece.length)
  else .done (.ok written)
termination_by contentLength - written
decreasing_by
  simp only [List.length_take, List.length_cons]
  omega

/-- The bytes that came along with the headers. -/
def writeLeftover (path : Path) (leftover : Bytes) (contentLength : Nat) : SpoolProgram Nat :=
  if leftover = [] then .done 0
  else
    .ask (.write path (leftover.take contentLength)) fun _ =>
      .done (min leftover.length contentLength)

/-- The `try` block. -/
def spoolTry (res : HttpResponse) (leftover : Bytes) (contentLength : Nat) (path : Path) :
    SpoolProgram (Except Bytes HttpResponse) :=
  .ask (.openSpool path) fun (opened : Bool) =>
    if opened = false then .done (.error (bytes "failed to create upload spool"))
    else
      (writeLeftover path leftover contentLength).bind fun written =>
        (receiveLoop path contentLength written).bind fun
          | .error e => .done (.error e)
          | .ok written =>
              .ask (.close path) fun _ =>
                if written ≠ contentLength then
                  .ask (.remove path) fun _ => .done (.ok res.badRequest)
                else
                  .ask (.saveUploadsFromSpoolFile path)
                    fun (saved : Except Bytes MultipartResult) =>
                      match saved with
                      | .error e => .done (.error e)
                      | .ok result =>
                          .ask (.remove path) fun _ => .done (.ok (uploadResponse res true result))

/-- The branch from `create_directories` on. -/
def spoolUpload (config : ServerConfig) (res : HttpResponse) (leftover : Bytes)
    (contentLength : Nat) : SpoolProgram (Except Bytes HttpResponse) :=
  .ask .createDirectories fun (made : Except Bytes Unit) =>
    match made with
    | .error e => .done (.error e)
    | .ok () =>
        .ask .micros fun (micros : Nat) =>
          let path := uniqueSpoolPath config.uploadSpoolDirectory micros
          (spoolTry res leftover contentLength path).bind fun
            | .ok res => .done (.ok res)
            -- `catch (...)`
            | .error e => .ask (.remove path) fun _ => .done (.error e)

end SpoolProgram

/-! ## The program alone -/

/-- The connection of a request and the world. -/
structure SpoolSession where
  stream : Connection
  world : World

/-- The session of `handleClientStream`: what the environment answers, and what
becomes of the files. -/
def SpoolSession.answer (env : ServerEnv) (config : ServerConfig) (contentType : Bytes)
    (s : SpoolSession) : (q : SpoolQuestion) → SpoolAnswer q × SpoolSession
  | .createDirectories => (env.createSpoolDirectory, s)
  | .micros => (env.spoolMicros, s)
  | .openSpool path =>
      (env.canCreateSpool,
        if env.canCreateSpool then { s with world := s.world.writeSpool path [] } else s)
  | .write path data =>
      match s.world.spools.lookup path with
      | none => ((), s)
      | some content => ((), { s with world := s.world.writeSpool path (content ++ data) })
  | .readSome size =>
      match s.stream.readSome size with
      | (.data (first :: rest), stream) => (.data first rest, { s with stream := stream })
      | (.data [], stream) | (.eof, stream) => (.eof, { s with stream := stream })
      | (.failed e, stream) => (.failed e, { s with stream := stream })
  | .close _ => ((), s)
  | .saveUploadsFromSpoolFile path =>
      let spool := if env.canOpenSpool then s.world.spools.lookup path else none
      let w := s.world.call (.saveUploadsFromSpoolFile spool)
      match Multipart.saveUploadsFromSpoolFile env.upload spool contentType
          config.uploadDirectory (uploadLimits config) w.uploads with
      | (saved, uploads) => (saved, { s with world := { w with uploads := uploads } })
  | .remove path => ((), { s with world := s.world.removeSpool path })

end HydrogenHttpd.Ref
