import HydrogenHttpd.Base.FileSystem
import HydrogenHttpd.Base.Transitions
import HydrogenHttpd.Ref.Server

/-!
# The spool files of concurrent uploads (`Server.cpp`)

`spoolUpload` is the upload branch of `handleClientStream` for one request.
Here any number of requests go through it at once. They share the spool
directory and nothing else: each has its own connection, and what it received
of its body is `body`. A request is at one of the places of `SpoolPhase`, and
the events of `SpoolState.step` are what the branch does to the file system,
each in one piece. The output stream keeps bytes back and the input stream
reads ahead, so that a write and a read are of any size.
-/

namespace HydrogenHttpd.Ref

open Base

/-- Where a request is in the upload branch; `micros` is the clock reading its
path is made of. -/
inductive SpoolPhase where
  /-- Before `uniqueSpoolPath`. -/
  | arrived
  /-- With its path, before the output stream is opened. -/
  | named (micros : Nat)
  /-- So much of the body is in the file. -/
  | writing (micros file written : Nat)
  /-- Behind `spool.close()`, with the whole body. -/
  | closed (micros : Nat)
  /-- Inside `saveUploadsFromSpoolFile`, which has read so much. -/
  | parsing (micros file : Nat) (data : Bytes)
  /-- The parser has returned. It read `data`, or could not open the file. -/
  | parsed (micros : Nat) (data : Option Bytes) (ended : Bool)
  /-- On a way out without the parser. -/
  | failed (micros : Nat)
  /-- Behind the removal of its path. -/
  | finished
  deriving DecidableEq, Repr

/-- The clock reading of a request that has its path and has not removed it yet. -/
def SpoolPhase.reading : SpoolPhase → Option Nat
  | .named m | .writing m .. | .closed m | .parsing m .. | .parsed m .. | .failed m => some m
  | .arrived | .finished => none

structure SpoolState (ι : Type) where
  uploadSpoolDirectory : Path
  files : FileSystem Path UInt8
  /-- The bytes each request received, as many as its Content-Length says. -/
  body : ι → Bytes
  phases : ι → SpoolPhase

inductive SpoolEvent (ι : Type) where
  /-- `uniqueSpoolPath`, with what the clock reads. -/
  | uniqueSpoolPath (i : ι) (micros : Nat)
  | openSpool (i : ι)
  /-- At most `n` more bytes reach the file. -/
  | write (i : ι) (n : Nat)
  | close (i : ι)
  /-- The stream cannot be opened, the connection breaks, or the body is short. -/
  | fail (i : ι)
  /-- The parser opens the file. -/
  | openParser (i : ι)
  /-- The parser reads at most `n` more bytes. -/
  | read (i : ι) (n : Nat)
  /-- The parser returns before it meets the end. -/
  | stop (i : ι)
  | remove (i : ι)
  deriving DecidableEq, Repr

namespace SpoolState

variable {ι : Type} [DecidableEq ι]

def path (s : SpoolState ι) (micros : Nat) : Path := uniqueSpoolPath s.uploadSpoolDirectory micros

/-- A request goes on to another place, and leaves the files as given. -/
def go (s : SpoolState ι) (i : ι) (phase : SpoolPhase) (files : FileSystem Path UInt8) :
    SpoolState ι :=
  { s with files := files, phases := Function.update s.phases i phase }

def step (s : SpoolState ι) : SpoolEvent ι → Option (SpoolState ι)
  | .uniqueSpoolPath i micros =>
      match s.phases i with
      | .arrived => some (s.go i (.named micros) s.files)
      | _ => none
  | .openSpool i =>
      match s.phases i with
      | .named micros =>
          let (file, files) := s.files.create (s.path micros)
          some (s.go i (.writing micros file 0) files)
      | _ => none
  | .write i n =>
      match s.phases i with
      | .writing micros file written =>
          let piece := ((s.body i).drop written).take n
          some (s.go i (.writing micros file (written + piece.length))
            (s.files.write file written piece))
      | _ => none
  | .close i =>
      match s.phases i with
      | .writing micros _ written =>
          if written = (s.body i).length then some (s.go i (.closed micros) s.files) else none
      | _ => none
  | .fail i =>
      match s.phases i with
      | .named micros | .writing micros .. => some (s.go i (.failed micros) s.files)
      | _ => none
  | .openParser i =>
      match s.phases i with
      | .closed micros =>
          match s.files.names (s.path micros) with
          | none => some (s.go i (.parsed micros none false) s.files)
          | some file => some (s.go i (.parsing micros file []) s.files)
      | _ => none
  | .read i n =>
      match s.phases i with
      | .parsing micros file data =>
          if n = 0 then none
          else
            let piece := s.files.read file data.length n
            if piece = [] then some (s.go i (.parsed micros (some data) true) s.files)
            else some (s.go i (.parsing micros file (data ++ piece)) s.files)
      | _ => none
  | .stop i =>
      match s.phases i with
      | .parsing micros _ data => some (s.go i (.parsed micros (some data) false) s.files)
      | _ => none
  | .remove i =>
      match s.phases i with
      | .parsed micros .. | .failed micros =>
          some (s.go i .finished (s.files.remove (s.path micros)))
      | _ => none

/-- A sequence of events. -/
def run (s : SpoolState ι) : List (SpoolEvent ι) → Option (SpoolState ι)
  | [] => some s
  | e :: rest => (s.step e).bind fun s => s.run rest

/-- Before the first request chooses its path. The directory may hold files. -/
structure Initial (s : SpoolState ι) : Prop where
  linked : s.files.Linked
  arrived : ∀ i, s.phases i = .arrived

end SpoolState

end HydrogenHttpd.Ref
