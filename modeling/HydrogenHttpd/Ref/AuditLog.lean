import HydrogenHttpd.Base.Numbers

/-!
# The audit log (`Logger.cpp`)

`audit` writes one line behind `rotateAuditIfNeeded`, both under the mutex of
the log files, so calls never overlap. The log directory is a map from file
names to contents; its operations succeed, so the stream is open between
calls and an error code never stops a rotation. Sizes are sums of lengths: a
file or a line of 2^63 bytes does not exist, and the source's 64-bit sum does
not wrap.
-/

namespace HydrogenHttpd.Ref

open Base

/-- The files of the log directory. -/
abbrev LogFiles := Bytes → Option Bytes

namespace LogFiles

def remove (files : LogFiles) (name : Bytes) : LogFiles := Function.update files name none

/-- `std::filesystem::rename`, which replaces what is there. -/
def rename (files : LogFiles) (old new : Bytes) : LogFiles :=
  match files old with
  | none => files
  | some content => Function.update (files.remove old) new (some content)

/-- Writing at the end of a file; the file is there behind it. -/
def append (files : LogFiles) (name data : Bytes) : LogFiles :=
  Function.update files name (some ((files name).getD [] ++ data))

end LogFiles

structure AuditLog where
  auditPath : Bytes
  auditRotateBytes : Nat
  auditRotateKeep : Nat
  files : LogFiles

/-- The name of a backup. -/
def backupName (auditPath : Bytes) (index : Nat) : Bytes :=
  auditPath ++ bytes "." ++ decimal index

/-- The loop over the backups, from `index` down to 2. -/
def shiftBackups (auditPath : Bytes) : Nat → LogFiles → LogFiles
  | index + 2, files =>
      let source := backupName auditPath (index + 1)
      let target := backupName auditPath (index + 2)
      let files :=
        if (files source).isSome then (files.remove target).rename source target else files
      shiftBackups auditPath (index + 1) files
  | _, files => files

namespace AuditLog

def openAudit (log : AuditLog) : AuditLog :=
  { log with files := log.files.append log.auditPath [] }

/-- The part of the constructor that opens the audit log. -/
def construct (auditPath : Bytes) (auditRotateBytes auditRotateKeep : Nat) (files : LogFiles) :
    AuditLog :=
  openAudit { auditPath := auditPath
              auditRotateBytes := auditRotateBytes
              auditRotateKeep := auditRotateKeep
              files := files }

def rotateAuditIfNeeded (log : AuditLog) (incomingBytes : Nat) : AuditLog :=
  if log.auditRotateBytes = 0 ∨ log.auditRotateKeep = 0 then log
  else
    let currentSize := match log.files log.auditPath with
      | none => 0
      | some content => content.length
    if currentSize + incomingBytes ≤ log.auditRotateBytes then log
    else
      let oldest := backupName log.auditPath log.auditRotateKeep
      let files := shiftBackups log.auditPath log.auditRotateKeep (log.files.remove oldest)
      let first := backupName log.auditPath 1
      let files :=
        if (files log.auditPath).isSome then (files.remove first).rename log.auditPath first
        else files
      openAudit { log with files := files }

/-- The line of a message; `now` is the time as `now()` prints it. -/
def line (now message : Bytes) : Bytes := now ++ [space] ++ message ++ [lf]

def audit (log : AuditLog) (now message : Bytes) : AuditLog :=
  let text := line now message
  let log := log.rotateAuditIfNeeded text.length
  { log with files := log.files.append log.auditPath text }

end AuditLog

end HydrogenHttpd.Ref
