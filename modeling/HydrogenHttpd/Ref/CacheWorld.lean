import HydrogenHttpd.Ref.StaticFileCacheSteps

/-!
# The cache and the files it reads

The surroundings of the cache: a clock that does not go back, and files that
are replaced as a whole while calls of `get` are under way. A replacement gives
the file a modification time it has not had before. A file access answers what
the file is at that moment, or fails.

`moments` is a record of the run: every time and what the files were then.
-/

namespace HydrogenHttpd.Ref

open Base

structure FileVersion where
  content : Bytes
  modified : Int
  deriving DecidableEq, Repr

/-- The files, under their native paths. -/
abbrev Disk := Bytes → Option FileVersion

structure CacheWorld (ι : Type) extends CacheState ι where
  /-- The steady clock. -/
  time : Int
  disk : Disk
  moments : List (Int × Disk)
  /-- What the file was when this thread asked for its size. -/
  sized : ι → Option FileVersion

namespace CacheWorld

variable {ι : Type}

/-- The file was this version at the moment `m`. -/
def Had (s : CacheWorld ι) (key : Bytes) (version : FileVersion) (m : Int) : Prop :=
  ∃ disk, (m, disk) ∈ s.moments ∧ disk key = some version

/-- What an access may answer. -/
def Answers (s : CacheWorld ι) : GetAccess → Prop
  | .call _ now => now = s.time
  | .fileSize path answer =>
      answer = none ∨ answer = (s.disk path.toBytes).map (·.content.length)
  | .lastWriteTime path answer =>
      answer = none ∨ answer = (s.disk path.toBytes).map (·.modified)
  | .content path answer => answer = none ∨ answer = (s.disk path.toBytes).map (·.content)
  | .nothing => True

/-- The record of what a thread sized. -/
def noteSize [DecidableEq ι] (s : CacheWorld ι) (i : ι) : GetAccess → ι → Option FileVersion
  | .fileSize path _ => Function.update s.sized i (s.disk path.toBytes)
  | _ => s.sized

def Initial (s : CacheWorld ι) : Prop :=
  s.toCacheState.Initial ∧ s.moments = [(s.time, s.disk)]

end CacheWorld

/-- What happens next. -/
inductive WorldEvent (ι : Type) where
  | get (i : ι) (access : GetAccess)
  | replace (key : Bytes) (version : FileVersion)
  | remove (key : Bytes)
  | tick (time : Int)

inductive WorldStep {ι : Type} [DecidableEq ι] (hash : Bytes → Nat) :
    CacheWorld ι → WorldEvent ι → CacheWorld ι → Prop where
  | get (s : CacheWorld ι) (i : ι) (access : GetAccess) (cache : StaticFileCache)
      (phase : GetPhase) (h : GetStep hash s.cache (s.threads i) access cache phase)
      (hanswer : s.Answers access) :
      WorldStep hash s (.get i access) { s with
        cache := cache
        threads := Function.update s.threads i phase
        sized := s.noteSize i access }
  | replace (s : CacheWorld ι) (key : Bytes) (version : FileVersion)
      (hnew : ∀ earlier m, s.Had key earlier m → earlier.modified ≠ version.modified) :
      WorldStep hash s (.replace key version) { s with
        disk := Function.update s.disk key (some version)
        moments := (s.time, Function.update s.disk key (some version)) :: s.moments }
  | remove (s : CacheWorld ι) (key : Bytes) :
      WorldStep hash s (.remove key) { s with
        disk := Function.update s.disk key none
        moments := (s.time, Function.update s.disk key none) :: s.moments }
  | tick (s : CacheWorld ι) (time : Int) (h : s.time ≤ time) :
      WorldStep hash s (.tick time) { s with
        time := time
        moments := (time, s.disk) :: s.moments }

end HydrogenHttpd.Ref
