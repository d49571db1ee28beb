import HydrogenHttpd.Base.Interaction
import HydrogenHttpd.Ref.Auth

/-!
# The runtime token store (`AuthRuntimeStore.cpp`)

The store's constructor and `refresh` look at the secrets file three times
each, in an order that matters, while others replace or delete it. They are
programs that ask (`Prog`): each question is one file access, in the order of
the code.

The store is guarded by a mutex that `refresh` holds from its first to its
last access, so calls of one store never overlap; only the file changes under
them. Times are read by the caller: `now` is the steady clock in nanoseconds,
`epoch` the system clock in seconds.
-/

namespace HydrogenHttpd.Ref

open Base

inductive AuthReloadCode where
  | NoChange
  | Reloaded
  | Failed
  deriving DecidableEq, Repr

structure AuthReloadResult where
  code : AuthReloadCode := .NoChange
  message : Bytes := []
  tokenCount : Nat := 0
  generation : UInt64 := 0
  deriving DecidableEq, Repr

structure AuthRuntimeStore where
  inlineTokens : List AuthTokenRule
  fileTokens : List AuthTokenRule := []
  activeTokens : List AuthTokenRule := []
  secretsFile : Bytes
  hotReload : Bool := true
  reloadIntervalSeconds : Nat := 0
  lastCheck : Int := 0
  lastWriteTime : Int := 0
  hadFile : Bool := false
  generation : UInt64 := 0
  lastSuccessfulReloadEpoch : Int := 0
  deriving DecidableEq, Repr

/-! ## The secrets file -/

/-- One access to the secrets file. -/
inductive SecretsAccess where
  /-- `std::filesystem::exists` -/
  | found
  /-- `std::filesystem::last_write_time` -/
  | writeTime
  /-- The stream `loadSecretsFile` opens. -/
  | content
  deriving DecidableEq, Repr

/-- What an access answers; `writeTime` may throw, and a file that cannot be
opened has no content. -/
abbrev SecretsAnswer : SecretsAccess → Type
  | .found => Bool
  | .writeTime => Except Bytes Int
  | .content => Option Bytes

/-- A program that looks at the secrets file. -/
abbrev SecretsProg := Prog SecretsAccess SecretsAnswer

/-! ## The store -/

/-- The loop of `append`: a name that was seen before is an error. -/
def appendTokens : List AuthTokenRule → List AuthTokenRule →
    Except Bytes (List AuthTokenRule)
  | [], combined => .ok combined
  | token :: rest, combined =>
      if token.name ∈ combined.map (·.name) then
        .error (bytes "duplicate auth token name across stores: " ++ token.name)
      else appendTokens rest (combined ++ [token])

def combineAndValidate (inlineTokens fileTokens : List AuthTokenRule) :
    Except Bytes (List AuthTokenRule) :=
  match appendTokens inlineTokens [] with
  | .error e => .error e
  | .ok combined => appendTokens fileTokens combined

/-- The end of the constructor. -/
def AuthRuntimeStore.start (inlineTokens : List AuthTokenRule) (secretsFile : Bytes)
    (hotReload : Bool) (reloadIntervalSeconds : Nat) (now epoch : Int)
    (fileTokens : List AuthTokenRule) (lastWriteTime : Int) (hadFile : Bool) :
    Except Bytes AuthRuntimeStore :=
  match combineAndValidate inlineTokens fileTokens with
  | .error e => .error e
  | .ok activeTokens =>
      .ok { inlineTokens := inlineTokens
            fileTokens := fileTokens
            activeTokens := activeTokens
            secretsFile := secretsFile
            hotReload := hotReload
            reloadIntervalSeconds := reloadIntervalSeconds
            lastCheck := now
            lastWriteTime := lastWriteTime
            hadFile := hadFile
            generation := 1
            lastSuccessfulReloadEpoch := epoch }

/-- The constructor. It reads the content before the modification time. -/
def AuthRuntimeStore.construct (inlineTokens : List AuthTokenRule) (secretsFile : Bytes)
    (hotReload : Bool) (reloadIntervalSeconds : Nat) (now epoch : Int) :
    SecretsProg (Except Bytes AuthRuntimeStore) :=
  let finish := AuthRuntimeStore.start inlineTokens secretsFile hotReload
    reloadIntervalSeconds now epoch
  if secretsFile = [] then .done (finish [] 0 false)
  else
    .ask .found fun (found : Bool) =>
      if found = false then
        .done (.error (bytes "auth secrets file does not exist: " ++ secretsFile))
      else
        .ask .content fun (content : Option Bytes) =>
          match Auth.loadSecretsFile secretsFile content with
          | .error e => .done (.error e)
          | .ok fileTokens =>
              .ask .writeTime fun (writeTime : Except Bytes Int) =>
                match writeTime with
                | .error e => .done (.error e)
                | .ok lastWriteTime => .done (finish fileTokens lastWriteTime true)

namespace AuthRuntimeStore

def checkIntervalElapsed (s : AuthRuntimeStore) (now : Int) : Bool :=
  s.reloadIntervalSeconds == 0 || s.reloadIntervalSeconds * 1000000000 ≤ now - s.lastCheck

/-- `refresh` found no file, for the first time since it had one. -/
def forget (s : AuthRuntimeStore) (epoch : Int) (result : AuthReloadResult) :
    AuthReloadResult × AuthRuntimeStore :=
  match combineAndValidate s.inlineTokens [] with
  | .error e => ({ result with code := .Failed, message := e }, { s with fileTokens := [] })
  | .ok activeTokens =>
      ({ code := .Reloaded
         message := bytes "auth secrets file removed; file-backed tokens revoked"
         tokenCount := activeTokens.length
         generation := s.generation + 1 },
        { s with
          fileTokens := []
          activeTokens := activeTokens
          hadFile := false
          lastWriteTime := 0
          generation := s.generation + 1
          lastSuccessfulReloadEpoch := epoch })

/-- `refresh` loads the file. A version that cannot be used is remembered by its
time, so that it is not tried again. -/
def load (s : AuthRuntimeStore) (epoch writeTime : Int) (content : Option Bytes)
    (result : AuthReloadResult) : AuthReloadResult × AuthRuntimeStore :=
  match Auth.loadSecretsFile s.secretsFile content with
  | .error e =>
      ({ result with code := .Failed, message := e },
        { s with lastWriteTime := writeTime, hadFile := true })
  | .ok newFileTokens =>
      match combineAndValidate s.inlineTokens newFileTokens with
      | .error e =>
          ({ result with code := .Failed, message := e },
            { s with lastWriteTime := writeTime, hadFile := true })
      | .ok combined =>
          ({ code := .Reloaded
             message := bytes "auth secrets reloaded"
             tokenCount := combined.length
             generation := s.generation + 1 },
            { s with
              fileTokens := newFileTokens
              activeTokens := combined
              lastWriteTime := writeTime
              hadFile := true
              generation := s.generation + 1
              lastSuccessfulReloadEpoch := epoch })

/-- `refresh`. It reads the modification time before the content. -/
def refresh (s : AuthRuntimeStore) (force : Bool) (now epoch : Int) :
    SecretsProg (AuthReloadResult × AuthRuntimeStore) :=
  let result : AuthReloadResult :=
    { tokenCount := s.activeTokens.length, generation := s.generation }
  if s.hotReload = false ∧ force = false then .done (result, s)
  else if s.secretsFile = [] then .done (result, s)
  else if force = false ∧ s.checkIntervalElapsed now = false then .done (result, s)
  else
    let s := { s with lastCheck := now }
    .ask .found fun (found : Bool) =>
      if found = false then
        if s.hadFile = false then .done (result, s)
        else .done (s.forget epoch result)
      else
        .ask .writeTime fun (answer : Except Bytes Int) =>
          match answer with
          | .error e => .done ({ result with code := .Failed, message := e }, s)
          | .ok writeTime =>
              if force = false ∧ s.hadFile = true ∧ writeTime = s.lastWriteTime then
                .done (result, s)
              else
                .ask .content fun (content : Option Bytes) =>
                  .done (s.load epoch writeTime content result)

/-- The second half of `authorize`, under its own lock. -/
def decide (s : AuthRuntimeStore) (authorizationHeader legacyPlaintextToken requiredScope : Bytes)
    (nowEpoch : Int) : AuthDecision :=
  Auth.authorize authorizationHeader s.activeTokens legacyPlaintextToken requiredScope nowEpoch

/-- `authorize`, when no other thread comes between its two halves. -/
def authorize (s : AuthRuntimeStore) (now epoch : Int)
    (authorizationHeader legacyPlaintextToken requiredScope : Bytes) (nowEpoch : Int) :
    SecretsProg (AuthDecision × AuthReloadResult × AuthRuntimeStore) :=
  (s.refresh false now epoch).map fun (reload, s) =>
    (s.decide authorizationHeader legacyPlaintextToken requiredScope nowEpoch, reload, s)

end AuthRuntimeStore

end HydrogenHttpd.Ref
