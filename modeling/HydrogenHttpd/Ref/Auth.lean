import HydrogenHttpd.Base.Lines
import HydrogenHttpd.Base.Numbers

/-!
# Bearer tokens (`Auth.cpp`)

Token rules, the text they are read from, and the decision on an
`Authorization` header. The digest is computed as the code computes it, in
32-bit words. A parse error is the text of the exception that carries it.
-/

namespace HydrogenHttpd.Ref

open Base

structure AuthTokenRule where
  name : Bytes := []
  plaintextToken : Bytes := []
  sha256Hex : Bytes := []
  scopes : List Bytes := []
  expiresAtEpoch : Int := 0
  deriving DecidableEq, Repr

inductive AuthDecisionCode where
  | Allowed
  | Missing
  | Invalid
  | Expired
  | InsufficientScope
  deriving DecidableEq, Repr

structure AuthDecision where
  code : AuthDecisionCode := .Invalid
  tokenName : Bytes := []
  deriving DecidableEq, Repr

def AuthDecision.allowed (d : AuthDecision) : Bool := d.code == .Allowed

/-! ## SHA-256 -/

/-- The round constants `K`. -/
def sha256K : List UInt32 :=
  [0x428a2f98, 0x71374491, 0xb5c0fbcf, 0xe9b5dba5,
   0x3956c25b, 0x59f111f1, 0x923f82a4, 0xab1c5ed5,
   0xd807aa98, 0x12835b01, 0x243185be, 0x550c7dc3,
   0x72be5d74, 0x80deb1fe, 0x9bdc06a7, 0xc19bf174,
   0xe49b69c1, 0xefbe4786, 0x0fc19dc6, 0x240ca1cc,
   0x2de92c6f, 0x4a7484aa, 0x5cb0a9dc, 0x76f988da,
   0x983e5152, 0xa831c66d, 0xb00327c8, 0xbf597fc7,
   0xc6e00bf3, 0xd5a79147, 0x06ca6351, 0x14292967,
   0x27b70a85, 0x2e1b2138, 0x4d2c6dfc, 0x53380d13,
   0x650a7354, 0x766a0abb, 0x81c2c92e, 0x92722c85,
   0xa2bfe8a1, 0xa81a664b, 0xc24b8b70, 0xc76c51a3,
   0xd192e819, 0xd6990624, 0xf40e3585, 0x106aa070,
   0x19a4c116, 0x1e376c08, 0x2748774c, 0x34b0bcb5,
   0x391c0cb3, 0x4ed8aa4a, 0x5b9cca4f, 0x682e6ff3,
   0x748f82ee, 0x78a5636f, 0x84c87814, 0x8cc70208,
   0x90befffa, 0xa4506ceb, 0xbef9a3f7, 0xc67178f2]

def rotr (value count : UInt32) : UInt32 := (value >>> count) ||| (value <<< (32 - count))

/-- The message with its padding: a one bit, zeros up to eight bytes short of a
block, and the length in bits. -/
def sha256Pad (message : Bytes) : Bytes :=
  let bitLength := message.length * 8 % 2 ^ 64
  message ++ [(0x80 : UInt8)] ++ List.replicate ((119 - message.length % 64) % 64) (0 : UInt8) ++
    ([56, 48, 40, 32, 24, 16, 8, 0].map fun shift => UInt8.ofNat (bitLength >>> shift))

/-- The big-endian word at a position. -/
def sha256Word (block : Bytes) (base : Nat) : UInt32 :=
  ((block.getD base 0).toUInt32 <<< 24) ||| ((block.getD (base + 1) 0).toUInt32 <<< 16) |||
    ((block.getD (base + 2) 0).toUInt32 <<< 8) ||| (block.getD (base + 3) 0).toUInt32

/-- The message schedule of a block. -/
def sha256Words (block : Bytes) : List UInt32 :=
  (List.range 48).foldl (fun words k =>
    let i := k + 16
    let w := fun j => words.getD j 0
    let s0 := rotr (w (i - 15)) 7 ^^^ rotr (w (i - 15)) 18 ^^^ (w (i - 15) >>> 3)
    let s1 := rotr (w (i - 2)) 17 ^^^ rotr (w (i - 2)) 19 ^^^ (w (i - 2) >>> 10)
    words ++ [w (i - 16) + s0 + w (i - 7) + s1])
    ((List.range 16).map fun i => sha256Word block (i * 4))

/-- The eight working words. -/
structure Sha256State where
  a : UInt32
  b : UInt32
  c : UInt32
  d : UInt32
  e : UInt32
  f : UInt32
  g : UInt32
  h : UInt32
  deriving DecidableEq, Repr

def sha256Init : Sha256State :=
  { a := 0x6a09e667, b := 0xbb67ae85, c := 0x3c6ef372, d := 0xa54ff53a
    e := 0x510e527f, f := 0x9b05688c, g := 0x1f83d9ab, h := 0x5be0cd19 }

def sha256Round (s : Sha256State) (kw : UInt32 × UInt32) : Sha256State :=
  let sigma1 := rotr s.e 6 ^^^ rotr s.e 11 ^^^ rotr s.e 25
  let choice := (s.e &&& s.f) ^^^ (~~~s.e &&& s.g)
  let temp1 := s.h + sigma1 + choice + kw.1 + kw.2
  let sigma0 := rotr s.a 2 ^^^ rotr s.a 13 ^^^ rotr s.a 22
  let majority := (s.a &&& s.b) ^^^ (s.a &&& s.c) ^^^ (s.b &&& s.c)
  let temp2 := sigma0 + majority
  { a := temp1 + temp2, b := s.a, c := s.b, d := s.c
    e := s.d + temp1, f := s.e, g := s.f, h := s.g }

/-- The state after one block of 64 bytes. -/
def sha256Block (s : Sha256State) (block : Bytes) : Sha256State :=
  let r := (sha256K.zip (sha256Words block)).foldl sha256Round s
  { a := s.a + r.a, b := s.b + r.b, c := s.c + r.c, d := s.d + r.d
    e := s.e + r.e, f := s.f + r.f, g := s.g + r.g, h := s.h + r.h }

/-- `setw(8)` of a word in hexadecimal with leading zeros. -/
def hex8 (w : UInt32) : Bytes :=
  [28, 24, 20, 16, 12, 8, 4, 0].map fun shift =>
    let digit := w.toNat >>> shift % 16
    UInt8.ofNat (if digit < 10 then 48 + digit else 87 + digit)

def Auth.sha256Hex (input : Bytes) : Bytes :=
  let message := sha256Pad input
  let s := (List.range (message.length / 64)).foldl
    (fun s i => sha256Block s (substr message (i * 64) 64)) sha256Init
  [s.a, s.b, s.c, s.d, s.e, s.f, s.g, s.h].flatMap hex8

/-! ## Reading rules -/

/-- `split`: the text between delimiters, trimmed, with nothing behind a final
delimiter. -/
def split (text : Bytes) (delimiter : UInt8) : List Bytes :=
  let values := text.splitOn delimiter
  (if values.getLast? = some [] then values.dropLast else values).map trim

def splitScopes (text : Bytes) : List Bytes :=
  ((split text 44).map lowercase).filter fun value => !value.isEmpty

def isHex64 (value : Bytes) : Bool := value.length == 64 && value.all isXDigit

/-- The exceptions of `std::stoll` are named after it. -/
def parseExpiry (value : Bytes) : Except Bytes Int :=
  let normalized := lowercase (trim value)
  if normalized = [] ∨ normalized = bytes "0" ∨ normalized = bytes "never" then .ok 0
  else
    match stoll normalized with
    | none => .error (bytes "stoll")
    | some (parsed, rest) =>
        if rest ≠ [] ∨ parsed < 0 then
          .error (bytes "token expiry must be 0, never, or a Unix epoch timestamp")
        else .ok parsed

def Auth.parseTokenRule (name value : Bytes) (requireHashedSecret : Bool) :
    Except Bytes AuthTokenRule :=
  let parts := split value 124
  if parts.length < 2 ∨ 3 < parts.length then
    .error (bytes "token rule must use: secret | scopes | expires_epoch")
  else
    let scopes := splitScopes (parts.getD 1 [])
    match (if parts.length = 3 then parseExpiry (parts.getD 2 []) else .ok 0) with
    | .error e => .error e
    | .ok expiresAtEpoch =>
        let secret := trim (parts.getD 0 [])
        let hashed := (bytes "sha256:").isPrefixOf secret
        let sha256Hex := if hashed then lowercase (secret.drop 7) else []
        if hashed ∧ isHex64 sha256Hex = false then
          .error (bytes "sha256 token hash must contain exactly 64 hexadecimal characters")
        else if hashed = false ∧ requireHashedSecret then
          .error (bytes "secrets file tokens must use sha256:<64-hex-hash>")
        else
          let rule : AuthTokenRule :=
            { name := trim name
              plaintextToken := if hashed then [] else secret
              sha256Hex := sha256Hex
              scopes := scopes
              expiresAtEpoch := expiresAtEpoch }
          if rule.name = [] then .error (bytes "token name cannot be empty")
          else if rule.scopes = [] then .error (bytes "token scopes cannot be empty")
          else if rule.plaintextToken = [] ∧ rule.sha256Hex = [] then
            .error (bytes "token secret cannot be empty")
          else .ok rule

/-- One line of a secrets file: nothing, a rule, or an error. -/
def secretsLine (line : Bytes) : Except Bytes (Option AuthTokenRule) :=
  let line := match find? [35] line with
    | none => line
    | some comment => line.take comment
  let line := trim line
  if line = [] then .ok none
  else
    match find? [61] line with
    | none => .error (bytes "invalid auth secrets line: " ++ line)
    | some equals =>
        let key := trim (line.take equals)
        let value := trim (line.drop (equals + 1))
        if (bytes "token.").isPrefixOf key = false then
          .error (bytes "auth secrets keys must start with token.")
        else (Auth.parseTokenRule (key.drop 6) value true).map some

/-- The loop of `loadSecretsFile` over the lines of the file. -/
def secretsLoop : List Bytes → List AuthTokenRule → Except Bytes (List AuthTokenRule)
  | [], tokens => .ok tokens
  | line :: rest, tokens =>
      match secretsLine line with
      | .error e => .error e
      | .ok none => secretsLoop rest tokens
      | .ok (some rule) => secretsLoop rest (tokens ++ [rule])

/-- `content` is what the file at `path` holds, `none` when it cannot be opened. -/
def Auth.loadSecretsFile (path : Bytes) (content : Option Bytes) :
    Except Bytes (List AuthTokenRule) :=
  match content with
  | none => .error (bytes "Cannot open auth secrets file: " ++ path)
  | some text => secretsLoop (getlines text) []

/-! ## The decision -/

def Auth.constantTimeEquals (left right : Bytes) : Bool :=
  let maxSize := max left.length right.length
  let difference := (List.range maxSize).foldl
    (fun difference i => difference ||| ((left.getD i 0) ^^^ (right.getD i 0)).toNat)
    (left.length ^^^ right.length)
  difference == 0

def Auth.hasScope (token : AuthTokenRule) (requiredScope : Bytes) : Bool :=
  let normalized := lowercase requiredScope
  token.scopes.any fun scope => scope == bytes "*" || scope == normalized

def Auth.isExpired (token : AuthTokenRule) (nowEpochSeconds : Int) : Bool :=
  0 < token.expiresAtEpoch && token.expiresAtEpoch ≤ nowEpochSeconds

/-- Whether a rule is the one the presented token is matched by. -/
def tokenMatches (token : AuthTokenRule) (presented presentedHash : Bytes) : Bool :=
  if token.sha256Hex ≠ [] then Auth.constantTimeEquals (lowercase token.sha256Hex) presentedHash
  else if token.plaintextToken ≠ [] then
    Auth.constantTimeEquals token.plaintextToken presented
  else false

/-- The loop of `authorize`: the first matching rule decides. -/
def authorizeLoop (presented presentedHash legacyPlaintextToken requiredScope : Bytes)
    (nowEpochSeconds : Int) : List AuthTokenRule → AuthDecision
  | [] =>
      if legacyPlaintextToken ≠ [] ∧
          Auth.constantTimeEquals legacyPlaintextToken presented = true then
        { code := .Allowed, tokenName := bytes "legacy" }
      else { code := .Invalid }
  | token :: rest =>
      if tokenMatches token presented presentedHash = false then
        authorizeLoop presented presentedHash legacyPlaintextToken requiredScope
          nowEpochSeconds rest
      else if Auth.isExpired token nowEpochSeconds then
        { code := .Expired, tokenName := token.name }
      else if Auth.hasScope token requiredScope = false then
        { code := .InsufficientScope, tokenName := token.name }
      else { code := .Allowed, tokenName := token.name }

def Auth.authorize (authorizationHeader : Bytes) (tokens : List AuthTokenRule)
    (legacyPlaintextToken requiredScope : Bytes) (nowEpochSeconds : Int) : AuthDecision :=
  if authorizationHeader = [] then { code := .Missing }
  else if (bytes "Bearer ").isPrefixOf authorizationHeader = false then { code := .Invalid }
  else
    let presented := authorizationHeader.drop 7
    if presented = [] then { code := .Invalid }
    else
      authorizeLoop presented (Auth.sha256Hex presented) legacyPlaintextToken requiredScope
        nowEpochSeconds tokens

end HydrogenHttpd.Ref
