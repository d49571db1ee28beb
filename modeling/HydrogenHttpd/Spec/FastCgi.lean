import HydrogenHttpd.Base.Bytes

/-!
# The FastCGI record format

What a FastCGI party reads off a stream of bytes: records, each with a header
of 8 bytes that says how long its content and its padding are, and in the
joined contents of the PARAMS records names and values behind their lengths, of
one byte below 128 and of four bytes from there on.
-/

namespace HydrogenHttpd.Spec

open Base

structure FcgiRecord where
  version : UInt8
  type : UInt8
  requestId : Nat
  content : Bytes
  padding : Nat
  deriving DecidableEq, Repr

/-- The bytes a record takes on the stream. -/
def FcgiRecord.size (r : FcgiRecord) : Nat := 8 + r.content.length + r.padding

/-- A record as a party sends it: with the bytes of its padding, and not longer
than its header can say. -/
structure SentRecord where
  version : UInt8 := 1
  type : UInt8
  requestId : UInt16 := 1
  content : Bytes
  padding : Bytes := []
  reserved : UInt8 := 0
  content_length : content.length ≤ 65535
  padding_length : padding.length ≤ 255

def SentRecord.bytes (r : SentRecord) : Bytes :=
  [r.version, r.type, UInt8.ofNat (r.requestId.toNat / 256), UInt8.ofNat r.requestId.toNat,
    UInt8.ofNat (r.content.length / 256), UInt8.ofNat r.content.length,
    UInt8.ofNat r.padding.length, r.reserved] ++ r.content ++ r.padding

/-- What its reader gets. -/
def SentRecord.record (r : SentRecord) : FcgiRecord :=
  { version := r.version
    type := r.type
    requestId := r.requestId.toNat
    content := r.content
    padding := r.padding.length }

/-- The record at the front of a stream, and what follows it. -/
def readRecord : Bytes → Option (FcgiRecord × Bytes)
  | version :: type :: id1 :: id0 :: length1 :: length0 :: padding :: _ :: rest =>
      let length := length1.toNat * 256 + length0.toNat
      if rest.length < length + padding.toNat then none
      else some (
        { version := version
          type := type
          requestId := id1.toNat * 256 + id0.toNat
          content := rest.take length
          padding := padding.toNat },
        rest.drop (length + padding.toNat))
  | _ => none

theorem readRecord_sent (r : SentRecord) (rest : Bytes) :
    readRecord (r.bytes ++ rest) = some (r.record, rest) := by
  have hbyte : ∀ n < 65536, (UInt8.ofNat (n / 256)).toNat * 256 + (UInt8.ofNat n).toNat = n := by
    intro n hn
    rw [UInt8.toNat_ofNat', UInt8.toNat_ofNat']
    omega
  have hcontent := hbyte r.content.length (by have := r.content_length; omega)
  have hid := hbyte r.requestId.toNat r.requestId.toNat_lt
  have hpadding : (UInt8.ofNat r.padding.length).toNat = r.padding.length := by
    rw [UInt8.toNat_ofNat']
    have := r.padding_length
    omega
  have hdrop : (r.content ++ (r.padding ++ rest)).drop (r.content.length + r.padding.length) =
      rest := by
    rw [← List.append_assoc]
    exact List.drop_left' (by simp)
  simp only [SentRecord.bytes, List.cons_append, List.nil_append, List.append_assoc, readRecord,
    hcontent, hid, hpadding]
  rw [if_neg (by simp), hdrop, List.take_left]
  rfl

/-- All records of a stream, if it consists of whole records. -/
def splitRecords (stream : Bytes) : Option (List FcgiRecord) := go stream.length stream
where
  go : Nat → Bytes → Option (List FcgiRecord)
    | _, [] => some []
    | 0, _ :: _ => none
    | fuel + 1, stream@(_ :: _) =>
        match readRecord stream with
        | none => none
        | some (r, rest) => (go fuel rest).map (r :: ·)

/-- The records at the front of a stream that satisfy `p`, and what follows
them: the first record that does not, or a piece that is no record. -/
def spanRecords (p : FcgiRecord → Bool) (stream : Bytes) : List FcgiRecord × Bytes :=
  go stream.length stream
where
  go : Nat → Bytes → List FcgiRecord × Bytes
    | 0, stream => ([], stream)
    | fuel + 1, stream =>
        match readRecord stream with
        | none => ([], stream)
        | some (r, rest) =>
            if p r then (r :: (go fuel rest).1, (go fuel rest).2) else ([], stream)

/-- `stream` is `records`, one after the other, and then `rest`. -/
def StartsWith (stream : Bytes) : List FcgiRecord → Bytes → Prop
  | [], rest => stream = rest
  | r :: records, rest => ∃ next, readRecord stream = some (r, next) ∧ StartsWith next records rest

/-- A stream of one type: records with content, and an empty one at the end. -/
def IsStream (type : UInt8) (records : List FcgiRecord) : Prop :=
  ∃ chunks last, records = chunks ++ [last] ∧
    (∀ r ∈ chunks, r.type = type ∧ 1 ≤ r.content.length ∧ r.content.length ≤ 65535) ∧
    last.type = type ∧ last.content = []

/-- The joined contents of some records. -/
def contentOf (records : List FcgiRecord) : Bytes := records.flatMap (·.content)

/-! ## Names and values -/

/-- A length of one byte or of four. -/
def readLength : Bytes → Option (Nat × Bytes)
  | [] => none
  | b :: rest =>
      if b.toNat < 128 then some (b.toNat, rest)
      else
        match rest with
        | b2 :: b1 :: b0 :: rest =>
            some ((b.toNat - 128) * 2 ^ 24 + b2.toNat * 2 ^ 16 + b1.toNat * 2 ^ 8 + b0.toNat, rest)
        | _ => none

def readPair (b : Bytes) : Option ((Bytes × Bytes) × Bytes) :=
  match readLength b with
  | none => none
  | some (nameLength, b) =>
      match readLength b with
      | none => none
      | some (valueLength, b) =>
          if b.length < nameLength + valueLength then none
          else some ((b.take nameLength, (b.drop nameLength).take valueLength),
            b.drop (nameLength + valueLength))

/-- All pairs, if there is nothing else. -/
def decodePairs (b : Bytes) : Option (List (Bytes × Bytes)) := go b.length b
where
  go : Nat → Bytes → Option (List (Bytes × Bytes))
    | _, [] => some []
    | 0, _ :: _ => none
    | fuel + 1, b@(_ :: _) =>
        match readPair b with
        | none => none
        | some (p, rest) => (go fuel rest).map (p :: ·)

end HydrogenHttpd.Spec
