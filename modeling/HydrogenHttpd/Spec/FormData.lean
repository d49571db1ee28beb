import HydrogenHttpd.Base.Lines

/-!
# Form data as a browser writes it

A form part is a field name, a file name and a content; `encodeForm` writes a
list of them as `multipart/form-data` with CRLF line ends, up to and including
the closing delimiter. What may follow that is the caller's: nothing, or a
line end and an epilogue. `EncodesParts` leaves the encoder a choice about plain
fields, and `printDisposition` is a disposition with any parameters.

`Plain` is the one property of a content that line-based readers are
sensitive to: no CRLF in it, and no line that reads as a delimiter.

`cutParts` is a form as such a reader sees it, whatever its content: from the
lines behind the first delimiter, one part after another, each a run of header
lines up to an empty one and a run of content lines up to a delimiter.
-/

namespace HydrogenHttpd.Spec

open Base

structure FormPart where
  name : Bytes
  filename : Bytes
  content : Bytes
  deriving DecidableEq, Repr

/-- The part's one header line. -/
def FormPart.header (p : FormPart) : Bytes :=
  bytes "Content-Disposition: form-data; name=\"" ++ p.name ++
    bytes "\"; filename=\"" ++ p.filename ++ [quote]

def dashes : Bytes := [45, 45]

/-- The delimiter of a boundary. -/
def delimiterOf (boundary : Bytes) : Bytes := dashes ++ boundary

/-- A part behind its delimiter line, up to the line end before the next
delimiter. -/
def FormPart.encode (p : FormPart) : Bytes :=
  p.header ++ crlf ++ crlf ++ p.content ++ crlf

/-- What stands behind a delimiter: the two dashes that close the form, or a part
and the next delimiter. -/
def encodeParts (delimiter : Bytes) : List FormPart → Bytes
  | [] => dashes
  | p :: ps => crlf ++ p.encode ++ delimiter ++ encodeParts delimiter ps

/-- The form as it stands in a request body. -/
def encodeForm (boundary : Bytes) (parts : List FormPart) : Bytes :=
  delimiterOf boundary ++ encodeParts (delimiterOf boundary) parts

/-- The header line of a plain field that does not mention a file name. -/
def FormPart.fieldHeader (p : FormPart) : Bytes :=
  bytes "Content-Disposition: form-data; name=\"" ++ p.name ++ [quote]

/-- A text that may stand behind a delimiter: parts as `encodeParts` writes them,
but that a plain field need not mention its empty file name. -/
inductive EncodesParts (delimiter : Bytes) : List FormPart → Bytes → Prop where
  | closing : EncodesParts delimiter [] dashes
  | part (p : FormPart) {ps : List FormPart} {text : Bytes} (h : EncodesParts delimiter ps text) :
      EncodesParts delimiter (p :: ps) (crlf ++ p.encode ++ delimiter ++ text)
  | field (p : FormPart) {ps : List FormPart} {text : Bytes} (hp : p.filename = [])
      (h : EncodesParts delimiter ps text) :
      EncodesParts delimiter (p :: ps)
        (crlf ++ (p.fieldHeader ++ crlf ++ crlf ++ p.content ++ crlf) ++ delimiter ++ text)

theorem encodesParts_encodeParts (delimiter : Bytes) (parts : List FormPart) :
    EncodesParts delimiter parts (encodeParts delimiter parts) := by
  induction parts with
  | nil => exact .closing
  | cons p ps ih => exact .part p ih

/-! ## Dispositions -/

/-- A parameter behind the disposition type or another parameter. -/
def printParam (p : Bytes × Bytes) : Bytes :=
  bytes "; " ++ p.1 ++ bytes "=\"" ++ p.2 ++ [quote]

/-- The disposition of a form part with these parameters, names and values. -/
def printDisposition (params : List (Bytes × Bytes)) : Bytes :=
  bytes "form-data" ++ (params.map printParam).flatten

/-! ## Contents -/

/-- Text that can stand between quotes in a disposition without being read as
another parameter. -/
def Quotable (s : Bytes) : Prop :=
  quote ∉ s ∧ cr ∉ s ∧ lf ∉ s ∧ ¬ bytes "name=" <:+: s

instance (s : Bytes) : Decidable (Quotable s) := inferInstanceAs (Decidable (_ ∧ _))

/-- The content keeps clear of the boundary, as every encoder must see to. -/
def AvoidsBoundary (boundary content : Bytes) : Prop :=
  ¬ delimiterOf boundary <+: content ∧ ¬ (crlf ++ delimiterOf boundary) <:+: content

instance (boundary content : Bytes) : Decidable (AvoidsBoundary boundary content) :=
  inferInstanceAs (Decidable (_ ∧ _))

/-- A line that reads as a delimiter. -/
def IsDelimiter (delimiter line : Bytes) : Prop :=
  line = delimiter ∨ line = delimiter ++ dashes

instance (delimiter line : Bytes) : Decidable (IsDelimiter delimiter line) :=
  inferInstanceAs (Decidable (_ ∨ _))

/-- No CRLF in the content, and no line of it, cut at line feeds, that reads
as a delimiter. -/
def Plain (boundary content : Bytes) : Prop :=
  ¬ crlf <:+: content ∧ ∀ l ∈ content.splitOn lf, ¬ IsDelimiter (delimiterOf boundary) l

instance (boundary content : Bytes) : Decidable (Plain boundary content) :=
  inferInstanceAs (Decidable (_ ∧ _))

/-! ## Parts as runs of lines -/

/-- A part as a run of lines, and the delimiter line that ended it, if any. -/
structure LinePart where
  headers : List Bytes
  body : List Bytes
  ending : Option Bytes
  deriving DecidableEq, Repr

/-- The text of some lines, with no line feed behind the last. -/
def joined (ls : List Bytes) : Bytes := [lf].intercalate ls

/-- The first `n` parts of the lines behind a delimiter, up to a closing
delimiter or a part that no delimiter ends. -/
def cutParts (delimiter : Bytes) : Nat → List Bytes → List LinePart
  | 0, _ => []
  | n + 1, lines =>
      let headers := lines.takeWhile (fun l => l ≠ [])
      let behind := (lines.dropWhile (fun l => l ≠ [])).drop 1
      let body := behind.takeWhile (fun l => ¬ IsDelimiter delimiter l)
      match behind.dropWhile (fun l => ¬ IsDelimiter delimiter l) with
      | [] => [{ headers := headers, body := body, ending := none }]
      | d :: rest =>
          { headers := headers, body := body, ending := some d } ::
            if d = delimiter ++ dashes then [] else cutParts delimiter n rest

end HydrogenHttpd.Spec
