import HydrogenHttpd.Base.Lines
import HydrogenHttpd.Base.Numbers

/-!
# What a CGI script prints

Header fields, one a line, then an empty line, then the content. All lines end
the same way, with CRLF or with a bare line feed. One field may be the status of
the response, a number and a reason; the others are a name and a value.
-/

namespace HydrogenHttpd.Spec

open Base

/-- A printed field. Blanks may stand behind the colon. -/
inductive CgiField where
  | status (blanks code : Nat) (reason : Bytes)
  | other (name : Bytes) (blanks : Nat) (value : Bytes)
  deriving DecidableEq, Repr

def CgiField.name : CgiField → Bytes
  | .status .. => bytes "Status"
  | .other name .. => name

def CgiField.blanks : CgiField → Nat
  | .status blanks .. => blanks
  | .other _ blanks _ => blanks

def CgiField.value : CgiField → Bytes
  | .status _ code reason => decimal code ++ space :: reason
  | .other _ _ value => value

/-- The line of a field, without its end. -/
def CgiField.line (f : CgiField) : Bytes :=
  f.name ++ 58 :: (List.replicate f.blanks space ++ f.value)

/-- No line break, and no colon in a name. The value does not begin with a
blank, as one there could not be told from those behind the colon. -/
def CgiField.Fits : CgiField → Prop
  | .status _ code reason => (100 ≤ code ∧ code ≤ 599) ∧ cr ∉ reason ∧ lf ∉ reason
  | .other name _ value =>
      name ≠ bytes "Status" ∧ (58 ∉ name ∧ cr ∉ name ∧ lf ∉ name) ∧ cr ∉ value ∧ lf ∉ value ∧
        value.head? ≠ some space

instance (f : CgiField) : Decidable f.Fits := by
  cases f <;> exact inferInstanceAs (Decidable (_ ∧ _))

/-- The fields of a response. -/
structure CgiHeaders where
  fields : List CgiField
  nonempty : fields ≠ []
  fits : ∀ f ∈ fields, f.Fits
  distinct : (fields.map (·.name)).Nodup

/-- The status that the fields give, if one does. -/
def statusOf : List CgiField → Option Nat
  | [] => none
  | .status _ code _ :: _ => some code
  | .other .. :: fields => statusOf fields

/-- The names and values of the fields but the status. -/
def othersOf (fields : List CgiField) : List (Bytes × Bytes) :=
  fields.filterMap fun
    | .status .. => none
    | .other name _ value => some (name, value)

/-- How the lines end. -/
inductive LineEnding where
  | crlf
  | lf
  deriving DecidableEq, Repr

def LineEnding.bytes : LineEnding → Bytes
  | .crlf => Base.crlf
  | .lf => [Base.lf]

/-- The fields, the empty line and the content. -/
def CgiHeaders.print (headers : CgiHeaders) (ending : LineEnding) (body : Bytes) : Bytes :=
  headers.fields.flatMap (fun f => f.line ++ ending.bytes) ++ ending.bytes ++ body

end HydrogenHttpd.Spec
