import Mathlib.Logic.Function.Iterate
import Norman.Lib.Base64
import Norman.Mappers

/-!
# The mapper of encoded values

`types/mapper/base64.go`: a value that is stored in base64 is shown as what it encodes. That may be
any bytes, which a `Value` cannot hold: the strings of the data are bytes here, as they are in the
source, and `Datum` has what the mapper can come to of a `Value`. White space is what encodes a
character that is white space (`unicode.IsSpace`).
-/

namespace Norman.Bytes

/-- The characters that are white space, encoded. -/
def spaces : List (List UInt8) :=
  [[0x09], [0x0a], [0x0b], [0x0c], [0x0d], [0x20], [0xc2, 0x85], [0xc2, 0xa0], [0xe1, 0x9a, 0x80],
    [0xe2, 0x80, 0x80], [0xe2, 0x80, 0x81], [0xe2, 0x80, 0x82], [0xe2, 0x80, 0x83],
    [0xe2, 0x80, 0x84], [0xe2, 0x80, 0x85], [0xe2, 0x80, 0x86], [0xe2, 0x80, 0x87],
    [0xe2, 0x80, 0x88], [0xe2, 0x80, 0x89], [0xe2, 0x80, 0x8a], [0xe2, 0x80, 0xa8],
    [0xe2, 0x80, 0xa9], [0xe2, 0x80, 0xaf], [0xe2, 0x81, 0x9f], [0xe3, 0x80, 0x80]]

/-- Without the white space at the start, if there is one. -/
def dropStart (s : List UInt8) : List UInt8 :=
  match spaces.find? fun space => space.isPrefixOf s with
  | some space => s.drop space.length
  | none => s

/-- Without the white space at the end, if there is one. -/
def dropEnd (s : List UInt8) : List UInt8 :=
  match spaces.find? fun space => space.isSuffixOf s with
  | some space => s.take (s.length - space.length)
  | none => s

/-- `strings.TrimSpace`; there is no more white space than there are bytes. -/
def trimSpace (s : List UInt8) : List UInt8 :=
  let s := dropStart^[s.length] s
  dropEnd^[s.length] s

/-- An `interface{}` whose strings are bytes. -/
inductive Datum where
  | nil
  | bool (b : Bool)
  | int (n : Int)
  | float (bits : UInt64)
  | number (s : List UInt8)
  | str (s : List UInt8)
  | slice (xs : List Datum)
  | strs (xs : List (List UInt8))
  | map (m : List (String × Datum))
  | nilMap

instance : Nested.Maps String Datum where
  view
    | .map m => .map m
    | .nilMap => .nil
    | _ => .other
  node := .map
  view_node _ := rfl

/-- `convert.Singular`. -/
def Singular : Datum → Datum
  | .strs [] => .nil
  | .strs (x :: _) => .str x
  | .slice [] => .nil
  | .slice (x :: _) => x
  | value => value

/-- `fmt.Sprint`, which gives a string back as it is. -/
structure Env where
  sprint : Datum → List UInt8
  sprint_str : ∀ s, sprint (.str s) = s

/-- `convert.ToStringNoTrim`. -/
def ToStringNoTrim (env : Env) (value : Datum) : List UInt8 :=
  match Singular value with
  | .nil => []
  | single => env.sprint single

/-- `convert.ToString`. -/
def ToString (env : Env) (value : Datum) : List UInt8 := trimSpace (ToStringNoTrim env value)

/-- `Base64`, without what only `ModifySchema` reads. -/
structure Base64 where
  Field : String
  Separator : String

namespace Base64

variable (m : Base64) (env : Env)

def getSep : String := if m.Separator = "" then "/" else m.Separator

/-- The path of the field. -/
def path : List String := splitBy m.getSep m.Field

/-- The value of the field is turned into another string; an empty one is left out. -/
def convert (f : List UInt8 → List UInt8) (data : List (String × Datum)) :
    Option (List (String × Datum)) :=
  match Nested.remove m.path data with
  | (some v, data) =>
    if ToString env v = [] then some data
    else Nested.put (.str (f (ToString env v))) m.path data
  | (none, data) => some data

/-- `Base64.FromInternal`; a text that is not well formed gives what it has up to there. -/
def FromInternal : List (String × Datum) → Option (List (String × Datum)) :=
  m.convert env fun str => (Base64Codec.decode str).1

def ToInternal : List (String × Datum) → Option (List (String × Datum)) :=
  m.convert env Base64Codec.encode

end Base64

end Norman.Bytes
