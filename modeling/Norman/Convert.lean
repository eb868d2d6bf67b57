import Norman.Value

/-!
# Conversions

`types/convert/convert.go` and `httperror/error.go`: values turned into strings, numbers and
booleans, and the errors of the API. What these call in Go's own library is in `Env`; it is
arbitrary, but for `fmt.Sprint`, which gives a string back as it is. A `float64` is its bits.
-/

namespace Norman

section Strings

/-- `strings.Split`, at a single character. -/
def split (sep : Char) (s : String) : List String := (s.toList.splitOn sep).map String.ofList

/-- `strings.LastIndex`. -/
def lastIndex (s sub : String) : Option ℕ :=
  (List.range (s.toList.length + 1)).reverse.find? fun i => sub.toList.isPrefixOf (s.toList.drop i)

/-- `strings.Contains`. -/
def contains (s sub : String) : Bool := (lastIndex s sub).isSome

/-- `s[0:i]`. -/
def upTo (s : String) (i : ℕ) : String := String.ofList (s.toList.take i)

end Strings

namespace Httperror

structure ErrorCode where
  code : String
  status : ℕ
  deriving DecidableEq

def InvalidFormat : ErrorCode := ⟨"InvalidFormat", 422⟩
def InvalidReference : ErrorCode := ⟨"InvalidReference", 422⟩
def NotNullable : ErrorCode := ⟨"NotNullable", 422⟩
def MinLimitExceeded : ErrorCode := ⟨"MinLimitExceeded", 422⟩
def MaxLimitExceeded : ErrorCode := ⟨"MaxLimitExceeded", 422⟩
def MinLengthExceeded : ErrorCode := ⟨"MinLengthExceeded", 422⟩
def MaxLengthExceeded : ErrorCode := ⟨"MaxLengthExceeded", 422⟩
def InvalidOption : ErrorCode := ⟨"InvalidOption", 422⟩
def InvalidCharacters : ErrorCode := ⟨"InvalidCharacters", 422⟩
def MissingRequired : ErrorCode := ⟨"MissingRequired", 422⟩
def InvalidType : ErrorCode := ⟨"InvalidType", 422⟩
def PermissionDenied : ErrorCode := ⟨"PermissionDenied", 403⟩
def NotFound : ErrorCode := ⟨"NotFound", 404⟩
def MethodNotAllowed : ErrorCode := ⟨"MethodNotAllow", 405⟩
def InvalidCSRFToken : ErrorCode := ⟨"InvalidCSRFToken", 422⟩
def InvalidAction : ErrorCode := ⟨"InvalidAction", 422⟩
def ServerError : ErrorCode := ⟨"ServerError", 500⟩

/-- `ErrorCode.String`. -/
def ErrorCode.text (e : ErrorCode) : String := e.code ++ " " ++ toString e.status

/-- An `error`: an `APIError`, one with a cause, `ErrComplexType` of the builder, or one of Go's
library, of which only the text is kept. -/
inductive Err where
  | api (code : ErrorCode) (message fieldName : String)
  | caused (cause : Err) (code : ErrorCode) (message fieldName : String)
  | complexType
  | std (text : String)
  deriving DecidableEq

namespace Err

/-- `APIError.Error`, from its fields. -/
def apiText (code : ErrorCode) (message fieldName : String) : String :=
  if fieldName ≠ "" then fieldName ++ "=" ++ code.text ++ ": " ++ message
  else code.text ++ ": " ++ message

def Error : Err → String
  | .api code message fieldName => apiText code message fieldName
  | .caused _ code message fieldName => apiText code message fieldName
  | .complexType => "complex type"
  | .std text => text

end Err

def NewAPIError (code : ErrorCode) (message : String) : Err := .api code message ""

def NewFieldAPIError (code : ErrorCode) (fieldName message : String) : Err :=
  .api code message fieldName

def WrapFieldAPIError (err : Err) (code : ErrorCode) (fieldName message : String) : Err :=
  .caused err code message fieldName

def WrapAPIError (err : Err) (code : ErrorCode) (message : String) : Err :=
  .caused err code message ""

end Httperror

namespace Convert

open Httperror

/-- What the conversions call: `fmt.Sprint`, `strings.ToLower`, `strconv.ParseInt(s, 10, 64)`,
`strconv.ParseFloat(s, 64)`, `int64(f)`, `float64(i)`, and `time.Parse(time.RFC3339, s)` with
`UnixNano`. -/
structure Env where
  sprint : Value → String
  sprint_str : ∀ s, sprint (.str s) = s
  toLower : String → String
  parseInt : String → Except String Int
  parseFloat : String → Except String UInt64
  truncate : UInt64 → Int
  ofInt : Int → UInt64
  parseTime : String → Except String Int

/-- An error of Go's library, by its text. -/
def ofStd {α : Type} : Except String α → Except Err α := Except.mapError .std

variable (env : Env)

def Singular : Value → Value
  | .strs [] => .nil
  | .strs (x :: _) => .str x
  | .arr [] => .nil
  | .arr (x :: _) => x
  | .nilArr => .nil
  | value => value

/-- `unicode.IsSpace`. -/
def isSpace (c : Char) : Bool :=
  c.toNat ∈ [0x09, 0x0a, 0x0b, 0x0c, 0x0d, 0x20, 0x85, 0xa0, 0x1680, 0x2028, 0x2029, 0x202f, 0x205f,
    0x3000] || (0x2000 ≤ c.toNat && c.toNat ≤ 0x200a)

/-- `strings.TrimSpace`. -/
def trimSpace (s : String) : String :=
  String.ofList ((s.toList.dropWhile isSpace).reverse.dropWhile isSpace).reverse

def ToStringNoTrim (value : Value) : String :=
  if Singular value = .nil then "" else env.sprint (Singular value)

def ToString (value : Value) : String := trimSpace (ToStringNoTrim env value)

theorem toStringNoTrim_str {s : String} : ToStringNoTrim env (.str s) = s := by
  simp [ToStringNoTrim, Singular, env.sprint_str]

theorem toString_str {s : String} : ToString env (.str s) = trimSpace s := by
  rw [ToString, toStringNoTrim_str]

/-- `ToTimestamp`, in milliseconds. -/
def ToTimestamp (value : Value) : Except Err Int :=
  if ToString env value = "" then .error (.std "invalid date")
  else (ofStd (env.parseTime (ToString env value))).map fun nanos => nanos.tdiv 1000000

def ToBool (value : Value) : Bool :=
  match Singular value with
  | .bool b => b
  | value => env.toLower (ToString env value) ∈ ["true", "t", "yes", "y"]

def ToNumber (value : Value) : Except Err Int :=
  match Singular value with
  | .int i => .ok i
  | .float f => .ok (env.truncate f)
  | .number n =>
    match env.parseInt n with
    | .ok i => .ok i
    | .error _ => (ofStd (env.parseFloat n)).map env.truncate
  | value => ofStd (env.parseInt (ToString env value))

theorem toNumber_str {s : String} :
    ToNumber env (.str s) = ofStd (env.parseInt (trimSpace s)) := by
  simp only [ToNumber, Singular, toString_str]

def ToFloat (value : Value) : Except Err UInt64 :=
  match Singular value with
  | .float f => .ok f
  | .number n =>
    match env.parseInt n with
    | .ok i => .ok (env.ofInt i)
    | .error _ => ofStd (env.parseFloat n)
  | value => ofStd (env.parseFloat (ToString env value))

/-- `IsAPIObjectEmpty`; the zero it looks for is an `int`, which no value here is. -/
def IsAPIObjectEmpty : Value → Bool
  | .nil => true
  | .str s => s = ""
  | .bool b => !b
  | .map m => m.isEmpty
  | .nilMap => true
  | .arr xs => xs.isEmpty
  | .nilArr => true
  | _ => false

end Convert

end Norman
