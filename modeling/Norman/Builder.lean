import Norman.Convert
import Norman.Schemas

/-!
# Builder

`parse/builder/builder.go`: an object is built for a schema out of an input, field by field, for a
request that creates or updates, or for a response that lists. A value is converted as the type of
its field says: elementwise in an array or a map, and by its own schema in an object.

The functions call each other through `convert`, which they take as a parameter here; the knot is
tied by `Builder.convert`, on fuel, one unit for each level. It does not always end in the source
either: the default of a required array is converted again, and may hold objects with the same
default. A map is gone through in the order of its list, and the fields of a schema by name.
-/

namespace Norman.Parse

open Norman.Types Httperror Norman.Convert

section Operation

inductive Operation where
  | Create
  | Update
  | Action
  | List
  | ListForCreate
  deriving DecidableEq

def Operation.IsList : Operation → Bool
  | .List | .ListForCreate => true
  | _ => false

def fieldMatchesOp (field : Field) : Operation → Bool
  | .Create => field.create
  | .Update => field.update
  | .List => if field.type = "password" then false else !field.writeOnly
  | .ListForCreate => if field.type = "password" then false else true
  | .Action => false

end Operation

section Failure

/-- Why there is no result: an error, a panic (two maps or two slices were compared), or no fuel. -/
inductive Failure where
  | err (err : Err)
  | panic
  | noFuel
  deriving DecidableEq

abbrev Result (α : Type) := Except Failure α

def ofErr {α : Type} : Except Err α → Result α := Except.mapError .err

/-- Another error in the place of an error. -/
def wrap {α : Type} (f : Err → Err) : Result α → Result α
  | .error (.err err) => .error (.err (f err))
  | result => result

/-- The `float64` with these bits is not a number. -/
def isNaN (bits : UInt64) : Bool := 0x7ff0000000000000 < (bits &&& 0x7fffffffffffffff)

/-- `==` of two `float64`. -/
def floatEq (a b : UInt64) : Bool :=
  !isNaN a && !isNaN b && (a == b || (a ||| b) &&& 0x7fffffffffffffff == 0)

/-- `==` of two `interface{}`: it panics at two maps and at two slices of one type. -/
def equal : Value → Value → Result Bool
  | .float a, .float b => .ok (floatEq a b)
  | .map _, .map _ | .map _, .nilMap | .nilMap, .map _ | .nilMap, .nilMap => .error .panic
  | .arr _, .arr _ | .arr _, .nilArr | .nilArr, .arr _ | .nilArr, .nilArr => .error .panic
  | .strs _, .strs _ => .error .panic
  | a, b => .ok (a == b)

end Failure

/-- What the builder calls besides: `%s` of a value, the validators of names, and the `Validator` of
a schema, if it has one. -/
structure Env extends Convert.Env where
  sprintS : Value → String
  IsDNS1123Label : String → List String
  IsDNS1035Label : String → List String
  IsDNS1123Subdomain : String → List String
  Validator : Schema → Option (Doc → Option Err)

structure Builder where
  env : Env
  names : Types.Env
  Version : Option APIVersion
  Schemas : Types.Schemas
  RefValidator : Option (String → String → Bool)
  edit : Bool
  exporting : Bool

section Simple

variable (env : Env)

/-- `CheckFieldCriteria`. -/
def CheckFieldCriteria (fieldName : String) (field : Field) (given : Value) : Option Err :=
  let value := if given = .nil ∧ field.default ≠ .nil then field.default else given
  let numVal := match given with
    | .int n => some n
    | _ => none
  let hasStrVal := value ≠ .nil ∧ value ≠ .str ""
  let strVal := if hasStrVal then env.sprint value else ""
  let failed code := some (NewFieldAPIError code fieldName "")
  if (value = .nil ∨ value = .str "") ∧ !field.nullable ∧ field.default = .nil then
    failed NotNullable
  else if ∃ n ∈ numVal, ∃ min ∈ field.min, n < min then
    failed MinLimitExceeded
  else if ∃ n ∈ numVal, ∃ max ∈ field.max, max < n then
    failed MaxLimitExceeded
  else if (hasStrVal ∨ value = .str "")
      ∧ ∃ min ∈ field.minLength, Int.ofNat strVal.utf8ByteSize < min then
    failed MinLengthExceeded
  else if (hasStrVal ∨ value = .str "")
      ∧ ∃ max ∈ field.maxLength, max < Int.ofNat strVal.utf8ByteSize then
    failed MaxLengthExceeded
  else if field.options ≠ [] ∧ (hasStrVal ∨ !field.nullable) ∧ strVal ∉ field.options then
    failed InvalidOption
  else if field.validChars ≠ "" ∧ hasStrVal
      ∧ strVal.toList.any (· ∉ field.validChars.toList) then
    failed InvalidCharacters
  else if field.invalidChars ≠ "" ∧ hasStrVal
      ∧ strVal.toList.any (· ∈ field.invalidChars.toList) then
    failed InvalidCharacters
  else none

/-- `dnsLabel`, `dnsLabelRestricted` and `hostname`: checked when it is written. -/
def convertName (validate : String → List String) (value : Value) (op : Operation) :
    Except Err Value :=
  let str := ToString env.toEnv value
  if str = "" then .ok (.str "")
  else if (op = .Create ∨ op = .Update) ∧ validate str ≠ [] then
    .error (NewAPIError InvalidFormat ("invalid value " ++ env.sprintS value ++ ": "
      ++ ",".intercalate (validate str)))
  else .ok (.str str)

def ConvertSimple (fieldType : String) (value : Value) (op : Operation) : Except Err Value :=
  if value = .nil then .ok .nil
  else match fieldType with
    | "json" => .ok value
    | "date" =>
      let v := ToString env.toEnv value
      if v = "" then .ok .nil else .ok (.str v)
    | "boolean" => .ok (.bool (ToBool env.toEnv value))
    | "enum" => .ok (.str (ToString env.toEnv value))
    | "int" => (ToNumber env.toEnv value).map .int
    | "float" => (ToFloat env.toEnv value).map .float
    | "password" => .ok (.str (ToString env.toEnv value))
    | "string" =>
      if op.IsList then .ok (.str (ToStringNoTrim env.toEnv value))
      else .ok (.str (ToString env.toEnv value))
    | "dnsLabel" => convertName env env.IsDNS1123Label value op
    | "dnsLabelRestricted" => convertName env env.IsDNS1035Label value op
    | "hostname" => convertName env env.IsDNS1123Subdomain value op
    | "intOrString" =>
      match ToNumber env.toEnv value with
      | .ok num => .ok (.int num)
      | .error _ => .ok (.str (ToString env.toEnv value))
    | "base64" => .ok (.str (ToString env.toEnv value))
    | "reference" => .ok (.str (ToString env.toEnv value))
    | _ => .error .complexType

end Simple

/-- What converts a value, by its type. -/
abbrev Conversion := String → Value → Operation → Result Value

namespace Builder

variable (b : Builder)

/-- `b.Schemas.Schema(b.Version, fieldType)`. -/
def schema (fieldType : String) : Option Schema := b.Schemas.doSchema b.names b.Version fieldType

def convertReferenceType (fieldType : String) (value : Value) : Result String :=
  let subType := SubType fieldType
  let strVal := ToString b.env.toEnv value
  if ∃ validate ∈ b.RefValidator, validate subType strVal = false then
    .error (.err (NewAPIError InvalidReference
      ("Not found type: " ++ subType ++ " id: " ++ strVal)))
  else .ok strVal

section Level

variable (convert : Conversion)

/-- `convertArray`; the slice is nil if it is empty. -/
def convertArray (fieldType : String) (value : Value) (op : Operation) : Result (List Value) :=
  match value with
  | .strs xs => .ok (xs.map .str)
  | .arr xs => xs.mapM fun value => convert (SubType fieldType) value op
  | _ => .ok []

/-- `convertMap`; a value that is no map gives the nil map. -/
def convertMap (fieldType : String) (value : Value) (op : Operation) : Result (Option Doc) :=
  let entries (m : Doc) := m.foldlM (fun result e => do
    let val ← wrap (fun err => WrapAPIError err InvalidFormat err.Error)
      (convert (SubType fieldType) e.2 op)
    pure (Assoc.set e.1 val result)) []
  match value with
  | .map m => (entries m).map some
  | .nilMap => (entries []).map some
  | _ => .ok none

section CopyInputs

/-- Null elements are not for writing, nor is what fails the criteria of the field. -/
def checkSlice (fieldName : String) (field : Field) : List Value → Option Err
  | [] => none
  | sliceValue :: slice =>
    if sliceValue = .nil then
      some (NewFieldAPIError NotNullable fieldName "Individual array values can not be null")
    else match CheckFieldCriteria b.env fieldName field sliceValue with
      | some err => some err
      | none => checkSlice fieldName field slice

def checkValue (fieldName : String) (field : Field) : Value → Option Err
  | .arr slice => b.checkSlice fieldName field slice
  | .nilArr => b.checkSlice fieldName field []
  | value => CheckFieldCriteria b.env fieldName field value

/-- What `copyInputs` writes for a field, if anything. -/
def copyValue (op : Operation) (fieldName : String) (field : Field) (value : Value) :
    Result (Option Value) := do
  let wasNull := value = .nil ∧ (field.nullable = true ∨ field.default = .nil)
  let value ← wrap (fun err => WrapFieldAPIError err InvalidFormat fieldName err.Error)
    (convert field.type value op)
  if value ≠ .nil ∨ wasNull then
    match if op.IsList then none else b.checkValue fieldName field value with
    | some err => .error (.err err)
    | none => .ok (some value)
  else .ok none

/-- One round of the loop of `copyInputs`. -/
def copyInput (schema : Schema) (op : Operation) (fieldName : String) (value : Value)
    (result : Doc) : Result Doc :=
  match schema.resourceFields.get fieldName with
  | none => .ok result
  | some field =>
    if !fieldMatchesOp field op then .ok result
    else do
      match ← b.copyValue convert op fieldName field value with
      | none => pure result
      | some value =>
        let result := Assoc.set fieldName value result
        if op.IsList ∧ field.type = "date" ∧ value ≠ .str "" ∧ !b.edit then
          match ToTimestamp b.env.toEnv value with
          | .ok ts => pure (Assoc.set (fieldName ++ "TS") (.int ts) result)
          | .error _ => pure result
        else pure result

/-- `result[key] = input[key]`, unless it is empty. -/
def copyRaw (key : String) (input result : Doc) : Doc :=
  let value := (Assoc.get key input).getD .nil
  if IsAPIObjectEmpty value then result else Assoc.set key value result

def copyInputs (schema : Schema) (input : Doc) (op : Operation) (result : Doc) : Result Doc := do
  let result ← input.foldlM (fun result e => b.copyInput convert schema op e.1 e.2 result) result
  if op.IsList ∧ !b.edit ∧ !b.exporting then
    pure (copyRaw "id" input (copyRaw "type" input result))
  else pure result

end CopyInputs

section CheckDefaultAndRequired

/-- A required field has to be there, and if it is an array to have an element. -/
def checkRequired (op : Operation) (fieldName : String) (field : Field) (result : Doc) :
    Result Unit :=
  if op = .Create ∧ fieldMatchesOp field .Create ∧ field.required then
    match Assoc.get fieldName result with
    | none => .error (.err (NewFieldAPIError MissingRequired fieldName ""))
    | some value =>
      if IsArrayType field.type then do
        let slice ← convertArray convert field.type value op
        if slice = [] then .error (.err (NewFieldAPIError MissingRequired fieldName ""))
        else .ok ()
      else .ok ()
  else .ok ()

/-- One round of the loop of `checkDefaultAndRequired`. -/
def checkField (op : Operation) (fieldName : String) (field : Field) (result : Doc) :
    Result Doc := do
  let val := Assoc.get fieldName result
  let result :=
    if op = .Create ∧ (val = none ∨ val = some (.str "")) ∧ field.default ≠ .nil then
      Assoc.set fieldName field.default result
    else result
  checkRequired convert op fieldName field result
  let hasKey := (Assoc.get fieldName result).isSome
  if op.IsList ∧ fieldMatchesOp field .List ∧ IsReferenceType field.type ∧ !hasKey then
    pure (Assoc.set fieldName .nil result)
  else if op.IsList ∧ fieldMatchesOp field .List ∧ !hasKey ∧ field.default ≠ .nil then
    pure (Assoc.set fieldName field.default result)
  else pure result

/-- Whether a value of the field is what nil is converted to, if it is converted. -/
def isNull (field : Field) (existingVal : Value) : Result Bool :=
  match convert field.type .nil .List with
  | .ok val => equal val existingVal
  | .error (.err _) => .ok false
  | .error failure => .error failure

/-- Whether `dropDefaultsAndReadOnly` deletes a value of the field. -/
def drops (field : Field) (existingVal : Value) : Result Bool :=
  if !field.create then .ok true
  else do
    if ← equal field.default existingVal then pure true
    else
      let same ← isNull convert field existingVal
      pure (same || IsAPIObjectEmpty existingVal)

def dropDefaultsAndReadOnly (schema : Schema) (result : Doc) : Result Doc :=
  result.foldlM (fun rest e =>
    match schema.resourceFields.get e.1 with
    | none => .ok (Assoc.erase e.1 rest)
    | some field => do
      if ← drops convert field e.2 then pure (Assoc.erase e.1 rest) else pure rest) result

/-- One round of the loop of `populateMissingFieldsForEdit`. -/
def populateField (name : String) (field : Field) (result : Doc) : Result Doc :=
  if !field.update then .ok (if name ≠ "name" then Assoc.erase name result else result)
  else
    let desc := if field.description ≠ "" then field.description ++ " " else field.description
    let key := "zzz#(" ++ desc ++ ")(" ++ field.type ++ ")" ++ name
    match Assoc.get name result with
    | some value =>
      if field.default = .nil then .ok result
      else do
        if ← equal field.default value then pure (Assoc.set key value (Assoc.erase name result))
        else pure result
    | none =>
      if field.default ≠ .nil then .ok (Assoc.set key field.default result)
      else match convert field.type .nil .List with
        | .ok val => .ok (Assoc.set key val result)
        | .error (.err _) => .ok result
        | .error failure => .error failure

def populateMissingFieldsForEdit (schema : Schema) (result : Doc) : Result Doc :=
  schema.resourceFields.entries.foldlM (fun result e => populateField convert e.1 e.2 result) result

def checkDefaultAndRequired (schema : Schema) (op : Operation) (result : Doc) : Result Doc := do
  let result ← schema.resourceFields.entries.foldlM
    (fun result e => checkField convert op e.1 e.2 result) result
  let result ←
    if op.IsList ∧ b.edit then populateMissingFieldsForEdit convert schema result else pure result
  if op.IsList ∧ b.exporting then dropDefaultsAndReadOnly convert schema result else pure result

end CheckDefaultAndRequired

def copyFields (schema : Schema) (input : Doc) (op : Operation) : Result Doc := do
  let result ← b.copyInputs convert schema input op []
  b.checkDefaultAndRequired convert schema op result

/-- `Construct`, over `convert`. -/
def constructWith (schema : Schema) (input : Doc) (op : Operation) : Result Doc := do
  let result ← b.copyFields convert schema input op
  match if op = .Create ∨ op = .Update then b.env.Validator schema else none with
  | none => pure result
  | some validator =>
    match validator result with
    | some err => .error (.err err)
    | none => pure result

def convertType (fieldType : String) (value : Value) (op : Operation) : Result Value :=
  match b.schema fieldType with
  | none => .error (.err (NewAPIError InvalidType ("Failed to find type " ++ fieldType)))
  | some schema =>
    match value with
    | .map m => (b.constructWith convert schema m op).map .map
    | .nilMap => (b.constructWith convert schema [] op).map .map
    | value => .error (.err (NewAPIError InvalidFormat ("Value can not be converted to type "
        ++ fieldType ++ ": " ++ b.env.sprint value)))

/-- A slice as an `interface{}`. -/
def ofSlice (slice : List Value) : Value := if slice = [] then .nilArr else .arr slice

/-- A map as an `interface{}`. -/
def ofMap : Option Doc → Value
  | none => .nilMap
  | some m => .map m

/-- The body of `convert`. -/
def convertWith (fieldType : String) (value : Value) (op : Operation) : Result Value :=
  if value = .nil then .ok .nil
  else if IsMapType fieldType then (convertMap convert fieldType value op).map ofMap
  else if IsArrayType fieldType then (convertArray convert fieldType value op).map ofSlice
  else if IsReferenceType fieldType then (b.convertReferenceType fieldType value).map .str
  else match ConvertSimple b.env fieldType value op with
    | .error .complexType => b.convertType convert fieldType value op
    | newValue => ofErr newValue

end Level

def convert : ℕ → String → Value → Operation → Result Value
  | 0 => fun _ _ _ => .error .noFuel
  | fuel + 1 => b.convertWith (convert fuel)

def Construct (fuel : ℕ) : Schema → Doc → Operation → Result Doc :=
  b.constructWith (b.convert fuel)

end Builder

/-- `valuesToBody` of `parse/parse.go`: the body that form data give. -/
def valuesToBody (input : List (String × List String)) : Doc := input.map fun e => (e.1, .strs e.2)

end Norman.Parse
