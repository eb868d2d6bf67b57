import Norman.Convert
import Norman.Lib.Fallible
import Norman.Schemas

/-!
# Schemas from Go types

`types/reflection.go` and `typeMapper.ModifySchema` of `types/mapper.go`: `Import` makes a schema of
a struct type and registers it, and first those of the struct types of its fields. A type whose
fields are being read is under way; one that comes back to it gets its schema half built. Once the
fields are read, the mapper of the type looks up the schemas of its fields, and the schema is
registered.

The struct types of a program are the values of a type `T`. A schema that is registered is known by
its place in the registry, its path and its id: the import takes none out and replaces none. A
mapper is any code that may change its schema and the schemas registered, but not which there are,
and not what its own schema is called. Of the schema that `Import` gives only the id is kept. It
takes fuel, one unit for each type it goes into.
-/

namespace Norman.Types

section Reflect

/-- A `reflect.Type`, by its kind; kinds that are treated alike are one. -/
inductive GoType (T : Type) where
  | bool
  | uint8
  | int
  | float
  | string
  | interface
  | map (elem : GoType T)
  | slice (elem : GoType T)
  | ptr (elem : GoType T)
  | struct (t : T)
  | other (kind : String)

/-- `reflect.StructField`, with its tags `json` and `norman`. -/
structure StructField (T : Type) where
  name : String
  pkgPath : String := ""
  anonymous : Bool := false
  type : GoType T
  json : String := ""
  norman : String := ""

structure StructType (T : Type) where
  name : String
  pkgPath : String := ""
  fields : List (StructField T)

/-- The struct types of a program, among them `types.Resource` and `types.Namespaced`, and the names
given to them with `TypeName`. -/
structure Program (T : Type) where
  struct : T → StructType T
  resourceType : T
  namespacedType : T
  typeNames : T → Option String

/-- What the import calls besides the registry: `unicode.IsUpper`, `unicode.ToLower`, and the
conversions. -/
structure ImportEnv extends Env where
  isUpper : Char → Bool
  toLower : Char → Char
  convert : Convert.Env

/-- Why an import fails; the last is the use of a schema that is nil. -/
inductive ImportErr where
  | unknownKind (kind : String)
  | inspecting (type field : String) (err : ImportErr)
  | invalidTag (key field : String)
  | invalidNumber (field text : String)
  | convert (err : Httperror.Err)
  | mapper (text : String)
  | schemas (errors : List SchemaErr)
  | nilSchema

variable {T : Type} (env : ImportEnv) (prog : Program T)

/-- The loop of `convert.LowerTitle`; `first` at the first character. -/
def lowerTitle (first : Bool) : List Char → List Char
  | [] => []
  | [c] => if env.isUpper c then [env.toLower c] else [c]
  | c :: d :: cs =>
    if env.isUpper c && (first || env.isUpper d) then env.toLower c :: lowerTitle false (d :: cs)
    else c :: d :: cs

def LowerTitle (input : String) : String := String.ofList (lowerTitle env true input.toList)

def getTypeName (t : T) : String := (prog.typeNames t).getD (LowerTitle env (prog.struct t).name)

def GoType.deRef : GoType T → GoType T
  | .ptr elem => elem
  | t => t

/-- `field.Type.Name()` and `field.Type.PkgPath()`, of a type that is a struct. -/
def isNamed (field : StructField T) (name pkgPath : String) : Bool :=
  match field.type with
  | .struct t => (prog.struct t).name = name && hasSuffix (prog.struct t).pkgPath pkgPath
  | _ => false

def k8sType (field : StructField T) : Bool :=
  isNamed prog field "TypeMeta" "k8s.io/apimachinery/pkg/apis/meta/v1"

def k8sObject (field : StructField T) : Bool :=
  isNamed prog field "ObjectMeta" "k8s.io/apimachinery/pkg/apis/meta/v1"

def jsonName (field : StructField T) : String := (split ',' field.json).headD ""

/-- The name of a field of the schema. -/
def fieldName (field : StructField T) : String :=
  if jsonName field ≠ "" then jsonName field
  else
    let name := LowerTitle env field.name
    if hasSuffix name "ID" then String.ofList (name.toList.dropLast.dropLast) ++ "Id" else name

def blacklistNames : List String := ["links", "actions"]

end Reflect

section Tags

variable {T : Type} (env : ImportEnv)

def getKeyValue (input : String) : String × String :=
  match cut ['='] input.toList with
  | some r => (String.ofList r.1, String.ofList r.2)
  | none => (input, "")

/-- `toInt`. -/
def toInt (value fieldName : String) : Except ImportErr (Option Int) :=
  match env.convert.parseInt value with
  | .ok i => .ok (some i)
  | .error text => .error (.invalidNumber fieldName text)

/-- `split` of the options. -/
def splitOptions (input : String) : List String :=
  (split '|' input).flatMap fun i => ((split ' ' i).map Convert.trimSpace).filter (· ≠ "")

/-- One part of a tag. -/
def applyPart (structField : String) (field : Field) (part : String) : Except ImportErr Field :=
  if part = "" then .ok field
  else
    let (key, value) := getKeyValue part
    match key with
    | "type" => .ok { field with type := value }
    | "codeName" => .ok { field with codeName := value }
    | "default" => .ok { field with default := .str value }
    | "nullable" => .ok { field with nullable := true }
    | "notnullable" => .ok { field with nullable := false }
    | "nocreate" => .ok { field with create := false }
    | "writeOnly" => .ok { field with writeOnly := true }
    | "required" => .ok { field with required := true }
    | "noupdate" => .ok { field with update := false }
    | "minLength" => (toInt env value structField).map fun i => { field with minLength := i }
    | "maxLength" => (toInt env value structField).map fun i => { field with maxLength := i }
    | "min" => (toInt env value structField).map fun i => { field with min := i }
    | "max" => (toInt env value structField).map fun i => { field with max := i }
    | "options" =>
      .ok { field with
        options := splitOptions value
        type := if field.type = "" then "enum" else field.type }
    | "validChars" => .ok { field with validChars := value }
    | "invalidChars" => .ok { field with invalidChars := value }
    | _ => .error (.invalidTag key structField)

def applyTag (structField : StructField T) (field : Field) : Except ImportErr Field :=
  (split ',' structField.norman).foldlM (applyPart env structField.name) field

/-- The field before its tag is applied. -/
def newField (structField : StructField T) : Field :=
  let field : Field :=
    { type := "", create := true, update := true, nullable := true, codeName := structField.name }
  match structField.type with
  | .bool => { field with nullable := false, default := .bool false }
  | .int | .float => { field with nullable := false, default := .int 0 }
  | _ => field

/-- The default, turned into what the type of the field asks for. -/
def convertDefault (field : Field) : Except ImportErr Field :=
  if field.default = .nil then .ok field
  else
    match field.type with
    | "int" =>
      match Convert.ToNumber env.convert field.default with
      | .ok n => .ok { field with default := .int n }
      | .error err => .error (.convert err)
    | "float" =>
      match Convert.ToFloat env.convert field.default with
      | .ok f => .ok { field with default := .float f }
      | .error err => .error (.convert err)
    | "boolean" => .ok { field with default := .bool (Convert.ToBool env.convert field.default) }
    | _ => .ok field

end Tags

section TypeMapper

variable (env : Env)

/-- Where a schema is registered: the path of its version, and its id. -/
abbrev Place := String × String

/-- How the type of a field contains another. -/
inductive Nesting where
  | plain
  | array
  | map
  deriving DecidableEq

/-- The type that the mapper looks up for a field, and how the field contains it. -/
def nesting (fieldType : String) : Nesting × String :=
  if IsArrayType fieldType then (.array, SubType fieldType)
  else if IsMapType fieldType then (.map, SubType fieldType)
  else (.plain, fieldType)

/-- The tables of a `typeMapper`. -/
structure SubSchemas where
  root : Bool
  typeName : String
  subSchemas : SortedMap String Place
  subArraySchemas : SortedMap String Place
  subMapSchemas : SortedMap String Place

/-- The schema of a name, by its place. -/
def Schemas.placeOf (s : Schemas) (version : APIVersion) (name : String) : Option Place :=
  (s.doSchema env (some version) name).map fun schema => (schema.version.path, schema.id)

/-- One of the tables. -/
def subTable (s : Schemas) (version : APIVersion) (fields : SortedMap String Field) (n : Nesting) :
    SortedMap String Place :=
  fields.filterMap fun _ field =>
    if (nesting field.type).1 = n then s.placeOf env version (nesting field.type).2 else none

/-- `typeMapper.ModifySchema` up to its mappers, for the fields of the internal schema. -/
def ModifySchema (s : Schemas) (root : Bool) (version : APIVersion) (id : String)
    (fields : SortedMap String Field) : SubSchemas where
  root := root
  typeName := version.path ++ "/schemas/" ++ id
  subSchemas := subTable env s version fields .plain
  subArraySchemas := subTable env s version fields .array
  subMapSchemas := subTable env s version fields .map

end TypeMapper

section State

/-- A schema that was registered by the import: the fields of its internal schema, and the tables of
its mapper. -/
structure Imported where
  version : APIVersion
  id : String
  internal : SortedMap String Field
  mapper : SubSchemas

def Imported.place (x : Imported) : Place := (x.version.path, x.id)

/-- The registry, with the types under way and what was imported so far, in this order. -/
structure Importing (T : Type) where
  schemas : Schemas
  processingTypes : List T
  imported : List Imported

/-- `Mapper`, as far as `ModifySchema` goes, which gets the schema and its internal schema. -/
structure Mapper (T : Type) where
  modifySchema : Schema → Option Schema → Importing T → Except String Schema × Schemas
  keeps_schema : ∀ {schema internal st schema'}, (modifySchema schema internal st).1 = .ok schema' →
    schema'.id = schema.id ∧ schema'.version = schema.version ∧ schema'.embed = schema.embed
  keeps_places : ∀ schema internal st path id,
    ((modifySchema schema internal st).2.schemasByPath.get path id).isSome
      = (st.schemas.schemasByPath.get path id).isSome

/-- The mappers of `Schemas`. -/
structure MapperTable (T : Type) where
  mappers : SortedMap String (SortedMap String (List (Mapper T)))
  DefaultMappers : Option (List (Mapper T))
  DefaultPostMappers : Option (List (Mapper T))

/-- `Schemas.mapper`. -/
def MapperTable.mapper {T : Type} (table : MapperTable T) (version : APIVersion) (name : String) :
    List (Mapper T) :=
  let (path, name) := match lastIndex name "/" with
    | some idx => (upTo name idx, String.ofList (name.toList.drop (idx + 1)))
    | none => (version.path, name)
  (((table.mappers.get path).getD ∅).get name).getD []

/-- `schema.CanList(nil) == nil`. -/
def Schema.CanList (schema : Schema) : Bool := schema.collectionMethods.contains "GET"

/-- The modifiers that `setupFilters` allows for a type. -/
def filterModifiers (fieldType : String) : List String :=
  match fieldType with
  | "enum" | "date" | "dnsLabel" | "hostname" | "string" | "int" => ["eq", "ne", "in", "notin"]
  | "boolean" => ["eq", "ne"]
  | _ => if IsReferenceType fieldType then ["eq", "ne", "in", "notin"] else []

def setupFilters (schema : Schema) : Schema :=
  if schema.CanList then
    { schema with
      collectionFilters := schema.resourceFields.entries.foldl (fun filters e =>
        if filterModifiers e.2.type = [] then filters
        else filters.set e.1 (filterModifiers e.2.type)) schema.collectionFilters }
  else schema

end State

section Import

variable {T : Type} [DecidableEq T] (env : ImportEnv) (prog : Program T)

/-- What an import does. -/
abbrev ImportM (T : Type) := Fallible (Importing T) ImportErr

/-- The type of a slice of elements of a type. -/
def sliceType (subType : String) : String :=
  if subType = "byte" then "base64" else "array[" ++ subType ++ "]"

/-- `determineSchemaType`, where `importType` gives the id of a schema. -/
def determineSchemaType (importType : T → ImportM T (Option String)) :
    GoType T → ImportM T String
  | .uint8 => pure "byte"
  | .bool => pure "boolean"
  | .int => pure "int"
  | .float => pure "float"
  | .interface => pure "json"
  | .map (.ptr elem) => do
    let subType ← determineSchemaType importType elem
    pure ("map[" ++ subType ++ "]")
  | .map elem => do
    let subType ← determineSchemaType importType elem
    pure ("map[" ++ subType ++ "]")
  | .slice (.ptr elem) => do
    let subType ← determineSchemaType importType elem
    pure (sliceType subType)
  | .slice elem => do
    let subType ← determineSchemaType importType elem
    pure (sliceType subType)
  | .string => pure "string"
  | .struct t =>
    match (prog.struct t).name with
    | "Time" => pure "date"
    | "IntOrString" => pure "intOrString"
    | "Quantity" => pure "string"
    | _ => do
      match ← importType t with
      | some id => pure id
      | none => .fail .nilSchema
  | .ptr _ => .fail (.unknownKind "ptr")
  | .other kind => .fail (.unknownKind kind)

/-- What `readFields` has so far: the schema, `hasType` and `hasMeta`. -/
structure Reading where
  schema : Schema
  hasType : Bool := false
  hasMeta : Bool := false

/-- The methods of a type that can be listed. -/
def withMethods (schema : Schema) : Schema :=
  { schema with
    collectionMethods := ["GET", "POST"]
    resourceMethods := ["GET", "PUT", "DELETE"] }

/-- The type of a field: what its tag says, or what its type gives. -/
def readType (importType : APIVersion → T → ImportM T (Option String)) (typeName : String)
    (version : APIVersion) (field : StructField T) (schemaField : Field) : ImportM T String :=
  if schemaField.type = "" then
    (determineSchemaType prog (importType version) field.type.deRef).wrap
      (.inspecting typeName (fieldName env field))
  else pure schemaField.type

/-- One round of the loop of `readFields`. -/
def readField (readFields : Schema → T → ImportM T Schema)
    (importType : APIVersion → T → ImportM T (Option String)) (typeName : String) (r : Reading)
    (field : StructField T) : ImportM T Reading :=
  if field.pkgPath ≠ "" ∨ jsonName field = "-" then pure r
  else
    let r := { r with
      hasType := r.hasType || (field.anonymous && jsonName field = "" && k8sType prog field)
      hasMeta := r.hasMeta ||
        (field.anonymous && jsonName field = "metadata" && k8sObject prog field) }
    if field.anonymous ∧ jsonName field = "" then
      match field.type.deRef with
      | .struct e => do
        let schema ← readFields
          (if e = prog.namespacedType then { r.schema with scope := "namespace" } else r.schema) e
        pure { r with schema }
      | _ => pure r
    else if fieldName env field ∈ blacklistNames then pure r
    else do
      let schemaField ← .ofExcept (applyTag env field (newField field))
      let type ← readType env prog importType typeName r.schema.version field schemaField
      let schemaField ← .ofExcept (convertDefault env { schemaField with type })
      pure { r with schema := { r.schema with
        resourceFields := r.schema.resourceFields.set (fieldName env field) schemaField } }

/-- A type is under way while its fields are read. -/
def underWay {α : Type} (t : T) (m : ImportM T α) : ImportM T α := fun st =>
  (m { st with processingTypes := t :: st.processingTypes }).map fun r =>
    (r.1, { r.2 with processingTypes := r.2.processingTypes.filter (· ≠ t) })

/-- The schema of a type before its fields are read. -/
def newSchema (version : APIVersion) (t : T) (typeName : String) : Schema where
  id := typeName
  version := version
  codeName := (prog.struct t).name
  pkgName := (prog.struct t).pkgPath
  resourceFields := ∅

/-- `newSchemaFromType`, with what reads the fields. -/
def newSchemaFromType (readFields : Schema → T → ImportM T Schema) (version : APIVersion) (t : T)
    (typeName : String) : ImportM T Schema :=
  underWay t (readFields (newSchema prog version t typeName) t)

/-- The internal schema is made only if there are mappers. -/
def internalSchema (mappers : List (Mapper T)) (newSchema : ImportM T Schema) :
    ImportM T (Option Schema) :=
  if mappers = [] then pure none else newSchema >>= fun copy => pure (some copy)

/-- The mappers of a type are at its schema, one after another. -/
def runMappers (mappers : List (Mapper T)) (internal : Option Schema) (schema : Schema) :
    ImportM T Schema :=
  mappers.foldlM (fun schema mapper => .ofStep fun st =>
    ((mapper.modifySchema schema internal st).1.mapError .mapper,
      { st with schemas := (mapper.modifySchema schema internal st).2 })) schema

/-- `AddSchema`, of a schema with its mapper. -/
def addSchema (fuel : ℕ) (internal : SortedMap String Field) (mapper : SubSchemas)
    (schema : Schema) : ImportM T Unit := fun st =>
  (st.schemas.doAddSchema env.toEnv fuel schema false).map fun schemas =>
    (.ok (), { st with
      schemas
      imported :=
        if st.schemas.stores (prepare env.toEnv schema) false then
          st.imported ++ [{
            version := (prepare env.toEnv schema).version
            id := (prepare env.toEnv schema).id
            internal
            mapper }]
        else st.imported })

/-- The mappers for a schema whose fields are read. -/
def mappersFor (table : MapperTable T) (schema : Schema) : List (Mapper T) :=
  (if schema.CanList then table.DefaultMappers.getD [] else [])
    ++ table.mapper schema.version schema.id ++ table.DefaultPostMappers.getD []

/-- The end of `importType`, once the fields are read: the mapper of the type is set up and the
schema is registered. -/
def register (fuel : ℕ) (mappers : List (Mapper T)) (internal : Option Schema) (schema : Schema) :
    ImportM T (Option String) := do
  let st ← .read
  let fields := (internal.getD schema).resourceFields
  let mapper := ModifySchema env.toEnv st.schemas schema.CanList schema.version schema.id fields
  let schema ← runMappers mappers internal schema
  addSchema env fuel fields mapper (setupFilters schema)
  let st ← .read
  if st.schemas.errors = [] then
    pure ((st.schemas.doSchema env.toEnv (some schema.version) schema.id).map (·.id))
  else .fail (.schemas st.schemas.errors)

mutual

/-- `readFields`. -/
def readFields (table : MapperTable T) : ℕ → Schema → T → ImportM T Schema
  | 0, _, _ => .diverge
  | fuel + 1, schema, t => do
    let r ← (prog.struct t).fields.foldlM
      (readField env prog (readFields table fuel)
        (fun version u => importType table fuel version u []) (prog.struct t).name)
      { schema := if t = prog.resourceType then withMethods schema else schema }
    pure (if r.hasType && r.hasMeta then withMethods r.schema else r.schema)

/-- `importType`, which gives the id of the schema. -/
def importType (table : MapperTable T) : ℕ → APIVersion → T → List T → ImportM T (Option String)
  | 0, _, _, _ => .diverge
  | fuel + 1, version, t, overrides => do
    let typeName := getTypeName env prog t
    let st ← .read
    match st.schemas.doSchema env.toEnv (some version) typeName with
    | some existing => pure (some existing.id)
    | none =>
      if t ∈ st.processingTypes then pure (some typeName)
      else do
        let schema ← newSchemaFromType prog (readFields table fuel) version t typeName
        let mappers := mappersFor table schema
        let internal ← internalSchema mappers
          (newSchemaFromType prog (readFields table fuel) version t typeName)
        let schema ← overrides.foldlM (readFields table fuel) schema
        register env fuel mappers internal schema

end

/-- A call of `Import`, and the mappers there are at that time. -/
structure ImportCall (T : Type) where
  table : MapperTable T
  version : APIVersion
  type : T
  externalOverrides : List T := []

def Import (fuel : ℕ) (call : ImportCall T) : ImportM T (Option String) :=
  importType env prog call.table fuel call.version call.type call.externalOverrides

/-- One import after another, whether they fail or not. -/
def imports (fuel : ℕ) : List (ImportCall T) → Importing T → Option (Importing T)
  | [], st => some st
  | call :: calls, st =>
    match Import env prog fuel call st with
    | none => none
    | some r => imports fuel calls r.2

/-- The registry before anything is imported. -/
def Importing.start (s : Schemas) : Importing T where
  schemas := s
  processingTypes := []
  imported := []

end Import

end Norman.Types
