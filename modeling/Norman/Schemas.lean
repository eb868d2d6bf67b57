import Norman.Value

/-!
# Schemas

`types/schemas.go`: the registry of schemas. It keeps a schema in `schemasByPath`, under the path of
its version and its id, and in the list `schemas`, and keeps for each type the fields that refer to
it. A schema may be embedded into another one, its target, which is then taken out and put in again
with other fields.

A schema stands for the pointer to it: none is changed once it is registered. Embedding may go on
and on (a schema may be its own target), so that adding and removing take fuel, one unit for each
embedding, and give nothing without enough of it. What the code leaves open is in `Env`: which of
several schemas that match a name up to case is found, the map of them being gone through in any
order; and it has what the code calls, and the hook. The fields of a schema are gone through by
name.
-/

namespace Norman.Types

section Definition

/-- `strings.HasPrefix`. -/
def hasPrefix (s p : String) : Bool := p.toList.isPrefixOf s.toList

/-- `strings.HasSuffix`. -/
def hasSuffix (s p : String) : Bool := p.toList.isSuffixOf s.toList

def IsMapType (fieldType : String) : Bool := hasPrefix fieldType "map[" && hasSuffix fieldType "]"

def IsArrayType (fieldType : String) : Bool :=
  hasPrefix fieldType "array[" && hasSuffix fieldType "]"

def IsReferenceType (fieldType : String) : Bool :=
  hasPrefix fieldType "reference[" && hasSuffix fieldType "]"

/-- `definition.SubType`: what stands between the first bracket and the last character. The source
drops the last byte: the same for a type that ends in `]` or in another ASCII character. -/
def SubType (fieldType : String) : String :=
  let i := fieldType.toList.findIdx (· = '[')
  if i = 0 ∨ fieldType.toList.length ≤ i + 1 then fieldType
  else String.ofList (fieldType.toList.drop (i + 1)).dropLast

/-- `convert.ToFullReference`. -/
def ToFullReference (path typeName : String) : String :=
  "reference[" ++ path ++ "/schemas/" ++ typeName ++ "]"

/-- Cut at the first occurrence of a text. -/
def cut (sep : List Char) : List Char → Option (List Char × List Char)
  | [] => none
  | c :: cs =>
    if sep.isPrefixOf (c :: cs) then some ([], (c :: cs).drop sep.length)
    else (cut sep cs).map fun r => (c :: r.1, r.2)

/-- `strings.SplitN(name, "/schemas/", 2)`, of a name that contains the separator. -/
def splitName (name : String) : Option (String × String) :=
  (cut "/schemas/".toList name.toList).map fun r => (String.ofList r.1, String.ofList r.2)

end Definition

section Schema

structure APIVersion where
  group : String := ""
  version : String
  path : String
  subContext : Bool := false
  subContextSchema : String := ""
  deriving DecidableEq

/-- `types.Field`; no default is nil. -/
structure Field where
  type : String
  default : Value := .nil
  nullable : Bool := false
  create : Bool := false
  writeOnly : Bool := false
  required : Bool := false
  update : Bool := false
  minLength : Option Int := none
  maxLength : Option Int := none
  min : Option Int := none
  max : Option Int := none
  options : List String := []
  validChars : String := ""
  invalidChars : String := ""
  description : String := ""
  codeName : String := ""
  dynamicField : Bool := false
  deriving DecidableEq

structure Action where
  input : String := ""
  output : String := ""
  deriving DecidableEq

structure Schema where
  id : String
  embed : Bool := false
  embedType : String := ""
  codeName : String := ""
  codeNamePlural : String := ""
  type : String := ""
  baseType : String := ""
  version : APIVersion
  pluralName : String := ""
  resourceMethods : List String := []
  resourceFields : SortedMap String Field
  resourceActions : SortedMap String Action := ∅
  collectionMethods : List String := []
  collectionActions : SortedMap String Action := ∅
  collectionFilters : SortedMap String (List String) := ∅
  scope : String := ""
  pkgName : String := ""
  dynamicSchemaVersion : String := ""
  deriving DecidableEq

structure BackReference where
  fieldName : String
  schema : Schema
  deriving DecidableEq

end Schema

/-- What the registry calls: `strings.EqualFold`, `convert.Capitalize`, the hook, and the choice
among the schemas of which one matches. -/
structure Env where
  equalFold : String → String → Bool
  capitalize : String → String
  addHook : Option (Schema → Schema)
  pick : List Schema → Option Schema
  pick_mem : ∀ {l x}, pick l = some x → x ∈ l
  pick_none : ∀ {l}, pick l = none → l = []

section Names

variable (env : Env)

/-- `name.GuessPluralName`. -/
def GuessPluralName (name : String) : String :=
  if name = "" then name
  else if env.equalFold name "Endpoints" then name
  else if hasSuffix name "s" || hasSuffix name "ch" || hasSuffix name "x" then name ++ "es"
  else if hasSuffix name "y" && 2 < name.utf8ByteSize
      && name.toList.dropLast.getLast?.all (· ∉ "[aeiou]".toList) then
    String.ofList name.toList.dropLast ++ "ies"
  else name ++ "s"

/-- Why `setupDefaults` complains. -/
inductive SchemaErr where
  | idNotSet (schema : Schema)
  | versionNotSet (id : String)
  deriving DecidableEq

/-- `setupDefaults`: the schema, and the error if its id or version is not set. -/
def setupDefaults (schema : Schema) : Schema × Option SchemaErr :=
  let schema := { schema with type := "/meta/schemas/schema" }
  if schema.id = "" then (schema, some (.idNotSet schema))
  else if schema.version.path = "" ∨ schema.version.version = "" then
    (schema, some (.versionNotSet schema.id))
  else
    let pluralName :=
      if schema.pluralName = "" then GuessPluralName env schema.id else schema.pluralName
    let codeName := if schema.codeName = "" then env.capitalize schema.id else schema.codeName
    let codeNamePlural :=
      if schema.codeNamePlural = "" then GuessPluralName env codeName else schema.codeNamePlural
    let baseType := if schema.baseType = "" then schema.id else schema.baseType
    ({ schema with pluralName, codeName, codeNamePlural, baseType }, none)

/-- The schema as it is registered: with its defaults, and after the hook. -/
def prepare (schema : Schema) : Schema :=
  match env.addHook with
  | none => (setupDefaults env schema).1
  | some hook => hook (setupDefaults env schema).1

end Names

section ByPath

/-- `schemasByPath`: each schema is under the path of its own version and its own id. -/
structure ByPath where
  paths : SortedMap String (SortedMap String Schema)
  filed : ∀ {path m id x}, paths.get path = some m → m.get id = some x →
    x.version.path = path ∧ x.id = id

namespace ByPath

variable (b : ByPath)

def empty : ByPath := ⟨∅, by simp⟩

def get (path id : String) : Option Schema := (b.paths.get path).bind fun m => m.get id

/-- The schema goes to its own place. -/
def put (x : Schema) : ByPath where
  paths := b.paths.set x.version.path (((b.paths.get x.version.path).getD ∅).set x.id x)
  filed {path m id y} hm hy := by
    rw [SortedMap.get_set] at hm
    split_ifs at hm with hp
    · cases hm
      rw [SortedMap.get_set] at hy
      split_ifs at hy with hi
      · cases hy
        exact ⟨hp.symm, hi.symm⟩
      · rcases hb : b.paths.get x.version.path with _ | m
        · simp [hb] at hy
        · rw [hb, Option.getD_some] at hy
          exact ⟨(b.filed hb hy).1.trans hp.symm, (b.filed hb hy).2⟩
    · exact b.filed hm hy

/-- `delete(s.schemasByPath[path], id)`. -/
def delete (path id : String) : ByPath :=
  match h : b.paths.get path with
  | none => b
  | some m =>
    { paths := b.paths.set path (m.erase id)
      filed := by
        intro path' m' id' y hm hy
        rw [SortedMap.get_set] at hm
        split_ifs at hm with hp
        · cases hm
          rw [SortedMap.get_erase] at hy
          split_ifs at hy
          rw [hp]
          exact b.filed h hy
        · exact b.filed hm hy }

end ByPath

end ByPath

/-- `types.Schemas`. -/
structure Schemas where
  schemasByPath : ByPath
  references : SortedMap String (List BackReference)
  versions : List APIVersion
  schemas : List Schema
  errors : List SchemaErr

def NewSchemas : Schemas where
  schemasByPath := .empty
  references := ∅
  versions := []
  schemas := []
  errors := []

namespace Schemas

variable (env : Env) (s : Schemas)

/-- `SchemasForVersion`. -/
def SchemasForVersion (version : APIVersion) : SortedMap String Schema :=
  (s.schemasByPath.paths.get version.path).getD ∅

/-- `doSchema`; no version is `none`. -/
def doSchema (version : Option APIVersion) (name : String) : Option Schema :=
  let (path, name) := match splitName name, version with
    | some r, _ => r
    | none, some version => (version.path, name)
    | none, none => ("core", name)
  match s.schemasByPath.paths.get path with
  | none => none
  | some schemas =>
    match schemas.get name with
    | some schema => some schema
    | none => env.pick ((schemas.entries.map Prod.snd).filter fun check =>
        env.equalFold check.id name || env.equalFold check.pluralName name)

/-- The key under which `addReferences` files a field of this type. -/
def refType (schema : Schema) (fieldType : String) : String :=
  if hasPrefix (SubType fieldType) "/" then SubType fieldType
  else ToFullReference schema.version.path (SubType fieldType)

/-- `addReferences`. -/
def addReferences (references : SortedMap String (List BackReference)) (schema : Schema) :
    SortedMap String (List BackReference) :=
  schema.resourceFields.entries.foldl (fun references e =>
    if IsReferenceType e.2.type then
      references.set (refType schema e.2.type)
        ((references.get (refType schema e.2.type)).getD [] ++ [⟨e.1, schema⟩])
    else references) references

/-- `removeReferences`. -/
def removeReferences (references : SortedMap String (List BackReference)) (schema : Schema) :
    SortedMap String (List BackReference) :=
  references.map fun values => values.filter fun value =>
    ¬ (value.schema.id = schema.id ∧ value.schema.version.path = schema.version.path)

def References (schema : Schema) : List BackReference :=
  (s.references.get (ToFullReference schema.version.path schema.id)).getD []

/-- Put the schema in the place of the first one in the list with its id. -/
def replaceFirst (schema : Schema) : List Schema → List Schema
  | [] => []
  | candidate :: schemas =>
    if candidate.id = schema.id then schema :: schemas
    else candidate :: replaceFirst schema schemas

/-- Whether `doAddSchema` stores the schema: its place is free, or it replaces another version. -/
def stores (schema : Schema) (replace : Bool) : Bool :=
  match s.schemasByPath.get schema.version.path schema.id with
  | none => true
  | some old => replace && decide (schema.dynamicSchemaVersion ≠ old.dynamicSchemaVersion)

/-- `doAddSchema` up to the embedding, for a schema with its defaults. -/
def store (schema : Schema) (replace : Bool) : Schemas where
  schemasByPath :=
    if s.stores schema replace then s.schemasByPath.put schema else s.schemasByPath
  references :=
    if s.stores schema replace && !schema.embed then addReferences s.references schema
    else s.references
  versions :=
    if s.schemasByPath.paths.get schema.version.path = none then s.versions ++ [schema.version]
    else s.versions
  schemas :=
    if s.stores schema replace then
      if replace then replaceFirst schema s.schemas else s.schemas ++ [schema]
    else s.schemas
  errors := s.errors

/-- `doRemoveSchema` up to the embedding. -/
def drop (schema : Schema) : Schemas :=
  { s with
    schemasByPath := s.schemasByPath.delete schema.version.path schema.id
    references := removeReferences s.references schema }

/-- The target of `embed`, with the fields of the schema and without its own dynamic ones. -/
def embedded (target schema : Schema) : Schema :=
  { target with
    resourceFields := schema.resourceFields.entries.foldl (fun fields e => fields.set e.1 e.2)
      (target.resourceFields.entries.foldl
        (fun fields e => if e.2.dynamicField then fields else fields.set e.1 e.2) ∅) }

/-- The target of `removeEmbed`, without the fields of the schema. -/
def unembedded (target schema : Schema) : Schema :=
  { target with
    resourceFields :=
      schema.resourceFields.keys.foldl (fun fields k => fields.erase k) target.resourceFields }

mutual

/-- `doAddSchema`, with `embed`. -/
def doAddSchema : ℕ → Schemas → Schema → Bool → Option Schemas
  | fuel, s, schema, replace =>
    let s := { s with errors := s.errors ++ (setupDefaults env schema).2.toList }
    let schema := prepare env schema
    let s := s.store schema replace
    if schema.embed then
      match fuel, s.doSchema env (some schema.version) schema.embedType with
      | _, none => some s
      | 0, some _ => none
      | fuel + 1, some target =>
        (doRemoveSchema fuel s target).bind fun s =>
          doAddSchema fuel s (embedded target schema) false
    else some s

/-- `doRemoveSchema`, with `removeEmbed`. -/
def doRemoveSchema : ℕ → Schemas → Schema → Option Schemas
  | fuel, s, schema =>
    let s := s.drop schema
    if schema.embed then
      match fuel, s.doSchema env (some schema.version) schema.embedType with
      | _, none => some s
      | 0, some _ => none
      | fuel + 1, some target =>
        (doRemoveSchema fuel s target).bind fun s =>
          doAddSchema fuel s (unembedded target schema) false
    else some s

end

end Schemas

/-- A call on the registry, with what it leaves open. -/
inductive Call where
  | AddSchema (env : Env) (fuel : ℕ) (schema : Schema)
  | ForceAddSchema (env : Env) (fuel : ℕ) (schema : Schema)
  | RemoveSchema (env : Env) (fuel : ℕ) (schema : Schema)

/-- A call that returns. -/
def Schemas.step (s : Schemas) : Call → Option (Schemas × List Empty)
  | .AddSchema env fuel schema => (doAddSchema env fuel s schema false).map fun s => (s, [])
  | .ForceAddSchema env fuel schema => (doAddSchema env fuel s schema true).map fun s => (s, [])
  | .RemoveSchema env fuel schema => (doRemoveSchema env fuel s schema).map fun s => (s, [])

end Norman.Types
