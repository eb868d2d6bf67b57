import Norman.Convert
import Norman.Schemas

/-!
# Merging an update into the stored object

`types/convert/merge/merge.go`: what a request sends is laid over what is stored. Objects are merged
key by key, as the schemas of their fields say; everything else, maps of plain values among it, is
replaced. The metadata and the status of the stored object stay, but for the labels and annotations
that a client may change.

`internal` is the `InternalSchema` of a schema, if it has one. A map is gone through from its last
entry on; each key is written once.
-/

namespace Norman

/-- `value.(map[string]interface{})`. -/
def Value.asMap : Value → Option Doc
  | .map m => some m
  | .nilMap => some []
  | _ => none

/-- `convert.ToMapInterface`, with the nil map as `none`. -/
def Value.toMap : Value → Option Doc
  | .map m => some m
  | _ => none

/-- A `map[string]interface{}` that may be nil, as an `interface{}`. -/
def Value.ofMap : Option Doc → Value
  | none => .nilMap
  | some m => .map m

namespace Merge

open Norman.Types

section Metadata

def isField (k : String) : Bool := hasPrefix k "field.cattle.io/"

def isProtected (k : String) : Bool :=
  !(!contains k "cattle.io/" || (isField k && k ≠ "field.cattle.io/creatorId"))

/-- The loop that takes over what the request sends. -/
def overwrite (src result : Doc) : Doc :=
  src.foldr (fun e result => if isProtected e.1 then result else Assoc.set e.1 e.2 result) result

/-- The loop that deletes what the request does not send. -/
def prune (dest src result : Doc) : Doc :=
  dest.foldr (fun e result =>
    if isProtected e.1 || isField e.1 then result
    else if (Assoc.get e.1 src).isSome then result else Assoc.erase e.1 result) result

def mergeProtected (dest : Option Doc) : Option Doc → Option Doc
  | none => dest
  | some src => some (prune (dest.getD []) src (overwrite src (dest.getD [])))

/-- The map under a key, if there is one. -/
def submap (key : String) (m : Doc) : Option Doc := (Assoc.get key m).bind Value.toMap

def mergeMetadata (dest src : Doc) : Doc :=
  Assoc.set "annotations"
    (.ofMap (mergeProtected (submap "annotations" dest) (submap "annotations" src)))
    (Assoc.set "labels" (.ofMap (mergeProtected (submap "labels" dest) (submap "labels" src))) dest)

end Metadata

section Objects

variable (env : Env) (internal : Schema → Option Schema) (schemas : Schemas) (replace : Bool)

/-- `schema.ResourceFields[field].Type`. -/
def typeOf (schema : Schema) (field : String) : String :=
  ((schema.resourceFields.get field).map Field.type).getD ""

/-- `schemas.Schema`, and its `InternalSchema` in its place. -/
def internalSchema (version : APIVersion) (name : String) : Option Schema :=
  (schemas.doSchema env (some version) name).map fun s => (internal s).getD s

def getSchema (field parentFieldType : String) (parentSchema schema : Option Schema) :
    String × Option Schema :=
  match schema, parentSchema with
  | some schema, _ =>
    (typeOf schema field, internalSchema env internal schemas schema.version (typeOf schema field))
  | none, some parentSchema =>
    if IsMapType parentFieldType then
      (SubType parentFieldType,
        internalSchema env internal schemas parentSchema.version (SubType parentFieldType))
    else ("", none)
  | none, none => ("", none)

/-- A field of a type `map[...]` whose values are no objects. -/
def isMap (field : String) : Option Schema → Bool
  | none => false
  | some schema => IsMapType (typeOf schema field)
      && (schemas.doSchema env (some schema.version) (SubType (typeOf schema field))).isNone

/-- The fields that may be updated are left out if the request replaces the object. -/
def copyMapReplace (schema : Option Schema) (src : Doc) : Doc :=
  src.filter fun e =>
    !(replace && schema.any fun schema => (schema.resourceFields.get e.1).any Field.update)

mutual

def merge (field fieldType : String) (parentSchema schema : Option Schema) (dest : Value) :
    Value → Value
  | .map sm =>
    if isMap env schemas field schema then .map sm
    else match dest.asMap with
      | none => .map sm
      | some dm =>
        let (fieldType, fieldSchema) :=
          getSchema env internal schemas field fieldType parentSchema schema
        .map (mergeMaps fieldType schema fieldSchema dm sm)
  | .nilMap =>
    if isMap env schemas field schema then .nilMap
    else match dest.asMap with
      | none => .nilMap
      | some dm =>
        .map (copyMapReplace replace
          (getSchema env internal schemas field fieldType parentSchema schema).2 dm)
  | src => src

def mergeMaps (fieldType : String) (parentSchema schema : Option Schema) (dest : Doc) : Doc → Doc
  | [] => copyMapReplace replace schema dest
  | (k, v) :: src =>
    Assoc.set k (merge k fieldType parentSchema schema ((Assoc.get k dest).getD .nil) v)
      (mergeMaps fieldType parentSchema schema dest src)

end

def UpdateMerge (schema : Option Schema) (dest src : Doc) : Doc :=
  mergeMaps env internal schemas replace "" none schema dest src

/-- The status stays as it is stored. -/
def keepStatus (dest result : Doc) : Doc :=
  match Assoc.get "status" dest with
  | none => result
  | some s => Assoc.set "status" s result

/-- The metadata stay as they are stored, but for labels and annotations. -/
def keepMetadata (dest src result : Doc) : Doc :=
  match Assoc.get "metadata" dest with
  | none => result
  | some m =>
    Assoc.set "metadata" (.map (mergeMetadata (m.toMap.getD []) ((submap "metadata" src).getD [])))
      result

def APIUpdateMerge (schema : Option Schema) (dest src : Doc) : Doc :=
  keepMetadata dest src (keepStatus dest (UpdateMerge env internal schemas replace schema dest src))

end Objects

end Merge

end Norman
