import Norman.Creation
import Norman.Lib.Nested

/-!
# Mappers of fields

`types/mapper` and `types/values/values.go`: mappers that move a value from one path of the data to
another, mappers that put the fields of an embedded object into the object around it, mappers that
keep a field in a label or an annotation, and the mapper that makes a list a map.

The data are changed in place, which gives the data here. To write the nil map is a panic, and then
there are no data. The errors of `ToInternal` are left out: these mappers have none.
-/

namespace Norman

/-- Only a map that is not nil can be written. -/
instance : Nested.Maps String Value where
  view
    | .map m => .map m
    | .nilMap => .nil
    | _ => .other
  node := .map
  view_node _ := rfl

section Strings

/-- `splitBy`, with the number of characters of the separator still to be left out, and the part so
far, from its end. -/
def splitGo (sep : List Char) : List Char → ℕ → List Char → List (List Char)
  | [], _, part => [part.reverse]
  | _ :: cs, skip + 1, part => splitGo sep cs skip part
  | c :: cs, 0, part =>
    if sep.isPrefixOf (c :: cs) then part.reverse :: splitGo sep cs (sep.length - 1) []
    else splitGo sep cs 0 (c :: part)

/-- `strings.Split`, at a separator that is not empty. -/
def splitBy (sep s : String) : List String :=
  (splitGo sep.toList s.toList 0 []).map String.ofList

end Strings

namespace FieldMapper

open Norman.Types

section Values

/-- `values.RemoveValue`: the value, if there is one, and the data without it. -/
def RemoveValue (data : Doc) (keys : List String) : Option Value × Doc := Nested.remove keys data

/-- What is at one path goes to another one. -/
def moveValue (src dst : List String) (data : Doc) : Option Doc :=
  match RemoveValue data src with
  | (some v, data) => PutValue v dst data
  | (none, data) => some data

end Values

section Moves

structure Move where
  From : String
  To : String
  deriving DecidableEq

namespace Move

variable (m : Move) (data : Doc)

def FromInternal : Option Doc := moveValue (split '/' m.From) (split '/' m.To) data

def ToInternal : Option Doc := moveValue (split '/' m.To) (split '/' m.From) data

end Move

structure UntypedMove where
  From : String
  To : String
  Separator : String

namespace UntypedMove

variable (m : UntypedMove) (data : Doc)

def getSep : String := if m.Separator = "" then "/" else m.Separator

def FromInternal : Option Doc := moveValue (splitBy m.getSep m.From) (splitBy m.getSep m.To) data

def ToInternal : Option Doc := moveValue (splitBy m.getSep m.To) (splitBy m.getSep m.From) data

end UntypedMove

/-- A `BatchMove`, as `ModifySchema` leaves it. -/
structure BatchMove where
  moves : List Move

namespace BatchMove

variable (b : BatchMove)

def FromInternal (data : Doc) : Option Doc := b.moves.foldlM (fun data m => m.FromInternal data) data

def ToInternal (data : Doc) : Option Doc :=
  b.moves.reverse.foldlM (fun data m => m.ToInternal data) data

end BatchMove

end Moves

section Embed

/-- `ValidateField`: the error, if the schema does not have the field. -/
def ValidateField (field : String) (schema : Schema) : Option String :=
  if schema.resourceFields.get field = none then
    some ("field " ++ field ++ " missing on schema " ++ schema.id)
  else none

/-- An order in which the fields of a schema are gone through. -/
structure Order where
  list : SortedMap String Field → List (String × Field)
  perm : ∀ m, (list m).Perm m.entries

structure Embed where
  Field : String
  Optional : Bool := false
  ReadOnly : Bool := false
  Ignore : List String := []
  ignoreOverride : Bool := false
  embeddedFields : List String := []
  EmptyValueOk : Bool := false
  deriving DecidableEq

namespace Embed

variable (e : Embed)

/-- `data[e.Field].(map[string]interface{})`. -/
def sub (data : Doc) : Doc := ((Assoc.get e.Field data).getD .nil).toMapInterface

/-- One field of the embedded object goes into the data. -/
def raise (sub data : Doc) (fieldName : String) : Doc :=
  match Assoc.get fieldName sub with
  | some v => Assoc.set fieldName v data
  | none => data

def FromInternal (data : Doc) : Doc :=
  Assoc.erase e.Field (e.embeddedFields.foldl (raise (e.sub data)) data)

def ToInternal (data : Doc) : Doc :=
  Mapper.Embed.ToInternal ⟨e.Field, e.embeddedFields, e.EmptyValueOk⟩ data

/-- What the loop of `ModifySchema` has done: whether the field itself is to be deleted, the fields
of the schema, and those that are embedded. -/
structure Loop where
  deleteField : Bool
  fields : SortedMap String Types.Field
  embeddedFields : List String

/-- One round of the loop, at a field of the embedded schema. -/
def round (id : String) (r : Loop) (entry : String × Types.Field) : Except String Loop :=
  let (name, field) := entry
  if name ∈ e.Ignore then .ok r
  else if name ≠ e.Field ∧ e.ignoreOverride = false ∧ r.fields.get name ≠ none then
    .error ("embedding field " ++ e.Field ++ " on " ++ id ++ " will overwrite the field " ++ name)
  else
    .ok {
      deleteField := if name = e.Field then false else r.deleteField
      fields := r.fields.set name
        (if e.ReadOnly then { field with create := false, update := false } else field)
      embeddedFields := r.embeddedFields ++ [name] }

/-- The schema of the field that is embedded. -/
def embeddedSchema (env : Env) (schemas : Schemas) (schema : Schema) : Option Schema :=
  schemas.doSchema env (some schema.version)
    (((schema.resourceFields.get e.Field).map (·.type)).getD "")

/-- `Embed.ModifySchema`: the mapper and the schema as they are then. -/
def ModifySchema (env : Env) (order : Order) (schema : Schema) (schemas : Schemas) :
    Except String (Embed × Schema) :=
  match ValidateField e.Field schema with
  | some err => if e.Optional then .ok (e, schema) else .error err
  | none =>
    match e.embeddedSchema env schemas schema with
    | none =>
      if e.Optional then .ok ({ e with embeddedFields := [] }, schema)
      else .error ("failed to find schema "
        ++ ((schema.resourceFields.get e.Field).map (·.type)).getD "" ++ " for embedding")
    | some embeddedSchema =>
      ((order.list embeddedSchema.resourceFields).foldlM (e.round schema.id)
        ⟨true, schema.resourceFields, []⟩).map fun r =>
          ({ e with embeddedFields := r.embeddedFields },
            { schema with
              resourceFields := if r.deleteField then r.fields.erase e.Field else r.fields })

end Embed

structure UnionMapping where
  FieldName : String
  CheckFields : List String
  deriving DecidableEq

structure UnionEmbed where
  Fields : List UnionMapping
  embeds : SortedMap String Embed := ∅
  deriving DecidableEq

namespace UnionEmbed

variable (u : UnionEmbed)

/-- `UnionEmbed.FromInternal`, with the members in some order. -/
def FromInternal (embeds : List (String × Embed)) (data : Doc) : Doc :=
  embeds.foldl (fun data entry => entry.2.FromInternal data) data

/-- Whether all check fields of the member are there, and it has some. -/
def checks (data : Doc) (mapper : UnionMapping) : Bool :=
  mapper.CheckFields ≠ [] && mapper.CheckFields.all fun check =>
    match Assoc.get check data with
    | some v => !Convert.IsAPIObjectEmpty v
    | none => false

def ToInternal (data : Doc) : Doc :=
  match u.Fields.find? (checks data) with
  | none => data
  | some mapper => ((u.embeds.get mapper.FieldName).getD { Field := "" }).ToInternal data

/-- One round of `ModifySchema`. -/
def modifyMember (env : Env) (order : UnionMapping → Order) (schemas : Schemas)
    (r : SortedMap String Embed × Schema) (mapping : UnionMapping) :
    Except String (SortedMap String Embed × Schema) :=
  match Embed.ModifySchema { Field := mapping.FieldName, ignoreOverride := true } env
      (order mapping) r.2 schemas with
  | .error err => .error err
  | .ok (embed, schema) =>
    match mapping.CheckFields.find? fun checkField => schema.resourceFields.get checkField = none with
    | some checkField =>
      .error ("missing check field " ++ checkField ++ " on schema " ++ schema.id)
    | none => .ok (r.1.set mapping.FieldName embed, schema)

def ModifySchema (env : Env) (order : UnionMapping → Order) (schema : Schema) (schemas : Schemas) :
    Except String (UnionEmbed × Schema) :=
  (u.Fields.foldlM (modifyMember env order schemas) (∅, schema)).map fun r =>
    ({ u with embeds := r.1 }, r.2)

end UnionEmbed

end Embed

section TextFields

/-- The key of a field among the labels or annotations. -/
def fieldKey (field : String) : String := "field.cattle.io/" ++ field

structure LabelField where
  Field : String

namespace LabelField

variable (e : LabelField) (data : Doc)

def FromInternal : Doc :=
  match RemoveValue data ["labels", fieldKey e.Field] with
  | (some v, data) => Assoc.set e.Field v data
  | (none, data) => data

def ToInternal : Option Doc :=
  match Assoc.get e.Field data with
  | some v => PutValue v ["labels", fieldKey e.Field] data
  | none => some data

end LabelField

/-- `encoding/json`, for the text of an annotation: there is nothing where it gives an error. -/
structure Json where
  unmarshalObject : String → Option Value
  unmarshalList : String → Option Value
  marshal : Value → Option String

structure AnnotationField where
  Field : String
  Object : Bool := false
  List : Bool := false

namespace AnnotationField

variable (e : AnnotationField) (env : Convert.Env) (json : Json) (data : Doc)

/-- The value of an annotation, as the field has it. -/
def read (v : Value) : Value :=
  let v := if e.Object then (json.unmarshalObject (Convert.ToString env v)).getD v else v
  if e.List then (json.unmarshalList (Convert.ToString env v)).getD v else v

def FromInternal : Doc :=
  match RemoveValue data ["annotations", fieldKey e.Field] with
  | (some v, data) => Assoc.set e.Field (e.read env json v) data
  | (none, data) => data

/-- The value of the field, as the annotation has it. -/
def write (v : Value) : Value :=
  .str (Convert.ToString env
    (if e.Object || e.List then ((json.marshal v).map Value.str).getD v else v))

def ToInternal : Option Doc :=
  let written := match Assoc.get e.Field data with
    | some v => PutValue (e.write env json v) ["annotations", fieldKey e.Field] data
    | none => some data
  written.map fun data => (RemoveValue data [e.Field]).2

end AnnotationField

end TextFields

section SliceToMap

/-- An order in which a map is gone through. -/
structure MapOrder where
  list : Doc → List (String × Value)
  perm : ∀ m, (list m).Perm m

structure SliceToMap where
  Field : String
  Key : String

namespace SliceToMap

variable (s : SliceToMap) (data : Doc)

/-- One round of `FromInternal`; a nil map has no name. -/
def collect (result : SortedMap String Value) (item : Value) : SortedMap String Value :=
  match item with
  | .map mapItem =>
    let name := match Assoc.get s.Key mapItem with
      | some (.str name) => name
      | _ => ""
    result.set name (.map (Assoc.erase s.Key mapItem))
  | .nilMap => result.set "" .nilMap
  | _ => result

def FromInternal : Doc :=
  let datas := match Assoc.get s.Field data with
    | some (.arr datas) => datas
    | _ => []
  let result := datas.foldl s.collect ∅
  if result.entries = [] then data else Assoc.set s.Field (.map result.entries) data

/-- One round of `ToInternal`. -/
def item (e : String × Value) : Option Value :=
  match e.2 with
  | .map mapItem => some (.map (Assoc.set s.Key (.str e.1) mapItem))
  | _ => none

def ToInternal (order : MapOrder) : Doc :=
  match Assoc.get s.Field data with
  | some (.map datas) =>
    let result := (order.list datas).filterMap s.item
    Assoc.set s.Field (if result = [] then .nilArr else .arr result) data
  | _ => data

end SliceToMap

end SliceToMap

end FieldMapper

end Norman
