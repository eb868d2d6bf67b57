import Norman.Convert

/-!
# Mappers

`types/mapper.go` and `types/values/values.go`: a mapper turns the data of an object from how the
API server has them into how the API shows them, and back. The mapper of a type first has the
mappers of the schemas of its fields at work, then its own; and an object of a root type gets its
id.

The data are changed in place, which gives the data here. A mapper that gets nil instead of a map
has nothing to change. The fields are gone through by name; each has its own mapper.
-/

namespace Norman.Types

section Values

/-- `values.GetValue`. -/
def GetValue : List String → Doc → Option Value
  | [], _ => none
  | [key], data => Assoc.get key data
  | key :: keys, data =>
    match Assoc.get key data with
    | some (.map m) => GetValue keys m
    | _ => none

/-- `values.PutValue`; a write into a nil map is a panic, and has no result. -/
def PutValue (val : Value) : List String → Doc → Option Doc
  | [], data => some data
  | [key], data => some (Assoc.set key val data)
  | key :: keys, data =>
    match Assoc.get key data with
    | none => (PutValue val keys []).map fun m => Assoc.set key (.map m) data
    | some (.map m) => (PutValue val keys m).map fun m => Assoc.set key (.map m) data
    | some .nilMap => none
    | some _ => some data

/-- `v.(string)`, of a value that may be missing. -/
def stringOf : Option Value → String
  | some (.str s) => s
  | _ => ""

end Values

section Nested

/-- The value of a key is changed, if there is one. -/
def modifyKey (key : String) (g : Value → Value) (data : Doc) : Doc :=
  match Assoc.get key data with
  | none => data
  | some v => Assoc.set key (g v) data

/-- A mapper at a value that is a map. -/
def onMap (f : Doc → Doc) : Value → Value
  | .map m => .map (f m)
  | v => v

/-- A mapper at each value of a map. -/
def onEntries (f : Doc → Doc) : Value → Value
  | .map m => .map (m.map fun e => (e.1, onMap f e.2))
  | v => v

/-- A mapper at each element of a slice. -/
def onElems (f : Doc → Doc) : Value → Value
  | .arr xs => .arr (xs.map (onMap f))
  | v => v

end Nested

/-- `typeMapper`, as far as `FromInternal` goes. A sub-schema stands for its mapper, if it has
one. -/
structure TypeMapper where
  mappers : Doc → Doc
  root : Bool
  typeName : String
  subSchemas : SortedMap String (Option (Doc → Doc))
  subArraySchemas : SortedMap String (Option (Doc → Doc))
  subMapSchemas : SortedMap String (Option (Doc → Doc))

namespace TypeMapper

variable (t : TypeMapper)

/-- One of the loops over the sub-schemas. -/
def loop (on : (Doc → Doc) → Value → Value) (schemas : SortedMap String (Option (Doc → Doc)))
    (data : Doc) : Doc :=
  schemas.entries.foldl (fun data e => match e.2 with
    | none => data
    | some mapper => modifyKey e.1 (on mapper) data) data

/-- The id of an object of a root type. -/
def putID (name ns : String) (data : Doc) : Doc :=
  match Assoc.get "id" data with
  | some id => if ns ≠ "" then Assoc.set "id" (.str (ns ++ ":" ++ stringOf (some id))) data else data
  | none =>
    if name = "" then data
    else if ns = "" then Assoc.set "id" (.str name) data
    else Assoc.set "id" (.str (ns ++ ":" ++ name)) data

/-- The mappers of the fields are at work. -/
def nested (data : Doc) : Doc :=
  loop onElems t.subArraySchemas (loop onEntries t.subMapSchemas (loop onMap t.subSchemas data))

/-- The type is put in, if there is none. -/
def withType (data : Doc) : Doc :=
  if Assoc.get "type" data = none then Assoc.set "type" (.str t.typeName) data else data

def FromInternal (data : Doc) : Doc :=
  let name := stringOf (GetValue ["metadata", "name"] data)
  let ns := stringOf (GetValue ["metadata", "namespace"] data)
  let data := t.mappers (t.withType (t.nested data))
  let data := if t.root then putID name ns data else data
  if Assoc.get "id" data ≠ none then t.withType data else data

end TypeMapper

end Norman.Types
