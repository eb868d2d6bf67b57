import Norman.Builder
import Norman.Mapper
import Norman.Proxy

/-!
# Creating an object

`Create` of `store/proxy/proxy_store.go`, after the body of the request was made into an object by
the builder: the mapper of the schema turns it into how the API server has it, and it is marked with
its creator. The default mappers of `types/mapper/object.go` put the fields of the metadata, which
the API has among the other fields, back under `metadata`.

The marks are written by `PutValue`, which goes down a path of maps, and so do other mappers write. A
map may be nil and still be a map: to write into it is a panic, and there is no result.
-/

namespace Norman.Mapper

open Norman.Types Httperror

/-- The data as `ToInternal` leaves them, and its errors. -/
abbrev Mapped := Doc × List Err

/-- What `ToInternal` of a mapper does; there is nothing if it panics. -/
abbrev Mapping := Doc → Option Mapped

section Mappers

structure Embed where
  field : String
  embeddedFields : List String
  emptyValueOk : Bool := false

/-- One round of the loop of `Embed.ToInternal`. -/
def takeField (r : Doc × Doc) (fieldName : String) : Doc × Doc :=
  match Assoc.get fieldName r.2 with
  | some v => (Assoc.set fieldName v r.1, Assoc.erase fieldName r.2)
  | none => (r.1, Assoc.erase fieldName r.2)

/-- The embedded fields, and what is left without them. -/
def Embed.taken (e : Embed) (data : Doc) : Doc × Doc :=
  e.embeddedFields.foldl takeField ([], data)

def Embed.ToInternal (e : Embed) (data : Doc) : Doc :=
  match e.taken data with
  | ([], data) => if e.emptyValueOk then Assoc.set e.field .nil data else data
  | (sub, data) => Assoc.set e.field (.map sub) data

/-- `ToInternal` of a `Move` at the top level. -/
def Move.ToInternal (source target : String) (data : Doc) : Doc :=
  match Assoc.get target data with
  | none => data
  | some v => Assoc.set source v (Assoc.erase target data)

/-- A key is set, unless it is there. -/
def setMissing (key : String) (v : Value) (data : Doc) : Doc :=
  if Assoc.get key data = none then Assoc.set key v data else data

/-- `ToInternal` of `APIGroup`. -/
def APIGroup.ToInternal (apiVersion kind : String) (data : Doc) : Doc :=
  setMissing "kind" (.str kind) (setMissing "apiVersion" (.str apiVersion) data)

/-- `ToInternal` of what `NewMetadataMapper` makes. -/
def metadataToInternal (data : Doc) : Doc :=
  Move.ToInternal "uid" "uuid" (Move.ToInternal "creationTimestamp" "created"
    (Move.ToInternal "deletionTimestamp" "removed" data))

/-- `Mappers.ToInternal`: the last one first, and all of them, whatever they return; for mappers that
may panic, and for such that do not. -/
def Mappers.ToInternal {M : Type → Type} [Monad M] (mappers : List (Doc → M Mapped)) (data : Doc) :
    M Mapped :=
  mappers.foldr (fun mapper r => do
    let r ← r
    let s ← mapper r.1
    pure (s.1, r.2 ++ s.2)) (pure (data, []))

end Mappers

section Nested

/-- `ToInternal` at a value that is a map. -/
def toMap (f : Mapping) : Value → Option (Value × List Err)
  | .map m => (f m).map fun r => (.map r.1, r.2)
  | v => some (v, [])

/-- `ToInternal` at each value of a map. -/
def toEntries (f : Mapping) : Value → Option (Value × List Err)
  | .map m => (m.mapM fun e => (toMap f e.2).map fun r => ((e.1, r.1), r.2)).map fun rs =>
      (.map (rs.map Prod.fst), rs.flatMap Prod.snd)
  | v => some (v, [])

/-- `ToInternal` at each element of a slice. -/
def toElems (f : Mapping) : Value → Option (Value × List Err)
  | .arr xs => (xs.mapM (toMap f)).map fun rs => (.arr (rs.map Prod.fst), rs.flatMap Prod.snd)
  | v => some (v, [])

/-- One of the loops of `typeMapper.ToInternal`, over the mappers of the schemas of the fields. -/
def loopTo (on : Mapping → Value → Option (Value × List Err))
    (schemas : List (String × Mapping)) (r : Mapped) : Option Mapped :=
  schemas.foldlM (fun r e => match Assoc.get e.1 r.1 with
    | none => some r
    | some v => (on e.2 v).map fun s => (Assoc.set e.1 s.1 r.1, r.2 ++ s.2)) r

end Nested

/-- The mapper of a schema with the default mappers of an object: the fields that their `Embed`s
have, the mappers besides them, and the mappers of the schemas of the other fields. -/
structure ObjectMapper where
  metadata : List String
  spec : List String
  apiVersion : String
  kind : String
  own : List Mapping
  subSchemas : List (String × Mapping)
  subArraySchemas : List (String × Mapping)
  subMapSchemas : List (String × Mapping)

namespace ObjectMapper

variable (m : ObjectMapper)

/-- `Object.ToInternal`. `ReadOnly`, `Drop` and `Scope` over `Drop` have nothing to do here. -/
def object (data : Doc) : Doc :=
  APIGroup.ToInternal m.apiVersion m.kind (Embed.ToInternal ⟨"metadata", m.metadata, false⟩
    (Embed.ToInternal ⟨"spec", m.spec, false⟩ (Move.ToInternal "selfLink" ".selfLink" data)))

/-- `typeMapper.ToInternal`. -/
def ToInternal (data : Doc) : Option Mapped := do
  let r ← Mappers.ToInternal m.own data
  let r := (m.object r.1, r.2)
  let r ← loopTo toElems m.subArraySchemas r
  let r ← loopTo toEntries m.subMapSchemas r
  let r ← loopTo toMap m.subSchemas r
  pure (modifyKey "metadata" (onMap metadataToInternal) r.1, r.2)

end ObjectMapper

end Norman.Mapper

namespace Norman.Proxy

open Norman.Types Norman.Parse Norman.Mapper Httperror

/-- Why nothing is sent to the API server. -/
inductive CreateFailure where
  | construct (failure : Parse.Failure)
  | mapper (errs : List Err)
  | nilMap
  deriving DecidableEq

section Create

variable (store : Store) (user generated : String)

/-- The marks of the creator, and the name if there is none. -/
def marked (data : Doc) : Option Doc := do
  let data ← PutValue (.str user) ["metadata", "annotations", "field.cattle.io/creatorId"] data
  let data ← PutValue (.str "norman") ["metadata", "labels", "cattle.io/creator"] data
  if stringOf (GetValue ["metadata", "name"] data) = ""
      ∧ stringOf (GetValue ["metadata", "generateName"] data) = "" then
    PutValue (.str generated) ["metadata", "name"] data
  else pure data

/-- What `toInternal` of the store adds. -/
def Store.typed (data : Doc) : Doc :=
  let apiVersion := if store.group = "" then store.version else store.group ++ "/" ++ store.version
  Assoc.set "kind" (.str store.kind) (Assoc.set "apiVersion" (.str apiVersion) data)

/-- A request to create an object, from its body to the object that is sent. -/
def Create (b : Builder) (fuel : ℕ) (schema : Schema) (mapper : ObjectMapper) (body : Doc) :
    Except CreateFailure Doc :=
  match b.Construct fuel schema body .Create with
  | .error failure => .error (.construct failure)
  | .ok data =>
    match mapper.ToInternal data with
    | none => .error .nilMap
    | some (data, []) =>
      match marked user generated (store.typed data) with
      | none => .error .nilMap
      | some data => .ok data
    | some (_, errs) => .error (.mapper errs)

end Create

end Norman.Proxy
