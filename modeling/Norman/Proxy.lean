import Norman.Mapper
import Norman.Merge

/-!
# The proxy store

`Update` of `store/proxy/proxy_store.go`: an object is read from the API server, the request is
merged into it, and it is written back under the version that was read; if another one was written
in between, all of it is done again, up to five times.

Any number of calls of `Update` are under way for one object, and each request to the API server is
a step, so that they come in any order. The API server holds the object with its version; it takes
an object that has the version it holds, and answers with a conflict otherwise. A request may fail
for other reasons, too, which is part of the step.
-/

namespace Norman.Proxy

open Norman.Types

section Values

/-- `PutValue` in the metadata of an object. It does not panic, as the metadata of an object that has
a version are a map (`putValue_metadata`). -/
def putMetadata (key val : String) (object : Doc) : Doc :=
  (PutValue (.str val) ["metadata", key] object).getD object

theorem putValue_metadata {object m : Doc} (h : Assoc.get "metadata" object = some (.map m))
    (key : String) (val : Value) : PutValue val ["metadata", key] object
      = some (Assoc.set "metadata" (.map (Assoc.set key val m)) object) := by
  simp only [PutValue, h, Option.map_some]

/-- `GetResourceVersion` of an object, if it has one. -/
def resourceVersion (object : Doc) : Option String :=
  match (Merge.submap "metadata" object).bind (Assoc.get "resourceVersion") with
  | some (.str version) => some version
  | _ => none

/-- `splitID`: the namespace and the name. -/
def splitID (id : String) : String × String :=
  match cut [':'] id.toList with
  | none => ("", id)
  | some (ns, name) => (String.ofList ns, String.ofList name)

end Values

section Server

/-- An object of the API server, which has its version in its metadata. -/
structure Stored where
  object : Doc
  version : ℕ
  stamped : resourceVersion object = some version.repr

/-- An object gets a version, in its metadata. -/
def stamp (version : ℕ) (object : Doc) : Doc := putMetadata "resourceVersion" version.repr object

theorem metadata_of_resourceVersion {object : Doc} {s : String}
    (h : resourceVersion object = some s) : ∃ m, Assoc.get "metadata" object = some (.map m) := by
  rcases hget : Assoc.get "metadata" object with _ | v
  · simp [resourceVersion, Merge.submap, hget] at h
  · cases v with
    | map m => exact ⟨m, rfl⟩
    | _ => simp [resourceVersion, Merge.submap, hget, Value.toMap] at h

theorem resourceVersion_stamp {object : Doc} {s : String} (h : resourceVersion object = some s)
    (version : ℕ) : resourceVersion (stamp version object) = some version.repr := by
  obtain ⟨m, hm⟩ := metadata_of_resourceVersion h
  simp [resourceVersion, stamp, putMetadata, putValue_metadata hm, Merge.submap, Assoc.get_set,
    Value.toMap]

/-- `PUT`: the object is taken if its version is the one that is stored, and gets the next. -/
def Stored.put (st : Stored) (object : Doc) : Option Stored :=
  if h : resourceVersion object = some st.version.repr then
    some ⟨stamp (st.version + 1) object, st.version + 1, resourceVersion_stamp h _⟩
  else none

end Server

/-- What the store calls besides. -/
structure Env where
  names : Types.Env
  internal : Schema → Option Schema

/-- The store, as far as `Update` needs it. -/
structure Store where
  group : String
  version : String
  kind : String

/-- A call of `Update`: the mapper of its schema, if it has one, the internal schema, the registry,
and the data of the request. -/
structure Call where
  toInternal : Option (Doc → Except String Doc)
  fromInternal : Doc → Doc
  internalSchema : Option Schema
  schemas : Schemas
  data : Doc

/-- Why `Update` fails: there is no client, the mapper fails, a request fails, or it met with a
conflict five times. -/
inductive Failure where
  | client (text : String)
  | mapper (text : String)
  | request (text : String)
  | conflict
  deriving DecidableEq

section Update

variable (env : Env) (store : Store) (id : String)

/-- `toInternal`: the data of the request as the API server has them. -/
def Store.toInternal (call : Call) : Except String Doc := do
  let data ← match call.toInternal with
    | none => .ok call.data
    | some mapper => mapper call.data
  let apiVersion := if store.group = "" then store.version else store.group ++ "/" ++ store.version
  pure (Assoc.set "kind" (.str store.kind) (Assoc.set "apiVersion" (.str apiVersion) data))

/-- What `Update` writes, from what it has read. -/
def merged (call : Call) (data : Doc) (existing : Doc) (version : String) : Doc :=
  let existing := Merge.APIUpdateMerge env.names env.internal call.schemas false call.internalSchema
    existing data
  let existing := putMetadata "resourceVersion" version existing
  let existing := putMetadata "namespace" (splitID id).1 existing
  putMetadata "name" (splitID id).2 existing

/-- Where a call of `Update` is; in the loop it has the number of the attempt. -/
inductive Phase where
  | start
  | reading (i : ℕ) (data : Doc)
  | writing (i : ℕ) (data existing : Doc)
  | returned (result : Except Failure Doc)

/-- The calls, and the API server. -/
structure State (ι : Type) where
  phases : ι → Phase
  server : Stored

/-- A step of a call, with the error if what it asks for fails. -/
inductive Action (ι : Type) where
  | begin (t : ι) (err : Option String)
  | get (t : ι) (err : Option String)
  | put (t : ι) (err : Option String)

variable {ι : Type} [DecidableEq ι] (calls : ι → Call)

def State.move (s : State ι) (t : ι) (phase : Phase) : State ι :=
  { s with phases := Function.update s.phases t phase }

/-- The client, and the data of the request. -/
def begun (call : Call) : Option String → Phase
  | some err => .returned (.error (.client err))
  | none =>
    match store.toInternal call with
    | .error err => .returned (.error (.mapper err))
    | .ok data => .reading 0 data

/-- After a conflict. -/
def retry (i : ℕ) (data : Doc) : Phase :=
  if i + 1 < 5 then .reading (i + 1) data else .returned (.error .conflict)

/-- A step, with the call whose object was written, if one was. -/
def step (s : State ι) : Action ι → Option (State ι × List ι)
  | .begin t err =>
    match s.phases t with
    | .start => some (s.move t (begun store (calls t) err), [])
    | _ => none
  | .get t err =>
    match s.phases t, err with
    | .reading _ _, some err => some (s.move t (.returned (.error (.request err))), [])
    | .reading i data, none =>
      let version := (resourceVersion s.server.object).getD ""
      some (s.move t (.writing i data (merged env id (calls t) data s.server.object version)), [])
    | _, _ => none
  | .put t err =>
    match s.phases t, err with
    | .writing _ _ _, some err => some (s.move t (.returned (.error (.request err))), [])
    | .writing i data existing, none =>
      match s.server.put existing with
      | some server =>
        some ({ s.move t (.returned (.ok ((calls t).fromInternal server.object))) with server }, [t])
      | none => some (s.move t (retry i data), [])
    | _, _ => none

end Update

section Address

/-- What a request to the API server is about: the namespace, if there is one, and the name. -/
structure Address where
  ns : Option String
  name : String
  deriving DecidableEq

/-- The request that `common` prepares, with its name. -/
def common (ns name : String) : Address := ⟨if ns ≠ "" then some ns else none, name⟩

/-- `validID` in `byID`. -/
def validID (namespaced : Bool) (id : String) : Bool :=
  let splitted := split ':' (Convert.trimSpace id)
  if namespaced then splitted.length = 2 && splitted.all fun part => Convert.trimSpace part ≠ ""
  else splitted.length = 1 && splitted.all fun part => Convert.trimSpace part ≠ ""

/-- What `byID` asks for; an id that is not valid is not asked for. -/
def byIDAddress (namespaced : Bool) (id : String) : Option Address :=
  if validID namespaced id then some (common (splitID id).1 (splitID id).2) else none

/-- What `Update` reads and writes. -/
def updateAddress (id : String) : Address := common (splitID id).1 (splitID id).2

/-- What `Delete` deletes. -/
def deleteAddress (id : String) : Address := common (splitID id).1 (splitID id).2

end Address

end Norman.Proxy
