import Norman.Query

/-!
# The store wrapper and its filters

`store/wrapper/wrapper.go`, with `FilterObject` and `Filter` of `types/server_types.go`: the store
of a schema is wrapped so that a request under a sub-context is about the objects of that
sub-context. What the provider gives for the request, the conditions and the values of new objects,
is in `Context`. The store of the schema is the wrapper itself, as `setupDefaults` of the server
leaves it.

The options of a list are shared: the store below gets them with the conditions, may add more, and
finds the page of the query in them, into which the filter writes.

A `map[string]interface{}` may be nil here, which is `none`; as an `interface{}` it is not nil even
then.
-/

namespace Norman.StoreWrapper

open Norman.Types Norman.Handler Httperror

/-- A `map[string]interface{}`. -/
abbrev Obj := Option Doc

/-- What a list is answered, and the options as they are left; a panic is `none`. -/
abbrev Answer := Option (Except Err (List Doc) × QueryOptions)

/-- A store with states `σ`. -/
structure Store (σ : Type) where
  ByID : σ → String → Except Err Obj
  List : σ → QueryOptions → Answer
  Create : σ → Obj → σ × Except Err Obj
  Update : σ → Obj → String → σ × Except Err Obj
  Delete : σ → String → σ × Except Err Obj

/-- What the wrapper reads of the request: the filter, the schema, and what `Query` and `Create` of
the provider give. -/
structure Context where
  env : Handler.Env
  schema : Schema
  query : List QueryCondition
  attributes : List (String × Value)

/-- An `interface{}`, as far as `Filter` tells it apart. -/
inductive Iface where
  | nil
  | object (obj : Obj)
  | list (objs : List Doc)

section Filter

variable (c : Context)

/-- The options that have only conditions. -/
def conditionsOnly (conditions : List QueryCondition) : QueryOptions :=
  { sort := { name := "", order := .asc }, pagination := none, conditions }

/-- `FilterObject`: the object that was given, if it is kept. A nil map has no entries. -/
def FilterObject (opts : QueryOptions) (obj : Obj) : Obj :=
  match ApplyQueryOptions c.env { opts with pagination := none } c.schema [obj.getD []] with
  | some (_ :: _, _) => obj
  | some ([], _) | none => none

/-- `FilterList` of what the store gave, in the options it left. -/
def FilterList : Except Err (List Doc) × QueryOptions → Answer
  | (.error err, opts) => some (.error err, opts)
  | (.ok data, opts) => (ApplyQueryOptions c.env opts c.schema data).map fun r =>
      (.ok r.1, { opts with pagination := r.2 })

/-- `Filter`; a panic is `none`. -/
def Filter (opts : QueryOptions) : Iface → Option Iface
  | .list objs => (ApplyQueryOptions c.env opts c.schema objs).map fun r => .list r.1
  | .object obj => some (.object (FilterObject c opts obj))
  | .nil => some .nil

end Filter

section Wrapper

variable {σ : Type} (c : Context) (store : Store σ) (s : σ)

def byID (id : String) : Except Err Obj :=
  (store.ByID s id).map (FilterObject c (conditionsOnly c.query))

/-- The values of the sub-context are put into a new object. -/
def fill (attributes : List (String × Value)) (data : Obj) : Obj :=
  attributes.foldl (fun data e => some (Assoc.set e.1 e.2 (data.getD []))) data

def validateGet (id : String) : Option Err :=
  match byID c store s id with
  | .error err => some err
  | .ok existing =>
    match Filter c (conditionsOnly c.query) (.object existing) with
    | some .nil => some (NewAPIError NotFound ("failed to find " ++ id))
    | some (.object _) | some (.list _) | none => none

def Wrap : Store σ where
  ByID s id := byID c store s id
  List s opts :=
    (store.List s { opts with conditions := opts.conditions ++ c.query }).bind (FilterList c)
  Create s data := store.Create s (fill c.attributes data)
  Update s data id :=
    match validateGet c store s id with
    | some err => (s, .error err)
    | none =>
      let r := store.Update s data id
      (r.1, r.2.map (FilterObject c (conditionsOnly c.query)))
  Delete s id :=
    match validateGet c store s id with
    | some err => (s, .error err)
    | none => store.Delete s id

end Wrapper

section Serve

inductive Request where
  | ByID (id : String)
  | List (opts : QueryOptions)
  | Create (data : Obj)
  | Update (data : Obj) (id : String)
  | Delete (id : String)

/-- What was answered to a request. -/
inductive Reply where
  | object (request : Request) (answer : Except Err Obj)
  | list (opts : QueryOptions) (answer : Answer)

/-- One request, to a store. -/
def serve {σ : Type} (store : Store σ) (s : σ) : Request → Option (σ × List Reply)
  | .ByID id => some (s, [.object (.ByID id) (store.ByID s id)])
  | .List opts => some (s, [.list opts (store.List s opts)])
  | .Create data => some ((store.Create s data).1, [.object (.Create data) (store.Create s data).2])
  | .Update data id =>
    some ((store.Update s data id).1, [.object (.Update data id) (store.Update s data id).2])
  | .Delete id => some ((store.Delete s id).1, [.object (.Delete id) (store.Delete s id).2])

end Serve

end Norman.StoreWrapper
