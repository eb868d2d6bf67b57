import Norman.Schemas

/-!
# Listing the schemas

`store/schema/schema_store.go`: the schemas of a version that the caller may list or get are listed,
and with them those their fields and actions lead to, each after those it leads to. A schema is
reported with the methods the caller may use.

The maps are gone through in any order (`Order`); as no schema is gone through twice, an order for
each schema says all. The access control is asked by `Access`, which says where it has no error.
Each schema that is added on the way to another takes a unit of fuel.
-/

namespace Norman.SchemaStore

open Norman.Types

/-- What the access control allows, for each schema. -/
structure Access where
  CanCreate : Schema → Bool
  CanList : Schema → Bool
  CanGet : Schema → Bool
  CanUpdate : Schema → Bool
  CanDelete : Schema → Bool

/-- The orders in which the maps are gone through. -/
structure Order where
  schemas : SortedMap String Schema → List Schema
  fields : Schema → List Field
  resourceActions : Schema → List Action
  collectionActions : Schema → List Action
  schemas_perm : ∀ m, (schemas m).Perm (m.entries.map Prod.snd)
  fields_perm : ∀ x, (fields x).Perm (x.resourceFields.entries.map Prod.snd)
  resourceActions_perm : ∀ x, (resourceActions x).Perm (x.resourceActions.entries.map Prod.snd)
  collectionActions_perm : ∀ x,
    (collectionActions x).Perm (x.collectionActions.entries.map Prod.snd)

/-- `modifyForAccessControl`. -/
def modifyForAccessControl (access : Access) (schema : Schema) : Schema :=
  { schema with
    resourceMethods :=
      (if "PUT" ∈ schema.resourceMethods ∧ access.CanUpdate schema then ["PUT"] else [])
        ++ (if "DELETE" ∈ schema.resourceMethods ∧ access.CanDelete schema then ["DELETE"] else [])
        ++ (if "GET" ∈ schema.resourceMethods ∧ access.CanGet schema then ["GET"] else [])
    collectionMethods :=
      (if "POST" ∈ schema.collectionMethods ∧ access.CanCreate schema then ["POST"] else [])
        ++ (if "GET" ∈ schema.collectionMethods ∧ access.CanList schema then ["GET"] else []) }

/-- The loop over the layers of a type: `t` is what it was, `subType` what it is. -/
def strip : ℕ → String → String → String
  | 0, t, _ => t
  | fuel + 1, t, subType => if subType = t then t else strip fuel subType (SubType subType)

/-- The name in the layers of a type; each round makes it shorter. -/
def innermost (fieldType : String) : String := strip (fieldType.length + 2) "" fieldType

/-- What is listed. -/
abbrev Listing := List Schema

/-- The schemas so far, and the ids of those that were included. -/
structure State where
  schemas : Listing
  included : List String

variable (access : Access) (order : Order) (schemaMap : SortedMap String Schema)

/-- A type that is met: its schema is added, if there is one and it is not included. -/
def addType (addSchema : Schema → State → Option State) (st : State) (t : String) : Option State :=
  match schemaMap.get t with
  | some refSchema => if t ∈ st.included then some st else addSchema refSchema st
  | none => some st

/-- The types of an action. -/
def addAction (addSchema : Schema → State → Option State) (st : State) (action : Action) :
    Option State :=
  [action.output, action.input].foldlM
    (fun st t => if t = "" then some st else addType schemaMap addSchema st t) st

def traverseAndAdd (addSchema : Schema → State → Option State) (schema : Schema) (st : State) :
    Option State :=
  ((order.fields schema).foldlM
      (fun st field => addType schemaMap addSchema st (innermost field.type)) st).bind fun st =>
    ((order.resourceActions schema).foldlM (addAction schemaMap addSchema) st).bind fun st =>
      (order.collectionActions schema).foldlM (addAction schemaMap addSchema) st

/-- `addSchema`, with `traverseAndAdd`. -/
def addSchema : ℕ → Schema → State → Option State
  | 0, _, _ => none
  | fuel + 1, schema, st =>
    (traverseAndAdd order schemaMap (addSchema fuel) schema
      { st with included := schema.id :: st.included }).map
      fun st => { st with schemas := st.schemas ++ [modifyForAccessControl access schema] }

/-- The schemas that are listed. -/
def Store.List (fuel : ℕ) (s : Schemas) (version : APIVersion) : Option Listing :=
  let schemaMap := s.SchemasForVersion version
  ((order.schemas schemaMap).foldlM (fun st schema =>
    if schema.id ∈ st.included then some st
    else if access.CanList schema ∨ access.CanGet schema then
      addSchema access order schemaMap fuel schema st
    else some st) ⟨[], []⟩).map State.schemas

end Norman.SchemaStore
