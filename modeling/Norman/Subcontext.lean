import Norman.Query

/-!
# Sub-contexts

`parse/subcontext.go`: a request under a sub-context, such as a project, is about the objects of
that project only. The `DefaultSubContextAttributeProvider` looks for the field of a schema that
refers to the type of the sub-context; a list is filtered by that field, and a new object gets it
filled in.

The loops over `SubContext` and over the fields of the schema go through maps, in whatever order; so
does the one over the result. Each time a map is gone through, the order is another one.
-/

namespace Norman.Parse

open Norman.Types

/-- `convert.ToReference`. -/
def ToReference (typeName : String) : String := "reference[" ++ typeName ++ "]"

/-- What a request has for the provider: its registry and its `SubContext`. -/
structure SubContext where
  names : Types.Env
  schemas : Schemas
  subContext : SortedMap String String

/-- The orders in which one call goes through the maps: `SubContext`, for each sub-context the
fields of the schema, and what it made. -/
structure Order (c : SubContext) (schema : Schema) where
  subContext : List (String × String)
  fields : String → List (String × Field)
  result : SortedMap String String → List (String × String)
  subContext_perm : subContext.Perm c.subContext.entries
  fields_perm : ∀ id, (fields id).Perm schema.resourceFields.entries
  result_perm : ∀ m, (result m).Perm m.entries

namespace SubContext

variable (c : SubContext) (schema : Schema)

/-- The field refers to the type of the sub-context, in short or in full. -/
def refersTo (subContextSchema : Schema) (field : Field) : Bool :=
  field.type = ToReference subContextSchema.id
    || field.type = ToFullReference subContextSchema.version.path subContextSchema.id

/-- The schema of a sub-context. -/
def schemaOf (id : String) : Option Schema := c.schemas.doSchema c.names none id

variable {c schema} (o : Order c schema)

/-- One round of the loop of `create`. -/
def fill (result : SortedMap String String) (e : String × String) : SortedMap String String :=
  match c.schemaOf e.1 with
  | none => result
  | some subContextSchema =>
    match (o.fields e.1).find? fun f => refersTo subContextSchema f.2 with
    | none => result
    | some f => result.set f.1 e.2

def create : SortedMap String String := o.subContext.foldl (fill o) ∅

def Query : List QueryCondition :=
  (o.result (create o)).map fun e => NewConditionFromString e.1 .eq [e.2]

def Create : SortedMap String Value :=
  (o.result (create o)).foldl (fun result e => result.set e.1 (.str e.2)) ∅

end SubContext

end Norman.Parse
