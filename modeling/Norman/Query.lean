import Norman.Convert
import Norman.Schemas

/-!
# Queries

`types/condition.go` and `api/handler/query.go`: what a request asks of a list is applied to it,
first the conditions, then the order, then the page. The page is written down in the `Pagination` of
the query, which the caller keeps.

A slice expression whose bounds are out of order panics, which is `none`. An `int64` is an `Int`
that wraps around where it can.
-/

namespace Norman.Types

open Norman.Convert

section Condition

/-- The modifiers that `mods` knows. -/
inductive ModifierType where
  | eq
  | ne
  | null
  | notNull
  | isIn
  | notIn
  | or
  | and
  deriving DecidableEq

/-- `mods`, by the names of the modifiers. -/
def mods : List (String × ModifierType) :=
  [("eq", .eq), ("ne", .ne), ("null", .null), ("notnull", .notNull), ("in", .isIn),
    ("notin", .notIn), ("or", .or), ("and", .and)]

/-- `QueryCondition`; one whose modifier is unknown has no type. -/
inductive QueryCondition where
  | mk (field value : String) (values : List String) (conditionType : Option ModifierType)
      (left right : Option QueryCondition)

/-- `NewConditionFromString`, with a modifier that is known. -/
def NewConditionFromString (field : String) (mod : ModifierType) (values : List String) :
    QueryCondition :=
  .mk field (values.headD "") values (some mod) none none

variable (env : Convert.Env) (schema : Schema) (data : Doc)

/-- `valueOrDefault`, of a field. -/
def valueOrDefault (field : String) : Value :=
  let value := (Assoc.get field data).getD .nil
  if value = .nil then ((schema.resourceFields.get field).map Field.default).getD .nil else value

def QueryCondition.Valid : QueryCondition → Bool
  | .mk _ _ _ (some .and) (some left) (some right) => left.Valid && right.Valid
  | .mk _ _ _ (some .or) (some left) (some right) => left.Valid || right.Valid
  | .mk field value _ (some .eq) _ _ => value = ToString env (valueOrDefault schema data field)
  | .mk field value _ (some .ne) _ _ => value ≠ ToString env (valueOrDefault schema data field)
  | .mk field _ values (some .isIn) _ _ => ToString env (valueOrDefault schema data field) ∈ values
  | .mk field _ values (some .notIn) _ _ => ToString env (valueOrDefault schema data field) ∉ values
  | .mk field _ _ (some .notNull) _ _ => ToString env (valueOrDefault schema data field) ≠ ""
  | .mk field _ _ (some .null) _ _ => ToString env (valueOrDefault schema data field) = ""
  | _ => false

end Condition

section Options

inductive SortOrder where
  | asc
  | desc
  deriving DecidableEq

/-- `types.Sort`. -/
structure SortBy where
  name : String
  order : SortOrder
  deriving DecidableEq

structure Pagination where
  marker : String := ""
  first : String := ""
  previous : String := ""
  next : String := ""
  last : String := ""
  limit : Option Int := none
  total : Option Int := none
  isPartial : Bool := false
  deriving DecidableEq

structure QueryOptions where
  sort : SortBy
  pagination : Option Pagination
  conditions : List QueryCondition
  options : List (String × String) := []
  namespaces : Option (List String) := none

end Options

end Norman.Types

namespace Norman.Handler

open Norman.Types Norman.Convert

/-- What the filter calls: the conversions, and `sort.Slice`, which puts the elements in some order
by `less`. -/
structure Env extends Convert.Env where
  sortSlice : (Doc → Doc → Bool) → List Doc → List Doc
  sortSlice_perm : ∀ less l, (sortSlice less l).Perm l

variable (env : Env)

def ApplyQueryConditions (conditions : List QueryCondition) (schema : Schema) (data : List Doc) :
    List Doc :=
  data.filter fun item => conditions.all fun condition => condition.Valid env.toEnv schema item

/-- The order of `ApplySort`. -/
def less (sortOpts : SortBy) (a b : Doc) : Bool :=
  let name := if sortOpts.name = "" then "id" else sortOpts.name
  let text (item : Doc) := ToString env.toEnv ((Assoc.get name item).getD .nil)
  match sortOpts.order with
  | .asc => text a < text b
  | .desc => text b < text a

def ApplySort (sortOpts : SortBy) (data : List Doc) : List Doc :=
  env.sortSlice (less env sortOpts) data

section Pagination

/-- `item["id"].(string)`. -/
def itemID (item : Doc) : String :=
  match Assoc.get "id" item with
  | some (.str id) => id
  | _ => ""

/-- The sum of two `int64`. -/
def addInt64 (a b : Int) : Int := (a + b).bmod (2 ^ 64)

/-- Where the page starts: at the marker, if it is the id of an item. -/
def startIndex (marker : String) (data : List Doc) : ℕ :=
  if marker = "" then 0 else (data.findIdx? fun item => itemID item = marker).getD 0

/-- Where the page ends. -/
def nextIndex (limit : Int) (start : ℕ) (data : List Doc) : Int :=
  min (addInt64 start limit) data.length

/-- The page that starts at an index, as it is written down. -/
def describe (pagination : Pagination) (limit : Int) (start : ℕ) (data : List Doc) : Pagination :=
  let idAt (i : Int) := (data[i.toNat]?.map itemID).getD ""
  let previous := max ((start : Int) - limit) 0
  let next := nextIndex limit start data
  let isPartial := decide (0 < start ∨ next < data.length)
  let last := (data.length : Int) - limit
  { pagination with
    total := some data.length
    previous := if previous < start then idAt previous else ""
    next := if start < next ∧ next < data.length then idAt next else ""
    isPartial
    first := if isPartial then idAt 0 else ""
    last := if isPartial ∧ 0 < last ∧ last < data.length then idAt last else pagination.last }

def ApplyPagination (pagination : Option Pagination) (data : List Doc) :
    Option (List Doc × Option Pagination) :=
  match pagination with
  | none => some (data, none)
  | some pagination =>
    match pagination.limit with
    | none => some (data, some pagination)
    | some limit =>
      let limit := max limit 0
      if data = [] then
        some (data, some { pagination with
          next := "", previous := "", isPartial := false, total := some 0, first := "" })
      else
        let start := startIndex pagination.marker data
        let next := nextIndex limit start data
        if next < start then none
        else some ((data.take next.toNat).drop start, some (describe pagination limit start data))

/-- The difference of two `int64`. -/
def subInt64 (a b : Int) : Int := (a - b).bmod (2 ^ 64)

/-- `data[i]["id"].(string)`, which panics if there is no such index. -/
def idAtIndex (data : List Doc) (i : Int) : Option String :=
  if 0 ≤ i then data[i.toNat]?.map itemID else none

/-- The id at an index, where it is asked for. -/
def idWhere (asked : Bool) (data : List Doc) (i : Int) (otherwise : String) : Option String :=
  if asked then idAtIndex data i else some otherwise

/-- `data[low:high]`, which panics if these are no indexes of a part of it. -/
def sliceOf (data : List Doc) (low high : Int) : Option (List Doc) :=
  if 0 ≤ low ∧ low ≤ high ∧ high ≤ data.length then some ((data.take high.toNat).drop low.toNat)
  else none

/-- A page of a list that is not empty, index by index. -/
def pageOf (pagination : Pagination) (limit : Int) (data : List Doc) :
    Option (List Doc × Pagination) := do
  let total : Int := data.length
  let startIndex : Int := startIndex pagination.marker data
  let previousIndex := if subInt64 startIndex limit ≤ 0 then 0 else subInt64 startIndex limit
  let nextIndex := if addInt64 startIndex limit > total then total else addInt64 startIndex limit
  let previous ← idWhere (previousIndex < startIndex) data previousIndex ""
  let next ← idWhere (nextIndex > startIndex ∧ nextIndex < total) data nextIndex ""
  let isPartial := decide (startIndex > 0 ∨ nextIndex < total)
  let first ← idWhere isPartial data 0 ""
  let lastIndex := subInt64 total limit
  let last ←
    idWhere (isPartial ∧ lastIndex > 0 ∧ lastIndex < total) data lastIndex pagination.last
  let page ← sliceOf data startIndex nextIndex
  some (page, { pagination with total := some total, previous, next, isPartial, first, last })

/-- `ApplyPagination` with a limit, index by index. -/
def paginate (pagination : Pagination) (limit : Int) (data : List Doc) :
    Option (List Doc × Pagination) :=
  let limit := if limit < 0 then 0 else limit
  if data = [] then
    some (data, { pagination with
      next := "", previous := "", isPartial := false, total := some 0, first := "" })
  else pageOf pagination limit data

end Pagination

/-- `ApplyQueryOptions`, which is the `QueryFilter`. -/
def ApplyQueryOptions (options : QueryOptions) (schema : Schema) (data : List Doc) :
    Option (List Doc × Option Pagination) :=
  let data := ApplyQueryConditions env options.conditions schema data
  let data := ApplySort env options.sort data
  ApplyPagination options.pagination data

end Norman.Handler
