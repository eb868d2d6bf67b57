import Norman.Lib.Strconv
import Norman.Parse
import Norman.Query

/-!
# What a request asks of a collection

`parse/collection.go`: the order, the page and the conditions are read from the query of a request.
The name of a setting that is a condition is that of a field, and may end with an underscore and a
modifier.
-/

namespace Norman.Parse

open Norman.Types

variable (schema : Schema) (apiContext : APIContext)

section Order

def parseOrder : SortOrder :=
  if queryGet apiContext.query "order" = "desc" then .desc else .asc

def parseSort : SortBy :=
  let sortField := queryGet apiContext.query "sort"
  { order := parseOrder apiContext
    name := if (schema.collectionFilters.get sortField).isNone then "" else sortField }

end Order

section Page

def defaultLimit : Int := 1000

def maxLimit : Int := 10000

/-- `parsePagination`; `pagination` is `apiContext.Pagination`. -/
def parsePagination (pagination : Option Pagination) : Pagination :=
  match pagination with
  | some pagination => pagination
  | none =>
    let limit := queryGet apiContext.query "limit"
    let result : Pagination :=
      { limit := some defaultLimit, marker := queryGet apiContext.query "marker" }
    if limit = "" then result
    else
      match Strconv.ParseInt limit with
      | .error _ => result
      | .ok limitInt =>
        if limitInt > maxLimit ∨ limitInt = -1 then { result with limit := some maxLimit }
        else if limitInt ≥ 0 then { result with limit := some limitInt }
        else result

end Page

section Filters

/-- `parseNameAndOp`, which takes what stands behind the last underscore for a modifier. -/
def parseNameAndOp (value : String) : String × String :=
  match lastIndex value "_" with
  | some idx =>
    if 0 < idx then (upTo value idx, String.ofList (value.toList.drop (idx + 1)))
    else (value, "eq")
  | none => (value, "eq")

/-- The conditions of one setting of the query. -/
def filtersOf (key : String) (values : List String) : List QueryCondition :=
  let (name, op) := parseNameAndOp key
  match schema.collectionFilters.get name with
  | none => []
  | some modifiers => modifiers.filterMap fun mod =>
    if op ≠ mod then none
    else (mods.lookup op).map fun mod => NewConditionFromString name mod values

/-- `parseFilters`; the settings of a query are a map, and come in any order. -/
def parseFilters (query : SortedMap String (List String)) : List QueryCondition :=
  query.entries.flatMap fun setting => filtersOf schema setting.1 setting.2

end Filters

/-- `QueryOptions`; `pagination` is `apiContext.Pagination`. A request that is not a `GET` asks for
nothing. -/
def QueryOptions (pagination : Option Pagination) : Types.QueryOptions :=
  if apiContext.request.method ≠ "GET" then
    { sort := { name := "", order := .asc }, pagination := none, conditions := [] }
  else
    { sort := parseSort schema apiContext
      pagination := some (parsePagination apiContext pagination)
      conditions := parseFilters schema apiContext.query }

end Norman.Parse
