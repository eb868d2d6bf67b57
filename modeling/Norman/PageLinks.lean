import Norman.Collection
import Norman.StoreWrapper

/-!
# The links of a collection

The links of `urlbuilder/url.go` that have a query, and `newCollection` of `api/writer/json.go`,
which writes them: to the other pages of the list, and to the list in another order. The query of a
link is that of the request with some settings changed, and its path is that of the request as it
was decoded. The request under a link is answered like any other, so that what a link leads to is
what `QueryOptions` reads in its query, if it is for the same path.

Of a collection only the links, the order and the page are here.
-/

namespace Norman.PageLinks

open Norman.Types Norman.Parse Norman.StoreWrapper Urlencode

section Urls

variable (requestURL : String) (query : Values)

def Marker (marker : String) : String :=
  requestURL ++ "?" ++ Encode (query.set "marker" [marker])

def ReverseSort (order : SortOrder) : String :=
  requestURL ++ "?" ++ Encode (((query.erase "order").erase "marker").set "order"
    [match order with | .asc => "desc" | .desc => "asc"])

/-- `Sort`. -/
def SortLink (field : String) : String :=
  requestURL ++ "?" ++ Encode (((query.erase "order").erase "marker").set "sort" [field])

end Urls

section Collection

structure Collection where
  self : String
  sort : SortBy
  reverse : String
  sortLinks : SortedMap String String
  pagination : Option Pagination

/-- Where there are other pages, their markers become links. -/
def pageLinks (marker : String → String) (p : Pagination) : Pagination :=
  let link (id : String) := if id ≠ "" then marker id else id
  if p.isPartial then
    { p with next := link p.next, previous := link p.previous, first := link p.first,
             last := link p.last }
  else p

/-- `newCollection`; `pagination` is `apiContext.Pagination`. -/
def newCollection (schema : Schema) (apiContext : APIContext) (pagination : Option Pagination) :
    Collection :=
  let requestURL := Urlbuilder.parseRequestURL apiContext.request
  let opts := QueryOptions schema apiContext pagination
  { self := requestURL
    sort := opts.sort
    reverse := ReverseSort requestURL apiContext.query opts.sort.order
    sortLinks := schema.collectionFilters.filterMap fun queryField _ =>
      match schema.resourceFields.get queryField with
      | some field =>
        if field.type = "string" ∨ field.type = "enum" then
          some (SortLink requestURL apiContext.query queryField)
        else none
      | none => none
    pagination := opts.pagination.map (pageLinks (Marker requestURL apiContext.query)) }

end Collection

section Client

/-- What stands before the path in the URL of a request. -/
def base (r : Request) : String :=
  let url := (Urlbuilder.parseRequestURL r).toList
  String.ofList (url.take (url.length - r.urlPath.toList.length))

/-- The request for a link, which comes by the same way: without the fragment, and with the path as
it is written, which the server decodes. -/
def followed (net : Net) (r : Request) (link : String) : Option Request :=
  let url := cut '?' (cut '#' link.toList).1
  if (base r).toList.isPrefixOf url.1 then
    let escapedPath := String.ofList (url.1.drop (base r).toList.length)
    (net.pathUnescape escapedPath).map fun urlPath =>
      { r with urlPath, escapedPath, query := ParseQuery (String.ofList url.2) }
  else none

variable {σ : Type} (net : Net) (c : Context) (store : Store σ) (s : σ) (apiContext : APIContext)

/-- What a request for the list is answered: `ListHandler` keeps the page in the context, where
`newCollection` finds it. An error or a panic is `none`. -/
def list (query : Values) : Option (List Doc × Collection) :=
  let apiContext := { apiContext with query }
  match (Wrap c store).List s (QueryOptions c.schema apiContext none) with
  | some (.ok data, opts) => some (data, newCollection c.schema apiContext opts.pagination)
  | some (.error _, _) | none => none

/-- A client that asks for the list, and then with `Next` for as long as there is a link, which has
to be one to the same path. What the provider gives for each of the requests is in `queries`. -/
def follow : (fuel : ℕ) → (queries : ℕ → List QueryCondition) →
    Values → Option (List (List Doc))
  | 0, _, _ => none
  | fuel + 1, queries, query =>
    (list { c with query := queries 0 } store s apiContext query).bind fun r =>
      match r.2.pagination with
      | none => some [r.1]
      | some p =>
        if p.next = "" then some [r.1]
        else (followed net apiContext.request p.next).bind fun request =>
          if request.escapedPath = apiContext.request.escapedPath then
            (follow fuel (fun n => queries (n + 1)) request.query).map (r.1 :: ·)
          else none

end Client

end Norman.PageLinks
