import Norman.PageLinks
import Norman.Proofs.Mediation
import Norman.Proofs.Paging
import Norman.Proofs.Paths
import Norman.Proofs.StoreWrapper
import Norman.Proofs.Wrapped

/-!
# Following the links of a collection

A link is read as the query it was made of and the path of the request, if nothing in the path is
escaped (`followed_link`). The settings that the links change are no conditions, if the schema has
no filters of these names, so the link to the next page is a request for the same list with another
marker (`At`), and following the links is `visits` of that list.
-/

namespace Norman.PageLinks

open Norman.Types Norman.Parse Norman.Handler Norman.StoreWrapper Urlencode

section Link

/-- A request whose path has nothing escaped, and with no mark before the path that ends a path. -/
structure Straight (r : Request) : Prop where
  path : r.escapedPath = r.urlPath
  keeps : ∀ c ∈ r.urlPath.toList, c = '/' ∨ keeps c = true
  base : ∀ c ∈ (PageLinks.base r).toList, c ≠ '?' ∧ c ≠ '#'

theorem parseRequestURL_eq (r : Request) : Urlbuilder.parseRequestURL r = base r ++ r.urlPath := by
  obtain ⟨b, hb⟩ := Urlbuilder.requestURL_ends r
  simp [base, hb]

variable {net : Net} {r : Request} {q : Values}

theorem Straight.not_mem (hr : Straight r) {c : Char} (hc : c = '?' ∨ c = '#') :
    c ∉ (PageLinks.base r).toList ++ r.urlPath.toList := by
  rw [List.mem_append, not_or]
  refine ⟨fun h => ?_, fun h => ?_⟩
  · have hne := hr.base c h
    exact hc.elim hne.1 hne.2
  · rcases hr.keeps c h with rfl | hkeeps
    · simp at hc
    · revert hkeeps
      rcases hc with rfl | rfl <;> decide

theorem Straight.percent (hr : Straight r) : '%' ∉ r.urlPath.toList := by
  intro h
  have hkeeps := hr.keeps '%' h
  revert hkeeps
  decide

/-- The request for a link is the one that was answered, with the query of the link. -/
theorem followed_link (hr : Straight r) (hq : ∀ key, q.get key ≠ some []) :
    followed net r (Urlbuilder.parseRequestURL r ++ "?" ++ Encode q)
      = some { r with query := q } := by
  have hmark : "?".toList = ['?'] := rfl
  have htext : (Urlbuilder.parseRequestURL r ++ "?" ++ Encode q).toList
      = ((base r).toList ++ r.urlPath.toList) ++ '?' :: (Encode q).toList := by
    rw [parseRequestURL_eq, String.toList_append, String.toList_append, String.toList_append, hmark,
      List.append_assoc, List.singleton_append]
  have hhash : '#' ∉ ((base r).toList ++ r.urlPath.toList) ++ '?' :: (Encode q).toList := by
    rw [List.mem_append, List.mem_cons, not_or, not_or]
    exact ⟨hr.not_mem (.inr rfl), by decide, not_mem_Encode q (by decide) (by decide) (by decide)⟩
  have hprefix : (base r).toList.isPrefixOf ((base r).toList ++ r.urlPath.toList) = true :=
    List.isPrefixOf_iff_prefix.2 (List.prefix_append _ _)
  simp only [followed, htext, cut_of_not_mem hhash, cut_append (hr.not_mem (.inl rfl)), hprefix,
    if_true, List.drop_left, String.ofList_toList, net.pathUnescape_plain _ hr.percent,
    Option.map_some, ParseQuery_Encode hq]
  rw [← hr.path]

end Link

section Query

variable {schema : Schema} {apiContext : APIContext} {q q' : Values}

theorem ne_of_set {key : String} {v : String} (hq : ∀ key, q.get key ≠ some []) (k : String) :
    (q.set key [v]).get k ≠ some [] := by
  rw [SortedMap.get_set]
  split_ifs
  · simp
  · exact hq k

theorem ne_of_erase {key : String} (hq : ∀ key, q.get key ≠ some []) (k : String) :
    (q.erase key).get k ≠ some [] := by
  rw [SortedMap.get_erase]
  split_ifs
  · simp
  · exact hq k

theorem filtersOf_eq_nil {key : String} (hname : (parseNameAndOp key).1 = key)
    (hfree : schema.collectionFilters.get key = none) (values : List String) :
    filtersOf schema key values = [] := by
  simp only [filtersOf, hname, hfree]

/-- Settings that are no conditions make no difference to the conditions. -/
theorem mem_parseFilters_iff {keys : List String}
    (hkeys : ∀ key ∈ keys, ∀ values, filtersOf schema key values = [])
    (h : ∀ key ∉ keys, q.get key = q'.get key) (cond : QueryCondition) :
    cond ∈ parseFilters schema q ↔ cond ∈ parseFilters schema q' := by
  simp only [parseFilters, List.mem_flatMap, Prod.exists, SortedMap.mem_entries]
  refine exists_congr fun key => exists_congr fun values => ?_
  by_cases hkey : key ∈ keys
  · simp [hkeys key hkey]
  · rw [h key hkey]

theorem limit_le (apiContext : APIContext) : ∃ limit : ℕ,
    (parsePagination apiContext none).limit = some (limit : Int) ∧ limit ≤ 10000 := by
  unfold parsePagination
  by_cases hnone : queryGet apiContext.query "limit" = ""
  · exact ⟨1000, by simp [hnone, defaultLimit], by omega⟩
  · cases hparse : Strconv.ParseInt (queryGet apiContext.query "limit") with
    | error err => exact ⟨1000, by simp [hnone, hparse, defaultLimit], by omega⟩
    | ok n =>
      simp only [hnone, if_false, hparse, maxLimit]
      by_cases hmax : n > 10000 ∨ n = -1
      · exact ⟨10000, by simp [if_pos hmax], le_rfl⟩
      · rw [if_neg hmax]
        by_cases hpos : n ≥ 0
        · exact ⟨n.toNat, by simp [if_pos hpos, Int.toNat_of_nonneg hpos], by omega⟩
        · exact ⟨1000, by simp [if_neg hpos, defaultLimit], by omega⟩

/-- A query that asks for the same list as another one, from a marker on. -/
structure At (query : Values) (marker : String) (q : Values) : Prop where
  same : ∀ key ≠ "marker", q.get key = query.get key
  marker : queryGet q "marker" = marker
  full : ∀ key, q.get key ≠ some []

theorem At.next {query : Values} {m : String} (h : At query m q) (m' : String) :
    At query m' (q.set "marker" [m']) where
  same key hkey := by rw [SortedMap.get_set, if_neg hkey, h.same key hkey]
  marker := by simp [queryGet]
  full := ne_of_set h.full

theorem queryGet_congr {key : String} (h : q.get key = q'.get key) :
    queryGet q key = queryGet q' key := by
  rw [queryGet, h, queryGet]

end Query

section Pages

variable {σ : Type} {net : Net} {c : Context} {store : Store σ} {s : σ} {apiContext : APIContext}
  {data : List Doc} {m : String} {q : Values}

theorem parsePagination_marker (hlimit : q.get "limit" = apiContext.query.get "limit")
    (hmarker : queryGet q "marker" = m) :
    parsePagination { apiContext with query := q } none
      = { parsePagination apiContext none with marker := m } := by
  simp only [parsePagination, queryGet_congr hlimit, hmarker]
  split_ifs
  · rfl
  · split
    · rfl
    · split_ifs <;> rfl

/-- What a request for the list asks for, before it is cut into pages. -/
def items (c : Context) (apiContext : APIContext) (data : List Doc) : List Doc :=
  ApplySort c.env (parseSort c.schema apiContext)
    (ApplyQueryConditions c.env (parseFilters c.schema apiContext.query ++ c.query) c.schema data)

/-- With a limit, there is a page or a panic, and a list with a next page is not all on one. -/
theorem applyPagination_cases (data : List Doc) {p : Pagination} {limit : Int}
    (hl : p.limit = some limit) :
    ApplyPagination (some p) data = none ∨ ∃ page p',
      ApplyPagination (some p) data = some (page, some p')
        ∧ (p'.next ≠ "" → p'.isPartial = true) := by
  simp only [ApplyPagination, hl]
  split_ifs
  · exact .inr ⟨_, _, rfl, fun h => absurd rfl h⟩
  · exact .inl rfl
  · refine .inr ⟨_, _, rfl, fun h => ?_⟩
    simp only [describe, ne_eq, ite_eq_right_iff, not_forall] at h
    obtain ⟨hnext, -⟩ := h
    simp [describe, hnext.2]

theorem pageLinks_next {marker : String → String} {p : Pagination}
    (h : p.next ≠ "" → p.isPartial = true) :
    (pageLinks marker p).next = if p.next = "" then "" else marker p.next := by
  by_cases hnext : p.next = ""
  · simp only [pageLinks, hnext, ne_eq, not_true, if_false, if_true]
    split_ifs <;> simp [hnext]
  · simp [pageLinks, hnext, h hnext]

section Assumptions

variable (hlist : ∀ opts, store.List s opts = some (.ok data, opts))
  (hget : apiContext.request.method = "GET")
  (hurl : Straight apiContext.request)
  (hfree : c.schema.collectionFilters.get "marker" = none)
include hlist hget hfree

/-- The provider may give the conditions in another order. -/
theorem list_at (h : At apiContext.query m q) {query : List QueryCondition}
    (hquery : ∀ cond, cond ∈ query ↔ cond ∈ c.query) :
    list { c with query } store s apiContext q
      = (ApplyPagination (some { parsePagination apiContext none with marker := m })
          (items c apiContext data)).map
        fun r => (r.1, newCollection c.schema { apiContext with query := q } r.2) := by
  have hconditions : ApplyQueryConditions c.env (parseFilters c.schema q ++ query) c.schema data
      = ApplyQueryConditions c.env (parseFilters c.schema apiContext.query ++ c.query) c.schema
        data := by
    refine ApplyQueryConditions_congr c (fun cond => ?_) data
    have hkeys : ∀ key ∈ ["marker"], ∀ values, filtersOf c.schema key values = [] := by
      intro key hkey
      rw [List.mem_singleton.1 hkey]
      exact filtersOf_eq_nil (by decide) hfree
    have hsame : ∀ key ∉ ["marker"], q.get key = apiContext.query.get key := fun key hkey =>
      h.same key (by simpa using hkey)
    simp only [List.mem_append]
    exact or_congr (mem_parseFilters_iff hkeys hsame cond) (hquery cond)
  have hsort : parseSort c.schema { apiContext with query := q }
      = parseSort c.schema apiContext := by
    simp only [parseSort, parseOrder, queryGet_congr (h.same "sort" (by decide)),
      queryGet_congr (h.same "order" (by decide))]
  have hopts : Parse.QueryOptions c.schema { apiContext with query := q } none
      = { sort := parseSort c.schema apiContext
          pagination := some { parsePagination apiContext none with marker := m }
          conditions := parseFilters c.schema q } := by
    simp only [Parse.QueryOptions, hget, hsort, ne_eq, not_true, if_false,
      parsePagination_marker (h.same "limit" (by decide)) h.marker]
  simp only [list, hopts, Wrap, hlist, Option.bind_some, FilterList, ApplyQueryOptions,
    hconditions, items]
  cases ApplyPagination _ _ <;> rfl

include hurl in
/-- Following the links is going from marker to marker. -/
theorem follow_eq : ∀ (fuel : ℕ) {m : String} {q : Values}
    {queries : ℕ → List QueryCondition}, At apiContext.query m q →
    (∀ n cond, cond ∈ queries n ↔ cond ∈ c.query) →
    follow net c store s apiContext fuel queries q
      = (visits (parsePagination apiContext none) (items c apiContext data) fuel m).map
        (List.map Prod.fst)
  | 0, _, _, _, _, _ => rfl
  | fuel + 1, m, q, queries, h, hqueries => by
    obtain ⟨limit, hl, -⟩ := limit_le apiContext
    rw [follow, visits, list_at hlist hget hfree h (hqueries 0)]
    rcases applyPagination_cases (items c apiContext data)
      (p := { parsePagination apiContext none with marker := m }) hl with
      hnone | ⟨page, p', hpage, hpart⟩
    · rw [hnone]
      rfl
    · have hkept : (newCollection c.schema { apiContext with query := q } (some p')).pagination
          = some (pageLinks
            (Marker (Urlbuilder.parseRequestURL apiContext.request) q) p') := by
        simp [newCollection, Parse.QueryOptions, hget, parsePagination]
      simp only [hpage, Option.map_some, Option.bind_some, hkept, pageLinks_next hpart]
      by_cases hnext : p'.next = ""
      · simp [hnext]
      · have hlink : Marker (Urlbuilder.parseRequestURL apiContext.request) q p'.next ≠ "" := by
          simp [Marker]
        have hq := h.next p'.next
        simp only [hnext, if_false, hlink]
        rw [Marker, followed_link hurl hq.full, Option.bind_some, if_pos rfl,
          follow_eq fuel hq fun n => hqueries (n + 1), Option.map_map, Option.map_map]
        rfl

end Assumptions

end Pages

section Order

variable {net : Net} {schema : Schema} {apiContext : APIContext}

/-- A link leads to the first page of the same list in another order: the request for it has the
same path, and asks for the same but for the order and the page. -/
def Leads (net : Net) (schema : Schema) (apiContext : APIContext) (link : String) (sort : SortBy) :
    Prop :=
  ∃ request, followed net apiContext.request link = some request
    ∧ request.escapedPath = apiContext.request.escapedPath
    ∧ Same (Parse.QueryOptions schema { apiContext with query := request.query } none)
      { Parse.QueryOptions schema apiContext none with
        sort, pagination := some { parsePagination apiContext none with marker := "" } }

theorem leads_of {key value : String} {sort : SortBy}
    (hget : apiContext.request.method = "GET") (hurl : Straight apiContext.request)
    (hfree : ∀ key ∈ ["marker", "order", "sort"], schema.collectionFilters.get key = none)
    (hfull : ∀ key, apiContext.query.get key ≠ some []) (hkey : key ∈ ["order", "sort"])
    (hsort : parseSort schema { apiContext with
        query := ((apiContext.query.erase "order").erase "marker").set key [value] } = sort) :
    Leads net schema apiContext (Urlbuilder.parseRequestURL apiContext.request ++ "?"
      ++ Encode (((apiContext.query.erase "order").erase "marker").set key [value])) sort := by
  have hkeys : ∀ key ∈ ["marker", "order", "sort"], ∀ values, filtersOf schema key values = [] := by
    intro key hkey
    refine filtersOf_eq_nil ?_ (hfree key hkey)
    revert key
    decide
  have hsame : ∀ k ∉ ["marker", "order", "sort"],
      (((apiContext.query.erase "order").erase "marker").set key [value]).get k
        = apiContext.query.get k := by
    intro k hk
    have hne : k ≠ key := fun heq => hk (List.mem_cons_of_mem _ (heq ▸ hkey))
    simp only [List.mem_cons, List.not_mem_nil, or_false, not_or] at hk
    simp [SortedMap.get_set, SortedMap.get_erase, hne, hk]
  have hmarker : queryGet (((apiContext.query.erase "order").erase "marker").set key [value])
      "marker" = "" := by
    have hne : "marker" ≠ key := by
      rintro rfl
      revert hkey
      decide
    simp [queryGet, SortedMap.get_set, hne]
  refine ⟨_, followed_link hurl (ne_of_set (ne_of_erase (ne_of_erase hfull))), rfl, ?_⟩
  simp only [Parse.QueryOptions, hget, ne_eq, not_true, if_false, hsort,
    parsePagination_marker (hsame "limit" (by decide)) hmarker]
  exact ⟨rfl, rfl, mem_parseFilters_iff hkeys hsame, rfl, rfl⟩

/-- Each link to another order leads to the first page of the list by the field it is for, and the
link to the reverse to that of the list backwards, under the same conditions. -/
theorem sort_links_lead (net : Net) (schema : Schema) (apiContext : APIContext)
    (pagination : Option Pagination) (hget : apiContext.request.method = "GET")
    (hurl : Straight apiContext.request)
    (hfree : ∀ key ∈ ["marker", "order", "sort"], schema.collectionFilters.get key = none)
    (hfull : ∀ key, apiContext.query.get key ≠ some []) :
    (∀ field link, (newCollection schema apiContext pagination).sortLinks.get field = some link →
        Leads net schema apiContext link { name := field, order := .asc })
      ∧ Leads net schema apiContext (newCollection schema apiContext pagination).reverse
        { name := (parseSort schema apiContext).name
          order := if (parseSort schema apiContext).order = .asc then .desc else .asc } := by
  constructor
  · intro field link hlink
    simp only [newCollection, SortedMap.get_filterMap, Option.bind_eq_some_iff] at hlink
    obtain ⟨modifiers, hfilter, hlink⟩ := hlink
    split at hlink
    · obtain rfl := Option.some.inj (Option.ite_none_right_eq_some.1 hlink).2
      refine leads_of hget hurl hfree hfull (by decide) ?_
      simp [parseSort, parseOrder, queryGet, SortedMap.get_set, SortedMap.get_erase, hfilter]
    · cases hlink
  · refine leads_of hget hurl hfree hfull (by decide) ?_
    have hname : ∀ v : String, queryGet (((apiContext.query.erase "order").erase "marker").set
        "order" [v]) "sort" = queryGet apiContext.query "sort" := fun v =>
      queryGet_congr (by simp [SortedMap.get_set, SortedMap.get_erase])
    have horder : ∀ v : String, queryGet (((apiContext.query.erase "order").erase "marker").set
        "order" [v]) "order" = v := fun v => by simp [queryGet]
    simp only [Parse.QueryOptions, hget, ne_eq, not_true, if_false, parseSort, parseOrder, hname,
      horder]
    by_cases hdesc : queryGet apiContext.query "order" = "desc" <;> simp [hdesc]

end Order

section Apps

/-- A request for the apps of a project, two on a page. -/
def appPages : APIContext where
  query := (∅ : Values).set "limit" ["2"]
  request := { host := "host", urlPath := "/v1/apps", escapedPath := "/v1/apps" }

theorem appPages_straight : Straight appPages.request := by
  have hpath : appPages.request.urlPath.toList.all (fun c => c = '/' ∨ keeps c) := by decide
  have hbase : (base appPages.request).toList.all (fun c => c ≠ '?' ∧ c ≠ '#') := by decide
  rw [List.all_eq_true] at hpath hbase
  exact ⟨rfl, fun c hc => by simpa using hpath c hc, fun c hc => by simpa using hbase c hc⟩

theorem appPages_full (key : String) : appPages.query.get key ≠ some [] :=
  ne_of_set (by simp) key

def appNamed (id : String) : Doc := [("id", .str id), ("projectId", .str "p1")]

def threeApps : SortedMap String Doc :=
  (((∅ : SortedMap String Doc).set "a" (appNamed "a")).set "b" (appNamed "b")).set "c"
    (appNamed "c")

/-- Apps that can be asked for by name. -/
def namedApps : Schema :=
  { Schemas.schemaOf "app" "1" with
    resourceFields := (∅ : SortedMap String Field).set "name" { type := "string" }
    collectionFilters := (∅ : SortedMap String (List String)).set "name" ["eq"] }

theorem namedApps_lead :
    (newCollection namedApps appPages none).sortLinks.get "name"
        = some "http://host/v1/apps?limit=2&sort=name"
      ∧ Leads Api.plainNet namedApps appPages "http://host/v1/apps?limit=2&sort=name"
        { name := "name", order := .asc } := by
  have hlink : (newCollection namedApps appPages none).sortLinks.get "name"
      = some "http://host/v1/apps?limit=2&sort=name" := by decide +kernel
  exact ⟨hlink, (sort_links_lead Api.plainNet namedApps appPages none rfl appPages_straight (by decide)
    appPages_full).1 _ _ hlink⟩

end Apps

end Norman.PageLinks
