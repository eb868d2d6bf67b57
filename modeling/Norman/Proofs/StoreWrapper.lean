import Norman.Lib.Run
import Norman.Proofs.Order
import Norman.StoreWrapper

/-!
# What a sub-context confines

Through the wrapper a request under a sub-context is only shown objects of that sub-context, by
`ByID`, by `List` and by `Update` (`reads_confined`). What it changes is not confined: `validateGet`
compares with nil what is a nil map in an `interface{}`, and that is not nil, so it finds nothing
wrong with an object of another sub-context. The states after any requests are those of a store that
is asked directly, but for ids it has an error for (`writes_unconfined`).
-/

namespace Norman.StoreWrapper

open Norman.Types Norman.Handler Httperror

variable {σ : Type} (c : Context) (store : Store σ)

/-- The options that the store leaves have the conditions it was given. -/
def Store.KeepsConditions : Prop :=
  ∀ {s o r o'}, store.List s o = some (r, o') → o.conditions ⊆ o'.conditions

/-- The object is one of the sub-context. -/
def Context.Admits (item : Doc) : Prop :=
  ∀ condition ∈ c.query, condition.Valid c.env.toEnv c.schema item = true

section Filter

/-- Of a single object the filter looks at the conditions alone. -/
theorem FilterObject_eq (conditions : List QueryCondition) (obj : Obj) :
    FilterObject c (conditionsOnly conditions) obj
      = if conditions.all fun condition => condition.Valid c.env.toEnv c.schema (obj.getD [])
        then obj else none := by
  unfold FilterObject ApplyQueryOptions ApplyQueryConditions ApplySort ApplyPagination
  simp only [conditionsOnly, List.filter_cons, List.filter_nil]
  split_ifs with h
  · rw [List.perm_singleton.1 (c.env.sortSlice_perm _ [obj.getD []])]
  · rw [List.perm_nil.1 (c.env.sortSlice_perm _ [])]

theorem admits_of_FilterObject {obj : Obj} {item : Doc}
    (h : FilterObject c (conditionsOnly c.query) obj = some item) : c.Admits item := by
  rw [FilterObject_eq] at h
  split_ifs at h with hall
  subst h
  exact List.all_eq_true.1 hall

/-- A page is made of items of the list. -/
theorem mem_of_ApplyPagination {pagination pagination' : Option Pagination} {data page : List Doc}
    (h : ApplyPagination pagination data = some (page, pagination')) : page ⊆ data := by
  unfold ApplyPagination at h
  split at h
  · cases h
    exact List.Subset.refl _
  · split at h
    · cases h
      exact List.Subset.refl _
    · dsimp only at h
      split_ifs at h
      · cases h
        exact List.Subset.refl _
      · cases h
        exact List.Subset.trans (List.drop_subset _ _) (List.take_subset _ _)

theorem valid_of_ApplyQueryOptions {opts : QueryOptions} {data page : List Doc}
    {pagination : Option Pagination}
    (h : ApplyQueryOptions c.env opts c.schema data = some (page, pagination)) {item : Doc}
    (hitem : item ∈ page) {condition : QueryCondition} (hc : condition ∈ opts.conditions) :
    condition.Valid c.env.toEnv c.schema item = true := by
  have hsorted := (c.env.sortSlice_perm _ _).subset (mem_of_ApplyPagination h hitem)
  exact List.all_eq_true.1 (List.mem_filter.1 hsorted).2 condition hc

end Filter

section Reads

/-- A reply to a request to read or to update shows objects of the sub-context only. -/
def Reply.Confined (c : Context) : Reply → Prop
  | .object (.ByID _) answer => ∀ item, answer = .ok (some item) → c.Admits item
  | .object (.Update _ _) answer => ∀ item, answer = .ok (some item) → c.Admits item
  | .list _ answer => ∀ data opts, answer = some (.ok data, opts) → ∀ item ∈ data, c.Admits item
  | .object (.Create _) _ | .object (.Delete _) _ | .object (.List _) _ => True

theorem admits_of_map {answer : Except Err Obj} {item : Doc}
    (h : answer.map (FilterObject c (conditionsOnly c.query)) = .ok (some item)) :
    c.Admits item := by
  cases answer with
  | error err => cases h
  | ok obj => exact admits_of_FilterObject c (Except.ok.inj h)

theorem Wrap_list_admits (hkeeps : store.KeepsConditions) {s : σ} {opts opts' : QueryOptions}
    {data : List Doc}
    (h : (Wrap c store).List s opts = some (.ok data, opts')) : ∀ item ∈ data, c.Admits item := by
  obtain ⟨⟨answer, o⟩, hlist, hfilter⟩ := Option.bind_eq_some_iff.1 h
  cases answer with
  | error err => cases hfilter
  | ok all =>
    obtain ⟨⟨page, pagination⟩, hpage, heq⟩ := Option.map_eq_some_iff.1 hfilter
    cases heq
    intro item hitem condition hc
    refine valid_of_ApplyQueryOptions c hpage hitem (hkeeps hlist ?_)
    exact List.mem_append_right _ hc

theorem serve_confined (hkeeps : store.KeepsConditions) {s s' : σ} {request : Request} {o : List Reply}
    (h : serve (Wrap c store) s request = some (s', o)) : ∀ reply ∈ o, reply.Confined c := by
  cases request with
  | ByID id =>
    cases h
    intro reply hreply
    rw [List.mem_singleton.1 hreply]
    exact fun item => admits_of_map c
  | List opts =>
    cases h
    intro reply hreply
    rw [List.mem_singleton.1 hreply]
    exact fun data opts' => Wrap_list_admits c store hkeeps
  | Create data =>
    cases h
    simp [Reply.Confined]
  | Update data id =>
    cases h
    intro reply hreply
    rw [List.mem_singleton.1 hreply]
    intro item hitem
    simp only [Wrap] at hitem
    split at hitem
    · cases hitem
    · exact admits_of_map c hitem
  | Delete id =>
    cases h
    simp [Reply.Confined]

/-- Whatever is asked of the wrapper, and whatever the store holds, the objects that are read or
come back from an update are those of the sub-context, if the store leaves the conditions in the
options. -/
theorem reads_confined (hkeeps : store.KeepsConditions) {s s' : σ} {requests : List Request} {replies : List Reply}
    (h : Run.exec (serve (Wrap c store)) s requests = some (s', replies)) :
    ∀ reply ∈ replies, reply.Confined c := by
  refine Run.exec_invariant (P := fun _ replies => ∀ reply ∈ replies, reply.Confined c) (by simp)
    (fun s w request s' o hw hstep => ?_) h
  exact List.forall_mem_append.2 ⟨hw, serve_confined c store hkeeps hstep⟩

end Reads

section Writes

variable {c store} in
/-- `validateGet` has the errors of the store, and no other. -/
theorem validateGet_eq_none {s : σ} {id : String} :
    validateGet c store s id = none ↔ (store.ByID s id).isOk = true := by
  unfold validateGet byID
  cases store.ByID s id with
  | error err => simp [Except.map, Except.isOk, Except.toBool]
  | ok obj => simp [Except.map, Except.isOk, Except.toBool, Filter]

/-- What a request does to a store that is asked directly, if it has no error for the id. -/
def direct (attributes : List (String × Value)) (s : σ) : Request → σ
  | .ByID _ | .List _ => s
  | .Create data => (store.Create s (fill attributes data)).1
  | .Update data id => if (store.ByID s id).isOk then (store.Update s data id).1 else s
  | .Delete id => if (store.ByID s id).isOk then (store.Delete s id).1 else s

theorem serve_direct (s : σ) (request : Request) :
    (serve (Wrap c store) s request).map Prod.fst
      = some (direct store c.attributes s request) := by
  cases request with
  | ByID id => rfl
  | List opts => rfl
  | Create data => rfl
  | Update data id =>
    simp only [serve, Wrap, direct, Option.map_some, Option.some.injEq]
    cases hv : validateGet c store s id with
    | none => rw [if_pos (validateGet_eq_none.1 hv)]
    | some err => rw [if_neg (mt (validateGet_eq_none (c := c)).2 (by simp [hv]))]
  | Delete id =>
    simp only [serve, Wrap, direct, Option.map_some, Option.some.injEq]
    cases hv : validateGet c store s id with
    | none => rw [if_pos (validateGet_eq_none.1 hv)]
    | some err => rw [if_neg (mt (validateGet_eq_none (c := c)).2 (by simp [hv]))]

/-- The conditions of the sub-context play no part in what requests do to the store: it is left as
by the same requests to the store itself, but for ids that it has an error for. -/
theorem writes_unconfined (requests : List Request) (s : σ) :
    (Run.exec (serve (Wrap c store)) s requests).map Prod.fst
      = some (requests.foldl (direct store c.attributes) s) := by
  induction requests generalizing s with
  | nil => rfl
  | cons request requests ih =>
    obtain ⟨⟨s', o⟩, hserve, hs'⟩ := Option.map_eq_some_iff.1 (serve_direct c store s request)
    obtain rfl : s' = direct store c.attributes s request := hs'
    simp only [Run.exec, hserve, Option.map_map, List.foldl_cons]
    exact ih _

end Writes

section Shelf

/-- A store that keeps its objects in a map. -/
def shelf : Store (SortedMap String Doc) where
  ByID s id := match s.get id with
    | none => .error (NewAPIError NotFound "failed to find resource by id")
    | some item => .ok (some item)
  List s opts := some (.ok (s.entries.map Prod.snd), opts)
  Create s data := (s, .ok data)
  Update s data id := (s.set id (data.getD []), .ok data)
  Delete s id := (s.erase id, .ok (s.get id))

theorem shelf_keepsConditions : shelf.KeepsConditions := by
  intro s o r o' h
  cases h
  exact List.Subset.refl _

/-- The sub-context of a project. -/
def inProject (project : String) : Context where
  env := plainHandler
  schema := Schemas.schemaOf "app" "1"
  query := [NewConditionFromString "projectId" .eq [project]]
  attributes := [("projectId", .str project)]

def appOf (project : String) : Doc := [("projectId", .str project)]

/-- An app of each of two projects. -/
def apps : SortedMap String Doc :=
  ((∅ : SortedMap String Doc).set "a" (appOf "p1")).set "b" (appOf "p2")

theorem apps_confined :
    ∃ s replies, Run.exec (serve (Wrap (inProject "p1") shelf)) apps
        [.ByID "b", .List (conditionsOnly []), .Update (some (appOf "p2")) "b"] = some (s, replies)
      ∧ ∀ reply ∈ replies, reply.Confined (inProject "p1") := by
  have hrun : Run.exec (serve (Wrap (inProject "p1") shelf)) apps
      [.ByID "b", .List (conditionsOnly []), .Update (some (appOf "p2")) "b"] = some (_, _) := rfl
  exact ⟨_, _, hrun, reads_confined (inProject "p1") shelf shelf_keepsConditions hrun⟩

-- an app of the other project is deleted
example : (Run.exec (serve (Wrap (inProject "p1") shelf)) apps [.Delete "b"]).map
    (fun r => r.1.get "b") = some none := by decide

end Shelf

end Norman.StoreWrapper
