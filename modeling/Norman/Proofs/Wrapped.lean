import Norman.Lib.Strconv
import Norman.Proofs.Order
import Norman.StoreWrapper

/-!
# A store wrapped twice

`Server.setupDefaults` wraps the store of each schema that is added, and a schema that is embedded
is added again, with the store it has. The outer wrapper then filters, sorts and cuts what the inner
one has already cut to a page, and writes the page down again, with the length of the page for the
total. Each of the two asks the provider for the conditions of the sub-context.

Where the list is on one page, sorting it again changes nothing, and the provider gives the same
conditions each time, wrapping twice makes no difference.
-/

namespace Norman.StoreWrapper

open Norman.Types Norman.Handler Httperror

section Agree

/-- Options that ask for the same conditions, if more or less often. -/
structure Same (o o' : QueryOptions) : Prop where
  sort : o.sort = o'.sort
  pagination : o.pagination = o'.pagination
  conditions : ∀ c, c ∈ o.conditions ↔ c ∈ o'.conditions
  options : o.options = o'.options
  namespaces : o.namespaces = o'.namespaces

def Agree : Answer → Answer → Prop :=
  Option.Rel fun r r' => r.1 = r'.1 ∧ Same r.2 r'.2

/-- A store does not mind to be asked for a condition again. -/
def Repeats {σ : Type} (store : Store σ) : Prop :=
  ∀ s (o : QueryOptions) (again : List QueryCondition), again ⊆ o.conditions →
    Agree (store.List s o) (store.List s { o with conditions := o.conditions ++ again })

variable (c : Context)

theorem ApplyQueryConditions_congr {conditions conditions' : List QueryCondition}
    (h : ∀ c, c ∈ conditions ↔ c ∈ conditions') (data : List Doc) :
    ApplyQueryConditions c.env conditions c.schema data
      = ApplyQueryConditions c.env conditions' c.schema data := by
  unfold ApplyQueryConditions
  congr 1
  funext item
  rw [Bool.eq_iff_iff, List.all_eq_true, List.all_eq_true]
  exact ⟨fun hall c hc => hall c ((h c).2 hc), fun hall c hc => hall c ((h c).1 hc)⟩

theorem ApplyQueryOptions_congr {o o' : QueryOptions} (h : Same o o') (data : List Doc) :
    ApplyQueryOptions c.env o c.schema data = ApplyQueryOptions c.env o' c.schema data := by
  unfold ApplyQueryOptions
  rw [ApplyQueryConditions_congr c h.conditions, h.sort, h.pagination]

theorem filterList_agree {r r' : Except Err (List Doc) × QueryOptions} (h : r.1 = r'.1)
    (hs : Same r.2 r'.2) : Agree (FilterList c r) (FilterList c r') := by
  obtain ⟨answer, o⟩ := r
  obtain ⟨answer', o'⟩ := r'
  obtain rfl : answer = answer' := h
  cases answer with
  | error err => exact Option.Rel.some ⟨rfl, hs⟩
  | ok data =>
    simp only [FilterList, ApplyQueryOptions_congr c hs data]
    cases ApplyQueryOptions c.env o' c.schema data with
    | none => exact Option.Rel.none
    | some r =>
      exact Option.Rel.some
        ⟨rfl, ⟨hs.sort, rfl, hs.conditions, hs.options, hs.namespaces⟩⟩

theorem bind_agree {r r' : Answer} (h : Agree r r') :
    Agree (r.bind (FilterList c)) (r'.bind (FilterList c)) := by
  cases h with
  | none => exact Option.Rel.none
  | some h => exact filterList_agree c h.1 h.2

/-- The data of an answer, and the page as it is written down. -/
def shown (r : Except Err (List Doc) × QueryOptions) : Except Err (List Doc) × Option Pagination :=
  (r.1, r.2.pagination)

theorem Agree.shown_eq {r r' : Answer} (h : Agree r r') : r.map shown = r'.map shown := by
  cases h with
  | none => rfl
  | some h => simp [shown, h.1, h.2.pagination]

end Agree

section Page

/-- There are no pages, or the list is on one: it is not longer than the limit, and none of its
items is the one that the marker names. -/
def OnePage (pagination : Option Pagination) (data : List Doc) : Prop :=
  ∀ p ∈ pagination, ∀ limit ∈ p.limit, (data.length : Int) ≤ limit ∧ Strconv.FitsInt64 limit
    ∧ (p.marker ≠ "" → ∀ item ∈ data, itemID item ≠ p.marker)

variable {pagination : Option Pagination} {l data : List Doc}

theorem OnePage.subset (h : OnePage pagination data) (hsub : l ⊆ data)
    (hlen : l.length ≤ data.length) : OnePage pagination l := by
  intro p hp limit hlimit
  obtain ⟨hle, hmax, hmarker⟩ := h p hp limit hlimit
  exact ⟨by omega, hmax, fun hne item hitem => hmarker hne item (hsub hitem)⟩

/-- The only page has the whole list, and cut to the page again it is written down in the same
way. -/
theorem OnePage.again (h : OnePage pagination l) :
    ∃ p', ApplyPagination pagination l = some (l, p')
      ∧ ApplyPagination p' l = some (l, p') := by
  rcases pagination with _ | p
  · exact ⟨none, rfl, rfl⟩
  rcases hl : p.limit with _ | limit
  · exact ⟨some p, by simp [ApplyPagination, hl], by simp [ApplyPagination, hl]⟩
  by_cases hnil : l = []
  · simp [ApplyPagination, hl, hnil]
  obtain ⟨hle, hmax, hmarker⟩ := h p rfl limit hl
  have hstart : startIndex p.marker l = 0 := by
    unfold startIndex
    split_ifs with hne
    · rfl
    · rw [List.findIdx?_eq_none_iff.2 (by simpa using hmarker hne), Option.getD_none]
  have hnext : nextIndex (max limit 0) 0 l = l.length := by
    unfold nextIndex addInt64
    obtain ⟨-, hmax⟩ := hmax
    rw [Int.bmod_eq_of_le (by omega) (by omega)]
    omega
  have hpage : ∀ p' : Pagination, p'.limit = some limit → p'.marker = p.marker →
      ApplyPagination (some p') l = some (l, some (describe p' (max limit 0) 0 l)) := by
    intro p' hl' hm
    simp only [ApplyPagination, hl', hm, hstart, hnext, if_neg hnil]
    simp
  refine ⟨_, hpage p hl rfl, ?_⟩
  rw [hpage (describe p (max limit 0) 0 l) hl rfl]
  simp [describe, hnext]

end Page

section Twice

variable {σ : Type} (c : Context)

/-- The list is on one page, and no two of its items have the same text in the field by which it is
sorted. -/
structure Settled (o : QueryOptions) (data : List Doc) : Prop where
  page : OnePage o.pagination data
  texts : (data.map (sortText c.env.toEnv o.sort)).Nodup

variable {c}

/-- What was filtered is left as it is by the same filter. -/
theorem Settled.again {o : QueryOptions} {data : List Doc} (h : Settled c o data)
    (hsorts : Sorts c.env) :
    (FilterList c (.ok data, o)).bind (FilterList c) = FilterList c (.ok data, o) := by
  set kept := ApplyQueryConditions c.env o.conditions c.schema data with hkept
  have hsub : kept.Sublist data := List.filter_sublist
  have hperm : (ApplySort c.env o.sort kept).Perm kept := c.env.sortSlice_perm _ _
  have hsort : ApplySort c.env o.sort (ApplySort c.env o.sort kept)
      = ApplySort c.env o.sort kept :=
    orderFixed_of_nodup (h.texts.sublist (hsub.map _)) c.env rfl hsorts _ _ hperm (.refl _)
  have hcond : ApplyQueryConditions c.env o.conditions c.schema (ApplySort c.env o.sort kept)
      = ApplySort c.env o.sort kept :=
    List.filter_eq_self.2 fun item hitem => (List.mem_filter.1 (hperm.mem_iff.1 hitem)).2
  obtain ⟨p', honce, hagain⟩ := (h.page.subset (List.Subset.trans hperm.subset hsub.subset)
    (hperm.length_eq.trans_le hsub.length_le)).again
  have hfirst : FilterList c (.ok data, o)
      = some (.ok (ApplySort c.env o.sort kept), { o with pagination := p' }) := by
    simp only [FilterList, ApplyQueryOptions, ← hkept, honce, Option.map_some]
  rw [hfirst, Option.bind_some]
  simp only [FilterList, ApplyQueryOptions, hcond, hsort, hagain, Option.map_some]

variable (c)

/-- The request, when the provider gives these conditions. -/
def Context.asked (query : List QueryCondition) : Context := { c with query }

/-- Wrapped twice, the store gives the same, and leaves the page written down in the same way;
`outer` and `inner` are what the provider gives to the two wrappers. -/
def WrapsOnce (store : Store σ) (s : σ) (outer inner : List QueryCondition) (o : QueryOptions) :
    Prop :=
  ((Wrap (c.asked outer) (Wrap (c.asked inner) store)).List s o).map shown
    = ((Wrap c store).List s o).map shown

end Twice

section Pair

/-- A store that has two objects. -/
def twoObjects : Store Unit where
  ByID _ _ := .ok none
  List _ o := some (.ok [[("id", .str "a")], [("id", .str "b")]], o)
  Create s obj := (s, .ok obj)
  Update s obj _ := (s, .ok obj)
  Delete s _ := (s, .ok none)

theorem twoObjects_repeats : Repeats twoObjects := by
  intro s o again hagain
  refine Option.Rel.some ⟨rfl, rfl, rfl, fun c => ?_, rfl, rfl⟩
  rw [List.mem_append]
  exact ⟨.inl, fun hc => hc.elim id fun hc => hagain hc⟩

def podContext : Context where
  env := plainHandler
  schema := Parse.plainSchema "pod" []
  query := []
  attributes := []

/-- The first page of a list, with so many objects. -/
def pageOfSize (limit : Int) : QueryOptions where
  sort := { name := "", order := .asc }
  pagination := some { limit := some limit }
  conditions := []

end Pair

end Norman.StoreWrapper
