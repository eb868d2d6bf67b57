import Norman.Collection
import Norman.Proofs.SchemaViews
import Norman.Proofs.Order

/-!
# Filter links

A filter link asks for the resources that have a value in a field, and names the field without a
modifier. `parseFilters` reads the link as what it says unless the field has an underscore behind
its first character: the rest of the name is then taken for a modifier.
-/

namespace Norman.Parse

open Norman.Types Norman.Convert Urlencode

section Name

theorem find?_reverse_range_eq_zero {p : ℕ → Bool} :
    ∀ {n : ℕ}, (List.range n).reverse.find? p = some 0 → ∀ i < n, 0 < i → p i = false
  | 0, h => by cases h
  | n + 1, h => by
    intro i hi hpos
    rw [List.range_succ, List.reverse_append, List.reverse_singleton, List.singleton_append,
      List.find?_cons] at h
    split at h
    · simp only [Option.some.injEq] at h
      omega
    · rename_i hp
      rcases Nat.lt_succ_iff_lt_or_eq.1 hi with hi | rfl
      · exact find?_reverse_range_eq_zero h i hi hpos
      · exact hp

variable {s : String}

theorem isPrefixOf_drop_iff {i : ℕ} :
    "_".toList.isPrefixOf (s.toList.drop i) = true ↔ s.toList[i]? = some '_' := by
  have hunderscore : "_".toList = ['_'] := rfl
  rw [← List.head?_drop, hunderscore]
  rcases s.toList.drop i with _ | ⟨c, l⟩
  · simp
  · rw [List.head?_cons, Option.some.injEq, List.isPrefixOf_cons_cons, Bool.and_eq_true, beq_iff_eq]
    exact ⟨fun h => h.1.symm, fun h => ⟨h.symm, rfl⟩⟩

/-- An underscore behind the first character is found. -/
theorem exists_lastIndex (h : '_' ∈ s.toList.tail) :
    ∃ i, lastIndex s "_" = some i ∧ 0 < i ∧ i < s.toList.length := by
  obtain ⟨j, hj⟩ := List.mem_iff_getElem?.1 h
  rw [List.getElem?_tail] at hj
  have hlt : j + 1 < s.toList.length := (List.getElem?_eq_some_iff.1 hj).1
  unfold lastIndex
  rcases hf : (List.range (s.toList.length + 1)).reverse.find?
      (fun i => "_".toList.isPrefixOf (s.toList.drop i)) with _ | i
  · have := List.find?_eq_none.1 hf (j + 1) (by simp; omega)
    exact absurd (isPrefixOf_drop_iff.2 hj) this
  · have hi := List.find?_some hf
    refine ⟨i, rfl, ?_, (List.getElem?_eq_some_iff.1 (isPrefixOf_drop_iff.1 hi)).1⟩
    rcases Nat.eq_zero_or_pos i with rfl | hi
    · have := find?_reverse_range_eq_zero hf (j + 1) (by omega) (by omega)
      rw [isPrefixOf_drop_iff.2 hj] at this
      cases this
    · exact hi

theorem parseNameAndOp_plain (h : '_' ∉ s.toList.tail) : parseNameAndOp s = (s, "eq") := by
  unfold parseNameAndOp
  split
  · rename_i i hi
    split_ifs with hpos
    · have hget := List.find?_some hi
      rw [isPrefixOf_drop_iff] at hget
      obtain ⟨j, rfl⟩ : ∃ j, i = j + 1 := ⟨i - 1, by omega⟩
      rw [← List.getElem?_tail] at hget
      exact absurd (List.mem_of_getElem? hget) h
    · rfl
  · rfl

theorem parseNameAndOp_cut (h : '_' ∈ s.toList.tail) : (parseNameAndOp s).1 ≠ s := by
  obtain ⟨i, hi, hpos, hlt⟩ := exists_lastIndex h
  intro heq
  simp only [parseNameAndOp, hi, hpos, if_true] at heq
  have hlen := congrArg (fun s => s.toList.length) heq
  simp only [upTo, String.toList_ofList, List.length_take] at hlen
  omega

end Name

section Conditions

variable {schema : Schema} {key : String} {values : List String}

/-- Every condition is about the name that the setting has before the modifier. -/
theorem mem_filtersOf {condition : QueryCondition} (h : condition ∈ filtersOf schema key values) :
    ∃ mod, condition = NewConditionFromString (parseNameAndOp key).1 mod values := by
  unfold filtersOf at h
  simp only at h
  split at h
  · cases h
  · obtain ⟨mod, -, hmod⟩ := List.mem_filterMap.1 h
    split_ifs at hmod
    obtain ⟨mod, -, rfl⟩ := Option.map_eq_some_iff.1 hmod
    exact ⟨mod, rfl⟩

theorem filterMap_eq_replicate {α β : Type*} [DecidableEq α] (a : α) (b : β) : ∀ l : List α,
    l.filterMap (fun x => if a ≠ x then none else some b) = List.replicate (l.count a) b
  | [] => rfl
  | x :: l => by
    rw [List.filterMap_cons, List.count_cons, filterMap_eq_replicate a b l]
    by_cases hx : a = x
    · simp [hx, List.replicate_succ]
    · simp [hx, Ne.symm hx]

/-- A name without a modifier has one condition for each time that its filter has `eq`. -/
theorem filtersOf_plain {modifiers : List String} (hkey : '_' ∉ key.toList.tail)
    (hfilter : schema.collectionFilters.get key = some modifiers) :
    filtersOf schema key values
      = List.replicate (modifiers.count "eq") (NewConditionFromString key .eq values) := by
  have heq : mods.lookup "eq" = some .eq := by decide
  unfold filtersOf
  simp only [parseNameAndOp_plain hkey, hfilter, heq, Option.map_some]
  exact filterMap_eq_replicate "eq" _ modifiers

theorem parseFilters_setting (key : String) (values : List String) :
    parseFilters schema ((∅ : SortedMap String (List String)).set key values)
      = filtersOf schema key values := by
  have hentries : ((∅ : SortedMap String (List String)).set key values).entries
      = [(key, values)] := rfl
  simp [parseFilters, hentries]

end Conditions

section Link

/-- The query of a link: what follows the last question mark. -/
def queryString (link : String) : String := (split '?' link).getLastD ""

variable (env : Handler.Env) (u : UrlBuilder) (schema : Schema) (field value : String)

/-- The conditions ask for one thing, that the field has the value, and they keep the items that
have it, be it by default. -/
structure Asks (conditions : List QueryCondition) : Prop where
  one : conditions = [NewConditionFromString field .eq [value]]
  keeps : ∀ data, Handler.ApplyQueryConditions env conditions schema data
    = data.filter fun item => ToString env.toEnv (valueOrDefault schema item field) = value

variable {env schema field value} in
theorem asks_iff {conditions : List QueryCondition} : Asks env schema field value conditions
    ↔ conditions = [NewConditionFromString field .eq [value]] := by
  refine ⟨Asks.one, fun h => ⟨h, fun data => ?_⟩⟩
  subst h
  refine List.filter_congr fun item _ => ?_
  simp only [List.all_cons, List.all_nil, Bool.and_true]
  exact decide_eq_decide.2 eq_comm

theorem queryString_FilterLink : queryString (u.FilterLink schema field value)
    = QueryEscape field ++ "=" ++ QueryEscape value := by
  have hquery : '?' ∉ (QueryEscape field ++ "=" ++ QueryEscape value).toList := by
    simp only [String.toList_append, List.mem_append, not_or]
    exact ⟨⟨not_mem_QueryEscape _ (by decide), by decide⟩, not_mem_QueryEscape _ (by decide)⟩
  have hmark : "?".toList = ['?'] := rfl
  unfold queryString UrlBuilder.FilterLink split
  rw [String.toList_append, String.toList_append, hmark, List.append_assoc, List.singleton_append,
    List.splitOn_append_cons_self, List.splitOn_eq_singleton hquery, List.map_append,
    List.map_singleton, List.getLastD_concat, String.ofList_toList]

/-- A filter link, when it is followed, asks for what it was made for if and only if the field has
no underscore behind its first character and its filter has `eq` once. -/
theorem parseFilters_FilterLink_iff
    (hfilter : "eq" ∈ (schema.collectionFilters.get field).getD []) :
    Asks env schema field value
        (parseFilters schema (ParseQuery (queryString (u.FilterLink schema field value))))
      ↔ '_' ∉ field.toList.tail
        ∧ ((schema.collectionFilters.get field).getD []).count "eq" = 1 := by
  rw [asks_iff, queryString_FilterLink, ParseQuery_setting, parseFilters_setting]
  rcases hget : schema.collectionFilters.get field with _ | modifiers
  · simp [hget] at hfilter
  · rw [Option.getD_some]
    by_cases hkey : '_' ∈ field.toList.tail
    · refine iff_of_false (fun h => ?_) fun h => h.1 hkey
      have hmem : NewConditionFromString field .eq [value] ∈ filtersOf schema field [value] := by
        rw [h]
        exact List.mem_singleton_self _
      obtain ⟨mod, hmod⟩ := mem_filtersOf hmem
      simp only [NewConditionFromString, QueryCondition.mk.injEq] at hmod
      exact parseNameAndOp_cut hkey hmod.1.symm
    · rw [filtersOf_plain hkey hget]
      refine ⟨fun h => ⟨hkey, ?_⟩, fun h => ?_⟩
      · simpa using congrArg List.length h
      · rw [h.2]
        rfl

/-- A schema with the fields `nodeId` and `node_id`, both with an `eq` filter. -/
def nodeRefs : Schema :=
  { Schemas.schemaOf "pod" "1" with
    pluralName := "pods"
    collectionFilters := (∅ : SortedMap String (List String)).set "nodeId" ["eq", "ne"]
      |>.set "node_id" ["eq", "ne"] }

def nodeRefsURLs : UrlBuilder where
  responseURLBase := "https://host"
  apiVersion := { version := "v1", path := "/v1" }
  subContext := ""

theorem nodeId_asks : Asks Handler.plainHandler nodeRefs "nodeId" "c1:n1"
    (parseFilters nodeRefs
      (ParseQuery (queryString (nodeRefsURLs.FilterLink nodeRefs "nodeId" "c1:n1")))) :=
  (parseFilters_FilterLink_iff _ _ _ _ _ (by decide +kernel)).2 (by decide +kernel)

/-- The link with `node_id` asks for nothing at all. -/
theorem node_id_unasked :
    parseFilters nodeRefs
        (ParseQuery (queryString (nodeRefsURLs.FilterLink nodeRefs "node_id" "c1:n1"))) = []
      ∧ ¬ Asks Handler.plainHandler nodeRefs "node_id" "c1:n1"
        (parseFilters nodeRefs
          (ParseQuery (queryString (nodeRefsURLs.FilterLink nodeRefs "node_id" "c1:n1")))) := by
  have hnone : parseFilters nodeRefs
      (ParseQuery (queryString (nodeRefsURLs.FilterLink nodeRefs "node_id" "c1:n1"))) = [] := by
    rw [queryString_FilterLink, ParseQuery_setting, parseFilters_setting]
    rfl
  refine ⟨hnone, fun h => ?_⟩
  rw [hnone] at h
  cases h.one

end Link

end Norman.Parse
