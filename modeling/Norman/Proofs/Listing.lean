import Norman.Objectset

/-!
# Listing what is there

`list` from an informer that is current gives the objects of the kind that the selector takes, under
their keys (`list_current`). Without a controller the items of the server's list are no pointers, so
`meta.Accessor` refuses every one of them, and the errors are dropped: the map is empty, whatever
there is (`list_discovered`).
-/

namespace Norman.Objectset

section CompareSets

variable {existing new : SortedMap ObjectKey Doc} {k : ObjectKey}

theorem mem_toCreate : k ∈ (compareSets existing new).1
    ↔ (∃ o, new.get k = some o) ∧ existing.get k = none := by
  simp [compareSets, sortObjectKeys, SortedMap.mem_keys]

theorem mem_toDelete : k ∈ (compareSets existing new).2.1
    ↔ (∃ o, existing.get k = some o) ∧ new.get k = none := by
  simp [compareSets, sortObjectKeys, SortedMap.mem_keys]

theorem mem_toUpdate : k ∈ (compareSets existing new).2.2
    ↔ (∃ o, new.get k = some o) ∧ ∃ o, existing.get k = some o := by
  simp [compareSets, sortObjectKeys, SortedMap.mem_keys, Option.ne_none_iff_exists']

theorem nodup_sortObjectKeys {ks : List ObjectKey} (h : ks.Nodup) : (sortObjectKeys ks).Nodup :=
  (List.perm_insertionSort _ ks).nodup_iff.2 h

theorem nodup_compareSets (existing new : SortedMap ObjectKey Doc) :
    (compareSets existing new).1.Nodup ∧ (compareSets existing new).2.1.Nodup
      ∧ (compareSets existing new).2.2.Nodup :=
  ⟨nodup_sortObjectKeys (new.nodup_keys.filter _), nodup_sortObjectKeys (existing.nodup_keys.filter _),
    nodup_sortObjectKeys (new.nodup_keys.filter _)⟩

end CompareSets

section AddAll

/-- One turn of the loops in `list`. -/
def addItem (r : SortedMap ObjectKey Doc × List Err) (item : Item) :
    SortedMap ObjectKey Doc × List Err :=
  match addObjectToMap r.1 item with
  | .ok objs => (objs, r.2)
  | .error e => (r.1, r.2 ++ [e])

theorem addAll_eq (items : List Item) : addAll items = items.foldl addItem (∅, []) := rfl

theorem foldl_addItem_unstructured (r : SortedMap ObjectKey Doc × List Err) :
    ∀ items : List Doc, ((items.map Item.unstructured).foldl addItem r).1 = r.1
  | [] => rfl
  | o :: items => by
    rw [List.map_cons, List.foldl_cons, foldl_addItem_unstructured _ items]
    rfl

/-- What is in the map after the loop was there before, or is one of the items. -/
theorem foldl_addItem_get {k : ObjectKey} {x : Doc} :
    ∀ (items : List Item) (r : SortedMap ObjectKey Doc × List Err),
      (items.foldl addItem r).1.get k = some x →
      r.1.get k = some x ∨ (.object x ∈ items ∧ newObjectKey x = k)
  | [], r, h => .inl h
  | item :: items, r, h => by
    rcases foldl_addItem_get items _ h with h | ⟨hm, hk⟩
    · cases item with
      | object o =>
        simp only [addItem, addObjectToMap, accessor, Except.map, SortedMap.get_set] at h
        split_ifs at h with hk
        · simp only [Option.some.injEq] at h
          subst h
          exact .inr ⟨List.mem_cons_self, hk.symm⟩
        · exact .inl h
      | unstructured o => exact .inl h
      | other g => exact .inl h
    · exact .inr ⟨List.mem_cons_of_mem _ hm, hk⟩

theorem foldl_addItem_ne_none {k : ObjectKey} :
    ∀ (items : List Item) (r : SortedMap ObjectKey Doc × List Err),
      r.1.get k ≠ none ∨ (∃ x, .object x ∈ items ∧ newObjectKey x = k) →
      (items.foldl addItem r).1.get k ≠ none
  | [], r, h => by simpa using h
  | item :: items, r, h => by
    refine foldl_addItem_ne_none items _ ?_
    rcases h with h | ⟨x, hx, hk⟩
    · refine .inl ?_
      cases item with
      | object o =>
        simp only [addItem, addObjectToMap, accessor, Except.map, SortedMap.get_set]
        split_ifs
        · simp
        · exact h
      | unstructured o => exact h
      | other g => exact h
    · rcases List.mem_cons.1 hx with rfl | hx
      · simp [addItem, addObjectToMap, accessor, Except.map, hk]
      · exact .inr ⟨x, hx, hk⟩

theorem foldl_addItem_errs :
    ∀ (items : List Doc) (r : SortedMap ObjectKey Doc × List Err),
      ((items.map Item.object).foldl addItem r).2 = r.2
  | [], r => rfl
  | o :: items, r => by
    rw [List.map_cons, List.foldl_cons, foldl_addItem_errs items]
    rfl

end AddAll

section List

variable {a a' : Api} {p : ObjectClient} {selector : StrMap → Bool}

theorem listAll_object :
    ∀ items : List Doc, listAll selector (items.map Item.object)
      = ((items.filter fun o => selector (getLabels o)).map Item.object, none)
  | [] => rfl
  | o :: items => by
    simp only [List.map_cons, listAll, accessor, listAll_object items, List.filter_cons]
    split_ifs <;> rfl

/-- The objects of the kind that the selector takes. -/
theorem list_current (a : Api) (p : ObjectClient) (selector : StrMap → Bool) :
    ∃ existing, list a (some (indexer a p)) p selector = (a, .ok existing)
      ∧ ∀ k, existing.get k
          = (a.cluster.get p.gvk k).filter fun o => selector (getLabels o) := by
  have hitems : indexer a p = ((a.cluster.objs p.gvk).entries.map Prod.snd).map Item.object := by
    simp [indexer]
  simp only [list, hitems, listAll_object, addAll_eq, foldl_addItem_errs, Option.toList_none,
    List.append_nil, if_true, Prod.mk.injEq, true_and, Except.ok.injEq, exists_eq_left']
  intro k
  set objs := (a.cluster.objs p.gvk).entries.map Prod.snd with hobjs
  have hmem : ∀ x, x ∈ objs ↔ a.cluster.get p.gvk (newObjectKey x) = some x := by
    intro x
    simp only [hobjs, List.mem_map, Prod.exists, exists_eq_right]
    constructor
    · rintro ⟨k, hk⟩
      have hget := SortedMap.mem_entries.1 hk
      rwa [Cluster.get, a.cluster.keyed hget]
    · exact fun h => ⟨_, SortedMap.mem_entries.2 h⟩
  rcases hr : ((((objs.filter fun o => selector (getLabels o)).map Item.object).foldl addItem
    (∅, [])).1).get k with _ | x
  · rcases hy : a.cluster.get p.gvk k with _ | y
    · rfl
    · have hky : newObjectKey y = k := a.cluster.keyed hy
      by_cases hs : selector (getLabels y) = true
      · refine absurd hr (foldl_addItem_ne_none _ _ (.inr ⟨y, ?_, hky⟩))
        refine List.mem_map_of_mem (List.mem_filter.2 ⟨(hmem y).2 ?_, hs⟩)
        rw [hky, hy]
      · simp [Option.filter, hs]
  · rcases foldl_addItem_get _ _ hr with hr | ⟨hm, rfl⟩
    · simp at hr
    · obtain ⟨y, hy, hxy⟩ := List.mem_map.1 hm
      cases hxy
      obtain ⟨hy, hs⟩ := List.mem_filter.1 hy
      rw [(hmem x).1 hy]
      simp [Option.filter, hs]

/-- Nothing, with no error, unless the call fails. -/
theorem list_discovered (a : Api) (p : ObjectClient) (selector : StrMap → Bool) :
    (list a none p selector).2 = match a.faults a.calls.length with
      | some f => .error [⟨false, f.text⟩]
      | none => .ok ∅ := by
  simp only [list, ObjectClient.list, Api.call]
  rcases a.faults a.calls.length with _ | f
  · simp only [addAll_eq, foldl_addItem_unstructured]
  · rfl

/-- Whatever `list` finds, the cluster has it and the selector takes it. -/
theorem list_found {controller : Bool} {existing : SortedMap ObjectKey Doc}
    (h : (list a (if controller then some (indexer a p) else none) p selector).2 = .ok existing)
    {k : ObjectKey} {x : Doc} (hk : existing.get k = some x) :
    a.cluster.get p.gvk k = some x ∧ selector (getLabels x) = true := by
  cases controller with
  | true =>
    obtain ⟨existing', hlist, hget⟩ := list_current a p selector
    rw [if_pos rfl, hlist] at h
    cases h
    rwa [hget, Option.filter_eq_some_iff] at hk
  | false =>
    rw [if_neg (by simp), list_discovered] at h
    split at h <;> cases h
    simp at hk

/-- The two ways of listing give the same map, or the call fails, exactly if it does fail or there
is nothing to find. -/
theorem list_agree_iff (a : Api) (p : ObjectClient) (selector : StrMap → Bool) :
    ((list a none p selector).2 = (list a (some (indexer a p)) p selector).2
        ∨ ∃ e, (list a none p selector).2 = .error e)
      ↔ (∃ f, a.faults a.calls.length = some f)
        ∨ ∀ k o, a.cluster.get p.gvk k = some o → selector (getLabels o) = false := by
  obtain ⟨existing, hlist, hget⟩ := list_current a p selector
  rw [list_discovered, hlist]
  rcases a.faults a.calls.length with _ | f
  · simp only [Except.ok.injEq, reduceCtorEq, exists_false, or_false, false_or]
    constructor
    · rintro rfl k o ho
      have := hget k
      simp only [SortedMap.get_empty, ho, Option.filter] at this
      split_ifs at this with hs
      simpa using hs
    · intro h
      ext k o
      rw [hget]
      rcases ho : a.cluster.get p.gvk k with _ | o'
      · simp
      · simp [Option.filter, h k o' ho]
  · simp

/-- A `ConfigMap` with one label. -/
def configMap (name ns label value : String) : Doc :=
  [("apiVersion", .str "v1"), ("kind", .str "ConfigMap"),
    ("metadata", .map [("labels", .map [(label, .str value)]), ("name", .str name),
      ("namespace", .str ns)])]

/-- The client for `ConfigMap`s. -/
def configMaps : ObjectClient := { gvk := ⟨"", "v1", "ConfigMap"⟩, namespaced := true, ns := "" }

/-- A server that has one `ConfigMap` and fails no call. -/
def oneConfigMap : Api where
  cluster := Cluster.put ∅ configMaps.gvk (configMap "settings" "prod" "app" "shop")
  faults _ := none
  calls := []
  merge _ old _ := old

/-- The object is there for the controller, and not without it. -/
theorem list_disagree :
    (list oneConfigMap none configMaps (requirement "app" "shop")).2 = .ok ∅
      ∧ (list oneConfigMap (some (indexer oneConfigMap configMaps)) configMaps
          (requirement "app" "shop")).2
        = .ok ((∅ : SortedMap ObjectKey Doc).set ⟨"settings", "prod"⟩
            (configMap "settings" "prod" "app" "shop")) := by
  decide +kernel

end List

end Norman.Objectset
