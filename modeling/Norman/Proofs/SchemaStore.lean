import Norman.Lib.DepthFirst
import Norman.Proofs.TypeNames
import Norman.SchemaStore

/-!
# The listed schemas are a closure

`traverseAndAdd` goes to the schemas of the types it meets one after another (`traverseAndAdd_eq`),
so that `Store.List` is a depth-first search over the ids of the version's schemas (`List_eq`). What
it gives are the schemas that can be reached from one the caller may list or get.
-/

namespace Norman.SchemaStore

open Norman.Types

section Layers

/-- The name that is left of a type when layers are stripped until there are none. -/
def Innermost (layer : String → String) (t name : String) : Prop :=
  ∃ n, layer^[n] t = name ∧ layer name = name

theorem subType_shorter (t : String) : SubType t = t ∨ (SubType t).length < t.length := by
  unfold SubType
  extract_lets i
  split_ifs with h
  · exact .inl rfl
  · refine .inr ?_
    rw [String.length_ofList, List.length_dropLast, List.length_drop, ← String.length_toList]
    omega

theorem strip_fixed : ∀ {fuel : ℕ} {t : String}, t.length < fuel →
    SubType (strip fuel t (SubType t)) = strip fuel t (SubType t)
      ∧ ∃ n, SubType^[n] t = strip fuel t (SubType t)
  | 0, t, h => absurd h (Nat.not_lt_zero _)
  | fuel + 1, t, h => by
    rw [strip]
    split_ifs with hfixed
    · exact ⟨hfixed, 0, rfl⟩
    · have hlt := (subType_shorter t).resolve_left hfixed
      obtain ⟨hstop, n, hn⟩ := @strip_fixed fuel (SubType t) (by omega)
      exact ⟨hstop, n + 1, hn⟩

theorem innermost_fixed (t : String) : SubType (innermost t) = innermost t
    ∧ ∃ n, SubType^[n] t = innermost t := by
  rw [innermost, strip]
  split_ifs with h
  · subst h
    exact ⟨by decide, 0, rfl⟩
  · exact strip_fixed (by omega)

theorem innermost_iff : Innermost SubType t name ↔ innermost t = name := by
  obtain ⟨hfixed, n, hn⟩ := innermost_fixed t
  constructor
  · rintro ⟨m, hm, hname⟩
    -- both are reached, and nothing changes after the first of them
    rcases le_total n m with hle | hle
    · obtain ⟨d, rfl⟩ := Nat.exists_eq_add_of_le hle
      rw [Nat.add_comm, Function.iterate_add_apply, hn, Function.iterate_fixed hfixed] at hm
      exact hm
    · obtain ⟨d, rfl⟩ := Nat.exists_eq_add_of_le hle
      rw [Nat.add_comm, Function.iterate_add_apply, hm, Function.iterate_fixed hname] at hn
      exact hn.symm
  · rintro rfl
    exact ⟨n, hn, hfixed⟩

/-- One layer of a type, if it is a map, an array or a reference. -/
def typeLayer (t : String) : String :=
  if IsMapType t ∨ IsArrayType t ∨ IsReferenceType t then SubType t else t

/-- A type made of these layers around a name. -/
inductive Layered : String → Prop
  | name {t : String} (h : '[' ∉ t.toList) : Layered t
  | layer {w t : String} (hw : w ∈ ["map", "array", "reference"]) (h : Layered t) :
    Layered (w ++ "[" ++ t ++ "]")

variable {layer : String → String} {t t' name : String}

theorem innermost_of_fixed (h : layer t = t) : Innermost layer t name ↔ name = t := by
  constructor
  · rintro ⟨n, hn, -⟩
    rw [← hn, Function.iterate_fixed h]
  · rintro rfl
    exact ⟨0, rfl, h⟩

theorem innermost_step (h : layer t' = t) (hne : t ≠ t') :
    Innermost layer t' name ↔ Innermost layer t name := by
  constructor
  · rintro ⟨n, hn, hname⟩
    cases n with
    | zero =>
      obtain rfl : t' = name := hn
      exact absurd (h.symm.trans hname) hne
    | succ n => exact ⟨n, by rwa [Function.iterate_succ_apply, h] at hn, hname⟩
  · rintro ⟨n, hn, hname⟩
    exact ⟨n + 1, by rwa [Function.iterate_succ_apply, h], hname⟩

theorem subType_name (h : '[' ∉ t.toList) : SubType t = t := by
  have hidx : t.toList.findIdx (· = '[') = t.toList.length := by
    refine List.findIdx_eq_length_of_false fun c hc => ?_
    simp only [decide_eq_false_iff_not]
    rintro rfl
    exact h hc
  unfold SubType
  rw [hidx]
  exact if_pos (.inr (Nat.le_succ _))

/-- For such types it makes no difference that `SubType` takes any layer. -/
theorem Layered.innermost_iff (h : Layered t) :
    Innermost SubType t name ↔ Innermost typeLayer t name := by
  induction h with
  | @name t h =>
    have hlayer : typeLayer t = t := by
      rw [typeLayer, subType_name h, ite_self]
    rw [innermost_of_fixed (subType_name h), innermost_of_fixed hlayer]
  | @layer w t hw h ih =>
    have hsub : SubType (w ++ "[" ++ t ++ "]") = t := by
      have hplain : ∀ w ∈ ["map", "array", "reference"], w ≠ "" ∧ '[' ∉ w.toList := by decide
      exact subType_bracket w (hplain w hw).1 (hplain w hw).2 t
    have hlayer : typeLayer (w ++ "[" ++ t ++ "]") = t := by
      refine (if_pos ?_).trans hsub
      simp only [List.mem_cons, List.not_mem_nil, or_false] at hw
      rcases hw with rfl | rfl | rfl
      · exact .inl ((bracket_iff (by decide)).2 ⟨t, rfl⟩)
      · exact .inr (.inl ((bracket_iff (by decide)).2 ⟨t, rfl⟩))
      · exact .inr (.inr ((bracket_iff (by decide)).2 ⟨t, rfl⟩))
    have hne : t ≠ w ++ "[" ++ t ++ "]" := by
      intro heq
      have hlen := congrArg String.length heq
      simp only [String.length_append, show "[".length = 1 from rfl,
        show "]".length = 1 from rfl] at hlen
      omega
    rw [innermost_step hsub hne, innermost_step hlayer hne, ih]

end Layers

section Search

variable (access : Access) (order : Order) (schemaMap : SortedMap String Schema)

/-- The types an action leads to. -/
def actionTypes (action : Action) : List String :=
  [action.output, action.input].filter (· ≠ "")

/-- The types a schema leads to, as they come. -/
def types (schema : Schema) : List String :=
  (order.fields schema).map (fun field => innermost field.type)
    ++ (order.resourceActions schema).flatMap actionTypes
    ++ (order.collectionActions schema).flatMap actionTypes

theorem addAction_eq (add : Schema → State → Option State) (st : State) (action : Action) :
    addAction schemaMap add st action = (actionTypes action).foldlM (addType schemaMap add) st := by
  rw [addAction, actionTypes, ← DepthFirst.foldlM_filter]
  congr 1
  funext st t
  by_cases ht : t = "" <;> simp [ht]

/-- The types come one after another. -/
theorem traverseAndAdd_eq (add : Schema → State → Option State) (schema : Schema) (st : State) :
    traverseAndAdd order schemaMap add schema st
      = (types order schema).foldlM (addType schemaMap add) st := by
  have haction : addAction schemaMap add
      = fun st action => (actionTypes action).foldlM (addType schemaMap add) st :=
    funext fun st => funext fun action => addAction_eq schemaMap add st action
  simp only [traverseAndAdd, types, List.foldlM_append, List.foldlM_map, haction, DepthFirst.foldlM_flatMap,
    Option.bind_eq_bind, Option.bind_assoc]

/-- The ids of the schemas that a schema leads to. -/
def next (id : String) : List String :=
  match schemaMap.get id with
  | none => []
  | some schema => (types order schema).filter fun t => (schemaMap.get t).isSome

/-- The state of the search, as the code has it. -/
def stateOf (st : DepthFirst.State String) : State where
  schemas := st.out.filterMap fun id => (schemaMap.get id).map (modifyForAccessControl access)
  included := st.seen

variable {access order schemaMap}

/-- Adding the types of a list is visiting those that have a schema. -/
theorem addTypes_eq {add : Schema → State → Option State}
    {add' : String → DepthFirst.State String → Option (DepthFirst.State String)}
    (hadd : ∀ {t schema} st, schemaMap.get t = some schema →
      add schema (stateOf access schemaMap st) = (add' t st).map (stateOf access schemaMap))
    (ts : List String) (st : DepthFirst.State String) :
    ts.foldlM (addType schemaMap add) (stateOf access schemaMap st)
      = ((ts.filter fun t => (schemaMap.get t).isSome).foldlM (DepthFirst.visit add') st).map
          (stateOf access schemaMap) := by
  rw [← DepthFirst.foldlM_filter]
  refine DepthFirst.foldlM_sim ts st fun t _ st => ?_
  unfold addType DepthFirst.visit
  rcases hget : schemaMap.get t with _ | schema
  · rfl
  · simp only [Option.isSome_some, if_true]
    by_cases hseen : t ∈ st.seen
    · simp [stateOf, hseen]
    · rw [if_neg hseen, if_neg (show t ∉ (stateOf access schemaMap st).included from hseen),
        hadd st hget]

/-- `addSchema` is the step of the search. -/
theorem addSchema_eq (hfiled : ∀ {id schema}, schemaMap.get id = some schema → schema.id = id) :
    ∀ (fuel : ℕ) {id : String} {schema : Schema} (st : DepthFirst.State String),
      schemaMap.get id = some schema →
      addSchema access order schemaMap fuel schema (stateOf access schemaMap st)
        = (DepthFirst.add (next order schemaMap) fuel id st).map (stateOf access schemaMap)
  | 0, _, _, _, _ => rfl
  | fuel + 1, id, schema, st, hget => by
    have hstart : { stateOf access schemaMap st with
          included := schema.id :: (stateOf access schemaMap st).included }
        = stateOf access schemaMap { st with seen := id :: st.seen } := by
      rw [hfiled hget]
      rfl
    rw [addSchema, hstart, traverseAndAdd_eq,
      addTypes_eq (fun st hget => addSchema_eq hfiled fuel st hget), DepthFirst.add,
      show next order schemaMap id
        = (types order schema).filter fun t => (schemaMap.get t).isSome by rw [next, hget],
      Option.map_map, Option.map_map]
    congr 1
    funext st
    simp [stateOf, hget]

end Search

section Closure

/-- One schema leads to another, by the type of a field or of an action. -/
inductive Leads (layer : String → String) (schemaMap : SortedMap String Schema) (x y : Schema) :
    Prop
  | field {name t : String} {f : Field} (h : x.resourceFields.get name = some f)
    (ht : Innermost layer f.type t) (hy : schemaMap.get t = some y)
  | resourceAction {name t : String} {a : Action} (h : x.resourceActions.get name = some a)
    (ht : t = a.output ∨ t = a.input) (hne : t ≠ "") (hy : schemaMap.get t = some y)
  | collectionAction {name t : String} {a : Action} (h : x.collectionActions.get name = some a)
    (ht : t = a.output ∨ t = a.input) (hne : t ≠ "") (hy : schemaMap.get t = some y)

/-- The schema can be listed or got, or such a schema leads to it. -/
def Listed (layer : String → String) (access : Access) (schemaMap : SortedMap String Schema)
    (x : Schema) : Prop :=
  ∃ id root, schemaMap.get id = some root ∧ (access.CanList root ∨ access.CanGet root)
    ∧ Relation.ReflTransGen (Leads layer schemaMap) root x

/-- The schema as it is reported: the same but for the methods, which are those that are allowed. -/
structure Reports (access : Access) (x y : Schema) : Prop where
  resourceMethods : ∀ m, m ∈ y.resourceMethods ↔ m ∈ x.resourceMethods
    ∧ (m = "GET" ∧ access.CanGet x ∨ m = "PUT" ∧ access.CanUpdate x
      ∨ m = "DELETE" ∧ access.CanDelete x)
  collectionMethods : ∀ m, m ∈ y.collectionMethods ↔ m ∈ x.collectionMethods
    ∧ (m = "GET" ∧ access.CanList x ∨ m = "POST" ∧ access.CanCreate x)
  rest : y = { x with
    resourceMethods := y.resourceMethods, collectionMethods := y.collectionMethods }

/-- The schemas of the closure are listed, each once. -/
structure Closure (layer : String → String) (access : Access) (schemaMap : SortedMap String Schema)
    (result : Listing) : Prop where
  once : (result.map Schema.id).Nodup
  sound : ∀ y ∈ result, ∃ x, Listed layer access schemaMap x ∧ Reports access x y
  complete : ∀ x, Listed layer access schemaMap x → ∃ y ∈ result, Reports access x y

variable {access : Access} {order : Order} {schemaMap : SortedMap String Schema} {x y : Schema}

theorem mem_ite_singleton {m v : String} {p : Prop} [Decidable p] :
    m ∈ (if p then [v] else []) ↔ m = v ∧ p := by
  split_ifs with h <;> simp [h]

theorem modifyForAccessControl_reports (access : Access) (x : Schema) :
    Reports access x (modifyForAccessControl access x) where
  resourceMethods m := by
    simp only [modifyForAccessControl, List.mem_append, mem_ite_singleton]
    constructor
    · rintro ((⟨rfl, h, ha⟩ | ⟨rfl, h, ha⟩) | ⟨rfl, h, ha⟩) <;> simp [h, ha]
    · rintro ⟨h, ⟨rfl, ha⟩ | ⟨rfl, ha⟩ | ⟨rfl, ha⟩⟩ <;> simp [h, ha]
  collectionMethods m := by
    simp only [modifyForAccessControl, List.mem_append, mem_ite_singleton]
    constructor
    · rintro (⟨rfl, h, ha⟩ | ⟨rfl, h, ha⟩) <;> simp [h, ha]
    · rintro ⟨h, ⟨rfl, ha⟩ | ⟨rfl, ha⟩⟩ <;> simp [h, ha]
  rest := rfl

theorem mem_values {β : Type} {m : SortedMap String β} {l : List β}
    (h : l.Perm (m.entries.map Prod.snd)) {v : β} : v ∈ l ↔ ∃ name, m.get name = some v := by
  rw [h.mem_iff, List.mem_map]
  constructor
  · rintro ⟨⟨name, v⟩, hmem, rfl⟩
    exact ⟨name, SortedMap.mem_entries.1 hmem⟩
  · rintro ⟨name, hget⟩
    exact ⟨(name, v), SortedMap.mem_entries.2 hget, rfl⟩

theorem mem_actionTypes {a : Action} {t : String} :
    t ∈ actionTypes a ↔ (t = a.output ∨ t = a.input) ∧ t ≠ "" := by
  simp [actionTypes]

/-- Each schema is under its own id. -/
def Filed (schemaMap : SortedMap String Schema) : Prop :=
  ∀ {id schema}, schemaMap.get id = some schema → schema.id = id

/-- The search goes where a schema leads. -/
theorem mem_next (hfiled : Filed schemaMap) {id t : String} (hx : schemaMap.get id = some x) :
    t ∈ next order schemaMap id ↔ ∃ y, schemaMap.get t = some y ∧ Leads SubType schemaMap x y := by
  simp only [next, hx, types, List.mem_filter, List.mem_append, List.mem_map, List.mem_flatMap,
    mem_actionTypes, mem_values (order.fields_perm x), mem_values (order.resourceActions_perm x),
    mem_values (order.collectionActions_perm x), Option.isSome_iff_exists]
  constructor
  · rintro ⟨(⟨f, ⟨name, hf⟩, ht⟩ | ⟨a, ⟨name, ha⟩, ht, hne⟩) | ⟨a, ⟨name, ha⟩, ht, hne⟩, y, hy⟩
    · exact ⟨y, hy, .field hf (innermost_iff.2 ht) hy⟩
    · exact ⟨y, hy, .resourceAction ha ht hne hy⟩
    · exact ⟨y, hy, .collectionAction ha ht hne hy⟩
  · rintro ⟨y, hy, hleads⟩
    refine ⟨?_, y, hy⟩
    have hid : ∀ {t'}, schemaMap.get t' = some y → t' = t := fun hy' =>
      (hfiled hy').symm.trans (hfiled hy)
    cases hleads with
    | @field name t' f hf ht hy' =>
      obtain rfl := hid hy'
      exact .inl (.inl ⟨f, ⟨name, hf⟩, innermost_iff.1 ht⟩)
    | @resourceAction name t' a ha ht hne hy' =>
      obtain rfl := hid hy'
      exact .inl (.inr ⟨a, ⟨name, ha⟩, ht, hne⟩)
    | @collectionAction name t' a ha ht hne hy' =>
      obtain rfl := hid hy'
      exact .inr ⟨a, ⟨name, ha⟩, ht, hne⟩

/-- What is reached from a schema of the version is one. -/
theorem reached_mem {layer : String → String} {id : String} {root : Schema}
    (hroot : schemaMap.get id = some root)
    (h : Relation.ReflTransGen (Leads layer schemaMap) root x) :
    ∃ id, schemaMap.get id = some x := by
  cases h with
  | refl => exact ⟨id, hroot⟩
  | tail _ hleads =>
    cases hleads with
    | field _ _ hy => exact ⟨_, hy⟩
    | resourceAction _ _ _ hy => exact ⟨_, hy⟩
    | collectionAction _ _ _ hy => exact ⟨_, hy⟩

theorem reach_iff (hfiled : Filed schemaMap) {id id' : String} {root : Schema}
    (hroot : schemaMap.get id = some root) :
    DepthFirst.Reach (next order schemaMap) id id'
      ↔ ∃ x, schemaMap.get id' = some x
        ∧ Relation.ReflTransGen (Leads SubType schemaMap) root x := by
  constructor
  · intro h
    induction h with
    | refl => exact ⟨root, hroot, .refl⟩
    | tail _ hnext ih =>
      obtain ⟨x, hx, hreach⟩ := ih
      obtain ⟨y, hy, hleads⟩ := (mem_next hfiled hx).1 hnext
      exact ⟨y, hy, hreach.tail hleads⟩
  · rintro ⟨x, hx, hreach⟩
    induction hreach generalizing id' with
    | refl =>
      obtain rfl : id' = id := (hfiled hx).symm.trans (hfiled hroot)
      exact .refl
    | tail hbefore hleads ih =>
      rename_i x y
      obtain ⟨idx, hget⟩ := reached_mem hroot hbefore
      exact (ih hget).tail ((mem_next hfiled hget).2 ⟨y, hx, hleads⟩)

/-- The ids the search starts from. -/
def roots (access : Access) (order : Order) (schemaMap : SortedMap String Schema) : List String :=
  ((order.schemas schemaMap).filter fun x => access.CanList x ∨ access.CanGet x).map Schema.id

theorem mem_roots (hfiled : Filed schemaMap) {id : String} : id ∈ roots access order schemaMap
    ↔ ∃ root, schemaMap.get id = some root ∧ (access.CanList root ∨ access.CanGet root) := by
  simp only [roots, List.mem_map, List.mem_filter, mem_values (order.schemas_perm schemaMap),
    decide_eq_true_eq]
  constructor
  · rintro ⟨root, ⟨⟨id', hget⟩, hcan⟩, rfl⟩
    exact ⟨root, by rwa [hfiled hget], hcan⟩
  · rintro ⟨root, hget, hcan⟩
    exact ⟨root, ⟨⟨id, hget⟩, hcan⟩, hfiled hget⟩

/-- `Store.List` is the search from the schemas that can be listed or got. -/
theorem List_eq (access : Access) (order : Order) (fuel : ℕ) (s : Schemas) (version : APIVersion)
    (hfiled : Filed (s.SchemasForVersion version)) :
    Store.List access order fuel s version
      = (DepthFirst.search (next order (s.SchemasForVersion version)) fuel
          (roots access order (s.SchemasForVersion version))).map
        fun st => (stateOf access (s.SchemasForVersion version) st).schemas := by
  simp only [Store.List]
  generalize s.SchemasForVersion version = schemaMap at hfiled
  rw [DepthFirst.search, roots, List.foldlM_map, ← DepthFirst.foldlM_filter]
  show _ = Option.map (State.schemas ∘ stateOf access schemaMap) _
  rw [← Option.map_map]
  refine congrArg _ (DepthFirst.foldlM_sim (h := stateOf access schemaMap) _ ⟨[], []⟩ fun x hx st => ?_)
  obtain ⟨id, hget⟩ := (mem_values (order.schemas_perm schemaMap)).1 hx
  have hget' : schemaMap.get x.id = some x := by rwa [hfiled hget]
  by_cases hcan : access.CanList x ∨ access.CanGet x
  · by_cases hseen : x.id ∈ st.seen
    · simp [hcan, DepthFirst.visit, hseen, stateOf]
    · rw [if_neg (show x.id ∉ (stateOf access schemaMap st).included from hseen), if_pos hcan,
        addSchema_eq hfiled fuel st hget']
      simp [hcan, DepthFirst.visit, hseen]
  · simp [hcan]

theorem filed_schemasForVersion (s : Schemas) (version : APIVersion) :
    Filed (s.SchemasForVersion version) := by
  intro id schema h
  unfold Schemas.SchemasForVersion at h
  rcases hm : s.schemasByPath.paths.get version.path with _ | m
  · simp [hm] at h
  · rw [hm, Option.getD_some] at h
    exact (s.schemasByPath.filed hm h).2

/-- The schemas of ids that are all there. -/
theorem map_id_filterMap (access : Access) (hfiled : Filed schemaMap) : ∀ (ids : List String),
    (∀ id ∈ ids, ∃ x, schemaMap.get id = some x) →
      (ids.filterMap fun id => (schemaMap.get id).map (modifyForAccessControl access)).map Schema.id
        = ids
  | [], _ => rfl
  | id :: ids, h => by
    obtain ⟨x, hx⟩ := h id List.mem_cons_self
    have hids := map_id_filterMap access hfiled ids fun id hid => h id (List.mem_cons_of_mem _ hid)
    rw [List.filterMap_cons_some (b := modifyForAccessControl access x) (by rw [hx]; rfl),
      List.map_cons, hids]
    exact congrArg (· :: ids) (hfiled hx : x.id = id)

/-- The listing returns, with a unit of fuel for each schema of the version, and gives the
closure. -/
theorem List_closure (access : Access) (order : Order) (s : Schemas) (version : APIVersion)
    (fuel : ℕ) (hfuel : (s.SchemasForVersion version).entries.length ≤ fuel) :
    ∃ result, Store.List access order fuel s version = some result
      ∧ Closure SubType access (s.SchemasForVersion version) result := by
  have hfiled : Filed (s.SchemasForVersion version) := filed_schemasForVersion s version
  rw [List_eq access order fuel s version hfiled]
  generalize s.SchemasForVersion version = schemaMap at hfiled hfuel
  -- the search goes through the ids of the version's schemas
  have hall : ∀ id ∈ schemaMap.keys.toFinset, ∀ t ∈ next order schemaMap id,
      t ∈ schemaMap.keys.toFinset := by
    intro id hid t ht
    obtain ⟨x, hx⟩ := SortedMap.mem_keys.1 (List.mem_toFinset.1 hid)
    obtain ⟨y, hy, -⟩ := (mem_next hfiled hx).1 ht
    exact List.mem_toFinset.2 (SortedMap.mem_keys.2 ⟨y, hy⟩)
  have hroots : ∀ id ∈ roots access order schemaMap, id ∈ schemaMap.keys.toFinset := by
    intro id hid
    obtain ⟨root, hget, -⟩ := (mem_roots hfiled).1 hid
    exact List.mem_toFinset.2 (SortedMap.mem_keys.2 ⟨root, hget⟩)
  have hcard : schemaMap.keys.toFinset.card ≤ fuel := by
    refine (List.toFinset_card_le _).trans ?_
    simpa [SortedMap.keys] using hfuel
  obtain ⟨st, hst⟩ := DepthFirst.search_total hall hroots hcard
  obtain ⟨hnodup, hmem⟩ := DepthFirst.search_spec hst
  -- what is put out are the ids of the closure
  have hout : ∀ id, id ∈ st.out ↔ ∃ x, schemaMap.get id = some x
      ∧ Listed SubType access schemaMap x := by
    intro id
    rw [hmem]
    constructor
    · rintro ⟨r, hr, hreach⟩
      obtain ⟨root, hget, hcan⟩ := (mem_roots hfiled).1 hr
      obtain ⟨x, hx, hleads⟩ := (reach_iff hfiled hget).1 hreach
      exact ⟨x, hx, r, root, hget, hcan, hleads⟩
    · rintro ⟨x, hx, r, root, hget, hcan, hleads⟩
      exact ⟨r, (mem_roots hfiled).2 ⟨root, hget, hcan⟩, (reach_iff hfiled hget).2 ⟨x, hx, hleads⟩⟩
  refine ⟨(stateOf access schemaMap st).schemas, by rw [hst, Option.map_some], ?_, ?_, ?_⟩
  · have hids := map_id_filterMap access hfiled st.out fun id hid => by
      obtain ⟨x, hx, -⟩ := (hout id).1 hid
      exact ⟨x, hx⟩
    rw [stateOf, hids]
    exact hnodup
  · intro y hy
    obtain ⟨id, hid, hy⟩ := List.mem_filterMap.1 hy
    obtain ⟨x, hx, hlisted⟩ := (hout id).1 hid
    rw [hx, Option.map_some, Option.some.injEq] at hy
    exact ⟨x, hlisted, hy ▸ modifyForAccessControl_reports access x⟩
  · intro x hlisted
    obtain ⟨r, root, hget, hcan, hleads⟩ := id hlisted
    obtain ⟨id, hx⟩ := reached_mem hget hleads
    refine ⟨modifyForAccessControl access x, List.mem_filterMap.2 ⟨id, ?_, by rw [hx]; rfl⟩,
      modifyForAccessControl_reports access x⟩
    exact (hout id).2 ⟨x, hx, hlisted⟩

end Closure

section Boxes

/-- The maps by name. -/
def byName : Order where
  schemas m := m.entries.map Prod.snd
  fields x := x.resourceFields.entries.map Prod.snd
  resourceActions x := x.resourceActions.entries.map Prod.snd
  collectionActions x := x.collectionActions.entries.map Prod.snd
  schemas_perm _ := .refl _
  fields_perm _ := .refl _
  resourceActions_perm _ := .refl _
  collectionActions_perm _ := .refl _

def v1 : APIVersion := { version := "v1", path := "/v1" }

def volume : Schema := { id := "volume", version := v1, resourceFields := ∅ }

/-- A pod has volumes in a layer that is no map, array or reference. -/
def pod : Schema :=
  { id := "pod", version := v1, collectionMethods := ["GET", "POST"],
    resourceFields := (∅ : SortedMap String Field).set "volumes" { type := "box[volume]" } }

def boxes : Schemas := { NewSchemas with schemasByPath := (ByPath.empty.put volume).put pod }

/-- Only pods can be listed. -/
def podAccess : Access where
  CanCreate _ := false
  CanList x := x.id = "pod"
  CanGet _ := false
  CanUpdate _ := false
  CanDelete _ := false

theorem pod_listed : ∃ result, Store.List podAccess byName 2 boxes v1 = some result
    ∧ result.map Schema.id = ["volume", "pod"]
    ∧ Closure SubType podAccess (boxes.SchemasForVersion v1) result := by
  obtain ⟨result, hlist, hclosure⟩ :=
    List_closure podAccess byName boxes v1 2 (by decide +kernel)
  have hids : (Store.List podAccess byName 2 boxes v1).map (fun l => l.map Schema.id)
      = some ["volume", "pod"] := by
    decide +kernel
  rw [hlist, Option.map_some, Option.some.injEq] at hids
  exact ⟨result, hlist, hids, hclosure⟩

theorem boxes_get {id : String} {x : Schema}
    (h : (boxes.SchemasForVersion v1).get id = some x) : id = "pod" ∧ x = pod ∨ id = "volume" := by
  have hmap : boxes.SchemasForVersion v1
      = ((∅ : SortedMap String Schema).set "volume" volume).set "pod" pod := by
    decide +kernel
  rw [hmap, SortedMap.get_set, SortedMap.get_set] at h
  split_ifs at h with hpod hvolume
  · exact .inl ⟨hpod, (Option.some.inj h).symm⟩
  · exact .inr hvolume
  · simp at h

/-- With these layers only, the pod leads nowhere. -/
theorem not_leads_typeLayer {x : Schema} :
    ¬ Leads typeLayer (boxes.SchemasForVersion v1) pod x := by
  intro h
  cases h with
  | @field name t f hf ht hx =>
    have hfield : pod.resourceFields.get name
        = if name = "volumes" then some { type := "box[volume]" } else none := by
      rw [pod, SortedMap.get_set]
      split_ifs <;> rfl
    rw [hfield] at hf
    split_ifs at hf
    cases hf
    obtain ⟨n, hn, -⟩ := ht
    rw [Function.iterate_fixed (by decide +kernel : typeLayer "box[volume]" = "box[volume]")] at hn
    subst hn
    rcases boxes_get hx with ⟨h, -⟩ | h
    · exact absurd h (by decide)
    · exact absurd h (by decide)
  | resourceAction ha => simp [pod] at ha
  | collectionAction ha => simp [pod] at ha

theorem listed_typeLayer {x : Schema}
    (h : Listed typeLayer podAccess (boxes.SchemasForVersion v1) x) : x = pod := by
  obtain ⟨id, root, hget, hcan, hreach⟩ := h
  have hroot : root = pod := by
    rcases boxes_get hget with ⟨-, h⟩ | rfl
    · exact h
    · have hid : root.id = "volume" := filed_schemasForVersion boxes v1 hget
      simp [podAccess, hid] at hcan
  subst hroot
  rcases Relation.ReflTransGen.cases_head hreach with rfl | ⟨y, hleads, -⟩
  · rfl
  · exact absurd hleads not_leads_typeLayer

/-- The volume is listed, too, though the layer it is in is no map, array or reference. -/
theorem volume_listed : ∃ result, Store.List podAccess byName 2 boxes v1 = some result
    ∧ ¬ Closure typeLayer podAccess (boxes.SchemasForVersion v1) result := by
  have hids : (Store.List podAccess byName 2 boxes v1).map (fun l => l.map Schema.id)
      = some ["volume", "pod"] := by
    decide +kernel
  obtain ⟨result, hlist, hids⟩ := Option.map_eq_some_iff.1 hids
  refine ⟨result, hlist, fun hclosure => ?_⟩
  obtain ⟨y, hy, hid⟩ : ∃ y ∈ result, y.id = "volume" := by
    rw [← List.mem_map, hids]
    simp
  obtain ⟨x, hlisted, hreports⟩ := hclosure.sound y hy
  rw [hreports.rest, listed_typeLayer hlisted] at hid
  have hpod : pod.id = "volume" := hid
  exact absurd hpod (by decide)

end Boxes

end Norman.SchemaStore
