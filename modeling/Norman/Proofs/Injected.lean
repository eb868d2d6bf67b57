import Norman.Proofs.Converge

/-!
# What the injectors add

`Apply` collects what the injectors give by kind, and then goes through the kinds of the set as it
was before them, and through those of the clients. So an object of another kind, which an injector
added, is in the collection and no call of `process` is given it, without any error.
-/

namespace Norman.Objectset

section Processed

variable {o : DesiredSet} {env : Env} {accept : Bool} {objList : List Doc}

/-- What the injectors give in the end. -/
def DesiredSet.Output (o : DesiredSet) (env : Env) (objList : List Doc) : Prop :=
  ∃ labels annotations, o.getLabelsAndAnnotations env = .ok (labels, annotations)
    ∧ o.runInjectors (o.injectLabelsAndAnnotations labels annotations) = .ok objList

/-- The calls of `process` that `Apply` makes: the kind, and the objects it is given. -/
def DesiredSet.processed (o : DesiredSet) (env : Env) (accept : Bool) :
    List (GroupVersionKind × SortedMap ObjectKey Doc) :=
  if o.Err ≠ [] ∨ ¬ o.remove ∧ ¬ accept then []
  else
    match o.getLabelsAndAnnotations env with
    | .error _ => []
    | .ok (labels, annotations) =>
      match o.runInjectors (o.injectLabelsAndAnnotations labels annotations) with
      | .error _ => []
      | .ok objList =>
        o.gvkOrder.map fun g => (g, ((DesiredSet.collect objList).get g).getD ∅)

/-- Nothing keeps `Apply` from the loop over the kinds but an error of the labels or an injector. -/
def DesiredSet.Ready (o : DesiredSet) (accept : Bool) : Prop :=
  o.Err = [] ∧ (o.remove = true ∨ accept = true)

theorem processed_of_ready (hout : o.Output env objList) (hready : o.Ready accept) :
    o.processed env accept
      = o.gvkOrder.map fun g => (g, ((DesiredSet.collect objList).get g).getD ∅) := by
  obtain ⟨labels, annotations, hlabels, hinj⟩ := hout
  obtain ⟨herr, haccept⟩ := hready
  have hgo : ¬ (o.Err ≠ [] ∨ ¬ o.remove ∧ ¬ accept) := by
    simp only [herr, ne_eq, not_true, false_or]
    rcases haccept with h | h <;> simp [h]
  simp only [DesiredSet.processed, hgo, if_false, hlabels, hinj]

theorem processed_of_not_ready (hready : ¬ o.Ready accept) : o.processed env accept = [] := by
  refine if_pos ?_
  by_contra hno
  simp only [not_or, ne_eq, not_not, not_and_or] at hno
  exact hready hno

/-- `process` looks only at the objects of its kind. -/
theorem process_congr {inputID : String} {selector : StrMap → Bool} {objs objs' : ObjectCollection}
    {s : DesiredSet × Api} {g : GroupVersionKind}
    (h : (objs.get g).getD ∅ = (objs'.get g).getD ∅) :
    process env inputID selector objs s g = process env inputID selector objs' s g := by
  simp only [process, h]

/-- The calls are all that `Apply` does, after the injectors. -/
theorem Apply_eq_processed (hout : o.Output env objList) (hready : o.Ready accept) (a : Api) :
    ∃ inputID selector, (o.Apply env accept a).1
      = (o.processed env accept).foldl (fun s c =>
          process env inputID selector ((∅ : ObjectCollection).set c.1 c.2) s c.1) (o, a) := by
  rw [processed_of_ready hout hready]
  obtain ⟨labels, annotations, hlabels, hinj⟩ := hout
  obtain ⟨herr, haccept⟩ := hready
  have hgo : ¬ (¬ o.remove ∧ ¬ accept) := by
    rcases haccept with h | h <;> simp [h]
  refine ⟨o.inputID env ((Assoc.get LabelHash labels).getD ""),
    requirement LabelHash ((Assoc.get LabelHash labels).getD ""), ?_⟩
  simp only [DesiredSet.Apply, herr, ne_eq, not_true, if_false, hlabels, if_neg hgo, hinj,
    List.foldl_map]
  congr 1
  funext s g
  exact process_congr (by simp)

end Processed

section Handed

variable {o : DesiredSet} {env : Env} {accept : Bool} {objList : List Doc} {obj : Doc}

/-- Two objects that are the same to the server. -/
def SameID (x y : Doc) : Prop :=
  groupVersionKind x = groupVersionKind y ∧ newObjectKey x = newObjectKey y

instance (x y : Doc) : Decidable (SameID x y) := inferInstanceAs (Decidable (_ ∧ _))

/-- The last of the objects that are the same as one. -/
def lastOf (objList : List Doc) (obj : Doc) : Option Doc :=
  objList.reverse.find? fun d => SameID d obj

/-- The call is for the kind of the object, and is given it. -/
def Gets (objList : List Doc) (obj : Doc) (c : GroupVersionKind × SortedMap ObjectKey Doc) : Prop :=
  c.1 = groupVersionKind obj ∧ c.2.get (newObjectKey obj) = lastOf objList obj

instance (objList : List Doc) (obj : Doc) : DecidablePred (Gets objList obj) :=
  fun _ => inferInstanceAs (Decidable (_ ∧ _))

theorem want_foldl_add_eq (obj : Doc) : ∀ (l : List Doc) (c : ObjectCollection),
    (l.foldl ObjectCollection.add c).want (groupVersionKind obj) (newObjectKey obj)
      = (lastOf l obj).or (c.want (groupVersionKind obj) (newObjectKey obj))
  | [], c => rfl
  | e :: l, c => by
    rw [List.foldl_cons, want_foldl_add_eq obj l (c.add e), want_add]
    simp only [lastOf, List.reverse_cons, List.find?_append]
    rw [Option.or_assoc]
    congr 1
    by_cases he : SameID e obj
    · rw [if_pos (show _ ∧ _ from he), List.find?_cons_of_pos (by simpa using he), Option.some_or]
    · rw [if_neg (show ¬ (_ ∧ _) from he), List.find?_cons_of_neg (by simpa using he),
        List.find?_nil, Option.none_or]

/-- The call for the kind of an object is given it. -/
theorem gets_iff (objList : List Doc) (obj : Doc) (g : GroupVersionKind) :
    Gets objList obj (g, ((DesiredSet.collect objList).get g).getD ∅)
      ↔ g = groupVersionKind obj := by
  refine ⟨And.left, ?_⟩
  rintro rfl
  refine ⟨rfl, ?_⟩
  have hwant := want_foldl_add_eq obj objList ∅
  rwa [show ObjectCollection.want ∅ (groupVersionKind obj) (newObjectKey obj) = none from rfl,
    Option.or_none] at hwant

/-- How often an object is handed to `process`. -/
theorem countP_processed (hout : o.Output env objList) (hready : o.Ready accept) (obj : Doc) :
    (o.processed env accept).countP (fun c => Gets objList obj c)
      = if groupVersionKind obj ∈ o.gvkOrder then 1 else 0 := by
  have hcount : (o.processed env accept).countP (fun c => Gets objList obj c)
      = o.gvkOrder.count (groupVersionKind obj) := by
    rw [processed_of_ready hout hready, List.countP_map]
    refine List.countP_congr fun g _ => ?_
    simp [gets_iff]
  rw [hcount]
  split_ifs with hmem
  · exact List.count_eq_one_of_mem (nodup_gvkOrder o) hmem
  · exact List.count_eq_zero_of_not_mem hmem

/-- Every object of the output is handed to `process` once. -/
def DesiredSet.HandsOver (o : DesiredSet) (env : Env) (accept : Bool) (objList : List Doc) : Prop :=
  ∀ obj ∈ objList, lastOf objList obj ≠ none
    ∧ (o.processed env accept).countP (fun c => Gets objList obj c) = 1

theorem lastOf_ne_none (h : obj ∈ objList) : lastOf objList obj ≠ none := by
  intro hnone
  have hno := List.find?_eq_none.1 hnone obj (List.mem_reverse.2 h)
  simp [SameID] at hno

/-- The output is handed over iff `Apply` gets to the loop at all and each of the objects is of a
kind that was in the set before the injectors or has a client. -/
theorem handsOver_iff (hout : o.Output env objList) :
    o.HandsOver env accept objList ↔ ∀ obj ∈ objList, o.Ready accept
      ∧ ((∃ x ∈ o.objs.order, groupVersionKind x = groupVersionKind obj)
        ∨ ∃ p, o.clients.get (groupVersionKind obj) = some p) := by
  refine forall₂_congr fun obj hobj => ?_
  rw [and_iff_right (lastOf_ne_none hobj), ← mem_gvkOrder]
  by_cases hready : o.Ready accept
  · rw [countP_processed hout hready]
    simp [hready]
  · rw [processed_of_not_ready hready]
    simp [hready]

end Handed

section Sidecar

/-- A service that comes with the objects of the shop. -/
def service : Doc :=
  [("apiVersion", .str "v1"), ("kind", .str "Service"),
    ("metadata", .map [("name", .str "web"), ("namespace", .str "prod")])]

/-- A set whose injector adds an object. -/
def injecting (obj : Doc) : DesiredSet :=
  { shopSet with injectors := [some fun objs => .ok (objs ++ [obj])] }

def injected (obj : Doc) : List Doc :=
  (injecting obj).injectLabelsAndAnnotations [(LabelHash, webHash)] (annotationsOf "web" "prod")
    ++ [obj]

theorem injecting_output (obj : Doc) : (injecting obj).Output shopEnv (injected obj) :=
  ⟨[(LabelHash, webHash)], annotationsOf "web" "prod",
    (by decide +kernel : shopSet.getLabelsAndAnnotations shopEnv = _), rfl⟩

theorem config_handed : (injecting (configMap "extra" "prod" "app" "shop")).HandsOver shopEnv true
    (injected (configMap "extra" "prod" "app" "shop")) := by
  refine (handsOver_iff (injecting_output _)).2 fun obj hobj => ⟨⟨by decide +kernel, .inr rfl⟩, ?_⟩
  have hkind : ∀ x ∈ injected (configMap "extra" "prod" "app" "shop"),
      groupVersionKind x = configMaps.gvk := by
    decide +kernel
  exact .inr ⟨configMaps, by rw [hkind obj hobj]; exact SortedMap.get_set_self _ _ _⟩

/-- The service is of no kind that the set had or has a client for, so it is not handed over. -/
theorem service_dropped : (injecting service).Output shopEnv (injected service)
    ∧ (injecting service).Ready true ∧ service ∈ injected service
    ∧ ¬ (injecting service).HandsOver shopEnv true (injected service) := by
  have hready : (injecting service).Ready true := ⟨by decide +kernel, .inr rfl⟩
  have hmem : service ∈ injected service := List.mem_append_right _ (List.mem_singleton_self _)
  refine ⟨injecting_output service, hready, hmem, fun h => ?_⟩
  have hkind : groupVersionKind service ∉ (injecting service).gvkOrder := by decide +kernel
  have hone := (h service hmem).2
  rw [countP_processed (injecting_output service) hready, if_neg hkind] at hone
  cases hone

end Sidecar

end Norman.Objectset
