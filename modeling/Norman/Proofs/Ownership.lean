import Mathlib.Data.List.Infix
import Norman.Proofs.Reach

/-!
# Whose objects a set leaves alone

The label of a set is the hash of four strings written one after another, with nothing between them,
so two sets whose strings are different can have the same label. They cannot if the first strings
that differ are no beginnings of one another, or are the only ones that differ (`Apart`). A label of
its own does not yet keep `Apply` from another set's objects: an object that it wants and finds
there already, whoever's it is, is taken over. So the keys of the other's objects have to be clear
of the wanted ones.
-/

namespace Norman.Objectset

section Apart

variable {α : Type*}

/-- Two lists of words that can be told apart by the text they make. -/
inductive Apart : List (List α) → List (List α) → Prop
  | here {x y : List α} (xs ys : List (List α)) (h : ¬ x <+: y) (h' : ¬ y <+: x) :
    Apart (x :: xs) (y :: ys)
  | only {x y : List α} (xs : List (List α)) (h : x ≠ y) : Apart (x :: xs) (y :: xs)
  | there (x : List α) {xs ys : List (List α)} (h : Apart xs ys) : Apart (x :: xs) (x :: ys)

theorem Apart.flatten_ne {xs ys : List (List α)} (h : Apart xs ys) : xs.flatten ≠ ys.flatten := by
  induction h with
  | here xs ys h h' =>
    intro heq
    rw [List.flatten_cons, List.flatten_cons] at heq
    rcases List.prefix_or_prefix_of_prefix (List.prefix_append _ xs.flatten)
      (heq ▸ List.prefix_append _ ys.flatten) with hpre | hpre
    · exact h hpre
    · exact h' hpre
  | only xs h => simpa using h
  | there x _ ih => simpa using ih

end Apart

section Owners

/-- The four strings a set is known by: its id, and its owner's kind, name and namespace. -/
def DesiredSet.identity (o : DesiredSet) : List String :=
  match o.owner with
  | some (.object m) => [o.setID, (groupVersionKind m).toString, getName m, getNamespace m]
  | _ => [o.setID, "", "", ""]

/-- Two keys that no client has one path for: the names differ, or the namespaces, if both have
one. -/
def ObjectKey.Clear (k k' : ObjectKey) : Prop :=
  k.name ≠ k'.name ∨ (k.ns ≠ "" ∧ k'.ns ≠ "" ∧ k.ns ≠ k'.ns)

variable {env : Env} {o o' : DesiredSet} {labels labels' annotations annotations' : StrMap} {a : Api}

theorem ObjectKey.Clear.path_ne {k k' : ObjectKey} (h : k.Clear k') (p : ObjectClient) :
    p.path k ≠ k' := by
  rintro rfl
  rcases h with h | ⟨h1, h2, h3⟩
  · exact h rfl
  · by_cases hp : p.namespaced = true <;> simp [ObjectClient.path, hp, h1] at h2 h3

/-- What is hashed are the four strings. -/
theorem hashInput_eq (h : o.getLabelsAndAnnotations env = .ok (labels, annotations)) :
    hashInput annotations = (o.identity.map bytes).flatten := by
  unfold DesiredSet.getLabelsAndAnnotations DesiredSet.ownerAnnotations at h
  unfold DesiredSet.identity
  rcases ho : o.owner with _ | (m | m | g) <;>
    simp only [ho, accessor, Except.map, Except.ok.injEq, Prod.mk.injEq, reduceCtorEq] at h
  · rw [← h.2]
    simp [hashInput, hashOrder, Assoc.get, LabelID, LabelGVK, LabelName, LabelNamespace]
  · rw [← h.2]
    simp [hashInput, hashOrder, Assoc.get_set, Assoc.get, LabelID, LabelGVK, LabelName,
      LabelNamespace, Item.groupVersionKind]

theorem selector_iff (h : o.getLabelsAndAnnotations env = .ok (labels, annotations)) {x : Doc} :
    selector labels (getLabels x) = true ↔ Carries (env.sha1 (hashInput annotations)) x := by
  rw [labels_eq h]
  simp [selector, requirement, Assoc.get, Carries, objectSetHash]

end Owners

section Deployments

/-- A set without objects, for a deployment, with one client. -/
def setOf (p : ObjectClient) (name ns : String) : DesiredSet where
  discoveredClients := ∅
  discoveredFiled := by simp
  discovery := none
  restErr := none
  remove := false
  setID := "stack"
  objs := NewObjectSet
  codeVersion := ""
  clients := (∅ : SortedMap GroupVersionKind ObjectClient).set p.gvk p
  clientsFiled {g q} h := by
    rw [SortedMap.get_set] at h
    split_ifs at h with hg
    · simp only [Option.some.injEq] at h
      rw [← h, hg]
    · simp at h
  owner := some (.object [("apiVersion", .str "apps/v1"), ("kind", .str "Deployment"),
    ("metadata", .map [("name", .str name), ("namespace", .str ns)])])
  injectors := []
  errs := []

/-- The SHA-1 digests of the texts below. -/
def sha1Table : Env where
  sha1 b :=
    if b = bytes "stackapps/v1, Kind=Deploymentwebprod" then
      "279f165c2b93a09ca30098d429004963c2b12522"
    else if b = bytes "stackapps/v1, Kind=Deploymentdbprod" then
      "3e24f67578e34240b7f63fa8ba6831bcacb5a119"
    else "96e937f4de6e6902cee20f53fc11ad861e0b5f1c"
  float _ := .error ""
  marshal _ := ""
  unmarshal _ := .error ""
  pack s := s
  unpack _ := none
  threeWay _ _ _ _ := .error ""

/-- What `setOf` annotates its objects with. -/
def annotationsOf (name ns : String) : StrMap :=
  [(LabelID, "stack"), (LabelGVK, "apps/v1, Kind=Deployment"), (LabelName, name),
    (LabelNamespace, ns)]

/-- A server with one `ConfigMap`, of some set. -/
def serverWith (name ns hash : String) : Api where
  cluster := Cluster.put ∅ configMaps.gvk (configMap name ns LabelHash hash)
  faults _ := none
  calls := []
  merge _ old _ := old

/-- The set for `web`, with a menu. -/
def menuSet : DesiredSet :=
  { setOf configMaps "web" "prod" with
    objs := NewObjectSet.Add [some (.object (configMap "menu" "prod" "app" "shop"))] }

end Deployments

end Norman.Objectset
