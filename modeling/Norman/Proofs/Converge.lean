import Norman.MergePatch
import Norman.Proofs.Apply
import Norman.Proofs.Ownership

/-!
# `Apply` converges

The objects of the set get its label and keep their keys and kinds, so what `process` is given for
a kind are the set's objects of that kind (`want_collect`); the kinds come one after another, each
once. A second `Apply` finds all of the set's objects by their label and nothing else, and so has
nothing to create and nothing to delete.
-/

namespace Norman.Objectset

section Wanted

variable {labels annotations : StrMap} {hash : String} {x : Doc}

/-- An object of the set as it is applied. -/
def inject (labels annotations : StrMap) (x : Doc) : Doc :=
  addAnnotations annotations (addLabels labels x)

/-- The objects the set is to have. -/
def DesiredSet.wanted (o : DesiredSet) (labels annotations : StrMap) : Wanted := fun g k =>
  (o.objs.objects.want g k).map (inject labels annotations)

theorem groupVersionKind_inject :
    groupVersionKind (inject labels annotations x) = groupVersionKind x := by
  simp only [inject, addAnnotations, addLabels, setAnnotations, setLabels, setMetaMap,
    groupVersionKind_setMeta]

theorem newObjectKey_inject : newObjectKey (inject labels annotations x) = newObjectKey x :=
  (newObjectKey_setMeta (by decide) (by decide)).trans
    (newObjectKey_setMeta (by decide) (by decide))

theorem HasMeta.carries_inject (h : HasMeta x) :
    Carries hash (Objectset.inject [(LabelHash, hash)] annotations x) := by
  rw [Carries, Objectset.inject, addAnnotations, getLabels_setAnnotations, addLabels,
    h.getLabels_setLabels]
  simp [Assoc.get_set]

theorem want_foldl_add_ne_none {g : GroupVersionKind} {k : ObjectKey} :
    ∀ (l : List Doc) (c : ObjectCollection),
      c.want g k ≠ none ∨ (∃ d ∈ l, groupVersionKind d = g ∧ newObjectKey d = k) →
      (l.foldl ObjectCollection.add c).want g k ≠ none
  | [], c, h => by simpa using h
  | e :: l, c, h => by
    refine want_foldl_add_ne_none l (c.add e) ?_
    rcases h with h | ⟨d, hd, hgk⟩
    · refine .inl ?_
      rw [want_add]
      split_ifs
      · simp
      · exact h
    · rcases List.mem_cons.1 hd with rfl | hd
      · exact .inl (by rw [want_add, if_pos hgk]; simp)
      · exact .inr ⟨d, hd, hgk⟩

variable {o : DesiredSet}

theorem want_filed {g : GroupVersionKind} {k : ObjectKey} (h : o.objs.objects.want g k = some x) :
    groupVersionKind x = g ∧ newObjectKey x = k ∧ k.name ≠ "" ∧ HasMeta x
      ∧ ∃ y ∈ o.objs.order, groupVersionKind y = g := by
  rcases hm : o.objs.objects.get g with _ | m
  · simp [ObjectCollection.want, hm] at h
  · rw [ObjectCollection.want, hm, Option.getD_some] at h
    obtain ⟨h1, rfl, h3, h4⟩ := o.objs.filed g m k x hm h
    exact ⟨h1, rfl, h3, hasMeta_of_name h3, h4⟩

theorem mem_injectLabelsAndAnnotations {d : Doc} :
    d ∈ o.injectLabelsAndAnnotations labels annotations
      ↔ ∃ g k x, o.objs.objects.want g k = some x ∧ d = inject labels annotations x := by
  simp only [DesiredSet.injectLabelsAndAnnotations, List.mem_flatMap, List.mem_map, Prod.exists,
    ObjectCollection.want]
  constructor
  · rintro ⟨g, m, hg, k, x, hk, rfl⟩
    refine ⟨g, k, x, ?_, rfl⟩
    rw [SortedMap.mem_entries.1 hg, Option.getD_some]
    exact SortedMap.mem_entries.1 hk
  · rintro ⟨g, k, x, hx, rfl⟩
    rcases hm : o.objs.objects.get g with _ | m
    · simp [hm] at hx
    · rw [hm, Option.getD_some] at hx
      exact ⟨g, m, SortedMap.mem_entries.2 hm, k, x, SortedMap.mem_entries.2 hx, rfl⟩

/-- What is collected of the injected objects are the set's own, injected. -/
theorem want_collect :
    (DesiredSet.collect (o.injectLabelsAndAnnotations labels annotations)).want
      = o.wanted labels annotations := by
  have hone : ∀ {g k d},
      (DesiredSet.collect (o.injectLabelsAndAnnotations labels annotations)).want g k = some d →
      ∃ x, o.objs.objects.want g k = some x ∧ d = inject labels annotations x := by
    intro g k d h
    rcases want_foldl_add _ _ h with h | ⟨hm, hg, hk⟩
    · simp [ObjectCollection.want] at h
    · obtain ⟨g', k', x, hx, rfl⟩ := mem_injectLabelsAndAnnotations.1 hm
      obtain ⟨h1, h2, -, -, -⟩ := want_filed hx
      rw [groupVersionKind_inject, h1] at hg
      rw [newObjectKey_inject, h2] at hk
      subst hg hk
      exact ⟨x, hx, rfl⟩
  funext g k
  rcases h : (DesiredSet.collect (o.injectLabelsAndAnnotations labels annotations)).want g k
    with _ | d
  · rcases hx : o.objs.objects.want g k with _ | x
    · simp [DesiredSet.wanted, hx]
    · obtain ⟨h1, h2, -, -, -⟩ := want_filed hx
      refine absurd h (want_foldl_add_ne_none _ _ (.inr ⟨inject labels annotations x,
        mem_injectLabelsAndAnnotations.2 ⟨g, k, x, hx, rfl⟩, ?_, ?_⟩))
      · rw [groupVersionKind_inject, h1]
      · rw [newObjectKey_inject, h2]
  · obtain ⟨x, hx, rfl⟩ := hone h
    simp [DesiredSet.wanted, hx]

end Wanted

section Kinds

theorem foldl_dedup {α : Type*} [DecidableEq α] :
    ∀ (l seen : List α), seen.Nodup →
      (l.foldl (fun seen g => if g ∈ seen then seen else seen ++ [g]) seen).Nodup
        ∧ ∀ g, g ∈ l.foldl (fun seen g => if g ∈ seen then seen else seen ++ [g]) seen
            ↔ g ∈ seen ∨ g ∈ l
  | [], seen, h => by simp [h]
  | x :: l, seen, h => by
    rw [List.foldl_cons]
    split_ifs with hx
    · obtain ⟨h1, h2⟩ := foldl_dedup l seen h
      refine ⟨h1, fun g => (h2 g).trans ?_⟩
      simp only [List.mem_cons]
      constructor
      · rintro (h | h)
        · exact .inl h
        · exact .inr (.inr h)
      · rintro (h | rfl | h)
        · exact .inl h
        · exact .inl hx
        · exact .inr h
    · obtain ⟨h1, h2⟩ := foldl_dedup l (seen ++ [x]) (by
        refine List.nodup_append.2 ⟨h, by simp, ?_⟩
        rintro y hy _ hx' rfl
        exact hx (by simpa [List.mem_singleton.1 hx'] using hy))
      refine ⟨h1, fun g => (h2 g).trans ?_⟩
      simp [or_assoc]

variable {o : DesiredSet}

theorem mem_gvkOrder {g : GroupVersionKind} : g ∈ o.gvkOrder
    ↔ (∃ x ∈ o.objs.order, groupVersionKind x = g) ∨ ∃ p, o.clients.get g = some p := by
  have hdedup := (foldl_dedup (o.objs.order.map groupVersionKind) [] (by simp)).2
  simp only [DesiredSet.gvkOrder, List.mem_append, List.mem_insertionSort, List.mem_filter, hdedup,
    List.not_mem_nil, false_or, List.mem_map, SortedMap.mem_keys, decide_not, Bool.not_eq_true',
    decide_eq_false_iff_not]
  by_cases h : ∃ x ∈ o.objs.order, groupVersionKind x = g <;> simp only [h, true_or, false_or,
    not_false_eq_true, and_true]

theorem nodup_gvkOrder (o : DesiredSet) : o.gvkOrder.Nodup := by
  refine List.nodup_append.2 ⟨(foldl_dedup _ [] (by simp)).1,
    (List.perm_insertionSort _ _).nodup_iff.2 (o.clients.nodup_keys.filter _), ?_⟩
  rintro g hg _ hg' rfl
  simp only [List.mem_insertionSort, List.mem_filter, decide_not, Bool.not_eq_true',
    decide_eq_false_iff_not] at hg'
  exact hg'.2 hg

end Kinds

section Apply

variable {env : Env} {o : DesiredSet} {a : Api} {labels annotations : StrMap} {accept : Bool}
  {hash : String} {g : GroupVersionKind}

/-- What is asked of a set and its clients: no errors so far and no injectors; every kind of the set
has a client, and its objects have namespaces exactly where the kind has them. -/
structure Sound (o : DesiredSet) : Prop where
  errs : o.Err = []
  injectors : o.injectors = []
  served : ∀ x ∈ o.objs.order, ∃ p, o.clients.get (groupVersionKind x) = some p
  scope : ∀ {g k x p}, o.objs.objects.want g k = some x → o.clients.get g = some p →
    p.namespaced = decide (k.ns ≠ "")

theorem Sound.ready (h : Sound o) {p : ObjectClient} (hp : o.clients.get g = some p) :
    Ready hash p ((DesiredSet.collect
      (o.injectLabelsAndAnnotations [(LabelHash, hash)] annotations)).want g) := by
  intro k new hk
  rw [want_collect] at hk
  simp only [DesiredSet.wanted, Option.map_eq_some_iff] at hk
  obtain ⟨x, hx, rfl⟩ := hk
  obtain ⟨-, h2, h3, h4, -⟩ := want_filed hx
  exact ⟨h.scope hx hp, newObjectKey_inject.trans h2, h3, h4.carries_inject⟩

theorem Sound.client (h : Sound o) (hg : g ∈ o.gvkOrder) : ∃ p, o.clients.get g = some p := by
  rcases mem_gvkOrder.1 hg with ⟨x, hx, rfl⟩ | hp
  · exact h.served x hx
  · exact hp

theorem Sound.runInjectors (h : Sound o) (objList : List Doc) :
    o.runInjectors objList = .ok objList := by
  rw [DesiredSet.runInjectors, h.injectors]
  rfl

/-- `Apply`, with the rate limiter accepting the call. -/
theorem apply_applied (h : Sound o)
    (hl : o.getLabelsAndAnnotations env = .ok ([(LabelHash, hash)], annotations))
    (hrate : o.remove = true ∨ accept = true)
    (hmc : ∀ g, MergeCorrect env (o.inputID env hash) a.merge a.cluster g
      (o.wanted [(LabelHash, hash)] annotations g)) :
    (o.Apply env accept a).2 = (o.Apply env accept a).1.1.errs
      ∧ Applied env (o.inputID env hash) hash (o.wanted [(LabelHash, hash)] annotations)
          o.gvkOrder (o, a) (o.Apply env accept a).1 := by
  rw [Apply_eq h.errs hl hrate (h.runInjectors _)]
  have happ : Applied env (o.inputID env hash) hash _ o.gvkOrder (o, a) (o.processAll env
      [(LabelHash, hash)] (o.injectLabelsAndAnnotations [(LabelHash, hash)] annotations) a) :=
    processes_applied (nodup_gvkOrder o) fun g hg => by
      obtain ⟨p, hp⟩ := h.client hg
      exact ⟨⟨p, hp, h.ready hp⟩, want_collect ▸ hmc g⟩
  rw [want_collect] at happ
  refine ⟨?_, happ⟩
  rw [happ.set]
  simp [DesiredSet.Err, (List.append_eq_nil_iff.1 h.errs).1]

/-- What is wanted is of a kind that is processed. -/
theorem gvk_mem_of_wanted {k : ObjectKey} {new : Doc}
    (h : o.wanted labels annotations g k = some new) : g ∈ o.gvkOrder := by
  obtain ⟨x, hx, -⟩ := Option.map_eq_some_iff.1 h
  exact mem_gvkOrder.2 (.inl (want_filed hx).2.2.2.2)

/-- After an `Apply` without errors, what carries the label is what is wanted. -/
theorem Applied.steady {inputID : String} {s : DesiredSet × Api}
    (h : Applied env inputID hash (o.wanted labels annotations) o.gvkOrder (o, a) s)
    (herrs : s.1.errs = []) (hg : g ∈ o.gvkOrder) :
    Steady hash (DesiredSet.collect (o.injectLabelsAndAnnotations labels annotations)) s.2.cluster
      g := by
  have hok : ¬ Fails a s.2 := fun hf => h.reports.told hf herrs
  intro k
  rw [want_collect]
  constructor
  · rintro ⟨new, hw⟩
    rcases h.desired hg hw with ⟨-, hy⟩ | hf | ⟨he, -⟩
    · exact hy
    · exact absurd hf.fails hok
    · exact absurd herrs he
  · rintro ⟨x, hx, hc⟩
    rcases hw : o.wanted labels annotations g k with _ | new
    · by_cases hold : ∃ y, a.cluster.get g k = some y ∧ Carries hash y
      · obtain ⟨y, hy, hcy⟩ := hold
        rcases h.pruned hg hy hcy hw with hn | ⟨c, hc, -, -, -, hf⟩
        · rw [hn] at hx
          cases hx
        · exact absurd ⟨c, hc, hf⟩ hok
      · refine absurd ⟨x, ?_, hc⟩ hold
        rw [← hx, ← h.within.frame fun _ => ⟨hw, fun y hy hcy => hold ⟨y, hy, hcy⟩⟩]
    · exact ⟨new, rfl⟩

/-- A second `Apply` sends patches only. -/
theorem apply_again (accept : Bool) (h : Sound o)
    (hl : o.getLabelsAndAnnotations env = .ok ([(LabelHash, hash)], annotations))
    {inputID : String} {s : DesiredSet × Api}
    (happ : Applied env inputID hash (o.wanted [(LabelHash, hash)] annotations) o.gvkOrder (o, a) s)
    (herrs : s.1.errs = []) :
    Within (fun c => c.verb = .patch) (fun _ _ => False) s.2 (o.Apply env accept s.2).1.2 := by
  by_cases hrate : o.remove = true ∨ accept = true
  · rw [Apply_eq h.errs hl hrate (h.runInjectors _)]
    refine processes_steady (s := (o, s.2)) (fun {g k new} hk => ?_) (nodup_gvkOrder o)
      fun g hg => ⟨h.client hg, happ.steady herrs hg⟩
    exact ((want_foldl_add _ _ hk).resolve_left (by simp [ObjectCollection.want])).2.2
  · rw [not_or] at hrate
    simp only [DesiredSet.Apply, h.errs, hl, hrate.1, hrate.2, ne_eq, not_true_eq_false,
      and_self, if_false]
    exact .refl

end Apply

section Shop

mutual

/-- JSON, of texts without characters to escape. -/
def json : Value → String
  | .str s => "\"" ++ s ++ "\""
  | .map m => "\x7b" ++ jsonEntries m ++ "\x7d"
  | _ => "null"

def jsonEntries : Doc → String
  | [] => ""
  | [(k, v)] => "\"" ++ k ++ "\":" ++ json v
  | (k, v) :: m => "\"" ++ k ++ "\":" ++ json v ++ "," ++ jsonEntries m

end

/-- The digests for the set of `web`, of its label and of its input. -/
def webHash : String := "279f165c2b93a09ca30098d429004963c2b12522"

def webInputID : String := "43ddd965f8c3b25c5d81b5cd0657ea40f55a1100"

def shopCodec : Env where
  sha1 b := if b = bytes "stackapps/v1, Kind=Deploymentwebprod" then webHash else webInputID
  float _ := .error ""
  marshal o := json (.map o)
  unmarshal _ := .error "unexpected end of JSON input"
  pack s := s
  unpack _ := none
  threeWay _ _ _ _ := .error ""

/-- An object of the shop, as it is desired. -/
def shopObject (name : String) : Doc := configMap name "prod" "app" "shop"

def shopWanted (name : String) : Doc :=
  inject [(LabelHash, webHash)] (annotationsOf "web" "prod") (shopObject name)

/-- The set of the shop: a cart and a menu. -/
def shopSet : DesiredSet :=
  { setOf configMaps "web" "prod" with
    objs := NewObjectSet.Add [some (.object (shopObject "cart")), some (.object (shopObject "menu"))] }

/-- The patch that takes over the menu. -/
def menuPatch : Doc :=
  [("metadata", .map [
    ("annotations", (Assoc.get "annotations" (metadata
      (prepareObjectForCreate shopCodec webInputID (shopWanted "menu")))).getD .nil),
    ("creationTimestamp", .nil), ("labels", .map [(LabelHash, .str webHash)])])]

/-- The code the shop calls, as far as it is called: what was applied before needs no change. -/
def shopEnv : Env :=
  { shopCodec with
    unmarshal := fun s =>
      if s = json (.map (shopWanted "cart")) then .ok (shopWanted "cart")
      else if s = json (.map (shopWanted "menu")) then .ok (shopWanted "menu")
      else .error "unexpected end of JSON input"
    threeWay := fun _ original _ _ => .ok (.strategic, .map (if original = [] then menuPatch else [])) }

/-- The server: a menu made by hand, and a sale that is over. -/
def shopApi : Api where
  cluster := (Cluster.put ∅ configMaps.gvk (shopObject "menu")).put configMaps.gvk
    (configMap "sale" "prod" LabelHash webHash)
  faults _ := none
  calls := []
  merge _ old patch := mergeDoc patch.toMapInterface old

theorem shop_want {g : GroupVersionKind} {k : ObjectKey} {x : Doc}
    (h : shopSet.objs.objects.want g k = some x) :
    g = configMaps.gvk ∧ ((k = ⟨"cart", "prod"⟩ ∧ x = shopObject "cart")
      ∨ (k = ⟨"menu", "prod"⟩ ∧ x = shopObject "menu")) := by
  have hobjs : shopSet.objs.objects
      = (ObjectCollection.add ∅ (shopObject "cart")).add (shopObject "menu") := by
    decide +kernel
  have hkeys : ∀ name ∈ ["cart", "menu"], groupVersionKind (shopObject name) = configMaps.gvk
      ∧ newObjectKey (shopObject name) = ⟨name, "prod"⟩ := by
    decide +kernel
  obtain ⟨hg, hcart⟩ := hkeys "cart" (by simp)
  obtain ⟨hg', hmenu⟩ := hkeys "menu" (by simp)
  rw [hobjs, want_add, want_add, hg, hg', hcart, hmenu] at h
  split_ifs at h with h1 h2
  · exact ⟨h1.1.symm, .inr ⟨h1.2.symm, (Option.some.inj h).symm⟩⟩
  · exact ⟨h2.1.symm, .inl ⟨h2.2.symm, (Option.some.inj h).symm⟩⟩
  · simp [ObjectCollection.want] at h

theorem shop_sound : Sound shopSet where
  errs := by decide +kernel
  injectors := rfl
  served x hx := by
    have hkind : ∀ x ∈ shopSet.objs.order, groupVersionKind x = configMaps.gvk := by
      decide +kernel
    rw [hkind x hx]
    exact ⟨configMaps, SortedMap.get_set_self _ _ _⟩
  scope {g k x p} hx hp := by
    obtain ⟨rfl, hk⟩ := shop_want hx
    have hc : shopSet.clients.get configMaps.gvk = some configMaps := SortedMap.get_set_self _ _ _
    rw [hc] at hp
    cases hp
    rcases hk with ⟨rfl, -⟩ | ⟨rfl, -⟩ <;> rfl

theorem labelsIn_of_forall {x y : Doc}
    (h : ∀ e ∈ getLabels x, Assoc.get e.1 (getLabels y) = some e.2) : LabelsIn x y :=
  fun l v hl => h (l, v) (Assoc.mem_of_get hl)

/-- What is said of the merge is said of the menu. -/
theorem shop_mergeCorrect (g : GroupVersionKind) :
    MergeCorrect shopEnv (shopSet.inputID shopEnv webHash) shopApi.merge shopApi.cluster g
      (shopSet.wanted [(LabelHash, webHash)] (annotationsOf "web" "prod") g) := by
  intro k old new t patch hold hnew hpatch
  obtain ⟨x, hx, rfl⟩ := Option.map_eq_some_iff.1 hnew
  obtain ⟨rfl, ⟨rfl, rfl⟩ | ⟨rfl, rfl⟩⟩ := shop_want hx
  · exact absurd hold (by
      rw [show shopApi.cluster.get configMaps.gvk ⟨"cart", "prod"⟩ = none by decide +kernel]
      simp)
  · have hmenu : shopApi.cluster.get configMaps.gvk ⟨"menu", "prod"⟩ = some (shopObject "menu") := by
      decide +kernel
    have hfor : patchFor shopEnv configMaps.gvk (shopSet.inputID shopEnv webHash)
        (shopObject "menu") (shopWanted "menu") = .ok (.strategic, .map menuPatch) := by
      decide +kernel
    rw [hmenu] at hold
    cases hold
    rw [show inject _ _ (shopObject "menu") = shopWanted "menu" from rfl, hfor] at hpatch
    cases hpatch
    refine ⟨menuPatch, rfl, fun data' hs _ => ?_, fun hnone => ?_⟩
    · have hsent : sanitizePatch shopEnv (.map menuPatch) = .ok (.map (removeCreationTimestamp
          menuPatch).1) := by
        decide +kernel
      rw [hsent] at hs
      cases hs
      exact labelsIn_of_forall (by decide +kernel)
    · exact absurd hnone (by decide +kernel)

/-- The server has the cart already, with a broken note of what was applied to it. -/
def brokenCart : Api :=
  { shopApi with
    cluster := Cluster.put ∅ configMaps.gvk
      (setAnnotations [(LabelApplied, "\x7b")] (configMap "cart" "prod" LabelHash webHash)) }

/-- A set of a volume, which has a namespace although its kind has none. -/
def diskSet : DesiredSet :=
  { setOf ⟨⟨"", "v1", "PersistentVolume"⟩, false, ""⟩ "web" "prod" with
    objs := NewObjectSet.Add [some (.object [("apiVersion", .str "v1"),
      ("kind", .str "PersistentVolume"),
      ("metadata", .map [("name", .str "disk"), ("namespace", .str "prod")])])] }

end Shop

end Norman.Objectset
