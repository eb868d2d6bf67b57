import Norman.Proofs.Listing
import Norman.Proofs.Patching

/-!
# What `Apply` reaches

Whatever the cluster has and whichever calls fail: for a wanted object `process` creates and patches
at the key that the client's path has for it, and it deletes at keys it has listed. So which calls
an `Apply` can make and which objects it leaves alone follows from the keys that are wanted and
listed (`Job.Allows`), kind by kind (`Within`).
-/

namespace Norman.Objectset

variable {P : Call → Prop} {S : GroupVersionKind → ObjectKey → Prop} {a : Api}

section Collected

/-- The objects a set is to have, by kind and key. -/
abbrev Wanted := GroupVersionKind → ObjectKey → Option Doc

/-- What a collection has for a kind and a key. -/
def ObjectCollection.want (c : ObjectCollection) : Wanted := fun g k => ((c.get g).getD ∅).get k

theorem want_add (c : ObjectCollection) (d : Doc) (g : GroupVersionKind) (k : ObjectKey) :
    (c.add d).want g k
      = if groupVersionKind d = g ∧ newObjectKey d = k then some d else c.want g k := by
  simp only [ObjectCollection.want, ObjectCollection.add, SortedMap.get_set]
  by_cases hg : g = groupVersionKind d
  · subst hg
    simp only [if_true, Option.getD_some, SortedMap.get_set, true_and]
    split_ifs with h1 h2 h2
    · rfl
    · exact absurd h1.symm h2
    · exact absurd h2.symm h1
    · rfl
  · rw [if_neg hg, if_neg fun h => hg h.1.symm]

/-- What a collection made of a list has is in the list. -/
theorem want_foldl_add {d : Doc} {g : GroupVersionKind} {k : ObjectKey} :
    ∀ (l : List Doc) (c : ObjectCollection), (l.foldl ObjectCollection.add c).want g k = some d →
      c.want g k = some d ∨ (d ∈ l ∧ groupVersionKind d = g ∧ newObjectKey d = k)
  | [], c, h => .inl h
  | e :: l, c, h => by
    rcases want_foldl_add l (c.add e) h with h | ⟨hm, h⟩
    · rw [want_add] at h
      split_ifs at h with hgk
      · cases h
        exact .inr ⟨List.mem_cons_self, hgk⟩
      · exact .inl h
    · exact .inr ⟨List.mem_cons_of_mem _ hm, h⟩

end Collected

section Turns

variable {j : Job} {k : ObjectKey} {new : Doc}

theorem getNamespaced_key {p : ObjectClient} {x : Doc} (h : (p.getNamespaced a k).2 = .ok x) :
    newObjectKey x = k := by
  rcases hx : a.cluster.get p.gvk k with _ | y <;>
    rcases hf : a.faults a.calls.length with _ | f <;>
    simp only [ObjectClient.getNamespaced, Api.call, hx, hf] at h <;> cases h
  exact a.cluster.keyed hx

/-- A turn of the first loop; an object that is there already goes on to the updates. -/
theorem create_reach (hnew : j.objs.get k = some new) (hkey : newObjectKey new = k)
    (hok : ∀ {verb}, verb = .create ∨ verb = .get → ∀ e, P ⟨verb, j.client.gvk, k, e⟩)
    (hS : ¬ S j.client.gvk (j.client.path k)) (s : Progress) :
    Within P S s.api (j.create s k).api
      ∧ (((j.create s k).toUpdate = s.toUpdate ∧ (j.create s k).existing = s.existing)
        ∨ ∃ old, newObjectKey old = k ∧ (j.create s k).toUpdate = s.toUpdate ++ [k]
          ∧ (j.create s k).existing = s.existing.set k old) := by
  have hkey' : newObjectKey (prepareObjectForCreate j.env j.inputID new) = k :=
    newObjectKey_prepare.trans hkey
  have hcreate : Within P S s.api
      (j.client.create s.api (prepareObjectForCreate j.env j.inputID new)).1 :=
    create_within (by rw [hkey']; exact hok (.inl rfl)) (by rw [hkey']; exact hS)
  simp only [Job.create, hnew, Option.getD_some]
  split
  · exact ⟨hcreate, .inl ⟨rfl, rfl⟩⟩
  · split_ifs
    · have hget := hcreate.trans (getNamespaced_within (p := j.client) (hok (.inr rfl)))
      split
      · rename_i old hold
        exact ⟨hget, .inr ⟨old, getNamespaced_key hold, rfl, rfl⟩⟩
      · exact ⟨hget, .inl ⟨rfl, rfl⟩⟩
    · exact ⟨hcreate, .inl ⟨rfl, rfl⟩⟩

theorem compareObjects_within {env : Env} {p : ObjectClient} {inputID : String} {old : Doc}
    (h : getName old ≠ "" → (∀ e, P ⟨.patch, p.gvk, p.path (newObjectKey old), e⟩)
      ∧ ¬ S p.gvk (p.path (newObjectKey old))) :
    Within P S a (compareObjects env p a inputID old new).1 := by
  simp only [compareObjects, applyPatch_eq]
  rcases sentFor env p.gvk inputID old new with e | ⟨t, sent⟩
  · exact .refl
  · simp only
    split_ifs
    · exact .refl
    · have hpatch : Within P S a (p.patch a old t sent).1 := patch_within h
      rcases (p.patch a old t sent).2 with e | x <;> exact hpatch

theorem update_reach {s : Progress} (hkey : ∀ {x}, s.existing.get k = some x → newObjectKey x = k)
    (hok : ∀ e, P ⟨.patch, j.client.gvk, j.client.path k, e⟩)
    (hS : ¬ S j.client.gvk (j.client.path k)) : Within P S s.api (j.update s k).api := by
  refine compareObjects_within fun hname => ?_
  rcases hx : s.existing.get k with _ | x
  · exact absurd (by rw [hx]; rfl) hname
  · rw [Option.getD_some, hkey hx]
    exact ⟨hok, hS⟩

theorem delete_reach (hok : ∀ e, P ⟨.delete, j.client.gvk, k, e⟩) (hS : ¬ S j.client.gvk k)
    (s : Progress) : Within P S s.api (j.delete s k).api := by
  have hdelete : Within P S s.api (j.client.deleteNamespaced s.api k).1 :=
    deleteNamespaced_within hok hS
  simp only [Job.delete]
  split <;> exact hdelete

end Turns

section Job

/-- The calls that the loops can make are such calls, and reach no object of `S`. -/
structure Job.Allows (j : Job) (P : Call → Prop) (S : GroupVersionKind → ObjectKey → Prop)
    (existing : SortedMap ObjectKey Doc) : Prop where
  keyed : ∀ {k new}, j.objs.get k = some new → newObjectKey new = k
  listed : ∀ {k x}, existing.get k = some x → newObjectKey x = k
  create : ∀ {k}, k ∈ (compareSets existing j.objs).1 → ∀ {verb}, verb = .create ∨ verb = .get →
    ∀ e, P ⟨verb, j.client.gvk, k, e⟩
  patch : ∀ {k new}, j.objs.get k = some new →
    (∀ e, P ⟨.patch, j.client.gvk, j.client.path k, e⟩) ∧ ¬ S j.client.gvk (j.client.path k)
  delete : ∀ {k}, k ∈ (compareSets existing j.objs).2.1 →
    (∀ e, P ⟨.delete, j.client.gvk, k, e⟩) ∧ ¬ S j.client.gvk k

variable {j : Job} {existing : SortedMap ObjectKey Doc}

/-- What was found is under its key, and what is to be updated is wanted. -/
def Job.Keeps (j : Job) (s : Progress) : Prop :=
  (∀ {k x}, s.existing.get k = some x → newObjectKey x = k)
    ∧ ∀ k ∈ s.toUpdate, ∃ new, j.objs.get k = some new

theorem Job.Allows.create_turn (h : j.Allows P S existing) {s : Progress} (hs : j.Keeps s)
    {k : ObjectKey} (hk : k ∈ (compareSets existing j.objs).1) :
    Within P S s.api (j.create s k).api ∧ j.Keeps (j.create s k) := by
  obtain ⟨new, hnew⟩ := (mem_toCreate.1 hk).1
  obtain ⟨hw, ⟨h1, h2⟩ | ⟨old, hold, h1, h2⟩⟩ :=
    create_reach hnew (h.keyed hnew) (h.create hk) (h.patch hnew).2 s
  · exact ⟨hw, by rw [h2]; exact hs.1, by rw [h1]; exact hs.2⟩
  · refine ⟨hw, fun {k' x} hx => ?_, fun k' hk' => ?_⟩
    · rw [h2, SortedMap.get_set] at hx
      split_ifs at hx with hk'
      · cases hx
        exact hold.trans hk'.symm
      · exact hs.1 hx
    · rw [h1] at hk'
      rcases List.mem_append.1 hk' with hk' | hk'
      · exact hs.2 k' hk'
      · exact ⟨new, List.mem_singleton.1 hk' ▸ hnew⟩

/-- The three loops. -/
theorem Job.Allows.run (h : j.Allows P S existing) (a : Api) :
    Within P S a (j.run a existing).api := by
  simp only [Job.run]
  obtain ⟨hcreate, hs⟩ := List.foldlRecOn (compareSets existing j.objs).1 j.create
    (motive := fun s => Within P S a s.api ∧ j.Keeps s)
    (b := { api := a, errs := [], toUpdate := (compareSets existing j.objs).2.2, existing })
    ⟨.refl, h.listed, fun k hk => (mem_toUpdate.1 hk).1⟩ fun s hs k hk => by
      obtain ⟨hw, hkeeps⟩ := h.create_turn hs.2 hk
      exact ⟨hs.1.trans hw, hkeeps⟩
  obtain ⟨hupdate, -⟩ := List.foldlRecOn _ j.update
    (motive := fun s => Within P S a s.api ∧ j.Keeps s) ⟨hcreate, hs⟩ fun s hs' k hk => by
      obtain ⟨new, hnew⟩ := hs.2 k hk
      exact ⟨hs'.1.trans (update_reach hs'.2.1 (h.patch hnew).1 (h.patch hnew).2), hs'.2⟩
  exact List.foldlRecOn _ j.delete (motive := fun s => Within P S a s.api) hupdate
    fun s hs' k hk => hs'.trans (delete_reach (h.delete hk).1 (h.delete hk).2 s)

end Job

section Process

variable {env : Env} {inputID : String} {objs : ObjectCollection} {g : GroupVersionKind}

theorem list_within {controller : Option (List Item)} {p : ObjectClient} {selector : StrMap → Bool}
    (hok : ∀ e, P ⟨.list, p.gvk, ⟨"", ""⟩, e⟩) :
    Within P S a (list a controller p selector).1 := by
  have hlist : Within P S a (p.list a selector).1 := by
    refine (call_called rfl).within hok fun {c x} hanswer g' k' _ => ?_
    cases hanswer
    rfl
  unfold list
  split
  · split <;> rename_i h <;> rw [h] at hlist <;> exact hlist
  · exact .refl

theorem client_gvk {o o' : DesiredSet} {controller : Bool} {p : ObjectClient}
    (h : o.getControllerAndObjectClient g = (o', .ok (controller, p))) : p.gvk = g := by
  unfold DesiredSet.getControllerAndObjectClient at h
  split at h
  · rename_i hp
    cases h
    exact o.clientsFiled hp
  · cases h
  · split at h
    · rename_i hp
      cases h
      exact o.discoveredFiled hp
    · split at h
      · cases h
      · split at h <;> cases h
        rfl

/-- `process`, by the jobs it can come to. -/
theorem process_within {selector : StrMap → Bool} {s : DesiredSet × Api}
    (hlist : ∀ e, P ⟨.list, g, ⟨"", ""⟩, e⟩)
    (h : ∀ (j : Job) existing, j.client.gvk = g → j.objs.get = objs.want g →
      (∀ {k x}, existing.get k = some x →
        s.2.cluster.get g k = some x ∧ selector (getLabels x) = true) → j.Allows P S existing) :
    Within P S s.2 (process env inputID selector objs s g).2 := by
  unfold process
  rcases hc : s.1.getControllerAndObjectClient g with ⟨o, e | ⟨controller, p⟩⟩
  · exact .refl
  · obtain rfl := client_gvk hc
    simp only
    split
    · exact list_within hlist
    · rename_i existing hexisting
      exact (list_within hlist).trans
        ((h _ existing rfl rfl fun hk => list_found hexisting hk).run _)

end Process

section Apply

variable {env : Env} {o : DesiredSet} {labels annotations : StrMap} {accept : Bool}

/-- The selector `Apply` lists with. -/
def selector (labels : StrMap) : StrMap → Bool :=
  requirement LabelHash ((Assoc.get LabelHash labels).getD "")

/-- The loop of `Apply` over the kinds. -/
def DesiredSet.processAll (o : DesiredSet) (env : Env) (labels : StrMap) (objList : List Doc)
    (a : Api) : DesiredSet × Api :=
  o.gvkOrder.foldl (process env (o.inputID env ((Assoc.get LabelHash labels).getD ""))
    (selector labels) (DesiredSet.collect objList)) (o, a)

/-- `Apply`, if nothing keeps it from the loop. -/
theorem Apply_eq {objList : List Doc} (herr : o.Err = [])
    (h : o.getLabelsAndAnnotations env = .ok (labels, annotations))
    (hrate : o.remove = true ∨ accept = true)
    (hinj : o.runInjectors (o.injectLabelsAndAnnotations labels annotations) = .ok objList) :
    o.Apply env accept a
      = (o.processAll env labels objList a, (o.processAll env labels objList a).1.Err) := by
  have hlimit : ¬ (¬ o.remove = true ∧ ¬ accept = true) := by tauto
  simp only [DesiredSet.Apply, herr, ne_eq, not_true_eq_false, if_false, h, if_neg hlimit, hinj]
  rfl

/-- `Apply` stays within what the loop over the kinds does, whatever the cluster has for them, if
only the objects of `S` are as they were. -/
theorem apply_within (h : o.getLabelsAndAnnotations env = .ok (labels, annotations))
    (hloop : ∀ objList,
      o.runInjectors (o.injectLabelsAndAnnotations labels annotations) = .ok objList →
      ∀ inputID g (s : DesiredSet × Api),
        (∀ {g k}, S g k → s.2.cluster.get g k = a.cluster.get g k) →
        Within P S s.2
          (process env inputID (selector labels) (DesiredSet.collect objList) s g).2) :
    Within P S a (o.Apply env accept a).1.2 := by
  by_cases hgo : o.Err = [] ∧ (o.remove = true ∨ accept = true)
  · rcases hinj : o.runInjectors (o.injectLabelsAndAnnotations labels annotations) with e | objList
    · have hlimit : ¬ (¬ o.remove = true ∧ ¬ accept = true) := by tauto
      simp only [DesiredSet.Apply, hgo.1, ne_eq, not_true_eq_false, if_false, h, if_neg hlimit, hinj]
      exact .refl
    · rw [Apply_eq hgo.1 h hgo.2 hinj]
      refine List.foldlRecOn o.gvkOrder _ (motive := fun s => Within P S a s.2) (b := (o, a)) .refl
        fun s hs g _ => ?_
      exact hs.trans (hloop objList hinj _ g s hs.frame)
  · simp only [DesiredSet.Apply, h]
    split_ifs with h1 h2
    · exact .refl
    · exact .refl
    · exact absurd ⟨not_not.1 h1, by tauto⟩ hgo

end Apply

end Norman.Objectset
