import Norman.Objectset

/-!
# Fields of an object

An object that has a name has its metadata in a map, and there a field that was set is read back and
the others stay as they were. So labels and annotations can be set one after another, and the key
and the kind of the object do not change.
-/

namespace Norman.Objectset

/-- The object's metadata are a map. -/
def HasMeta (o : Doc) : Prop := ∃ m, Assoc.get "metadata" o = some (.map m)

variable {o : Doc} {field field' : String} {v : Value} {m : StrMap}

theorem metadata_eq {d : Doc} (h : Assoc.get "metadata" o = some (.map d)) : metadata o = d := by
  simp [metadata, h, Value.toMapInterface]

theorem hasMeta_of_name (h : getName o ≠ "") : HasMeta o := by
  rcases hm : Assoc.get "metadata" o with _ | v
  · simp [getName, getMetaString, metadata, hm] at h
  · cases v with
    | map d => exact ⟨d, hm⟩
    | _ => simp [getName, getMetaString, metadata, hm, Value.toMapInterface] at h

section SetMeta

theorem HasMeta.setMeta (h : HasMeta o) : HasMeta (setMeta field v o) := by
  obtain ⟨d, hd⟩ := h
  exact ⟨Assoc.set field v d, by simp [Objectset.setMeta, hd, Assoc.get_set]⟩

theorem HasMeta.get_setMeta (h : HasMeta o) :
    Assoc.get field' (metadata (Objectset.setMeta field v o))
      = if field' = field then some v else Assoc.get field' (metadata o) := by
  obtain ⟨d, hd⟩ := h
  rw [metadata_eq hd, metadata_eq (d := Assoc.set field v d)
    (by simp [Objectset.setMeta, hd, Assoc.get_set]), Assoc.get_set]

/-- A field outside of the metadata. -/
theorem get_setMeta_of_ne (h : field' ≠ "metadata") :
    Assoc.get field' (setMeta field v o) = Assoc.get field' o := by
  unfold setMeta
  split
  · rw [Assoc.get_set, if_neg h]
  · rw [Assoc.get_set, if_neg h]
  · rfl

theorem groupVersionKind_setMeta : groupVersionKind (setMeta field v o) = groupVersionKind o := by
  simp only [groupVersionKind, getString, get_setMeta_of_ne (show "apiVersion" ≠ "metadata" by decide),
    get_setMeta_of_ne (show "kind" ≠ "metadata" by decide)]

/-- Another field of the metadata. -/
theorem get_metadata_setMeta (hne : field' ≠ field) :
    Assoc.get field' (metadata (setMeta field v o)) = Assoc.get field' (metadata o) := by
  by_cases h : HasMeta o
  · rw [h.get_setMeta, if_neg hne]
  · unfold setMeta
    split
    · rename_i m hm
      exact absurd ⟨m, hm⟩ h
    · rename_i hm
      simp [metadata, hm, Assoc.get_set, Value.toMapInterface, Assoc.get, hne]
    · rfl

theorem getMetaString_setMeta (hne : field' ≠ field) :
    getMetaString field' (setMeta field v o) = getMetaString field' o := by
  simp only [getMetaString, get_metadata_setMeta hne]

theorem getMetaMap_setMeta (hne : field' ≠ field) :
    getMetaMap field' (setMeta field v o) = getMetaMap field' o := by
  simp only [getMetaMap, get_metadata_setMeta hne]

theorem strMap_map : ∀ m : StrMap, strMap (m.map fun e => (e.1, .str e.2)) = some m
  | [] => rfl
  | e :: m => by
    have ih := strMap_map m
    simp only [strMap] at ih ⊢
    simp [ih]

theorem HasMeta.getMetaMap_setMetaMap (h : HasMeta o) :
    getMetaMap field (setMetaMap field m o) = m := by
  simp [getMetaMap, setMetaMap, h.get_setMeta, strMap_map]

end SetMeta

section Labels

/-- The object carries the set's label. -/
def Carries (hash : String) (o : Doc) : Prop := Assoc.get LabelHash (getLabels o) = some hash

theorem HasMeta.getLabels_setLabels (h : HasMeta o) : getLabels (setLabels m o) = m :=
  h.getMetaMap_setMetaMap

theorem getLabels_setAnnotations : getLabels (setAnnotations m o) = getLabels o :=
  getMetaMap_setMeta (by decide)

theorem HasMeta.setLabels (h : HasMeta o) : HasMeta (setLabels m o) := h.setMeta

theorem HasMeta.setAnnotations (h : HasMeta o) : HasMeta (setAnnotations m o) := h.setMeta

/-- A field that is set is not part of the key, unless it is the name or the namespace. -/
theorem newObjectKey_setMeta (hname : field ≠ "name") (hns : field ≠ "namespace") :
    newObjectKey (setMeta field v o) = newObjectKey o := by
  simp only [newObjectKey, getName, getNamespace, getMetaString_setMeta hname.symm,
    getMetaString_setMeta hns.symm]

end Labels

section Namespace

theorem HasMeta.get_setNamespace (h : HasMeta o) {ns : String} (hne : field ≠ "namespace") :
    Assoc.get field (metadata (setNamespace ns o)) = Assoc.get field (metadata o) := by
  unfold setNamespace
  split_ifs
  · obtain ⟨d, hd⟩ := h
    simp only [hd, metadata_eq hd]
    rw [metadata_eq (d := Assoc.erase "namespace" d) (by simp [Assoc.get_set]), Assoc.get_erase,
      if_neg hne]
  · rw [h.get_setMeta, if_neg hne]

theorem HasMeta.getNamespace_setNamespace (h : HasMeta o) (ns : String) :
    getNamespace (setNamespace ns o) = ns := by
  unfold setNamespace
  split_ifs with hns
  · obtain ⟨d, hd⟩ := h
    simp only [hd, getNamespace, getMetaString]
    rw [metadata_eq (d := Assoc.erase "namespace" d) (by simp [Assoc.get_set]), Assoc.get_erase,
      if_pos rfl, hns]
  · simp [getNamespace, getMetaString, h.get_setMeta]

theorem HasMeta.newObjectKey_setNamespace (h : HasMeta o) (ns : String) :
    newObjectKey (setNamespace ns o) = ⟨getName o, ns⟩ := by
  rw [newObjectKey, h.getNamespace_setNamespace]
  simp [getName, getMetaString, h.get_setNamespace (show "name" ≠ "namespace" by decide)]

theorem HasMeta.getLabels_setNamespace (h : HasMeta o) (ns : String) :
    getLabels (setNamespace ns o) = getLabels o := by
  simp [getLabels, getMetaMap, h.get_setNamespace (show "labels" ≠ "namespace" by decide)]

end Namespace

section Prepare

variable {p : ObjectClient}

/-- Preparing an object changes its annotations only. -/
theorem newObjectKey_prepare {env : Env} {inputID : String} :
    newObjectKey (prepareObjectForCreate env inputID o) = newObjectKey o :=
  newObjectKey_setMeta (by decide) (by decide)

theorem getLabels_prepare {env : Env} {inputID : String} :
    getLabels (prepareObjectForCreate env inputID o) = getLabels o :=
  getLabels_setAnnotations

/-- `Create` sets the type outside of the metadata. -/
theorem get_prepareCreate :
    Assoc.get "metadata" (p.prepareCreate o) = Assoc.get "metadata"
      (setLabels (Assoc.set "cattle.io/creator" "norman" (getLabels o)) o) := by
  simp only [ObjectClient.prepareCreate]
  split_ifs <;> simp [Assoc.get_set]

theorem HasMeta.prepareCreate (h : HasMeta o) :
    HasMeta (p.prepareCreate o) ∧ getName (p.prepareCreate o) = getName o
      ∧ getLabels (p.prepareCreate o) = Assoc.set "cattle.io/creator" "norman" (getLabels o) := by
  have hmeta : metadata (p.prepareCreate o)
      = metadata (Objectset.setLabels (Assoc.set "cattle.io/creator" "norman" (getLabels o)) o) := by
    simp only [metadata, get_prepareCreate]
  refine ⟨?_, ?_, ?_⟩
  · obtain ⟨d, hd⟩ := h.setLabels (m := Assoc.set "cattle.io/creator" "norman" (getLabels o))
    exact ⟨d, get_prepareCreate.trans hd⟩
  · simp only [getName, getMetaString, hmeta]
    exact getMetaString_setMeta (by decide)
  · simp only [getLabels, getMetaMap, hmeta]
    exact h.getLabels_setLabels

/-- What is created has the object's key, if the object has a namespace exactly where its kind
does, and the object's labels besides the creator's. -/
theorem HasMeta.body (h : HasMeta o) (hscope : p.namespaced = decide (getNamespace o ≠ "")) :
    newObjectKey (setNamespace (if p.namespaced then p.pathNamespace o else "")
        (p.prepareCreate o)) = newObjectKey o
      ∧ getLabels (setNamespace (if p.namespaced then p.pathNamespace o else "")
          (p.prepareCreate o)) = Assoc.set "cattle.io/creator" "norman" (getLabels o) := by
  obtain ⟨hm, hname, hlabels⟩ := h.prepareCreate (p := p)
  refine ⟨?_, by rw [hm.getLabels_setNamespace, hlabels]⟩
  rw [hm.newObjectKey_setNamespace, hname, newObjectKey]
  by_cases hns : getNamespace o = "" <;> simp [hscope, hns, ObjectClient.pathNamespace]

end Prepare

section Set

theorem labels_eq {env : Env} {s : DesiredSet} {labels annotations : StrMap}
    (h : s.getLabelsAndAnnotations env = .ok (labels, annotations)) :
    labels = [(LabelHash, objectSetHash env annotations)] := by
  unfold DesiredSet.getLabelsAndAnnotations at h
  rcases hs : s.ownerAnnotations with e | m <;> rw [hs] at h <;> simp only [Except.map] at h
  · cases h
  · simp only [Except.ok.injEq, Prod.mk.injEq] at h
    obtain ⟨rfl, rfl⟩ := h
    rfl

end Set

end Norman.Objectset
