import Norman.Proofs.Calls

/-!
# Updating one object

The three-way merge is assumed to be right about the labels of the wanted objects that are in the
cluster: what is sent for one puts its labels on, and a patch that says nothing about labels is for
an object that has them already (`MergeCorrect`). Then an update that reports no error leaves the
object with the labels it was to have.
-/

namespace Norman.Objectset

/-- All labels of `o` are labels of `o'`. -/
def LabelsIn (o o' : Doc) : Prop :=
  ∀ l v, Assoc.get l (getLabels o) = some v → Assoc.get l (getLabels o') = some v

/-- The patch the three-way merge makes for an object. -/
def patchFor (env : Env) (g : GroupVersionKind) (inputID : String) (old new : Doc) :
    Except Err (PatchType × Value) :=
  match getOriginal env inputID old with
  | .error e => .error e
  | .ok original =>
    match env.threeWay g original (prepareObjectForCreate env inputID new) old with
    | .error e => .error ⟨false, "patch generation: " ++ e⟩
    | .ok r => .ok r

/-- The patch is right about labels: what is sent of it puts those of `new` onto `old`, and if it
has none, then `old` has them. -/
def Right (env : Env) (merge : PatchType → Doc → Value → Doc) (t : PatchType) (patch : Value)
    (old new : Doc) : Prop :=
  ∃ data, patch = .map data
    ∧ (∀ data', sanitizePatch env patch = .ok (.map data') → data' ≠ [] →
      LabelsIn new (merge t old (.map data')))
    ∧ (Assoc.get "labels" (metadata data) = none → LabelsIn new old)

/-- What is assumed of the three-way merge and of the server that applies its patches: they are
right about the wanted objects that are in the cluster. -/
def MergeCorrect (env : Env) (inputID : String) (merge : PatchType → Doc → Value → Doc)
    (c : Cluster) (g : GroupVersionKind) (want : ObjectKey → Option Doc) : Prop :=
  ∀ {k old new t patch}, c.get g k = some old → want k = some new →
    patchFor env g inputID old new = .ok (t, patch) → Right env merge t patch old new

theorem MergeCorrect.congr {env : Env} {inputID : String} {merge : PatchType → Doc → Value → Doc}
    {c c' : Cluster} {g : GroupVersionKind} {want : ObjectKey → Option Doc}
    (h : MergeCorrect env inputID merge c g want) (hc : ∀ k, c'.get g k = c.get g k) :
    MergeCorrect env inputID merge c' g want := by
  intro k old new t patch hold
  exact h (hc k ▸ hold)

section Sanitize

variable {env : Env}

theorem onlyKeys_cons {key : String} {keys : List String} :
    ∀ {data : Doc}, onlyKeys data (key :: keys) = true →
      data = [] ∨ ∃ v, data = [(key, v)] ∧ (keys = [] ∨ onlyKeys v.toMapInterface keys = true)
  | [], _ => .inl rfl
  | [(k, v)], h => by
    by_cases hk : key = k
    · subst hk
      simp only [onlyKeys, List.length_singleton, lt_irrefl, if_false, one_ne_zero, Assoc.get,
        if_true] at h
      split_ifs at h with hkeys
      · exact .inr ⟨v, rfl, .inl hkeys⟩
      · exact .inr ⟨v, rfl, .inr h⟩
    · simp [onlyKeys, Assoc.get, hk] at h
  | _ :: _ :: _, h => by simp [onlyKeys] at h

theorem onlyKeys_labels {data : Doc} {rest : List String}
    (h : onlyKeys data ("metadata" :: "annotations" :: rest) = true) :
    Assoc.get "labels" (metadata data) = none := by
  rcases onlyKeys_cons h with rfl | ⟨v, rfl, hv⟩
  · rfl
  · rcases onlyKeys_cons (hv.resolve_left (by simp)) with hv | ⟨w, hv, -⟩ <;>
      simp [metadata, Assoc.get, hv]

/-- What is converted has the same keys. -/
theorem get_convertMapNumbers {f : String} :
    ∀ {m m' : Doc}, convertMapNumbers env m = .ok m' →
      (Assoc.get f m = none ∧ Assoc.get f m' = none)
        ∨ ∃ v v', Assoc.get f m = some v ∧ Assoc.get f m' = some v'
          ∧ convertNumbers env v = .ok v'
  | [], m', h => by
    rw [convertMapNumbers] at h
    cases h
    exact .inl ⟨rfl, rfl⟩
  | (k, v) :: m, m', h => by
    rw [convertMapNumbers] at h
    rcases hv : convertNumbers env v with e | v' <;> rw [hv] at h
    · cases h
    rcases hm : convertMapNumbers env m with e | m'' <;> rw [hm] at h
    · cases h
    cases h
    by_cases hk : f = k
    · exact .inr ⟨v, v', by simp [Assoc.get, hk], by simp [Assoc.get, hk], hv⟩
    · simp only [Assoc.get, hk, if_false]
      exact get_convertMapNumbers hm

theorem metadata_convertMapNumbers {data data' : Doc} (h : convertMapNumbers env data = .ok data') :
    convertMapNumbers env (metadata data) = .ok (metadata data') := by
  unfold metadata
  rcases get_convertMapNumbers (f := "metadata") h with ⟨h1, h2⟩ | ⟨v, v', h1, h2, hv⟩ <;>
    rw [h1, h2]
  · simp [convertMapNumbers]
  · simp only [Option.map_some, Option.getD_some]
    cases v with
    | map m =>
      rw [convertNumbers] at hv
      rcases hm : convertMapNumbers env m with e | m' <;> rw [hm] at hv <;> cases hv
      exact hm
    | number n =>
      rw [convertNumbers] at hv
      rcases hn : convertNumber env n with e | n' <;> rw [hn] at hv <;> cases hv
      simp [Value.toMapInterface, convertMapNumbers]
    | arr xs =>
      rw [convertNumbers] at hv
      rcases hx : convertSliceNumbers env xs with e | xs' <;> rw [hx] at hv <;> cases hv
      simp [Value.toMapInterface, convertMapNumbers]
    | _ =>
      simp only [convertNumbers] at hv
      cases hv
      simp [Value.toMapInterface, convertMapNumbers]

/-- The fields that are dropped are no labels. -/
theorem labels_removed (data : Doc) :
    Assoc.get "labels" (metadata (removeCreationTimestamp
      (Assoc.erase "apiVersion" (Assoc.erase "kind" data))).1)
      = Assoc.get "labels" (metadata data) := by
  have hmeta : Assoc.get "metadata" (Assoc.erase "apiVersion" (Assoc.erase "kind" data))
      = Assoc.get "metadata" data := by
    rw [Assoc.get_erase, if_neg (by decide), Assoc.get_erase, if_neg (by decide)]
  unfold removeCreationTimestamp
  rw [hmeta]
  split
  · rename_i m hm
    split_ifs
    · simp only [metadata, hmeta]
    · rw [metadata_eq hm, metadata_eq (d := Assoc.erase "creationTimestamp" m)
        (by simp [Assoc.get_set]), Assoc.get_erase, if_neg (by decide)]
  · simp only [metadata, hmeta]

/-- A patch that is left out as a whole has no labels. -/
theorem labels_of_sanitizePatch {data : Doc} (h : sanitizePatch env (.map data) = .ok (.map [])) :
    Assoc.get "labels" (metadata data) = none := by
  simp only [sanitizePatch] at h
  split at h
  · cases h
  · rename_i data' hdata
    have hnone : onlyKeys (removeCreationTimestamp
        (Assoc.erase "apiVersion" (Assoc.erase "kind" data'))).1
        ["metadata", "annotations", LabelInputID] = true ∨ data = [] := by
      split_ifs at h with h1 h2
      · exact .inl h1
      · simp only [Except.ok.injEq, Value.map.injEq] at h
        exact .inl (by rw [h]; rfl)
      · simp only [Except.ok.injEq, Value.map.injEq] at h
        exact .inr h
    rcases hnone with honly | rfl
    · have hlabels := onlyKeys_labels honly
      rw [labels_removed] at hlabels
      rcases get_convertMapNumbers (f := "labels") (metadata_convertMapNumbers hdata) with
        ⟨h1, -⟩ | ⟨_, _, -, h2, -⟩
      · exact h1
      · rw [hlabels] at h2
        cases h2
    · rfl

theorem sanitizePatch_object {data : Doc} {v : Value}
    (h : sanitizePatch env (.map data) = .ok v) : ∃ data', v = .map data' := by
  simp only [sanitizePatch] at h
  split at h
  · cases h
  · split_ifs at h <;> cases h <;> exact ⟨_, rfl⟩

end Sanitize

section Update

/-- The patch `applyPatch` sends, or does not send if it is empty. -/
def sentFor (env : Env) (g : GroupVersionKind) (inputID : String) (old new : Doc) :
    Except Err (PatchType × Value) :=
  match patchFor env g inputID old new with
  | .error e => .error e
  | .ok (t, patch) =>
    if patch = .map [] then .ok (t, patch) else (sanitizePatch env patch).map fun data => (t, data)

theorem applyPatch_eq (env : Env) (p : ObjectClient) (a : Api) (inputID : String)
    (old new : Doc) :
    applyPatch env p a inputID old new = match sentFor env p.gvk inputID old new with
      | .error e => (a, .error e)
      | .ok (t, patch) =>
        if patch = .map [] then (a, .ok false)
        else ((p.patch a old t patch).1, (p.patch a old t patch).2.map fun _ => true) := by
  rcases h : getOriginal env inputID old with e | original
  · simp only [applyPatch, sentFor, patchFor, h]
  · rcases h' : env.threeWay p.gvk original (prepareObjectForCreate env inputID new) old
      with e | ⟨t, patch⟩
    · simp only [applyPatch, sentFor, patchFor, h, h']
    · simp only [applyPatch, sentFor, patchFor, h, h']
      split_ifs with hnil
      · simp only [hnil, if_true]
      · rcases hs : sanitizePatch env patch with e | patch' <;> rfl

variable {env : Env} {p : ObjectClient} {k : ObjectKey} {a : Api} {inputID : String}
  {old new : Doc}

/-- What is sent is right about labels, and so is not to send anything. -/
theorem labels_of_sent {merge : PatchType → Doc → Value → Doc} {g : GroupVersionKind}
    (hright : ∀ {t patch}, patchFor env g inputID old new = .ok (t, patch) →
      Right env merge t patch old new) {t : PatchType} {sent : Value}
    (h : sentFor env g inputID old new = .ok (t, sent)) :
    if sent = .map [] then LabelsIn new old else LabelsIn new (merge t old sent) := by
  unfold sentFor at h
  split at h
  · cases h
  · rename_i t' patch hp
    obtain ⟨data, rfl, happlied, hidle⟩ := hright hp
    split_ifs at h with hnil
    · cases h
      cases hnil
      exact hidle rfl
    · rcases hs : sanitizePatch env (.map data) with e | v <;> rw [hs] at h <;> cases h
      obtain ⟨data', rfl⟩ := sanitizePatch_object hs
      split_ifs with hempty
      · cases hempty
        exact hidle (labels_of_sanitizePatch hs)
      · exact happlied data' hs fun h => hempty (h ▸ rfl)

/-- An update: no patch could be worked out, or the object has its labels, or the call failed. -/
theorem compareObjects_spec
    (hright : ∀ {t patch}, patchFor env p.gvk inputID old new = .ok (t, patch) →
      Right env a.merge t patch old new)
    (ho : a.cluster.get p.gvk k = some old) (hname : k.name ≠ "")
    (hscope : p.namespaced = decide (k.ns ≠ "")) {r : Api × Option Err}
    (hr : compareObjects env p a inputID old new = r) :
    (∃ e e', sentFor env p.gvk inputID old new = .error e ∧ r = (a, some e'))
      ∨ ∃ sent, sentFor env p.gvk inputID old new = .ok sent
        ∧ ((r.2 = none ∧ ¬ Fails a r.1
            ∧ ∃ y, r.1.cluster.get p.gvk k = some y ∧ LabelsIn new y)
          ∨ ∃ e, r.2 = some e ∧ FailsAt p.gvk k a r.1) := by
  subst hr
  simp only [compareObjects, applyPatch_eq]
  rcases hs : sentFor env p.gvk inputID old new with e | ⟨t, sent⟩
  · exact .inl ⟨e, e, rfl, rfl⟩
  refine .inr ⟨_, rfl, ?_⟩
  have hlabels := labels_of_sent hright hs
  simp only
  split_ifs at hlabels ⊢ with hnil
  · exact .inl ⟨rfl, by simp [Fails], old, ho, hlabels⟩
  · rcases patch_spec ho hname hscope (rfl : p.patch a old t sent = _) with
      ⟨x, h1, h2, h3⟩ | ⟨e, h1, hfail⟩ <;> rw [h1]
    · exact .inl ⟨rfl, h2, _, h3, hlabels⟩
    · exact .inr ⟨e, rfl, hfail⟩

end Update

end Norman.Objectset
