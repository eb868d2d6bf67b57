import Norman.Merge
import Norman.Proofs.SchemaViews
import Norman.Proofs.TypeNames

/-!
# The metadata of a merged object

Whatever a request sends, the metadata of the stored object stay, but for labels and annotations. Of
these a client may set and delete the ordinary keys, may set the keys of the fields, and cannot
touch the keys of the server.
-/

namespace Norman.Merge

open Norman.Types

section Protected

theorem contains_iff {s sub : String} : contains s sub = true ↔ ∃ a b, s = a ++ sub ++ b := by
  unfold contains lastIndex
  simp only [List.find?_isSome, List.mem_reverse, List.mem_range, List.isPrefixOf_iff_prefix]
  constructor
  · rintro ⟨i, -, t, ht⟩
    refine ⟨String.ofList (s.toList.take i), String.ofList t, String.toList_inj.1 ?_⟩
    simp [List.append_assoc, ht]
  · rintro ⟨a, b, rfl⟩
    have hlen : a.toList.length < (a ++ sub ++ b).toList.length + 1 := by
      simp only [String.toList_append, List.length_append]
      omega
    exact ⟨a.toList.length, hlen, b.toList, by simp⟩

/-- The keys of the fields begin with `field.cattle.io/`. -/
theorem isField_iff {k : String} : isField k = true ↔ ∃ name, k = "field.cattle.io/" ++ name :=
  hasPrefix_iff

/-- The keys of the server contain `cattle.io/`. Of those of the fields only the `creatorId` is one
of the server. -/
theorem isProtected_iff {k : String} : isProtected k = true
    ↔ (∃ a b, k = a ++ "cattle.io/" ++ b)
      ∧ ((∃ name, k = "field.cattle.io/" ++ name) → k = "field.cattle.io/creatorId") := by
  rw [← contains_iff, ← isField_iff]
  unfold isProtected
  cases contains k "cattle.io/" <;> cases isField k <;> simp

theorem get_overwrite (k : String) (result : Doc) :
    ∀ src : Doc, Assoc.get k (overwrite src result)
      = if isProtected k then Assoc.get k result else (Assoc.get k src).or (Assoc.get k result)
  | [] => by simp [overwrite]
  | (j, v) :: src => by
    have ih := get_overwrite k result src
    simp only [overwrite, List.foldr_cons] at ih ⊢
    by_cases hj : k = j
    · subst hj
      by_cases hp : isProtected k = true
      · simpa [hp] using ih
      · simp [hp, Assoc.get_set, Assoc.get]
    · split
      · simpa [Assoc.get, hj] using ih
      · simpa [Assoc.get, Assoc.get_set, hj] using ih

theorem get_prune (k : String) (src result : Doc) :
    ∀ dest : Doc, Assoc.get k (prune dest src result)
      = if (isProtected k || isField k || (Assoc.get k src).isSome || (Assoc.get k dest).isNone) = true
        then Assoc.get k result else none
  | [] => by simp [prune]
  | (j, v) :: dest => by
    have ih := get_prune k src result dest
    simp only [prune, List.foldr_cons] at ih ⊢
    by_cases hj : k = j
    · subst hj
      by_cases hp : (isProtected k || isField k) = true
      · simpa [hp] using ih
      · by_cases hsrc : (Assoc.get k src).isSome = true
        · simpa [hp, hsrc] using ih
        · simp [hp, hsrc, Assoc.get_erase, Assoc.get]
    · split
      · simpa [Assoc.get, hj] using ih
      · split
        · simpa [Assoc.get, hj] using ih
        · simpa [Assoc.get, Assoc.get_erase, hj] using ih

/-- What is left at each key: what is stored, what is sent, or the one in the place of the other. -/
theorem mergeProtected_some (dest : Option Doc) (src : Doc) : ∃ m, mergeProtected dest (some src) = some m
    ∧ (∀ k, isProtected k = true → Assoc.get k m = Assoc.get k (dest.getD []))
    ∧ (∀ k, isProtected k = false → isField k = true →
      Assoc.get k m = (Assoc.get k src).or (Assoc.get k (dest.getD [])))
    ∧ ∀ k, isProtected k = false → isField k = false → Assoc.get k m = Assoc.get k src := by
  refine ⟨_, rfl, fun k hp => ?_, fun k hp hf => ?_, fun k hp hf => ?_⟩
  · simp [get_prune, get_overwrite, hp]
  · simp [get_prune, get_overwrite, hp, hf]
  · rw [get_prune, get_overwrite]
    rcases hsrc : Assoc.get k src with _ | v
    · rcases hdest : Assoc.get k (dest.getD []) with _ | w <;> simp [hp, hf]
    · simp [hp]

end Protected

section Metadata

theorem submap_set (key : String) (m : Option Doc) (doc : Doc) (k : String) :
    submap k (Assoc.set key (.ofMap m) doc) = if k = key then m else submap k doc := by
  unfold submap
  rw [Assoc.get_set]
  split
  · cases m <;> rfl
  · rfl

theorem get_mergeMetadata {dest src : Doc} {k : String} (hl : k ≠ "labels") (ha : k ≠ "annotations") :
    Assoc.get k (mergeMetadata dest src) = Assoc.get k dest := by
  simp [mergeMetadata, Assoc.get_set, hl, ha]

theorem submap_mergeMetadata (dest src : Doc) {key : String}
    (hkey : key ∈ ["labels", "annotations"]) :
    submap key (mergeMetadata dest src) = mergeProtected (submap key dest) (submap key src) := by
  unfold mergeMetadata
  rw [submap_set, submap_set]
  simp only [List.mem_cons, List.not_mem_nil, or_false] at hkey
  rcases hkey with rfl | rfl <;> simp

theorem get_keepMetadata {dest : Doc} {m : Value} (h : Assoc.get "metadata" dest = some m)
    (src result : Doc) :
    Assoc.get "metadata" (keepMetadata dest src result)
      = some (.map (mergeMetadata (m.toMap.getD []) ((submap "metadata" src).getD []))) := by
  simp [keepMetadata, h, Assoc.get_set]

end Metadata

/-- The metadata that are stored stay, but for labels and annotations. In each of these, if the
request has it, the keys of the server stay, those of fields may be set, and the others are as they
are sent; otherwise it stays. -/
theorem APIUpdateMerge_metadata (env : Env) (internal : Schema → Option Schema) (schemas : Schemas)
    (replace : Bool) (schema : Option Schema) {dest stored : Doc}
    (hdest : Assoc.get "metadata" dest = some (.map stored)) (src : Doc) :
    ∃ merged,
      Assoc.get "metadata" (APIUpdateMerge env internal schemas replace schema dest src)
        = some (.map merged)
      ∧ (∀ k, k ≠ "labels" → k ≠ "annotations" → Assoc.get k merged = Assoc.get k stored)
      ∧ ∀ key ∈ ["labels", "annotations"],
        (submap key ((submap "metadata" src).getD []) = none →
          submap key merged = submap key stored)
        ∧ ∀ sent, submap key ((submap "metadata" src).getD []) = some sent →
          ∃ m, Assoc.get key merged = some (.map m)
            ∧ (∀ k, isProtected k = true →
              Assoc.get k m = Assoc.get k ((submap key stored).getD []))
            ∧ (∀ k, isProtected k = false → isField k = true →
              Assoc.get k m = (Assoc.get k sent).or (Assoc.get k ((submap key stored).getD [])))
            ∧ ∀ k, isProtected k = false → isField k = false →
              Assoc.get k m = Assoc.get k sent := by
  refine ⟨_, get_keepMetadata hdest src _, fun k hl ha => get_mergeMetadata hl ha, fun key hkey => ?_⟩
  have hsub := submap_mergeMetadata stored ((submap "metadata" src).getD []) hkey
  refine ⟨fun hnone => ?_, fun sent hsent => ?_⟩
  · rw [hnone] at hsub
    exact hsub
  · obtain ⟨m, hm, hrules⟩ := mergeProtected_some (submap key stored) sent
    rw [hsent, hm] at hsub
    refine ⟨m, ?_, hrules⟩
    obtain ⟨v, hv, hmap⟩ := Option.bind_eq_some_iff.1 hsub
    cases v with
    | map m' =>
      cases hmap
      exact hv
    | _ => cases hmap

section Forged

/-- An object with an owner and two labels of its own. -/
def owned : Doc :=
  [("metadata", .map [("labels", .map [("app", .str "web"), ("cattle.io/creator", .str "norman"),
      ("tier", .str "one")]),
    ("uid", .str "u-1")])]

/-- A request that claims the object, changes one label and leaves out the other. -/
def claiming : Doc :=
  [("metadata", .map [("labels", .map [("app", .str "db"), ("cattle.io/creator", .str "me")]),
    ("uid", .str "u-2")])]

theorem owner_stays :
    ∃ merged,
      Assoc.get "metadata" (APIUpdateMerge Schemas.plainEnv (fun _ => none) NewSchemas false none
        owned claiming) = some (.map merged)
      ∧ Assoc.get "uid" merged = some (.str "u-1")
      ∧ ∃ m, Assoc.get "labels" merged = some (.map m)
        ∧ Assoc.get "cattle.io/creator" m = some (.str "norman")
        ∧ Assoc.get "app" m = some (.str "db") ∧ Assoc.get "tier" m = none := by
  have howned : Assoc.get "metadata" owned = some (.map _) := rfl
  obtain ⟨merged, hmeta, hother, hkeys⟩ := APIUpdateMerge_metadata Schemas.plainEnv (fun _ => none)
    NewSchemas false none howned claiming
  obtain ⟨m, hm, hprotected, -, hplain⟩ := (hkeys "labels" (by decide)).2 _ rfl
  refine ⟨merged, hmeta, hother "uid" (by decide) (by decide), m, hm, ?_, ?_, ?_⟩
  · exact hprotected "cattle.io/creator" (by decide +kernel)
  · exact hplain "app" (by decide +kernel) (by decide +kernel)
  · exact hplain "tier" (by decide +kernel) (by decide +kernel)

end Forged

end Norman.Merge
