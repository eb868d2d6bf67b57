import Norman.Proofs.MergeTwice

/-!
# Replacing an object

An update that replaces an object drops the fields of the object that may be updated. Which these
are is known where there is a schema; the entries of a field `map[T]` are merged without one, so
that those which the update leaves out stay. The result is the update if and only if, at every place
at which two objects are merged, nothing is left of the stored one (`replacesAll`).
-/

namespace Norman.Merge

open Norman.Types

section Replaces

variable (env : Env) (internal : Schema → Option Schema) (schemas : Schemas)

/-- A field of a schema that may be updated. -/
def updatable (schema : Option Schema) (field : String) : Bool :=
  schema.any fun schema => (schema.resourceFields.get field).any Field.update

/-- Every entry of the object may be updated, or is in the update. -/
def clears (schema : Option Schema) (dest src : Doc) : Bool :=
  dest.all fun e => updatable schema e.1 || (Assoc.get e.1 src).isSome

mutual

/-- Wherever the update has an object that is merged with another, it clears it; and where it has a
nil map there is no map. -/
def replaces (field fieldType : String) (parentSchema schema : Option Schema) (dest : Value) :
    Value → Bool
  | .map sm =>
    isMap env schemas field schema ||
      let (fieldType, fieldSchema) :=
        getSchema env internal schemas field fieldType parentSchema schema
      clears fieldSchema (dest.asMap.getD []) sm
        && replacesAll fieldType schema fieldSchema (dest.asMap.getD []) sm
  | .nilMap => isMap env schemas field schema || dest.asMap.isNone
  | _ => true

def replacesAll (fieldType : String) (parentSchema schema : Option Schema) (dest : Doc) :
    Doc → Bool
  | [] => true
  | (k, v) :: src =>
    replaces k fieldType parentSchema schema ((Assoc.get k dest).getD .nil) v
      && replacesAll fieldType parentSchema schema dest src

end

end Replaces

variable {env : Env} {internal : Schema → Option Schema} {schemas : Schemas}
  {field fieldType : String} {parentSchema schema : Option Schema}

theorem replacesAll_iff {dest : Doc} : ∀ {src : Doc},
    replacesAll env internal schemas fieldType parentSchema schema dest src = true
      ↔ ∀ e ∈ src, replaces env internal schemas e.1 fieldType parentSchema schema
          ((Assoc.get e.1 dest).getD .nil) e.2 = true
  | [] => by simp [replacesAll]
  | (k, v) :: src => by simp [replacesAll, @replacesAll_iff dest src]

theorem get_copyMapReplace_true (k : String) (m : Doc) :
    Assoc.get k (copyMapReplace true schema m)
      = if updatable schema k then none else Assoc.get k m := by
  rw [get_copyMapReplace, Bool.true_and]
  rfl

/-- Nothing is left of an object beside the update if and only if the update clears it. -/
theorem clears_iff {dest src : Doc} (hd : Assoc.Sorted dest) :
    clears schema dest src = true
      ↔ ∀ k, Assoc.get k src = none → Assoc.get k (copyMapReplace true schema dest) = none := by
  unfold clears
  rw [List.all_eq_true]
  constructor
  · intro h k hk
    rw [get_copyMapReplace_true]
    split_ifs with hupdate
    · rfl
    · rcases hget : Assoc.get k dest with _ | v
      · rfl
      · simpa [hupdate, hk] using h (k, v) (Assoc.mem_of_get hget)
  · rintro h ⟨k, v⟩ he
    rcases hk : Assoc.get k src with _ | w
    · have hnone := h k hk
      rw [get_copyMapReplace_true] at hnone
      split_ifs at hnone with hupdate
      · simp [hupdate]
      · rw [hd.mem_iff.1 he] at hnone
        cases hnone
    · simp

theorem mergeMaps_eq_iff {dest src : Doc} (hd : Assoc.Sorted dest) (hs : Assoc.Sorted src) :
    mergeMaps env internal schemas true fieldType parentSchema schema dest src = src
      ↔ clears schema dest src = true
        ∧ ∀ e ∈ src, merge env internal schemas true e.1 fieldType parentSchema schema
            ((Assoc.get e.1 dest).getD .nil) e.2 = e.2 := by
  rw [clears_iff hd]
  constructor
  · intro h
    refine ⟨fun k hk => ?_, ?_⟩
    · have hget := congrArg (Assoc.get k) h
      simpa [get_mergeMaps, hk] using hget
    · rintro ⟨k, v⟩ he
      have hv : Assoc.get k src = some v := hs.mem_iff.1 he
      have hget := congrArg (Assoc.get k) h
      simpa [get_mergeMaps, hv] using hget
  · rintro ⟨hclears, hall⟩
    refine Assoc.ext (sorted_mergeMaps hd src) hs fun k => ?_
    rw [get_mergeMaps]
    split
    · rename_i v hv
      rw [hv, hall (k, v) (Assoc.mem_of_get hv)]
    · rename_i hk
      rw [hk, hclears k hk]

theorem merge_eq_iff {src : Value} (hs : Canonical src) : ∀ {field fieldType : String}
    {parentSchema schema : Option Schema} {dest : Value}, Canonical dest →
    (merge env internal schemas true field fieldType parentSchema schema dest src = src
      ↔ replaces env internal schemas field fieldType parentSchema schema dest src = true) := by
  induction hs with
  | @map sm hsorted _ ih =>
    intro field fieldType parentSchema schema dest hdest
    rw [replaces]
    cases hmap : isMap env schemas field schema with
    | true => simp [merge, hmap]
    | false =>
      have hdm : Canonical (.map (dest.asMap.getD [])) := hdest.getD_asMap
      cases hdm with
      | map hdsorted hall =>
        rw [merge_map hsorted hmap, Value.map.injEq, mergeMaps_eq_iff hdsorted hsorted,
          Bool.false_or, Bool.and_eq_true, replacesAll_iff]
        exact and_congr_right fun _ =>
          forall₂_congr fun e he => ih e he (Canonical.get (.map hdsorted hall) e.1)
  | nilMap =>
    intro field fieldType parentSchema schema dest _
    rw [replaces]
    cases hmap : isMap env schemas field schema with
    | true => simp [merge, hmap]
    | false =>
      rcases hm : dest.asMap with _ | dm
      · simp [merge, hmap, hm]
      · simp [merge, hmap, hm]
  | _ =>
    intro field fieldType parentSchema schema dest _
    simp [merge, replaces]

/-- An update that replaces an object gives the update if and only if it clears the object, and all
the objects in it with which it is merged. -/
theorem UpdateMerge_replace_iff {dest src : Doc}
    (hd : Canonical (.map dest)) (hs : Canonical (.map src)) :
    UpdateMerge env internal schemas true schema dest src = src
      ↔ clears schema dest src = true
        ∧ replacesAll env internal schemas "" none schema dest src = true := by
  cases hd with
  | map hdsorted hdall =>
    cases hs with
    | map hsorted hall =>
      rw [UpdateMerge, mergeMaps_eq_iff hdsorted hsorted, replacesAll_iff]
      exact and_congr_right fun _ => forall₂_congr fun e he =>
        merge_eq_iff (hall e he) (Canonical.get (.map hdsorted hdall) e.1)

section Pools

/-- A schema with two fields that may be updated: a name, and pools by name. -/
def cluster : Schema :=
  { Schemas.schemaOf "cluster" "1" with
    resourceFields := (∅ : SortedMap String Field).set "name" { type := "string", update := true }
      |>.set "pools" { type := "map[pool]", update := true } }

def pool : Schema :=
  { Schemas.schemaOf "pool" "1" with
    resourceFields := (∅ : SortedMap String Field).set "size" { type := "int", update := true } }

/-- A registry with both. -/
def poolCalls : List Types.Call :=
  [.AddSchema Schemas.plainEnv 0 cluster, .AddSchema Schemas.plainEnv 0 pool]

/-- Pools with their sizes. -/
def pools (sizes : List (String × Int)) : Value :=
  .map (sizes.map fun e => (e.1, .map [("size", .int e.2)]))

theorem canonical_pools {sizes : List (String × Int)} (h : Assoc.Sorted sizes) :
    Canonical (pools sizes) := by
  refine .map (List.pairwise_map.2 h) fun e he => ?_
  obtain ⟨x, -, rfl⟩ := List.mem_map.1 he
  exact .map (List.pairwise_singleton _ _) (by simp [Canonical.int])

/-- The name goes, and the pool has its new size. -/
theorem pool_replaced : ∃ schemas o, Run.exec Schemas.step NewSchemas poolCalls = some (schemas, o)
    ∧ UpdateMerge Schemas.plainEnv (fun _ => none) schemas true (some cluster)
        [("name", .str "c"), ("pools", pools [("a", 1)])] [("pools", pools [("a", 3), ("b", 2)])]
      = [("pools", pools [("a", 3), ("b", 2)])] := by
  have hdone : (Run.exec Schemas.step NewSchemas poolCalls).map (fun r =>
      replacesAll Schemas.plainEnv (fun _ => none) r.1 "" none (some cluster)
        [("name", .str "c"), ("pools", pools [("a", 1)])] [("pools", pools [("a", 3), ("b", 2)])])
      = some true := by
    decide +kernel
  obtain ⟨⟨schemas, o⟩, hrun, hreplaces⟩ := Option.map_eq_some_iff.1 hdone
  refine ⟨schemas, o, hrun, (UpdateMerge_replace_iff ?_ ?_).2 ⟨by decide +kernel, hreplaces⟩⟩
  · have hpools : Canonical (pools [("a", 1)]) := canonical_pools (by decide)
    exact .map (by decide) (by simp [Canonical.str, hpools])
  · have hpools : Canonical (pools [("a", 3), ("b", 2)]) := canonical_pools (by decide)
    exact .map (by decide) (by simp [hpools])

/-- The pool that the update leaves out stays. -/
theorem pool_stays : ∃ schemas o, Run.exec Schemas.step NewSchemas poolCalls = some (schemas, o)
    ∧ UpdateMerge Schemas.plainEnv (fun _ => none) schemas true (some cluster)
        [("name", .str "c"), ("pools", pools [("a", 1), ("b", 2)])] [("pools", pools [("a", 3)])]
      = [("pools", pools [("a", 3), ("b", 2)])]
    ∧ UpdateMerge Schemas.plainEnv (fun _ => none) schemas true (some cluster)
        [("name", .str "c"), ("pools", pools [("a", 1), ("b", 2)])] [("pools", pools [("a", 3)])]
      ≠ [("pools", pools [("a", 3)])] := by
  have hdone : (Run.exec Schemas.step NewSchemas poolCalls).map (fun r =>
      UpdateMerge Schemas.plainEnv (fun _ => none) r.1 true (some cluster)
        [("name", .str "c"), ("pools", pools [("a", 1), ("b", 2)])] [("pools", pools [("a", 3)])])
      = some [("pools", pools [("a", 3), ("b", 2)])] := by
    decide +kernel
  obtain ⟨⟨schemas, o⟩, hrun, hmerge⟩ := Option.map_eq_some_iff.1 hdone
  refine ⟨schemas, o, hrun, hmerge, ?_⟩
  rw [hmerge]
  decide

end Pools

end Norman.Merge
