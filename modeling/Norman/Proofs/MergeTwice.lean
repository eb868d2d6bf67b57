import Norman.Proofs.Kept
import Norman.Proofs.SchemaViews

/-!
# Merging an update twice

An update that is merged a second time finds its own values in the object, and merges them into
themselves. That changes a value only in one case: a nil map that was put where there was no map is
then found to be one, and an empty map takes its place. So the second merge changes nothing if and
only if every nil map of the update is met by a map, or stands in a field that is replaced as a
whole.
-/

namespace Norman

/-- The entries of every map are by key, and each key is there once. -/
inductive Canonical : Value → Prop where
  | arr {xs : List Value} : (∀ x ∈ xs, Canonical x) → Canonical (.arr xs)
  | map {m : Doc} : Assoc.Sorted m → (∀ e ∈ m, Canonical e.2) → Canonical (.map m)
  | nil : Canonical .nil
  | bool {b : Bool} : Canonical (.bool b)
  | int {n : Int} : Canonical (.int n)
  | float {x : UInt64} : Canonical (.float x)
  | number {s : String} : Canonical (.number s)
  | str {s : String} : Canonical (.str s)
  | nilArr : Canonical .nilArr
  | strs {xs : List String} : Canonical (.strs xs)
  | nilMap : Canonical .nilMap

@[simp] theorem Value.asMap_map (m : Doc) : (Value.map m).asMap = some m := rfl

@[simp] theorem Value.asMap_nilMap : Value.nilMap.asMap = some [] := rfl

theorem Canonical.asMap {v : Value} {m : Doc} (h : Canonical v) (hm : v.asMap = some m) :
    Canonical (.map m) := by
  cases h with
  | map hs hall =>
    cases hm
    exact .map hs hall
  | nilMap =>
    cases hm
    exact .map Assoc.Sorted.nil (by simp)
  | _ => cases hm

/-- What is no map counts as an empty one. -/
theorem Canonical.getD_asMap {v : Value} (h : Canonical v) :
    Canonical (.map (v.asMap.getD [])) := by
  rcases hm : v.asMap with _ | m
  · exact .map Assoc.Sorted.nil (by simp)
  · exact h.asMap hm

theorem Canonical.get {m : Doc} (h : Canonical (.map m)) (k : String) :
    Canonical ((Assoc.get k m).getD .nil) := by
  cases h with
  | map _ hall =>
    rcases hk : Assoc.get k m with _ | v
    · exact .nil
    · exact hall _ (Assoc.mem_of_get hk)

namespace Merge

open Norman.Types

variable (env : Env) (internal : Schema → Option Schema) (schemas : Schemas) (replace : Bool)

section Meets

mutual

/-- Every nil map of an update is met by a map of the object, or replaces what is there as part of a
map of plain values. -/
def meets (field fieldType : String) (parentSchema schema : Option Schema) (dest : Value) :
    Value → Bool
  | .map sm =>
    isMap env schemas field schema ||
      let (fieldType, fieldSchema) :=
        getSchema env internal schemas field fieldType parentSchema schema
      meetsAll fieldType schema fieldSchema (dest.asMap.getD []) sm
  | .nilMap => isMap env schemas field schema || dest.asMap.isSome
  | _ => true

def meetsAll (fieldType : String) (parentSchema schema : Option Schema) (dest : Doc) : Doc → Bool
  | [] => true
  | (k, v) :: src =>
    meets k fieldType parentSchema schema ((Assoc.get k dest).getD .nil) v
      && meetsAll fieldType parentSchema schema dest src

end

end Meets

variable {env internal schemas replace} {field fieldType : String}
  {parentSchema schema : Option Schema}

theorem meetsAll_iff {dest : Doc} : ∀ {src : Doc},
    meetsAll env internal schemas fieldType parentSchema schema dest src = true
      ↔ ∀ e ∈ src, meets env internal schemas e.1 fieldType parentSchema schema
          ((Assoc.get e.1 dest).getD .nil) e.2 = true
  | [] => by simp [meetsAll]
  | (k, v) :: src => by simp [meetsAll, @meetsAll_iff dest src]

theorem get_copyMapReplace (k : String) (m : Doc) :
    Assoc.get k (copyMapReplace replace schema m)
      = if replace && schema.any fun schema => (schema.resourceFields.get k).any Field.update
        then none else Assoc.get k m := by
  have h := Assoc.get_filter (fun k => !(replace && schema.any fun schema =>
    (schema.resourceFields.get k).any Field.update)) k m
  rw [copyMapReplace, h]
  split_ifs <;> simp_all

theorem copyMapReplace_twice (m : Doc) :
    copyMapReplace replace schema (copyMapReplace replace schema m)
      = copyMapReplace replace schema m := by
  simp [copyMapReplace, List.filter_filter]

theorem sorted_mergeMaps {dest : Doc} (h : Assoc.Sorted dest) : ∀ src : Doc,
    Assoc.Sorted (mergeMaps env internal schemas replace fieldType parentSchema schema dest src)
  | [] => h.filter _
  | (k, v) :: src => by
    rw [mergeMaps]
    exact (sorted_mergeMaps h src).set

/-- An update laid over nothing is the update. -/
theorem merge_nil (src : Value) :
    merge env internal schemas replace field fieldType parentSchema schema .nil src = src := by
  cases src with
  | map sm => simp [merge, Value.asMap]
  | nilMap => simp [merge, Value.asMap]
  | _ => rfl

theorem mergeMaps_nil {src : Doc} (h : Assoc.Sorted src) :
    mergeMaps env internal schemas replace fieldType parentSchema schema [] src = src := by
  refine Assoc.ext (sorted_mergeMaps Assoc.Sorted.nil src) h fun k => ?_
  rw [get_mergeMaps]
  split
  · rename_i v hv
    simp [hv, merge_nil]
  · rename_i hv
    simp [hv, copyMapReplace]

/-- A map is merged into what is no map as into the empty one. -/
theorem merge_map {dest : Value} {sm : Doc} (h : Assoc.Sorted sm)
    (hmap : isMap env schemas field schema = false) :
    merge env internal schemas replace field fieldType parentSchema schema dest (.map sm)
      = .map (mergeMaps env internal schemas replace
          (getSchema env internal schemas field fieldType parentSchema schema).1 schema
          (getSchema env internal schemas field fieldType parentSchema schema).2
          (dest.asMap.getD []) sm) := by
  rw [merge, if_neg (by simp [hmap])]
  split
  · rename_i hdest
    rw [hdest, Option.getD_none, mergeMaps_nil h]
  · rename_i dm hdest
    rw [hdest, Option.getD_some]

/-- What a second merge does is what it does to the values of the update. -/
theorem mergeMaps_twice_iff {dest src : Doc} (hd : Assoc.Sorted dest) (hs : Assoc.Sorted src) :
    mergeMaps env internal schemas replace fieldType parentSchema schema
        (mergeMaps env internal schemas replace fieldType parentSchema schema dest src) src
      = mergeMaps env internal schemas replace fieldType parentSchema schema dest src
      ↔ ∀ e ∈ src,
        merge env internal schemas replace e.1 fieldType parentSchema schema
          (merge env internal schemas replace e.1 fieldType parentSchema schema
            ((Assoc.get e.1 dest).getD .nil) e.2) e.2
        = merge env internal schemas replace e.1 fieldType parentSchema schema
            ((Assoc.get e.1 dest).getD .nil) e.2 := by
  constructor
  · rintro h ⟨k, v⟩ he
    have hv : Assoc.get k src = some v := hs.mem_iff.1 he
    have hk := congrArg (Assoc.get k) h
    simpa [get_mergeMaps, hv] using hk
  · intro h
    have hsorted : Assoc.Sorted
        (mergeMaps env internal schemas replace fieldType parentSchema schema dest src) :=
      sorted_mergeMaps hd src
    refine Assoc.ext (sorted_mergeMaps hsorted src) hsorted fun k => ?_
    rw [get_mergeMaps]
    split
    · rename_i v hv
      simpa [get_mergeMaps, hv] using h (k, v) (Assoc.mem_of_get hv)
    · rename_i hv
      rw [get_copyMapReplace, get_mergeMaps, hv]
      simp only [get_copyMapReplace]
      split_ifs <;> rfl

theorem merge_twice_iff {src : Value} (hs : Canonical src) : ∀ {field fieldType : String}
    {parentSchema schema : Option Schema} {dest : Value}, Canonical dest →
    (merge env internal schemas replace field fieldType parentSchema schema
        (merge env internal schemas replace field fieldType parentSchema schema dest src) src
      = merge env internal schemas replace field fieldType parentSchema schema dest src
      ↔ meets env internal schemas field fieldType parentSchema schema dest src = true) := by
  induction hs with
  | @map sm hsorted _ ih =>
    intro field fieldType parentSchema schema dest hdest
    rw [meets]
    cases hmap : isMap env schemas field schema with
    | true => simp [merge, hmap]
    | false =>
      have hdm : Canonical (.map (dest.asMap.getD [])) := hdest.getD_asMap
      cases hdm with
      | map hdsorted hall =>
        rw [merge_map hsorted hmap, merge_map hsorted hmap, Value.asMap_map, Option.getD_some,
          Value.map.injEq, mergeMaps_twice_iff hdsorted hsorted, Bool.false_or, meetsAll_iff]
        exact forall₂_congr fun e he => ih e he (Canonical.get (.map hdsorted hall) e.1)
  | nilMap =>
    intro field fieldType parentSchema schema dest _
    rw [meets]
    cases hmap : isMap env schemas field schema with
    | true => simp [merge, hmap]
    | false =>
      rcases hm : dest.asMap with _ | dm
      · simp [merge, hmap, hm]
      · simp [merge, hmap, hm, copyMapReplace_twice]
  | _ =>
    intro field fieldType parentSchema schema dest _
    simp [merge, meets]

/-- A second merge of an update changes nothing if and only if every nil map of the update is met by
a map, or stands in a field that is replaced as a whole. -/
theorem UpdateMerge_idempotent_iff {dest src : Doc}
    (hd : Canonical (.map dest)) (hs : Canonical (.map src)) :
    UpdateMerge env internal schemas replace schema
        (UpdateMerge env internal schemas replace schema dest src) src
      = UpdateMerge env internal schemas replace schema dest src
      ↔ meetsAll env internal schemas "" none schema dest src = true := by
  cases hd with
  | map hdsorted hdall =>
    cases hs with
    | map hsorted hall =>
      rw [UpdateMerge, UpdateMerge, mergeMaps_twice_iff hdsorted hsorted, meetsAll_iff]
      exact forall₂_congr fun e he =>
        merge_twice_iff (hall e he) (Canonical.get (.map hdsorted hdall) e.1)

/-- The labels of the update are laid over those of the object, and its nil map over a map. -/
theorem labels_settle :
    UpdateMerge Schemas.plainEnv (fun _ => none) NewSchemas true none
        (UpdateMerge Schemas.plainEnv (fun _ => none) NewSchemas true none
          [("labels", .map [("app", .str "web")]), ("spec", .map [("replicas", .int 1)])]
          [("labels", .map [("tier", .str "front")]), ("spec", .nilMap)])
        [("labels", .map [("tier", .str "front")]), ("spec", .nilMap)]
      = UpdateMerge Schemas.plainEnv (fun _ => none) NewSchemas true none
          [("labels", .map [("app", .str "web")]), ("spec", .map [("replicas", .int 1)])]
          [("labels", .map [("tier", .str "front")]), ("spec", .nilMap)] := by
  refine (UpdateMerge_idempotent_iff ?_ ?_).2 (by decide +kernel)
  all_goals
    refine .map (by decide +kernel) ?_
    simp only [List.forall_mem_cons, List.not_mem_nil, false_imp_iff, implies_true, and_true]
  · exact ⟨.map (by decide +kernel) (by simp [Canonical.str]),
      .map (by decide +kernel) (by simp [Canonical.int])⟩
  · exact ⟨.map (by decide +kernel) (by simp [Canonical.str]), .nilMap⟩

/-- A nil map in the place of nothing becomes an empty one. -/
theorem nil_map_unsettled :
    UpdateMerge Schemas.plainEnv (fun _ => none) NewSchemas false none
        (UpdateMerge Schemas.plainEnv (fun _ => none) NewSchemas false none []
          [("labels", .nilMap)])
        [("labels", .nilMap)]
      ≠ UpdateMerge Schemas.plainEnv (fun _ => none) NewSchemas false none []
          [("labels", .nilMap)] := by
  decide +kernel

end Merge

end Norman
