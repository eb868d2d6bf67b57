import Norman.Lib.Gather
import Norman.Mappers
import Norman.Proofs.SchemaViews

/-!
# Embedding an object and taking it out again

`FromInternal` puts the fields of the embedded object beside it and then deletes it; `ToInternal`
collects them. A field of the embedded object that has the name of the embedded object itself is
deleted together with it: `ModifySchema` lets such a field pass, and it is lost.
-/

namespace Norman.FieldMapper

open Norman.Types

namespace Embed

open Norman.Mapper (takeField)

variable {e e' : Embed} {data sub : Doc} {k : String}

section Loops

theorem get_foldl_raise (k : String) (sub : Doc) : ∀ (names : List String) (data : Doc),
    Assoc.get k (names.foldl (raise sub) data)
      = if k ∈ names then (Assoc.get k sub).or (Assoc.get k data) else Assoc.get k data
  | [], data => by simp
  | name :: names, data => by
    have hraise : Assoc.get k (raise sub data name)
        = if k = name then (Assoc.get k sub).or (Assoc.get k data) else Assoc.get k data := by
      rw [raise]
      by_cases hk : k = name
      · subst hk
        rcases h : Assoc.get k sub with _ | v <;> simp [Assoc.get_set]
      · rcases h : Assoc.get name sub with _ | v <;> simp [Assoc.get_set, hk]
    rw [List.foldl_cons, get_foldl_raise k sub names, hraise]
    by_cases hk : k = name
    · rcases Assoc.get k sub with _ | v <;> simp [hk]
    · simp [hk]

theorem get_FromInternal (e : Embed) (data : Doc) (k : String) :
    Assoc.get k (e.FromInternal data) = if k = e.Field then none
      else if k ∈ e.embeddedFields then (Assoc.get k (e.sub data)).or (Assoc.get k data)
      else Assoc.get k data := by
  rw [FromInternal, Assoc.get_erase, get_foldl_raise]

theorem get_foldl_takeField (k : String) : ∀ (names : List String) (r : Doc × Doc),
    Assoc.get k (names.foldl takeField r).1
        = (if k ∈ names then (Assoc.get k r.2).or (Assoc.get k r.1) else Assoc.get k r.1)
      ∧ Assoc.get k (names.foldl takeField r).2 = if k ∈ names then none else Assoc.get k r.2
  | [], r => by simp
  | name :: names, r => by
    obtain ⟨h1, h2⟩ := get_foldl_takeField k names (takeField r name)
    have hfst : Assoc.get k (takeField r name).1
        = if k = name then (Assoc.get k r.2).or (Assoc.get k r.1) else Assoc.get k r.1 := by
      rw [takeField]
      by_cases hk : k = name
      · subst hk
        rcases h : Assoc.get k r.2 with _ | v <;> simp [Assoc.get_set]
      · rcases h : Assoc.get name r.2 with _ | v <;> simp [Assoc.get_set, hk]
    have hsnd : Assoc.get k (takeField r name).2 = if k = name then none else Assoc.get k r.2 := by
      rw [takeField]
      rcases Assoc.get name r.2 with _ | v <;> exact Assoc.get_erase name k r.2
    rw [List.foldl_cons, h1, h2, hfst, hsnd]
    by_cases hk : k = name
    · simp [hk]
    · simp [hk]

theorem sorted_foldl_raise : ∀ (names : List String) {data : Doc}, Assoc.Sorted data →
    Assoc.Sorted (names.foldl (raise sub) data)
  | [], _, h => h
  | name :: names, data, h => by
    refine sorted_foldl_raise names ?_
    rw [raise]
    rcases Assoc.get name sub with _ | v
    · exact h
    · exact h.set

theorem sorted_foldl_takeField : ∀ (names : List String) {r : Doc × Doc}, Assoc.Sorted r.1 →
    Assoc.Sorted r.2 →
    Assoc.Sorted (names.foldl takeField r).1 ∧ Assoc.Sorted (names.foldl takeField r).2
  | [], _, h1, h2 => ⟨h1, h2⟩
  | name :: names, r, h1, h2 => by
    have hs : Assoc.Sorted (takeField r name).1 ∧ Assoc.Sorted (takeField r name).2 := by
      rw [takeField]
      rcases Assoc.get name r.2 with _ | v
      · exact ⟨h1, h2.erase⟩
      · exact ⟨h1.set, h2.erase⟩
    exact sorted_foldl_takeField names hs.1 hs.2

theorem sorted_FromInternal (h : Assoc.Sorted data) : Assoc.Sorted (e.FromInternal data) :=
  (sorted_foldl_raise _ h).erase

end Loops

section Back

theorem ToInternal_eq (e : Embed) (flat : Doc) : e.ToInternal flat
    = if (e.embeddedFields.foldl takeField ([], flat)).1 = [] then
        if e.EmptyValueOk then
          Assoc.set e.Field .nil (e.embeddedFields.foldl takeField ([], flat)).2
        else (e.embeddedFields.foldl takeField ([], flat)).2
      else Assoc.set e.Field (.map (e.embeddedFields.foldl takeField ([], flat)).1)
        (e.embeddedFields.foldl takeField ([], flat)).2 := by
  simp only [ToInternal, Mapper.Embed.ToInternal, Mapper.Embed.taken]
  rcases e.embeddedFields.foldl takeField ([], flat) with ⟨_ | ⟨a, l⟩, rest⟩ <;> simp

theorem get_ToInternal_of_ne (flat : Doc) (hk : k ≠ e.Field) : Assoc.get k (e.ToInternal flat)
      = if k ∈ e.embeddedFields then none else Assoc.get k flat := by
  have hrest := (get_foldl_takeField k e.embeddedFields ([], flat)).2
  rw [ToInternal_eq]
  split_ifs <;> simp_all [Assoc.get_set]

/-- When `ToInternal` gives data that have the object as their field: the fields of the object, and
no others, are those that are embedded and there, and the rest is the rest. -/
theorem ToInternal_eq_iff {flat : Doc} (hflat : Assoc.Sorted flat) (hdata : Assoc.Sorted data)
    (hsub : Assoc.Sorted sub) (hget : Assoc.get e.Field data = some (.map sub)) (hne : sub ≠ [])
    (hnone : Assoc.get e.Field flat = none) :
    e.ToInternal flat = data
      ↔ (∀ k, (if k ∈ e.embeddedFields then Assoc.get k flat else none) = Assoc.get k sub)
        ∧ ∀ k, k ≠ e.Field →
          (if k ∈ e.embeddedFields then none else Assoc.get k flat) = Assoc.get k data := by
  have hfold := fun k => get_foldl_takeField k e.embeddedFields ([], flat)
  obtain ⟨hs1, hs2⟩ := sorted_foldl_takeField e.embeddedFields (r := ([], flat)) .nil hflat
  simp only [Assoc.get_nil, Option.or_none] at hfold
  rw [ToInternal_eq]
  generalize e.embeddedFields.foldl takeField ([], flat) = r at *
  have hrest : ∀ v k, k ≠ e.Field → Assoc.get k (Assoc.set e.Field v r.2)
      = if k ∈ e.embeddedFields then none else Assoc.get k flat := by
    intro v k hk
    rw [Assoc.get_set, if_neg hk, (hfold k).2]
  constructor
  · intro h
    split_ifs at h with hr hok
    · rw [← h, Assoc.get_set, if_pos rfl] at hget
      cases hget
    · rw [← h, (hfold e.Field).2, hnone, ite_self] at hget
      cases hget
    · rw [← h, Assoc.get_set, if_pos rfl] at hget
      cases hget
      exact ⟨fun k => (hfold k).1.symm, fun k hk => by rw [← h, hrest _ k hk]⟩
  · rintro ⟨hin, hout⟩
    have heq : r.1 = sub := Assoc.ext hs1 hsub fun k => by rw [(hfold k).1, hin k]
    rw [heq, if_neg hne]
    refine Assoc.ext hs2.set hdata fun k => ?_
    by_cases hk : k = e.Field
    · rw [hk, Assoc.get_set, if_pos rfl, hget]
    · rw [hrest _ k hk, hout k hk]

/-- The object comes back if and only if it has no field with its own name, and nothing else in the
data has the name of an embedded field. -/
theorem restored_iff (hdata : Assoc.Sorted data) (hsub : Assoc.Sorted sub)
    (hget : Assoc.get e.Field data = some (.map sub)) (hne : sub ≠ [])
    (honly : ∀ k, Assoc.get k sub ≠ none → k ∈ e.embeddedFields) :
    e.ToInternal (e.FromInternal data) = data ↔ Assoc.get e.Field sub = none
      ∧ ∀ k, k ≠ e.Field → k ∈ e.embeddedFields → Assoc.get k data = none := by
  have hmap : e.sub data = sub := by rw [Embed.sub, hget]; rfl
  have hflat := fun k => get_FromInternal e data k
  rw [hmap] at hflat
  rw [ToInternal_eq_iff (sorted_FromInternal hdata) hdata hsub hget hne (by rw [hflat, if_pos rfl])]
  constructor
  · rintro ⟨hin, hout⟩
    refine ⟨?_, fun k hk hmem => ?_⟩
    · rw [← hin, hflat, if_pos rfl, ite_self]
    · rw [← hout k hk, if_pos hmem]
  · rintro ⟨hself, hother⟩
    refine ⟨fun k => ?_, fun k hk => ?_⟩
    · rw [hflat]
      by_cases hk : k = e.Field
      · rw [hk, if_pos rfl, ite_self, hself]
      · by_cases hmem : k ∈ e.embeddedFields
        · rw [if_pos hmem, if_neg hk, if_pos hmem, hother k hk hmem, Option.or_none]
        · rw [if_neg hmem]
          by_contra hsome
          exact hmem (honly k (Ne.symm hsome))
    · by_cases hmem : k ∈ e.embeddedFields
      · rw [if_pos hmem, hother k hk hmem]
      · rw [if_neg hmem, hflat, if_neg hk, if_neg hmem]

end Back

section Modify

variable {id : String} {r r' : Loop}

/-- What the loop of `ModifySchema` has done if it came to its end. -/
structure Embedded (e : Embed) (l : List (String × Types.Field)) (r r' : Loop) : Prop where
  names : r'.embeddedFields = r.embeddedFields ++ l.map Prod.fst
  new : e.ignoreOverride = false → ∀ k ∈ l.map Prod.fst, k ≠ e.Field → r.fields.get k = none
  old : ∀ k, k ∉ l.map Prod.fst → r'.fields.get k = r.fields.get k
  deleted : r'.deleteField = true ↔ r.deleteField = true ∧ e.Field ∉ l.map Prod.fst

theorem round_embedded (hi : e.Ignore = []) {entry : String × Types.Field}
    (h : e.round id r entry = .ok r') : Embedded e [entry] r r' := by
  obtain ⟨name, field⟩ := entry
  simp only [round, hi, List.not_mem_nil, if_false] at h
  by_cases hover : name ≠ e.Field ∧ e.ignoreOverride = false ∧ r.fields.get name ≠ none
  · rw [if_pos hover] at h
    cases h
  rw [if_neg hover] at h
  cases h
  refine ⟨rfl, fun hover' k hk hne => ?_, fun k hk => ?_, ?_⟩
  · rw [List.map_singleton, List.mem_singleton] at hk
    subst hk
    by_contra hsome
    exact hover ⟨hne, hover', hsome⟩
  · rw [List.map_singleton, List.mem_singleton] at hk
    rw [SortedMap.get_set, if_neg hk]
  · by_cases hname : name = e.Field
    · simp [hname]
    · simp [hname, Ne.symm hname]

theorem foldlM_embedded (hi : e.Ignore = []) : ∀ {l : List (String × Types.Field)} {r r' : Loop},
    l.foldlM (e.round id) r = .ok r' → Embedded e l r r'
  | [], r, r', h => by
    cases h
    exact ⟨by simp, by simp, fun _ _ => rfl, by simp⟩
  | entry :: l, r, r', h => by
    obtain ⟨r₁, hr, hl⟩ := Gather.bind_eq_ok.1 h
    have h1 := round_embedded hi hr
    have h2 := foldlM_embedded hi hl
    have hmem : ∀ k, k ∈ (entry :: l).map Prod.fst
        ↔ k ∈ [entry].map Prod.fst ∨ k ∈ l.map Prod.fst := by simp
    refine ⟨by rw [h2.names, h1.names]; simp, fun hover k hk hne => ?_, fun k hk => ?_, ?_⟩
    · by_cases hfirst : k ∈ [entry].map Prod.fst
      · exact h1.new hover k hfirst hne
      · rw [← h1.old k hfirst]
        exact h2.new hover k (((hmem k).1 hk).resolve_left hfirst) hne
    · rw [hmem, not_or] at hk
      rw [h2.old k hk.2, h1.old k hk.1]
    · rw [h2.deleted, h1.deleted, hmem, not_or, and_assoc]

variable {env : Env} {order : Order} {schema schema' embedded : Schema} {schemas : Schemas}
  {field : Types.Field}

/-- `ModifySchema` of a field whose schema is there: it is embedded with all its fields. -/
theorem ModifySchema_ok (hi : e.Ignore = []) (hfield : schema.resourceFields.get e.Field = some field)
    (hembedded : schemas.doSchema env (some schema.version) field.type = some embedded)
    (h : e.ModifySchema env order schema schemas = .ok (e', schema')) :
    ∃ r, Embedded e (order.list embedded.resourceFields) ⟨true, schema.resourceFields, []⟩ r
      ∧ e' = { e with embeddedFields := r.embeddedFields }
      ∧ schema' = { schema with
          resourceFields := if r.deleteField then r.fields.erase e.Field else r.fields } := by
  have hvalid : ValidateField e.Field schema = none := by simp [ValidateField, hfield]
  have hfound : e.embeddedSchema env schemas schema = some embedded := by
    rw [embeddedSchema, hfield]
    exact hembedded
  simp only [ModifySchema, hvalid, hfound] at h
  obtain ⟨r, hr, heq⟩ := Gather.map_eq_ok.1 h
  obtain ⟨rfl, rfl⟩ := Prod.mk.inj heq
  exact ⟨r, foldlM_embedded hi hr, rfl, rfl⟩

theorem mem_order {fields : SortedMap String Types.Field} :
    k ∈ (order.list fields).map Prod.fst ↔ fields.get k ≠ none := by
  rw [((order.perm fields).map Prod.fst).mem_iff, Option.ne_none_iff_exists']
  exact SortedMap.mem_keys

/-- The round trip of an embedded object. It is the same after it if and only if it has no field
with the name of the embedding field; and, with `ignoreOverride`, which `UnionEmbed` sets, if also
nothing beside it has the name of a field of its schema. -/
theorem embedded_restored_iff (hi : e.Ignore = [])
    (hfield : schema.resourceFields.get e.Field = some field)
    (hembedded : schemas.doSchema env (some schema.version) field.type = some embedded)
    (h : e.ModifySchema env order schema schemas = .ok (e', schema'))
    (hdata : Assoc.Sorted data) (hsub : Assoc.Sorted sub)
    (hget : Assoc.get e.Field data = some (.map sub)) (hne : sub ≠ [])
    (honly : ∀ k, Assoc.get k sub ≠ none → embedded.resourceFields.get k ≠ none)
    (hother : ∀ k, k ≠ e.Field → Assoc.get k data ≠ none → schema.resourceFields.get k ≠ none) :
    e'.ToInternal (e'.FromInternal data) = data ↔ Assoc.get e.Field sub = none
      ∧ (e.ignoreOverride = true → ∀ k, k ≠ e.Field → Assoc.get k data ≠ none →
        embedded.resourceFields.get k = none) := by
  obtain ⟨r, hr, rfl, -⟩ := ModifySchema_ok hi hfield hembedded h
  have hmem : ∀ k, k ∈ r.embeddedFields ↔ embedded.resourceFields.get k ≠ none := by
    intro k
    rw [hr.names, List.nil_append]
    exact mem_order
  rw [restored_iff (e := { e with embeddedFields := r.embeddedFields }) hdata hsub hget hne
    fun k hk => (hmem k).2 (honly k hk)]
  refine and_congr_right fun _ => ⟨fun hrest _ k hk hsome => ?_, fun hrest k hk hin => ?_⟩
  · by_contra hnone
    exact hsome (hrest k hk ((hmem k).2 hnone))
  · by_contra hsome
    rcases hover : e.ignoreOverride with _ | _
    · refine hother k hk hsome (hr.new hover k ?_ hk)
      rwa [hr.names, List.nil_append] at hin
    · exact (hmem k).1 hin (hrest hover k hk hsome)

end Modify

section Volumes

open Schemas (plainEnv schemaOf)

/-- A schema with fields of these types. -/
def schemaWith (id : String) (types : List (String × String)) : Schema :=
  { schemaOf id "1" with
    resourceFields := types.foldl (fun fields t => fields.set t.1 { type := t.2 }) ∅ }

/-- The fields by name. -/
def byName : Order := ⟨SortedMap.entries, fun _ => .refl _⟩

def volume : Schema := schemaWith "volume" [("name", "string"), ("source", "source")]

/-- The source of a volume may have a field `source` itself. -/
def source : Schema := schemaWith "source" [("path", "string"), ("source", "string")]

def sources : Schemas := NewSchemas.store source false

def intoVolume : Embed := { Field := "source" }

theorem intoVolume_modifies : intoVolume.ModifySchema plainEnv byName volume sources
    = .ok ({ intoVolume with embeddedFields := ["path", "source"] },
      schemaWith "volume" [("name", "string"), ("path", "string"), ("source", "string")]) := by
  decide +kernel

/-- A source without the field comes back. -/
theorem path_restored :
    let e : Embed := { intoVolume with embeddedFields := ["path", "source"] }
    e.ToInternal (e.FromInternal [("name", .str "data"), ("source", .map [("path", .str "/mnt")])])
      = [("name", .str "data"), ("source", .map [("path", .str "/mnt")])] := by
  have hfield : volume.resourceFields.get intoVolume.Field = some { type := "source" } := by
    decide +kernel
  have hsource : sources.doSchema plainEnv (some volume.version)
      ({ type := "source" } : Types.Field).type = some source := by
    decide +kernel
  have hsub : Assoc.Sorted [("path", Value.str "/mnt")] := by decide +kernel
  refine (embedded_restored_iff rfl hfield hsource intoVolume_modifies (by decide +kernel) hsub
    (by decide +kernel) (by simp) ?_ ?_).2 ⟨by decide +kernel, fun h => by cases h⟩
  · intro k hk
    by_cases hpath : k = "path"
    · subst hpath
      decide +kernel
    · simp [Assoc.get, hpath] at hk
  · intro k hne hk
    by_cases hname : k = "name"
    · subst hname
      decide +kernel
    · have hfield : k ≠ "source" := hne
      simp [Assoc.get, hname, hfield] at hk

/-- The field `source` of a source is lost. -/
theorem source_lost : sources.doSchema plainEnv (some volume.version) "source" = some source
    ∧ (intoVolume.ModifySchema plainEnv byName volume sources).map (fun r =>
        r.1.ToInternal (r.1.FromInternal [("name", .str "data"),
          ("source", .map [("path", .str "/mnt"), ("source", .str "nfs")])]))
      = .ok [("name", .str "data"), ("source", .map [("path", .str "/mnt")])] := by
  decide +kernel

end Volumes

end Embed

end Norman.FieldMapper
