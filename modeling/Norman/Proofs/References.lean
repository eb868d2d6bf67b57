import Norman.Proofs.SchemaViews
import Norman.Proofs.TypeNames

/-!
# The index of references

The index keeps, under each key, the reference fields of the registered schemas that are not
embedded, filed by `refType` (`Indexed`): adding and removing keep it so, embedding being a removal
and an addition. Only `ForceAddSchema` does not take out what the schema it replaces had put in. So
the index is as good as its keys: `References` asks by the full name in brackets, under which a
reference to the schema by its full name is never filed.
-/

namespace Norman.Types

namespace Schemas

variable {env : Env} {s s' : Schemas} {x y : Schema} {key : String} {b : BackReference}
  {references : SortedMap String (List BackReference)}

section Update

/-- What `addReferences` files under a key. -/
def newReferences (x : Schema) (key : String) : List BackReference :=
  x.resourceFields.entries.filterMap fun e =>
    if IsReferenceType e.2.type ∧ refType x e.2.type = key then some ⟨e.1, x⟩ else none

theorem foldl_addReferences (x : Schema) (key : String) :
    ∀ (l : List (String × Field)) (references : SortedMap String (List BackReference)),
      ((l.foldl (fun references e =>
        if IsReferenceType e.2.type then
          references.set (refType x e.2.type)
            ((references.get (refType x e.2.type)).getD [] ++ [⟨e.1, x⟩])
        else references) references).get key).getD []
      = (references.get key).getD [] ++ l.filterMap fun e =>
          if IsReferenceType e.2.type ∧ refType x e.2.type = key then some ⟨e.1, x⟩ else none
  | [], references => by simp
  | e :: l, references => by
    rw [List.foldl_cons, foldl_addReferences x key l]
    by_cases href : IsReferenceType e.2.type = true
    · by_cases hkey : refType x e.2.type = key
      · simp [href, hkey]
      · simp [href, hkey, SortedMap.get_set, Ne.symm hkey]
    · simp [href]

theorem getD_addReferences : ((addReferences references x).get key).getD []
    = (references.get key).getD [] ++ newReferences x key :=
  foldl_addReferences x key _ references

theorem mem_newReferences : b ∈ newReferences x key ↔ b.schema = x ∧ ∃ field,
    x.resourceFields.get b.fieldName = some field ∧ IsReferenceType field.type = true
      ∧ refType x field.type = key := by
  obtain ⟨name, y⟩ := b
  simp only [newReferences, List.mem_filterMap, Prod.exists, Option.ite_none_right_eq_some,
    Option.some.injEq, BackReference.mk.injEq, SortedMap.mem_entries]
  constructor
  · rintro ⟨f, field, hf, ⟨href, hkey⟩, rfl, rfl⟩
    exact ⟨rfl, field, hf, href, hkey⟩
  · rintro ⟨rfl, field, hf, href, hkey⟩
    exact ⟨name, field, hf, ⟨href, hkey⟩, rfl, rfl⟩

theorem nodup_filed {p : String × Field → Prop} [DecidablePred p] :
    ∀ l : List (String × Field), (l.map Prod.fst).Nodup →
      (l.filterMap fun e => if p e then some (⟨e.1, x⟩ : BackReference) else none).Nodup
  | [], _ => by simp
  | e :: l, h => by
    obtain ⟨he, hl⟩ := List.nodup_cons.1 h
    by_cases hp : p e
    · simp only [List.filterMap_cons, if_pos hp, List.nodup_cons]
      refine ⟨fun hm => he ?_, nodup_filed l hl⟩
      obtain ⟨e', he', heq⟩ := List.mem_filterMap.1 hm
      rw [Option.ite_none_right_eq_some, Option.some.injEq, BackReference.mk.injEq] at heq
      rw [← heq.2.1]
      exact List.mem_map_of_mem he'
    · simp only [List.filterMap_cons, if_neg hp]
      exact nodup_filed l hl

theorem nodup_newReferences : (newReferences x key).Nodup :=
  nodup_filed _ x.resourceFields.nodup_keys

theorem getD_removeReferences : ((removeReferences references x).get key).getD []
    = ((references.get key).getD []).filter fun b =>
        ¬ (b.schema.id = x.id ∧ b.schema.version.path = x.version.path) := by
  rw [removeReferences, SortedMap.get_map]
  rcases references.get key with _ | l <;> simp

end Update

section Indexed

/-- The field is filed under the key. -/
def Files (b : BackReference) (key : String) : Prop :=
  b.schema.embed = false ∧ ∃ field, b.schema.resourceFields.get b.fieldName = some field
    ∧ IsReferenceType field.type = true ∧ refType b.schema field.type = key

/-- Under every key are the fields filed there of the registered schemas, each once. -/
structure Indexed (s : Schemas) : Prop where
  nodup : ∀ key, ((s.references.get key).getD []).Nodup
  mem : ∀ key b, b ∈ (s.references.get key).getD [] ↔ s.Registered b.schema ∧ Files b key

theorem Indexed.drop (h : s.Indexed) (x : Schema) : (s.drop x).Indexed := by
  refine ⟨fun key => ?_, fun key b => ?_⟩
  · simp only [Schemas.drop, getD_removeReferences]
    exact (h.nodup key).filter _
  · rw [registered_iff]
    simp only [Schemas.drop, getD_removeReferences, ByPath.get_delete, List.mem_filter, h.mem,
      registered_iff, decide_eq_true_eq]
    by_cases hb : b.schema.version.path = x.version.path ∧ b.schema.id = x.id
    · rw [if_pos hb]
      simp [hb.1, hb.2]
    · rw [if_neg hb]
      exact ⟨fun h => h.1, fun h => ⟨h, fun hb' => hb hb'.symm⟩⟩

/-- Storing a schema keeps the index if what it replaces is nowhere filed. -/
theorem Indexed.store (h : s.Indexed) {replace : Bool}
    (hold : s.stores x replace = true → ∀ b key, s.Registered b.schema →
      b.schema.version.path = x.version.path → b.schema.id = x.id → ¬ Files b key) :
    (s.store x replace).Indexed := by
  by_cases hst : s.stores x replace = true
  · have hrefs : ∀ key, ((s.store x replace).references.get key).getD []
        = (s.references.get key).getD [] ++ if x.embed then [] else newReferences x key := by
      intro key
      cases he : x.embed <;> simp [Schemas.store, hst, he, getD_addReferences]
    have hnew : ∀ {key b}, b ∈ (if x.embed then [] else newReferences x key)
        ↔ b.schema = x ∧ Files b key := by
      intro key b
      cases he : x.embed <;> simp only [Bool.false_eq_true, if_false, if_true, mem_newReferences,
        Files, List.not_mem_nil, false_iff]
      · constructor
        · rintro ⟨rfl, hf⟩
          exact ⟨rfl, he, hf⟩
        · rintro ⟨rfl, -, hf⟩
          exact ⟨rfl, hf⟩
      · rintro ⟨rfl, he', -⟩
        rw [he] at he'
        cases he'
    have hput : (s.store x replace).schemasByPath = s.schemasByPath.put x := if_pos hst
    refine ⟨fun key => ?_, fun key b => ?_⟩
    · rw [hrefs]
      refine List.nodup_append.2 ⟨h.nodup key, ?_, fun a ha b hb hab => ?_⟩
      · split_ifs
        · simp
        · exact nodup_newReferences
      · subst hab
        obtain ⟨hreg, hfiles⟩ := (h.mem key a).1 ha
        obtain ⟨hx, -⟩ := hnew.1 hb
        exact hold hst a key hreg (by rw [hx]) (by rw [hx]) hfiles
    · rw [hrefs, List.mem_append, h.mem, hnew, registered_iff (s := s.store x replace), hput,
        ByPath.get_put, ← or_and_right]
      refine and_congr_left fun hfiles => ?_
      split_ifs with hb
      · rw [Option.some.injEq, eq_comm (a := x)]
        refine or_iff_right fun hreg => ?_
        exact hold hst b key hreg hb.1 hb.2 hfiles
      · rw [registered_iff]
        refine or_iff_left ?_
        rintro rfl
        exact hb ⟨rfl, rfl⟩
  · have hrefs : (s.store x replace).references = s.references := by simp [Schemas.store, hst]
    have hpath : (s.store x replace).schemasByPath = s.schemasByPath := if_neg hst
    refine ⟨by rw [hrefs]; exact h.nodup, fun key b => ?_⟩
    rw [hrefs, h.mem, registered_iff, registered_iff, hpath]

/-- Without replacement, there is nothing to replace. -/
theorem Indexed.store_free (h : s.Indexed) : (s.store x false).Indexed := by
  refine h.store fun hst b key hreg hp hi => ?_
  rw [registered_iff, hp, hi] at hreg
  simp [stores, hreg] at hst

end Indexed

section Embed

variable {schema : Schema}

/-- What adding comes to: the schema is stored, and then its target is taken out and put in. -/
theorem doAddSchema_cases {fuel : ℕ} {replace : Bool}
    (h : doAddSchema env fuel s schema replace = some s') :
    s' = s.stored env schema replace ∨ ∃ n target s₂, fuel = n + 1
      ∧ doRemoveSchema env n (s.stored env schema replace) target = some s₂
      ∧ doAddSchema env n s₂ (embedded target (prepare env schema)) false = some s' := by
  unfold doAddSchema at h
  simp only [] at h
  split_ifs at h
  · split at h
    · cases h
      exact .inl rfl
    · cases h
    · obtain ⟨s₂, h1, h2⟩ := Option.bind_eq_some_iff.1 h
      exact .inr ⟨_, _, s₂, rfl, h1, h2⟩
  · cases h
    exact .inl rfl

theorem doRemoveSchema_cases {fuel : ℕ} (h : doRemoveSchema env fuel s schema = some s') :
    s' = s.drop schema ∨ ∃ n target s₂, fuel = n + 1
      ∧ doRemoveSchema env n (s.drop schema) target = some s₂
      ∧ doAddSchema env n s₂ (unembedded target schema) false = some s' := by
  unfold doRemoveSchema at h
  simp only [] at h
  split_ifs at h
  · split at h
    · cases h
      exact .inl rfl
    · cases h
    · obtain ⟨s₂, h1, h2⟩ := Option.bind_eq_some_iff.1 h
      exact .inr ⟨_, _, s₂, rfl, h1, h2⟩
  · cases h
    exact .inl rfl

/-- What storing and dropping one schema keep, adding and removing keep, whatever is embedded. -/
theorem embed_keeps {P : Schemas → Prop}
    (hstore : ∀ {s : Schemas} (env : Env) (x : Schema), P s → P (s.stored env x false))
    (hdrop : ∀ {s : Schemas} (x : Schema), P s → P (s.drop x)) :
    ∀ (fuel : ℕ) {s s' : Schemas} {schema : Schema}, P s →
      (doAddSchema env fuel s schema false = some s' → P s')
        ∧ (doRemoveSchema env fuel s schema = some s' → P s')
  | fuel, s, s', schema, h => by
    constructor
    · intro hs
      obtain rfl | ⟨n, target, s₂, rfl, h1, h2⟩ := doAddSchema_cases hs
      · exact hstore env schema h
      · have h' := (embed_keeps hstore hdrop n (hstore env schema h)).2 h1
        exact (embed_keeps hstore hdrop n h').1 h2
    · intro hs
      obtain rfl | ⟨n, target, s₂, rfl, h1, h2⟩ := doRemoveSchema_cases hs
      · exact hdrop schema h
      · have h' := (embed_keeps hstore hdrop n (hdrop schema h)).2 h1
        exact (embed_keeps hstore hdrop n h').1 h2

/-- The same for every call on the registry, if it is kept where one schema replaces another. -/
theorem step_keeps {P : Schemas → Prop}
    (hstore : ∀ {s : Schemas} (env : Env) (x : Schema), P s → P (s.stored env x false))
    (hdrop : ∀ {s : Schemas} (x : Schema), P s → P (s.drop x)) {c : Call} {o : List Empty}
    (hforce : ∀ env fuel x, c = .ForceAddSchema env fuel x → P (s.stored env x true))
    (h : P s) (hs : s.step c = some (s', o)) : P s' := by
  have hkeeps := fun env => @embed_keeps env P hstore hdrop
  cases c with
  | AddSchema env fuel schema =>
    obtain ⟨s₁, h1, heq⟩ := Option.map_eq_some_iff.1 hs
    cases heq
    exact (hkeeps env fuel h).1 h1
  | ForceAddSchema env fuel schema =>
    obtain ⟨s₁, h1, heq⟩ := Option.map_eq_some_iff.1 hs
    cases heq
    have h' := hforce env fuel schema rfl
    obtain rfl | ⟨n, target, s₂, rfl, h2, h3⟩ := doAddSchema_cases h1
    · exact h'
    · exact (hkeeps env n ((hkeeps env n h').2 h2)).1 h3
  | RemoveSchema env fuel schema =>
    obtain ⟨s₁, h1, heq⟩ := Option.map_eq_some_iff.1 hs
    cases heq
    exact (hkeeps env fuel h).2 h1

end Embed

section Spelling

/-- In a schema `t`, a reference to `x` is one to the schema `y`: by its id, in the same version, or
by its full name. -/
def Denotes (t : Schema) (x : String) (y : Schema) : Prop :=
  (x = y.id ∧ t.version.path = y.version.path) ∨ x = y.version.path ++ "/schemas/" ++ y.id

/-- The reference in `t` to `x` is not the full name of `y`, nor is it an id of `y` that begins with
a slash, nor does it make up, with the path of `t`, the full name of a `y` of another version. -/
structure Plain (t : Schema) (x : String) (y : Schema) : Prop where
  short : x ≠ y.version.path ++ "/schemas/" ++ y.id
  noSlash : x = y.id → t.version.path = y.version.path → hasPrefix x "/" = false
  apart : hasPrefix x "/" = false →
    t.version.path ++ "/schemas/" ++ x = y.version.path ++ "/schemas/" ++ y.id →
    t.version.path = y.version.path

/-- `References` lists, each once, the fields of registered schemas that refer to the schema. -/
structure Exact (s : Schemas) (y : Schema) : Prop where
  nodup : (s.References y).Nodup
  mem : ∀ b, b ∈ s.References y ↔ s.Registered b.schema ∧ b.schema.embed = false
    ∧ ∃ field x, b.schema.resourceFields.get b.fieldName = some field
      ∧ field.type = "reference[" ++ x ++ "]" ∧ Denotes b.schema x y

variable {t : Schema} {x : String}

theorem toFullReference_inj {path path' name name' : String} :
    ToFullReference path name = ToFullReference path' name'
      ↔ path ++ "/schemas/" ++ name = path' ++ "/schemas/" ++ name' := by
  rw [ToFullReference, ToFullReference, String.append_left_inj, String.append_assoc,
    String.append_assoc, String.append_assoc, String.append_assoc, String.append_right_inj,
    String.append_assoc, String.append_assoc]

theorem refType_eq : refType t ("reference[" ++ x ++ "]") = ToFullReference y.version.path y.id
    ↔ hasPrefix x "/" = false
      ∧ t.version.path ++ "/schemas/" ++ x = y.version.path ++ "/schemas/" ++ y.id := by
  rw [refType, subType_reference]
  by_cases hx : hasPrefix x "/" = true
  · simp only [hx, if_true, Bool.true_eq_false, false_and, iff_false]
    obtain ⟨u, rfl⟩ := hasPrefix_iff.1 hx
    intro heq
    simpa [ToFullReference] using congrArg (List.head? ∘ String.toList) heq
  · simp only [hx, Bool.false_eq_true, if_false, true_and, toFullReference_inj]

/-- The spelling is plain exactly if the field is filed where it is looked for. -/
theorem plain_iff : Plain t x y ↔ (refType t ("reference[" ++ x ++ "]")
    = ToFullReference y.version.path y.id ↔ Denotes t x y) := by
  -- a full name is longer than what it is made up of
  have hlong : x = y.version.path ++ "/schemas/" ++ y.id →
      t.version.path ++ "/schemas/" ++ x ≠ y.version.path ++ "/schemas/" ++ y.id := by
    intro hx heq
    rw [← hx] at heq
    have hlen := congrArg (List.length ∘ String.toList) heq
    simp only [Function.comp, String.toList_append, List.length_append] at hlen
    have : 0 < "/schemas/".toList.length := by decide
    omega
  have hsame : t.version.path = y.version.path →
      t.version.path ++ "/schemas/" ++ x = y.version.path ++ "/schemas/" ++ y.id → x = y.id := by
    intro hp heq
    rw [hp] at heq
    exact (String.append_right_inj _).1 heq
  rw [refType_eq]
  constructor
  · intro hplain
    constructor
    · rintro ⟨hx, heq⟩
      have hp := hplain.apart hx heq
      exact .inl ⟨hsame hp heq, hp⟩
    · rintro (⟨rfl, hp⟩ | hx)
      · exact ⟨hplain.noSlash rfl hp, by rw [hp]⟩
      · exact absurd hx hplain.short
  · intro hiff
    refine ⟨fun hx => ?_, fun hx hp => (hiff.2 (.inl ⟨hx, hp⟩)).1, fun hx heq => ?_⟩
    · exact hlong hx (hiff.2 (.inr hx)).2
    · rcases hiff.1 ⟨hx, heq⟩ with ⟨-, hp⟩ | hfull
      · exact hp
      · exact absurd heq (hlong hfull)

/-- With the index in order, `References` is exact exactly if all references are spelled plainly. -/
theorem Indexed.exact_iff (h : s.Indexed) (y : Schema) : s.Exact y ↔ ∀ t f field x,
    s.Registered t → t.embed = false → t.resourceFields.get f = some field →
    field.type = "reference[" ++ x ++ "]" → Plain t x y := by
  have hmem := h.mem (ToFullReference y.version.path y.id)
  constructor
  · intro hex t f field x hreg hemb hf htype
    rw [plain_iff, ← htype]
    have h1 := hmem ⟨f, t⟩
    rw [← References, hex.mem] at h1
    simp only [hreg, hemb, true_and, Files, hf, Option.some.injEq] at h1
    constructor
    · intro hkey
      obtain ⟨field', x', rfl, htype', hden⟩ := h1.2 ⟨field, rfl,
        isReferenceType_iff.2 ⟨x, htype⟩, hkey⟩
      rw [htype, String.append_left_inj, String.append_right_inj] at htype'
      rwa [htype']
    · intro hden
      obtain ⟨field', rfl, -, hkey⟩ := h1.1 ⟨field, x, rfl, htype, hden⟩
      exact hkey
  · intro hplain
    refine ⟨h.nodup _, fun b => ?_⟩
    rw [References, hmem]
    refine and_congr_right fun hreg => and_congr_right fun hemb => ?_
    constructor
    · rintro ⟨field, hf, href, hkey⟩
      obtain ⟨x, htype⟩ := isReferenceType_iff.1 href
      rw [htype] at hkey
      exact ⟨field, x, hf, htype, (plain_iff.1 (hplain _ _ _ x hreg hemb hf htype)).1 hkey⟩
    · rintro ⟨field, x, hf, htype, hden⟩
      refine ⟨field, hf, isReferenceType_iff.2 ⟨x, htype⟩, ?_⟩
      rw [htype]
      exact (plain_iff.1 (hplain _ _ _ x hreg hemb hf htype)).2 hden

end Spelling

section Run

/-- `ForceAddSchema` replaces no schema that has reference fields and is not embedded. -/
def ReplacesPlain (s : Schemas) : Call → Prop
  | .ForceAddSchema env _ schema =>
    let new := prepare env schema
    ∀ old ∈ s.schemasByPath.get new.version.path new.id,
      new.dynamicSchemaVersion ≠ old.dynamicSchemaVersion →
      old.embed = true ∨ ∀ e ∈ old.resourceFields.entries, IsReferenceType e.2.type = false
  | _ => True

instance : ∀ c : Call, Decidable (s.ReplacesPlain c)
  | .AddSchema _ _ _ => isTrue trivial
  | .ForceAddSchema _ _ _ => inferInstanceAs (Decidable (∀ old ∈ _, _ → _))
  | .RemoveSchema _ _ _ => isTrue trivial

theorem Indexed.step (h : s.Indexed) {c : Call} {o : List Empty} (hq : s.ReplacesPlain c)
    (hs : s.step c = some (s', o)) : s'.Indexed := by
  have herrors : ∀ {s : Schemas} (errors : List SchemaErr), s.Indexed →
      Indexed { s with errors } := fun _ h => ⟨h.nodup, h.mem⟩
  refine step_keeps (fun _ _ h => (herrors _ h).store_free) (fun x h => h.drop x) ?_ h hs
  rintro env fuel schema rfl
  refine (herrors _ h).store ?_
  rintro hst b key hreg hp hi ⟨hemb, field, hf, href, -⟩
  rw [registered_iff, hp, hi] at hreg
  have hdyn : (prepare env schema).dynamicSchemaVersion ≠ b.schema.dynamicSchemaVersion := by
    simpa [stores, hreg] using hst
  rcases hq b.schema hreg hdyn with he | hnone
  · rw [he] at hemb
    cases hemb
  · rw [hnone _ (SortedMap.mem_entries.2 hf)] at href
    cases href

theorem indexed_new : NewSchemas.Indexed := by
  refine ⟨by simp [NewSchemas], fun key b => ?_⟩
  rw [registered_iff]
  simp [NewSchemas, ByPath.empty, ByPath.get]

/-- In every run in which `ForceAddSchema` replaces no schema that has reference fields,
`References` of a schema is exact exactly if no registered schema refers to it by its full name, by
an id that begins with a slash, or from another version. -/
theorem references_exact_iff {cs : List Call} {o : List Empty}
    (hrun : Run.exec step NewSchemas cs = some (s, o))
    (hq : Run.Along step ReplacesPlain NewSchemas cs) (y : Schema) :
    s.Exact y ↔ ∀ t f field x, s.Registered t → t.embed = false →
      t.resourceFields.get f = some field → field.type = "reference[" ++ x ++ "]" → Plain t x y := by
  have hindexed := Run.exec_invariant_along (fun s _ => Indexed s) indexed_new
    (fun _ _ _ _ _ h hq hs => h.step hq hs) hrun hq
  exact hindexed.exact_iff y

/-- A pod, with a reference to its node. -/
def podSchema (reference : String) : Schema :=
  { schemaOf "pod" "1" with
    resourceFields := (∅ : SortedMap String Field).set "nodeId" { type := reference } }

/-- A node and a pod are registered. -/
def podCalls (reference : String) : List Call :=
  [.AddSchema plainEnv 0 (schemaOf "node" "1"), .AddSchema plainEnv 0 (podSchema reference)]

/-- The registry of a node and a pod. -/
def podPaths (reference : String) : SortedMap String (SortedMap String Schema) :=
  (∅ : SortedMap String (SortedMap String Schema)).set "/v1"
    (((∅ : SortedMap String Schema).set "node" (prepare plainEnv (schemaOf "node" "1"))).set "pod"
      (prepare plainEnv (podSchema reference)))

/-- The reference by id is found. -/
theorem podCalls_exact :
    ∃ s o, Run.exec step NewSchemas (podCalls "reference[node]") = some (s, o)
      ∧ s.Exact (prepare plainEnv (schemaOf "node" "1")) := by
  have hpaths : (Run.exec step NewSchemas (podCalls "reference[node]")).map
      (fun r => r.1.schemasByPath.paths) = some (podPaths "reference[node]") := by
    decide +kernel
  obtain ⟨⟨s, o⟩, hrun, hs⟩ := Option.map_eq_some_iff.1 hpaths
  dsimp only at hs
  refine ⟨s, o, hrun, (references_exact_iff hrun (by decide +kernel) _).2 ?_⟩
  rintro t f field x ⟨path, id, hget⟩ - hf htype
  have hnode : (prepare plainEnv (schemaOf "node" "1")).resourceFields = ∅ := by decide +kernel
  have hpod : (prepare plainEnv (podSchema "reference[node]")).resourceFields
      = (∅ : SortedMap String Field).set "nodeId" { type := "reference[node]" } := by
    decide +kernel
  simp only [ByPath.get, hs, podPaths, SortedMap.get_set] at hget
  split_ifs at hget
  · simp only [Option.bind_some, SortedMap.get_set] at hget
    split_ifs at hget
    · cases hget
      rw [hpod, SortedMap.get_set] at hf
      split_ifs at hf
      · cases hf
        obtain rfl : "node" = x := by
          have h : "reference[" ++ "node" ++ "]" = "reference[" ++ x ++ "]" := htype
          rwa [String.append_left_inj, String.append_right_inj] at h
        exact ⟨by decide +kernel, fun _ _ => by decide, fun _ _ => by decide +kernel⟩
      · simp at hf
    · cases hget
      rw [hnode] at hf
      simp at hf
    · simp at hget
  · simp at hget

/-- The reference by full name is not found. -/
theorem full_name_lost :
    ∃ s o, Run.exec step NewSchemas (podCalls "reference[/v1/schemas/node]") = some (s, o)
      ∧ s.Registered (prepare plainEnv (schemaOf "node" "1"))
      ∧ s.Registered (prepare plainEnv (podSchema "reference[/v1/schemas/node]"))
      ∧ s.References (prepare plainEnv (schemaOf "node" "1")) = []
      ∧ ¬ s.Exact (prepare plainEnv (schemaOf "node" "1")) := by
  have hdone : (Run.exec step NewSchemas (podCalls "reference[/v1/schemas/node]")).map
      (fun r => (r.1.schemasByPath.get "/v1" "node", r.1.schemasByPath.get "/v1" "pod",
        r.1.References (prepare plainEnv (schemaOf "node" "1"))))
      = some (some (prepare plainEnv (schemaOf "node" "1")),
          some (prepare plainEnv (podSchema "reference[/v1/schemas/node]")), []) := by
    decide +kernel
  obtain ⟨⟨s, o⟩, hrun, hs⟩ := Option.map_eq_some_iff.1 hdone
  simp only [Prod.mk.injEq] at hs
  refine ⟨s, o, hrun, ⟨_, _, hs.1⟩, ⟨_, _, hs.2.1⟩, hs.2.2, fun hex => ?_⟩
  have hmem := (hex.mem ⟨"nodeId", prepare plainEnv (podSchema "reference[/v1/schemas/node]")⟩).2
    ⟨⟨_, _, hs.2.1⟩, by decide +kernel, { type := "reference[/v1/schemas/node]" }, "/v1/schemas/node",
      by decide +kernel, by decide +kernel, .inr (by decide +kernel)⟩
  rw [hs.2.2] at hmem
  cases hmem

end Run

end Schemas

end Norman.Types
