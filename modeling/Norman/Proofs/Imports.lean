import Mathlib.Data.Fintype.Card
import Mathlib.Logic.Relation
import Norman.Proofs.SchemaViews
import Norman.Reflection

/-!
# What an import does

An import comes to an end, because it goes into no type that is under way and types do not embed
each other in a circle. What it does to the registry is to register schemas one by one, each with a
mapper whose tables have what was registered by then (`Looked`). So a property of the registry holds
after an import if registering a schema keeps it; and a property of the types of fields holds of all
fields if it holds of what `determineSchemaType` gives (`Rule`). Both are proved here once, for any
two such properties.
-/

namespace Norman.Types

section Places

variable {e : Env} {s : Schemas} {version : APIVersion} {name : String} {p : Place}

/-- The place of a name in a version, as `doSchema` has it. -/
def resolve (version : APIVersion) (name : String) : Place :=
  (splitName name).getD (version.path, name)

/-- A schema is registered at this place. -/
def Schemas.Has (s : Schemas) (p : Place) : Prop := (s.schemasByPath.get p.1 p.2).isSome

/-- The schemas that match a name up to case. -/
def Schemas.matching (env : Env) (s : Schemas) (p : Place) : List Schema :=
  (((s.schemasByPath.paths.get p.1).getD ∅).entries.map Prod.snd).filter fun check =>
    env.equalFold check.id p.2 || env.equalFold check.pluralName p.2

theorem mem_matching {x : Schema} : x ∈ s.matching e p ↔ ∃ id, s.schemasByPath.get p.1 id = some x
    ∧ (e.equalFold x.id p.2 || e.equalFold x.pluralName p.2) = true := by
  simp only [Schemas.matching, List.mem_filter, List.mem_map, Prod.exists, exists_eq_right,
    SortedMap.mem_entries, ByPath.get]
  rcases s.schemasByPath.paths.get p.1 with _ | m <;> simp

theorem doSchema_eq (env : Env) (s : Schemas) (version : APIVersion) (name : String) :
    s.doSchema env (some version) name
      = (s.schemasByPath.get (resolve version name).1 (resolve version name).2).or
          (env.pick (s.matching env (resolve version name))) := by
  have hpick : env.pick [] = none := by
    rcases h : env.pick [] with _ | x
    · rfl
    · exact absurd (env.pick_mem h) (List.not_mem_nil)
  unfold Schemas.matching resolve
  rcases hs : splitName name with _ | p <;>
    · unfold Schemas.doSchema
      simp only [hs, Option.getD_none, Option.getD_some, ByPath.get]
      split
      · rename_i hm
        simp only [hm, Option.bind_none, Option.getD_none, Option.none_or]
        exact hpick.symm
      · rename_i m hm
        simp only [hm, Option.bind_some, Option.getD_some]
        split
        · rename_i y hy
          rw [hy, Option.some_or]
        · rename_i hy
          rw [hy, Option.none_or]

theorem doSchema_has {x : Schema} (h : s.doSchema e (some version) name = some x) :
    s.Has (x.version.path, x.id) ∧ x.version.path = (resolve version name).1 := by
  have hget : ∃ id, s.schemasByPath.get (resolve version name).1 id = some x := by
    rw [doSchema_eq] at h
    rcases Option.or_eq_some_iff.1 h with h | ⟨-, h⟩
    · exact ⟨_, h⟩
    · obtain ⟨id, hid, -⟩ := mem_matching.1 (e.pick_mem h)
      exact ⟨id, hid⟩
  obtain ⟨id, hid⟩ := hget
  obtain ⟨m, hm, hx⟩ := Option.bind_eq_some_iff.1 hid
  obtain ⟨hpath, rfl⟩ := s.schemasByPath.filed hm hx
  exact ⟨by rw [Schemas.Has, hpath, hid, Option.isSome_some], hpath⟩

theorem placeOf_has (h : s.placeOf e version name = some p) : s.Has p := by
  obtain ⟨x, hx, rfl⟩ := Option.map_eq_some_iff.1 h
  exact (doSchema_has hx).1

theorem placeOf_resolve (h : s.Has (resolve version name)) :
    s.placeOf e version name = some (resolve version name) := by
  obtain ⟨x, hx⟩ := Option.isSome_iff_exists.1 h
  obtain ⟨m, hm, hxm⟩ := Option.bind_eq_some_iff.1 hx
  obtain ⟨hpath, hid⟩ := s.schemasByPath.filed hm hxm
  have hdo : s.doSchema e (some version) name = some x := by
    rw [doSchema_eq, hx, Option.some_or]
  rw [Schemas.placeOf, hdo, Option.map_some, hpath, hid]

end Places

section Looked

variable {fields : SortedMap String Field}

/-- The table of a mapper for fields that contain their type so. -/
def SubSchemas.table (m : SubSchemas) : Nesting → SortedMap String Place
  | .plain => m.subSchemas
  | .array => m.subArraySchemas
  | .map => m.subMapSchemas

/-- The place of the type of a field. -/
def Imported.placeOf (x : Imported) (field : Field) : Place :=
  resolve x.version (nesting field.type).2

/-- The tables of a mapper have what is registered, and nothing else. -/
structure Looked (has : Place → Prop) (x : Imported) : Prop where
  found : ∀ {f field}, x.internal.get f = some field → has (x.placeOf field) →
    (x.mapper.table (nesting field.type).1).get f = some (x.placeOf field)
  only : ∀ {f field q}, x.internal.get f = some field →
    (x.mapper.table (nesting field.type).1).get f = some q → has q

theorem table_modifySchema {e : Env} {s : Schemas} {root : Bool} {version : APIVersion}
    {id : String} (n : Nesting) :
    (ModifySchema e s root version id fields).table n = subTable e s version fields n := by
  cases n <;> rfl

theorem modifySchema_looked {e : Env} {s : Schemas} {root : Bool} {version : APIVersion}
    {id id' : String} :
    Looked s.Has ⟨version, id, fields, ModifySchema e s root version id' fields⟩ := by
  have hget : ∀ {f field}, fields.get f = some field →
      ((ModifySchema e s root version id' fields).table (nesting field.type).1).get f
        = s.placeOf e version (nesting field.type).2 := by
    intro f field hf
    rw [table_modifySchema, subTable, SortedMap.get_filterMap, hf, Option.bind_some, if_pos rfl]
  constructor
  · intro f field hf hhas
    exact (hget hf).trans (placeOf_resolve hhas)
  · intro f field q hf hq
    exact placeOf_has ((hget hf).symm.trans hq)

end Looked

section References

variable {T : Type} (env : ImportEnv) (prog : Program T)

/-- The struct types in a type. -/
def GoType.structs : GoType T → List T
  | .map elem => elem.structs
  | .slice elem => elem.structs
  | .ptr elem => elem.structs
  | .struct t => [t]
  | _ => []

/-- The fields of a type are read as those of another. -/
def Embeds (t u : T) : Prop :=
  ∃ field ∈ (prog.struct t).fields, field.pkgPath = "" ∧ jsonName field ≠ "-"
    ∧ field.anonymous ∧ jsonName field = "" ∧ field.type.deRef = .struct u

/-- A type has a field whose type is found by importing another. -/
def Refers (t u : T) : Prop :=
  ∃ field ∈ (prog.struct t).fields, field.pkgPath = "" ∧ jsonName field ≠ "-"
    ∧ ¬ (field.anonymous ∧ jsonName field = "") ∧ fieldName env field ∉ blacklistNames
    ∧ (∃ f, applyTag env field (newField field) = .ok f ∧ f.type = "") ∧ u ∈ field.type.structs

/-- The types a field can have that is no struct. -/
def basicTypes : List String :=
  ["byte", "boolean", "int", "float", "json", "base64", "string", "date", "intOrString"]

theorem structs_deRef (type : GoType T) : type.deRef.structs = type.structs := by
  cases type <;> rfl

/-- How a property `I` of the registry is kept by an import, and with it a property `B` of the types
of fields. `C` is what is known of the types under way where the fields of a type are read. -/
structure Rule (I : (Place → Prop) → List Imported → Prop)
    (B : APIVersion → (Place → Prop) → String → Prop) (C : List T → T → Prop) : Prop where
  register : ∀ {has l} {x : Imported} {t}, I has l → ¬ has x.place →
    x.id = getTypeName env prog t → Looked has x →
    (∀ {f field}, x.internal.get f = some field → B x.version has field.type) →
    I (fun p => has p ∨ p = x.place) (l ++ [x])
  grows : ∀ {v} {has has' : Place → Prop} {type}, B v has type → (∀ p, has p → has' p) →
    B v has' type
  basic : ∀ {v has type}, type ∈ basicTypes → B v has type
  array : ∀ {v has type}, B v has type → B v has ("array[" ++ type ++ "]")
  map : ∀ {v has type}, B v has type → B v has ("map[" ++ type ++ "]")
  tag : ∀ {v has t} {field : StructField T} {f : Field}, field ∈ (prog.struct t).fields →
    applyTag env field (newField field) = .ok f → f.type ≠ "" → B v has f.type
  found : ∀ {v has l t id}, I has l → has ((resolve v (getTypeName env prog t)).1, id) → B v has id
  back : ∀ {v has P t u}, C P t → Refers env prog t u → u ∈ P →
    B v has (getTypeName env prog u)
  enter : ∀ {P t u}, C P t → Refers env prog t u → u ∉ P → C (u :: P) u
  embed : ∀ {P t u}, C P t → Embeds prog t u → C P u
  root : ∀ t, C [t] t
  override : ∀ t, C [] t

end References

section Specs

open Fallible

variable {T : Type} {env : ImportEnv} {prog : Program T}
  {I : (Place → Prop) → List Imported → Prop} {B : APIVersion → (Place → Prop) → String → Prop}
  {C : List T → T → Prop} {P : List T} {v : APIVersion} {n : String}

/-- The registry is as it should be, and these types are under way. -/
def Good (I : (Place → Prop) → List Imported → Prop) (P : List T) (st : Importing T) : Prop :=
  I st.schemas.Has st.imported ∧ st.processingTypes = P

/-- What an import does to the state, whether it fails or not. -/
structure Upholds (I : (Place → Prop) → List Imported → Prop) (st st' : Importing T) : Prop where
  keeps : I st.schemas.Has st.imported → I st'.schemas.Has st'.imported
  processing : st'.processingTypes = st.processingTypes
  grows : ∀ p, st.schemas.Has p → st'.schemas.Has p

theorem Upholds.refl (st : Importing T) : Upholds I st st := ⟨id, rfl, fun _ h => h⟩

theorem Upholds.trans {st st' st'' : Importing T} (h : Upholds I st st') (h' : Upholds I st' st'') :
    Upholds I st st'' :=
  ⟨fun hi => h'.keeps (h.keeps hi), h'.processing.trans h.processing,
    fun p hp => h'.grows p (h.grows p hp)⟩

theorem Upholds.good {st st' : Importing T} (h : Upholds I st st') (hg : Good I P st) :
    Good I P st' :=
  ⟨h.keeps hg.1, h.processing.trans hg.2⟩

/-- A computation of the import comes to an end, with the types `P` under way. -/
def Does (I : (Place → Prop) → List Imported → Prop) (P : List T) {α : Type}
    (pre : Importing T → Prop) (m : ImportM T α) (post : α → Importing T → Prop) : Prop :=
  Spec (Upholds I) (fun st => Good I P st ∧ pre st) m fun a st => Good I P st ∧ post a st

section Rules

variable {α β : Type} {m : ImportM T α} {f : α → ImportM T β} {pre pre' : Importing T → Prop}
  {post post' : α → Importing T → Prop} {post₂ : β → Importing T → Prop}

theorem Does.of_spec (h : Spec (Upholds I) (fun st => Good I P st ∧ pre st) m post) :
    Does I P pre m post := by
  intro st hst
  obtain ⟨r, st', hm, hr, ha⟩ := h st hst
  exact ⟨r, st', hm, hr, fun a har => ⟨hr.good hst.1, ha a har⟩⟩

theorem Does.weaken (h : Does I P pre m post) (hpre : ∀ st, pre' st → pre st)
    (hpost : ∀ a st, post a st → post' a st) : Does I P pre' m post' :=
  Spec.weaken h (fun st hs => ⟨hs.1, hpre st hs.2⟩) fun a st hs => ⟨hs.1, hpost a st hs.2⟩

theorem Does.bind (h : Does I P pre m post) (hf : ∀ a, Does I P (post a) (f a) post₂) :
    Does I P pre (m >>= f) post₂ :=
  Spec.bind Upholds.trans h hf

theorem does_pure {a : α} (h : ∀ st, Good I P st → pre st → post a st) :
    Does I P pre (pure a) post :=
  spec_pure Upholds.refl fun st hst => ⟨hst.1, h st hst.1 hst.2⟩

theorem does_fail (e : ImportErr) : Does I P pre (fail e : ImportM T α) post :=
  spec_fail Upholds.refl e

/-- What the precondition says apart from the state may be assumed. -/
theorem Does.assume {φ : Prop} (hφ : ∀ st, pre st → φ) (h : φ → Does I P pre m post) :
    Does I P pre m post := fun st hst => h (hφ st hst.2) st hst

theorem does_read_bind {f : Importing T → ImportM T β}
    (h : ∀ a, Good I P a → pre a → Does I P (fun st => st = a) (f a) post₂) :
    Does I P pre (read >>= f) post₂ :=
  spec_read_bind fun a ha => Spec.weaken (h a ha.1 ha.2) (fun _ hs => ⟨hs.2.1, hs.1⟩) fun _ _ h => h

theorem does_ofExcept_bind {r : Except ImportErr α}
    (h : ∀ a, r = .ok a → Does I P pre (f a) post₂) : Does I P pre (ofExcept r >>= f) post₂ :=
  spec_ofExcept_bind Upholds.refl h

theorem Does.frame (h : Does I P pre m post) (F : Importing T → Prop)
    (hF : ∀ {st st'}, Upholds I st st' → F st → F st') :
    Does I P (fun st => pre st ∧ F st) m fun a st => post a st ∧ F st :=
  Spec.weaken (Spec.frame h fun _ _ => hF) (fun _ hst => ⟨⟨hst.1, hst.2.1⟩, hst.2.2⟩)
    fun _ _ h => ⟨h.1.1, h.1.2, h.2⟩

theorem does_foldlM {γ : Type} {step : α → γ → ImportM T α} (post : α → Importing T → Prop)
    (l : List γ) (a : α) (h : ∀ a, ∀ x ∈ l, Does I P (post a) (step a x) post) :
    Does I P (post a) (l.foldlM step a) post :=
  spec_foldlM Upholds.refl Upholds.trans l a h

end Rules

/-- The type of a field is the property `B` has of it. -/
theorem determineSchemaType_does (rule : Rule env prog I B C)
    {importType : T → ImportM T (Option String)} {type : GoType T}
    (himport : ∀ t ∈ type.structs, Does I P (fun _ => True) (importType t)
      fun id st => ∀ n, id = some n → B v st.schemas.Has n) :
    Does I P (fun _ => True) (determineSchemaType prog importType type)
      fun type st => B v st.schemas.Has type := by
  have hbasic : ∀ {type : String}, type ∈ basicTypes → Does I P (fun _ => True)
      (pure type : ImportM T String) fun type st => B v st.schemas.Has type :=
    fun htype => does_pure fun _ _ _ => rule.basic htype
  have hslice : ∀ {type : String} {st : Importing T}, B v st.schemas.Has type →
      B v st.schemas.Has (sliceType type) := by
    intro type st h
    unfold sliceType
    split_ifs
    · exact rule.basic (by simp [basicTypes])
    · exact rule.array h
  fun_induction determineSchemaType prog importType type with
  | case1 | case2 | case3 | case4 | case5 | case10 => exact hbasic (by simp [basicTypes])
  | case6 elem ih =>
    exact (ih himport).bind fun a => does_pure fun _ _ h => rule.map h
  | case7 elem _ ih =>
    exact (ih himport).bind fun a => does_pure fun _ _ h => rule.map h
  | case8 elem ih =>
    exact (ih himport).bind fun a => does_pure fun _ _ h => hslice h
  | case9 elem _ ih =>
    exact (ih himport).bind fun a => does_pure fun _ _ h => hslice h
  | case11 | case12 | case13 => exact hbasic (by simp [basicTypes])
  | case14 t =>
    refine (himport t (by simp [GoType.structs])).bind fun id => ?_
    cases id with
    | some id => exact does_pure fun _ _ h => h id rfl
    | none => exact does_fail _
  | case15 | case16 => exact does_fail _

section Fields

variable {importType : APIVersion → T → ImportM T (Option String)}

/-- A schema of this version and id, whose fields have types of which `B` holds. -/
def Fine (B : APIVersion → (Place → Prop) → String → Prop) (v : APIVersion) (n : String)
    (schema : Schema) (st : Importing T) : Prop :=
  schema.version = v ∧ schema.id = n ∧ schema.embed = false
    ∧ ∀ f field, schema.resourceFields.get f = some field → B v st.schemas.Has field.type

theorem Fine.upholds (rule : Rule env prog I B C) {schema : Schema} {st st' : Importing T}
    (h : Upholds I st st') (hfine : Fine B v n schema st) : Fine B v n schema st' :=
  ⟨hfine.1, hfine.2.1, hfine.2.2.1, fun f field hf => rule.grows (hfine.2.2.2 f field hf) h.grows⟩

theorem type_convertDefault {field field' : Field} (h : convertDefault env field = .ok field') :
    field'.type = field.type := by
  unfold convertDefault at h
  split_ifs at h
  · cases h
    rfl
  · split at h
    · split at h <;> cases h
      rfl
    · split at h <;> cases h
      rfl
    · cases h
      rfl
    · cases h
      rfl

theorem readType_does (rule : Rule env prog I B C) {t : T}
    (himport : ∀ u, Refers env prog t u → Does I P (fun _ => True) (importType v u)
      fun id st => ∀ n, id = some n → B v st.schemas.Has n)
    {field : StructField T} (hfield : field ∈ (prog.struct t).fields) (hpkg : field.pkgPath = "")
    (hjson : jsonName field ≠ "-") (hembed : ¬ (field.anonymous ∧ jsonName field = ""))
    (hblack : fieldName env field ∉ blacklistNames) {f : Field}
    (hf : applyTag env field (newField field) = .ok f) (name : String) :
    Does I P (fun _ => True) (readType env prog importType name v field f)
      fun type st => B v st.schemas.Has type := by
  unfold readType
  split_ifs with htype
  · refine Spec.wrap (determineSchemaType_does rule fun u hu => ?_) _
    rw [structs_deRef] at hu
    exact himport u ⟨field, hfield, hpkg, hjson, hembed, hblack, ⟨f, hf, htype⟩, hu⟩
  · exact does_pure fun _ _ _ => rule.tag hfield hf htype

theorem readField_does [DecidableEq T] (rule : Rule env prog I B C) {t : T}
    {readFields : Schema → T → ImportM T Schema} {name : String}
    (hread : ∀ u, Embeds prog t u → ∀ schema, Does I P (Fine B v n schema) (readFields schema u)
      (Fine B v n))
    (himport : ∀ u, Refers env prog t u → Does I P (fun _ => True) (importType v u)
      fun id st => ∀ n, id = some n → B v st.schemas.Has n)
    {field : StructField T} (hfield : field ∈ (prog.struct t).fields) (r : Reading) :
    Does I P (Fine B v n r.schema) (readField env prog readFields importType name r field)
      fun r' => Fine B v n r'.schema := by
  refine Does.assume (fun _ h => h.1) fun hv => ?_
  unfold readField
  split_ifs with hskip hembed hblack
  · exact does_pure fun _ _ h => h
  · split
    · rename_i u hu
      rw [not_or, not_not] at hskip
      refine (hread u ⟨field, hfield, hskip.1, hskip.2, hembed.1, hembed.2, hu⟩ _).weaken
        (fun st h => ?_) (fun _ _ h => h) |>.bind fun schema => does_pure fun _ _ h => h
      split_ifs
      · exact h
      · exact h
    · exact does_pure fun _ _ h => h
  · exact does_pure fun _ _ h => h
  · rw [not_or, not_not] at hskip
    refine does_ofExcept_bind fun f hf => ?_
    have htype := readType_does rule himport hfield hskip.1 hskip.2 hembed hblack hf name
    subst hv
    have hframe := htype.frame (Fine B r.schema.version n r.schema) (Fine.upholds rule)
    refine (hframe.weaken (fun _ h => ⟨trivial, h⟩) fun _ _ h => h).bind fun type =>
      does_ofExcept_bind fun f' hf' => does_pure fun st _ h => ?_
    obtain ⟨htype, hversion, hid, hembed, hfields⟩ := h
    refine ⟨hversion, hid, hembed, fun g field' hg => ?_⟩
    rw [SortedMap.get_set] at hg
    split_ifs at hg
    · cases hg
      rwa [type_convertDefault hf']
    · exact hfields g field' hg

end Fields

section Register

variable {schema : Schema}

/-- A schema of this version and id that is not embedded. -/
def Named (v : APIVersion) (n : String) (schema : Schema) : Prop :=
  schema.version = v ∧ schema.id = n ∧ schema.embed = false

/-- The hook leaves the name of a schema alone. -/
def HookKeepsNames (e : Env) : Prop :=
  ∀ hook, e.addHook = some hook → ∀ x : Schema,
    (hook x).version = x.version ∧ (hook x).id = x.id ∧ (hook x).embed = x.embed

theorem Named.prepare {e : Env} (hhook : HookKeepsNames e)
    (h : Named v n schema) : Named v n (prepare e schema) := by
  have hdefaults : Named v n (setupDefaults e schema).1 := by
    unfold setupDefaults
    simp only []
    split_ifs <;> exact h
  unfold Types.prepare
  split
  · exact hdefaults
  · rename_i hook hh
    obtain ⟨h1, h2, h3⟩ := hhook hook hh (setupDefaults e schema).1
    exact ⟨h1.trans hdefaults.1, h2.trans hdefaults.2.1, h3.trans hdefaults.2.2⟩

theorem Named.setupFilters (h : Named v n schema) : Named v n (setupFilters schema) := by
  unfold Types.setupFilters
  split_ifs <;> exact h

theorem runMappers_does {has : Place → Prop} (mappers : List (Mapper T)) (internal : Option Schema)
    (schema : Schema) :
    Does I P (fun st => Named v n schema ∧ st.schemas.Has = has)
      (runMappers mappers internal schema)
      fun schema st => Named v n schema ∧ st.schemas.Has = has := by
  refine does_foldlM (fun schema st => Named v n schema ∧ st.schemas.Has = has) mappers schema
    fun schema mapper _ => Does.of_spec ?_
  rintro st ⟨hgood, hname, hhas⟩
  have hsame : (mapper.modifySchema schema internal st).2.Has = st.schemas.Has := by
    funext p
    exact congrArg (· = true) (mapper.keeps_places schema internal st p.1 p.2)
  refine ⟨_, _, rfl, ⟨fun hi => ?_, rfl, fun p hp => ?_⟩, fun a ha => ?_⟩
  · rw [hsame]
    exact hi
  · rw [hsame]
    exact hp
  · rcases hr : (mapper.modifySchema schema internal st).1 with e | schema'
    · rw [hr] at ha
      cases ha
    · rw [hr] at ha
      cases ha
      obtain ⟨h1, h2, h3⟩ := mapper.keeps_schema hr
      exact ⟨⟨h2.trans hname.1, h1.trans hname.2.1, h3.trans hname.2.2⟩, hsame.trans hhas⟩

theorem has_store {s : Schemas} :
    (s.store schema false).Has = fun p => s.Has p ∨ p = (schema.version.path, schema.id) := by
  funext p
  have hplace : p = (schema.version.path, schema.id)
      ↔ p.1 = schema.version.path ∧ p.2 = schema.id := Prod.ext_iff
  refine propext ?_
  rcases hstores : s.stores schema false with _ | _
  · have hhas : s.Has (schema.version.path, schema.id) := by
      unfold Schemas.stores at hstores
      split at hstores
      · cases hstores
      · rename_i old hold
        simp only [Schemas.Has, hold, Option.isSome_some]
    simp only [Schemas.Has, Schemas.store, hstores, Bool.false_eq_true, if_false]
    refine ⟨.inl, fun h => h.elim id ?_⟩
    rintro rfl
    exact hhas
  · simp only [Schemas.Has, Schemas.store, hstores, if_true, ByPath.get_put, hplace]
    split_ifs with hp
    · simp [hp]
    · simp [hp]

theorem stores_iff {s : Schemas} :
    s.stores schema false = true ↔ ¬ s.Has (schema.version.path, schema.id) := by
  unfold Schemas.stores Schemas.Has
  simp only []
  split
  · rename_i h
    simp [h]
  · rename_i h
    simp [h]

/-- A schema that is registered is registered with its mapper, unless its place is taken. -/
theorem addSchema_does (rule : Rule env prog I B C) (hhook : HookKeepsNames env.toEnv) {fuel : ℕ}
    {x : Imported} {t : T} (hname : Named v (getTypeName env prog t) schema)
    (hversion : x.version = v) (hid : x.id = getTypeName env prog t) :
    Does I P (fun st => Looked st.schemas.Has x
        ∧ ∀ f field, x.internal.get f = some field → B v st.schemas.Has field.type)
      (addSchema env fuel x.internal x.mapper schema) fun _ _ => True := by
  refine Does.of_spec ?_
  rintro st ⟨hgood, hlooked, hfields⟩
  obtain ⟨hv, hn, he⟩ := hname.prepare hhook
  have hx : (⟨(prepare env.toEnv schema).version, (prepare env.toEnv schema).id, x.internal,
      x.mapper⟩ : Imported) = x := by
    obtain ⟨version, id, internal, mapper⟩ := x
    rw [hv, hn, ← hversion, ← hid]
  have hplace : ((prepare env.toEnv schema).version.path, (prepare env.toEnv schema).id)
      = x.place := by
    rw [Imported.place, hv, hn, hversion, hid]
  obtain ⟨s', hadd, hhas⟩ : ∃ s',
      Schemas.doAddSchema env.toEnv fuel st.schemas schema false = some s'
        ∧ s'.Has = fun p => st.schemas.Has p ∨ p = x.place := by
    refine ⟨_, Schemas.doAddSchema_eq fuel (by simp [he]), ?_⟩
    rw [Schemas.stored, has_store, hplace]
    rfl
  refine ⟨.ok (), { st with
      schemas := s'
      imported := if st.schemas.stores (prepare env.toEnv schema) false then st.imported ++ [x]
        else st.imported }, by simp only [addSchema, hadd, Option.map_some, hx],
    ⟨fun hi => ?_, rfl, fun p hp => ?_⟩, fun _ _ => trivial⟩
  · simp only [hhas]
    by_cases htaken : st.schemas.Has x.place
    · have hold : (fun p => st.schemas.Has p ∨ p = x.place) = st.schemas.Has := by
        funext p
        refine propext ⟨fun h => h.elim id ?_, .inl⟩
        rintro rfl
        exact htaken
      rw [hold, if_neg (by rw [stores_iff, hplace, not_not]; exact htaken)]
      exact hi
    · rw [if_pos (stores_iff.2 (by rw [hplace]; exact htaken))]
      refine rule.register hi htaken hid hlooked fun hf => ?_
      rw [hversion]
      exact hfields _ _ hf
  · simp only [hhas]
    exact .inl hp

theorem register_does (rule : Rule env prog I B C) (hhook : HookKeepsNames env.toEnv) {t : T}
    {fuel : ℕ} {mappers : List (Mapper T)} {internal : Option Schema} :
    Does I P (fun st => Fine B v (getTypeName env prog t) schema st
        ∧ ∀ copy, internal = some copy → Fine B v (getTypeName env prog t) copy st)
      (register env fuel mappers internal schema)
      fun id st => ∀ n, id = some n → B v st.schemas.Has n := by
  unfold register
  refine does_read_bind fun st hst hfine => ?_
  obtain ⟨⟨hv, hn, hembed, hown⟩, hcopy⟩ := hfine
  have hfields : ∀ f field, (internal.getD schema).resourceFields.get f = some field →
      B v st.schemas.Has field.type := by
    rcases internal with _ | copy
    · exact hown
    · exact (hcopy copy rfl).2.2.2
  have hmappers : Does I P (fun st' => st' = st) (runMappers mappers internal schema)
      fun schema st' => Named v (getTypeName env prog t) schema
        ∧ st'.schemas.Has = st.schemas.Has :=
    (runMappers_does mappers internal schema).weaken
      (fun st' h => ⟨⟨hv, hn, hembed⟩, by rw [h]⟩) fun _ _ h => h
  refine hmappers.bind fun schema' => Does.assume (fun _ h => h.1) fun hname => ?_
  have hadd : Does I P (fun st' => st'.schemas.Has = st.schemas.Has)
      (addSchema env fuel (internal.getD schema).resourceFields (ModifySchema env.toEnv st.schemas
        schema.CanList schema.version schema.id (internal.getD schema).resourceFields)
        (setupFilters schema')) fun _ _ => True := by
    subst hv
    have hlooked : Looked st.schemas.Has ⟨schema.version, getTypeName env prog t,
        (internal.getD schema).resourceFields, ModifySchema env.toEnv st.schemas schema.CanList
          schema.version schema.id (internal.getD schema).resourceFields⟩ := modifySchema_looked
    refine (addSchema_does rule hhook hname.setupFilters (x := ⟨schema.version, _, _, _⟩) rfl
      rfl).weaken (fun st' h => ?_) fun _ _ h => h
    rw [h]
    exact ⟨hlooked, hfields⟩
  refine (hadd.weaken (fun _ h => h.2) fun _ _ h => h).bind fun _ => ?_
  refine does_read_bind fun st₂ hst₂ _ => ?_
  split_ifs
  · refine does_pure fun st₃ hgood h m hm => ?_
    obtain ⟨x, hx, rfl⟩ := Option.map_eq_some_iff.1 hm
    obtain ⟨hhas, hpath⟩ := doSchema_has hx
    rw [hpath, hname.1, hname.2.1] at hhas
    rw [h]
    exact rule.found hst₂.1 hhas
  · exact does_fail _

end Register

section Recursion

theorem internalSchema_does {mappers : List (Mapper T)} {newSchema : ImportM T Schema}
    (hnew : Does I P (fun _ => True) newSchema (Fine B v n)) :
    Does I P (fun _ => True) (internalSchema mappers newSchema)
      fun internal st => ∀ schema, internal = some schema → Fine B v n schema st := by
  unfold internalSchema
  split_ifs
  · exact does_pure fun _ _ _ schema h => by cases h
  · refine hnew.bind fun copy => does_pure fun st _ h schema heq => ?_
    cases heq
    exact h

variable [DecidableEq T] {t : T} {table : MapperTable T} {fuel : ℕ}

theorem newSchemaFromType_does {readFields : Schema → T → ImportM T Schema} (ht : t ∉ P)
    (hread : ∀ schema, Does I (t :: P) (Fine B v n schema) (readFields schema t) (Fine B v n)) :
    Does I P (fun _ => True) (newSchemaFromType prog readFields v t n) (Fine B v n) := by
  refine Does.of_spec ?_
  rintro st ⟨hgood, -⟩
  obtain ⟨r, st', hm, hr, ha⟩ := hread (newSchema prog v t n)
    { st with processingTypes := t :: st.processingTypes }
    ⟨⟨hgood.1, by rw [hgood.2]⟩, rfl, rfl, rfl, fun f field h => by simp [newSchema] at h⟩
  refine ⟨r, { st' with processingTypes := st'.processingTypes.filter (· ≠ t) },
    by rw [newSchemaFromType, underWay, hm, Option.map_some], ⟨hr.keeps, ?_, hr.grows⟩,
    fun a har => (ha a har).2⟩
  have hfilter : P.filter (· ≠ t) = P := by
    rw [List.filter_eq_self]
    intro u hu
    simp only [decide_eq_true_eq]
    rintro rfl
    exact ht hu
  simp only [hr.processing, hgood.2, List.filter_cons, ne_eq, not_true_eq_false, decide_false,
    Bool.false_eq_true, if_false]
  exact hfilter

/-- `importType`, when the fields of the type and of the overrides are read as they should. -/
theorem importType_does (rule : Rule env prog I B C) (hhook : HookKeepsNames env.toEnv)
    {overrides : List T} (hback : t ∈ P → ∀ has, B v has (getTypeName env prog t))
    (hread : t ∉ P → ∀ schema, Does I (t :: P) (Fine B v (getTypeName env prog t) schema)
      (readFields env prog table fuel schema t) (Fine B v (getTypeName env prog t)))
    (hover : t ∉ P → ∀ o ∈ overrides, ∀ schema, Does I P (Fine B v (getTypeName env prog t) schema)
      (readFields env prog table fuel schema o) (Fine B v (getTypeName env prog t))) :
    Does I P (fun _ => True) (importType env prog table (fuel + 1) v t overrides)
      fun id st => ∀ n, id = some n → B v st.schemas.Has n := by
  unfold importType
  refine does_read_bind fun st hst _ => ?_
  split
  · rename_i existing hexisting
    refine does_pure fun st' hgood h m hm => ?_
    cases hm
    subst h
    obtain ⟨hhas, hpath⟩ := doSchema_has hexisting
    rw [hpath] at hhas
    exact rule.found hgood.1 hhas
  · split_ifs with ht
    · refine does_pure fun st' _ _ m hm => ?_
      cases hm
      exact hback (hst.2 ▸ ht) _
    · rw [hst.2] at ht
      have hnew : Does I P (fun _ => True)
          (newSchemaFromType prog (readFields env prog table fuel) v t (getTypeName env prog t))
          (Fine B v (getTypeName env prog t)) := newSchemaFromType_does ht (hread ht)
      refine (hnew.weaken (fun _ _ => trivial) fun _ _ h => h).bind fun schema => ?_
      refine ((internalSchema_does hnew).frame (Fine B v (getTypeName env prog t) schema)
        (Fine.upholds rule)).weaken (fun _ h => ⟨trivial, h⟩) (fun _ _ h => h)
        |>.bind fun internal => ?_
      refine (does_foldlM (fun schema st => Fine B v (getTypeName env prog t) schema st
        ∧ ∀ copy, internal = some copy → Fine B v (getTypeName env prog t) copy st) overrides schema
        fun schema o ho => (hover ht o ho schema).frame _ fun hup h copy hcopy =>
          Fine.upholds rule hup (h copy hcopy)).weaken (fun _ h => h.symm) (fun _ _ h => h)
        |>.bind fun schema => ?_
      exact register_does rule hhook

theorem readFields_does (rule : Rule env prog I B C)
    (hread : ∀ u, Embeds prog t u → ∀ schema, Does I P (Fine B v n schema)
      (readFields env prog table fuel schema u) (Fine B v n))
    (himport : ∀ u, Refers env prog t u → Does I P (fun _ => True)
      (importType env prog table fuel v u []) fun id st => ∀ n, id = some n → B v st.schemas.Has n)
    (schema : Schema) :
    Does I P (Fine B v n schema) (readFields env prog table (fuel + 1) schema t) (Fine B v n) := by
  unfold readFields
  refine ((does_foldlM (fun r => Fine B v n r.schema) _ _ fun r field hfield =>
    readField_does rule hread himport hfield r).weaken (fun st h => ?_) fun _ _ h => h).bind
      fun r => does_pure fun st _ h => ?_
  · split_ifs
    · exact h
    · exact h
  · split_ifs
    · exact h
    · exact h

/-- Where nothing leads back to itself, each thing can be given a number above those it leads to. -/
theorem exists_rank {α : Type} [Fintype α] {r : α → α → Prop}
    (h : ∀ a, ¬ Relation.TransGen r a a) :
    ∃ rank : α → ℕ, (∀ a, rank a ≤ Fintype.card α) ∧ ∀ a b, r a b → rank b < rank a := by
  classical
  refine ⟨fun a => (Finset.univ.filter (Relation.TransGen r a)).card,
    fun a => Finset.card_le_univ _, fun a b hab => Finset.card_lt_card ?_⟩
  refine ⟨fun c hc => ?_, fun hsub => ?_⟩
  · simp only [Finset.mem_filter, Finset.mem_univ, true_and] at hc ⊢
    exact .head hab hc
  · have hb : b ∈ Finset.univ.filter (Relation.TransGen r b) := hsub (by simpa using .single hab)
    simp only [Finset.mem_filter, Finset.mem_univ, true_and] at hb
    exact h b hb

/-- With enough fuel, the fields of a type are read and a type is imported. -/
theorem import_does [Fintype T] (table : MapperTable T) (rule : Rule env prog I B C)
    (hhook : HookKeepsNames env.toEnv) {rank : T → ℕ} (hrank : ∀ t, rank t ≤ Fintype.card T)
    (hembed : ∀ t u, Embeds prog t u → rank u < rank t) : ∀ (fuel : ℕ) {P : List T}, P.Nodup →
      (∀ {t v n}, C P t → (Fintype.card T - P.length) * (Fintype.card T + 2) + rank t + 2 ≤ fuel →
        ∀ schema, Does I P (Fine B v n schema) (readFields env prog table fuel schema t)
          (Fine B v n))
      ∧ ∀ {t v overrides}, (t ∈ P → ∀ has, B v has (getTypeName env prog t)) →
        (t ∉ P → C (t :: P) t) → (∀ o ∈ overrides, C P o) →
        (Fintype.card T - P.length) * (Fintype.card T + 2) + 1 ≤ fuel →
        (overrides ≠ [] → (Fintype.card T - P.length) * (Fintype.card T + 2) + Fintype.card T + 3
          ≤ fuel) →
        Does I P (fun _ => True) (importType env prog table fuel v t overrides)
          fun id st => ∀ n, id = some n → B v st.schemas.Has n
  | 0, P, _ => ⟨fun _ h => by omega, fun _ _ _ h => by omega⟩
  | fuel + 1, P, hP => by
    have ih := import_does table rule hhook hrank hembed fuel hP
    refine ⟨fun hC hfuel schema => readFields_does rule (fun u hu => ?_) (fun u hu => ?_) schema,
      fun {t v overrides} hback henter hover hfuel hfuel' =>
        importType_does rule hhook hback (fun ht => ?_) fun _ o ho => ?_⟩
    · have := hembed _ u hu
      exact ih.1 (rule.embed hC hu) (by omega)
    · exact ih.2 (fun hin _ => rule.back hC hu hin) (rule.enter hC hu) (by simp) (by omega)
        (by simp)
    · have hnodup : (t :: P).Nodup := List.nodup_cons.2 ⟨ht, hP⟩
      have hlen : P.length + 1 ≤ Fintype.card T := hnodup.length_le_card
      have hstep : (Fintype.card T - P.length) * (Fintype.card T + 2)
          = (Fintype.card T - (P.length + 1)) * (Fintype.card T + 2) + (Fintype.card T + 2) := by
        rw [← Nat.succ_mul]
        congr 1
        omega
      have hr := hrank t
      refine (import_does table rule hhook hrank hembed fuel hnodup).1 (henter ht) ?_
      rw [List.length_cons]
      omega
    · have hr := hrank o
      have := hfuel' (List.ne_nil_of_mem ho)
      exact ih.1 (hover o ho) (by omega)

end Recursion

section Imports

variable [DecidableEq T] [Fintype T]

/-- Imports come to an end if no type embeds itself, and keep what registering a schema keeps. -/
theorem imports_does (rule : Rule env prog I B C) (hhook : HookKeepsNames env.toEnv)
    (hembed : ∀ t, ¬ Relation.TransGen (Embeds prog) t t) {fuel : ℕ}
    (hfuel : Fintype.card T * (Fintype.card T + 2) + Fintype.card T + 3 ≤ fuel) :
    ∀ (calls : List (ImportCall T)) {st : Importing T}, Good I [] st →
      ∃ st', imports env prog fuel calls st = some st' ∧ Good I [] st'
  | [], st, hst => ⟨st, rfl, hst⟩
  | call :: calls, st, hst => by
    obtain ⟨rank, hrank, hless⟩ := exists_rank hembed
    obtain ⟨r, st', hrun, hup, -⟩ := (import_does call.table rule hhook hrank hless fuel
      List.nodup_nil).2 (t := call.type) (v := call.version) (by simp) (fun _ => rule.root _)
      (fun o _ => rule.override o) (by simp; omega) (by simp; omega) st ⟨hst, trivial⟩
    obtain ⟨st'', hrest, hgood⟩ := imports_does rule hhook hembed hfuel calls (hup.good hst)
    refine ⟨st'', ?_, hgood⟩
    rw [imports, Import, hrun]
    exact hrest

end Imports

end Specs

end Norman.Types
