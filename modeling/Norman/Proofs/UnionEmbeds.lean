import Mathlib.Data.List.Nodup
import Norman.Proofs.Embeds

/-!
# Which member of a union an object has

`FromInternal` puts the fields of the member that is there beside it, and does away with the members
themselves. `ToInternal` takes the first member whose check fields are all there, whoever they come
from: the object comes back if and only if its member has check fields, no member before it finds
its own among the fields, and nothing was to be found under another member's name.
-/

namespace Norman.FieldMapper

open Norman.Types

namespace UnionEmbed

open Norman.Convert (IsAPIObjectEmpty)

variable {env : Env} {order : UnionMapping → Order} {schema schema' : Schema} {schemas : Schemas}
  {fields : List UnionMapping} {m : UnionMapping}

/-- The schema of a member. -/
def memberSchema (env : Env) (schemas : Schemas) (schema : Schema) (m : UnionMapping) :
    Option Schema :=
  (schema.resourceFields.get m.FieldName).bind fun field =>
    schemas.doSchema env (some schema.version) field.type

/-- No schema of a member has a field with the name of a member. -/
def Apart (env : Env) (schemas : Schemas) (schema : Schema) (fields : List UnionMapping) : Prop :=
  ∀ m ∈ fields, ∀ m' ∈ fields, ∀ x ∈ memberSchema env schemas schema m,
    x.resourceFields.get m'.FieldName = none

instance : Decidable (Apart env schemas schema fields) :=
  inferInstanceAs (Decidable (∀ m ∈ fields, ∀ m' ∈ fields, ∀ x ∈ memberSchema env schemas schema m,
    x.resourceFields.get m'.FieldName = none))

section Modify

/-- The mapper of a member that is embedded with all fields of its schema. -/
structure Member (x : Schema) (m : UnionMapping) (e : Embed) : Prop where
  field : e.Field = m.FieldName
  names : ∀ k, k ∈ e.embeddedFields ↔ x.resourceFields.get k ≠ none

/-- What `ModifySchema` has done with some of the members. -/
structure Modified (env : Env) (schemas : Schemas) (schema : Schema) (fields done : List UnionMapping)
    (r : SortedMap String Embed × Schema) : Prop where
  version : r.2.version = schema.version
  member : ∀ m ∈ done, ∃ x ∈ memberSchema env schemas schema m, ∃ e ∈ r.1.get m.FieldName,
    Member x m e
  known : ∀ name e, r.1.get name = some e → name ∈ done.map (·.FieldName)
  left : ∀ m ∈ fields, r.2.resourceFields.get m.FieldName
    = if m.FieldName ∈ done.map (·.FieldName) then none
      else schema.resourceFields.get m.FieldName
  nodup : (done.map (·.FieldName)).Nodup

/-- A member of a schema that has its field: `ModifySchema` found its schema. -/
theorem modify_ok {o : Order} {s s' : Schema} {e' : Embed}
    (h : Embed.ModifySchema { Field := m.FieldName, ignoreOverride := true } env o s schemas
      = .ok (e', s')) :
    ∃ field x, s.resourceFields.get m.FieldName = some field
      ∧ schemas.doSchema env (some s.version) field.type = some x := by
  rcases hfield : s.resourceFields.get m.FieldName with _ | field
  · simp [Embed.ModifySchema, ValidateField, hfield] at h
  · rcases hx : schemas.doSchema env (some s.version) field.type with _ | x
    · simp [Embed.ModifySchema, ValidateField, Embed.embeddedSchema, hfield, hx] at h
    · exact ⟨field, x, rfl, hx⟩

theorem Modified.step {done : List UnionMapping} {r r' : SortedMap String Embed × Schema}
    (hapart : Apart env schemas schema fields) (hm : m ∈ fields)
    (h : Modified env schemas schema fields done r)
    (hr : modifyMember env order schemas r m = .ok r') :
    Modified env schemas schema fields (done ++ [m]) r' := by
  simp only [modifyMember] at hr
  split at hr
  · cases hr
  rename_i e s' hmodify
  split at hr
  · cases hr
  cases hr
  obtain ⟨field, x, hfield, hx⟩ := modify_ok hmodify
  -- the member is a new one: the field of an old one is gone
  have hnew : m.FieldName ∉ done.map (·.FieldName) := by
    intro hmem
    rw [h.left m hm, if_pos hmem] at hfield
    cases hfield
  have hown : schema.resourceFields.get m.FieldName = some field := by
    rw [← hfield, h.left m hm, if_neg hnew]
  have hschema : memberSchema env schemas schema m = some x := by
    rw [memberSchema, hown, Option.bind_some, ← h.version, hx]
  obtain ⟨l, hl, rfl, rfl⟩ := Embed.ModifySchema_ok rfl hfield hx hmodify
  have hmem : ∀ k, k ∈ l.embeddedFields ↔ x.resourceFields.get k ≠ none := by
    intro k
    rw [hl.names, List.nil_append]
    exact Embed.mem_order
  have hout : ∀ m' ∈ fields, m'.FieldName ∉
      ((order m).list x.resourceFields).map Prod.fst := fun m' hm' hin =>
    Embed.mem_order.1 hin (hapart m hm m' hm' x hschema)
  refine ⟨h.version, fun m' hm' => ?_, fun name e he => ?_, fun m' hm' => ?_, ?_⟩
  · rcases List.mem_append.1 hm' with hdone | hlast
    · obtain ⟨x', hx', e', he', hmember⟩ := h.member m' hdone
      refine ⟨x', hx', e', ?_, hmember⟩
      rw [Option.mem_def, SortedMap.get_set, if_neg]
      · exact he'
      · rintro heq
        exact hnew (heq ▸ List.mem_map_of_mem hdone)
    · rw [List.mem_singleton.1 hlast]
      exact ⟨x, hschema, _, SortedMap.get_set_self _ _ _, rfl, hmem⟩
  · rw [SortedMap.get_set] at he
    rw [List.map_append, List.mem_append]
    split_ifs at he with hname
    · exact .inr (by simp [hname])
    · exact .inl (h.known name e he)
  · have hdel : l.deleteField = true := hl.deleted.2 ⟨rfl, hout m hm⟩
    simp only [hdel, if_true, SortedMap.get_erase, List.map_append, List.map_singleton,
      List.mem_append, List.mem_singleton]
    by_cases hname : m'.FieldName = m.FieldName
    · simp [hname]
    · rw [if_neg hname, hl.old _ (hout m' hm'), h.left m' hm']
      simp [hname]
  · rw [List.map_append, List.map_singleton, List.nodup_append]
    refine ⟨h.nodup, by simp, fun a ha b hb hab => hnew ?_⟩
    rw [← List.mem_singleton.1 hb, ← hab]
    exact ha

theorem Modified.run (hapart : Apart env schemas schema fields) :
    ∀ {todo done : List UnionMapping} {r r' : SortedMap String Embed × Schema},
      (∀ m ∈ todo, m ∈ fields) → Modified env schemas schema fields done r →
      todo.foldlM (modifyMember env order schemas) r = .ok r' →
      Modified env schemas schema fields (done ++ todo) r'
  | [], done, r, r', _, h, hr => by
    cases hr
    rwa [List.append_nil]
  | m :: todo, done, r, r', hsub, h, hr => by
    obtain ⟨r₁, hr₁, hr⟩ := Gather.bind_eq_ok.1 hr
    have hrun := Modified.run hapart (fun m' hm' => hsub m' (List.mem_cons_of_mem m hm'))
      (h.step hapart (hsub m List.mem_cons_self) hr₁) hr
    rwa [List.append_assoc, List.singleton_append] at hrun

/-- What the mapper of the union is after `ModifySchema`. -/
theorem ModifySchema_modified {u u' : UnionEmbed} (hapart : Apart env schemas schema u.Fields)
    (h : u.ModifySchema env order schema schemas = .ok (u', schema')) :
    u'.Fields = u.Fields ∧ Modified env schemas schema u.Fields u.Fields (u'.embeds, schema') := by
  obtain ⟨r, hr, heq⟩ := Gather.map_eq_ok.1 h
  obtain ⟨rfl, rfl⟩ := Prod.mk.inj heq
  have hstart : Modified env schemas schema u.Fields [] (∅, schema) :=
    ⟨rfl, by simp, by simp, by simp, by simp⟩
  exact ⟨rfl, Modified.run hapart (fun _ hm => hm) hstart hr⟩

end Modify

section Flat

variable {name : String} {sub data : Doc} {e : String × Embed} {l : List (String × Embed)}

/-- Mappers of members, of which the one of this name finds this object and the others find none. -/
structure Members (name : String) (sub : Doc) (l : List (String × Embed)) (data : Doc) : Prop where
  nodup : (l.map Prod.fst).Nodup
  field : ∀ e ∈ l, e.2.Field = e.1
  apart : ∀ e ∈ l, ∀ e' ∈ l, e'.1 ∉ e.2.embeddedFields
  alone : ∀ e ∈ l, e.1 ≠ name → ∀ o, Assoc.get e.1 data ≠ some (.map o)
  object : name ∈ l.map Prod.fst → Assoc.get name data = some (.map sub)

theorem Members.get_head (h : Members name sub (e :: l) data) (k : String) :
    Assoc.get k (e.2.FromInternal data) = if k = e.1 then none
      else if e.1 = name ∧ k ∈ e.2.embeddedFields then (Assoc.get k sub).or (Assoc.get k data)
      else Assoc.get k data := by
  rw [Embed.get_FromInternal, Embed.sub, h.field e List.mem_cons_self]
  by_cases hname : e.1 = name
  · rw [hname, h.object (by simp [hname])]
    simp [Value.toMapInterface]
  · have hsub : (((Assoc.get e.1 data).getD .nil).toMapInterface) = [] := by
      have hno := h.alone e List.mem_cons_self hname
      rcases hv : Assoc.get e.1 data with _ | v
      · rfl
      · cases v with
        | map o => exact absurd hv (hno o)
        | _ => rfl
    simp [hsub, hname]

theorem Members.tail (h : Members name sub (e :: l) data) :
    Members name sub l (e.2.FromInternal data) := by
  have hnd := h.nodup
  rw [List.map_cons, List.nodup_cons] at hnd
  have hkeep : ∀ e' ∈ l, Assoc.get e'.1 (e.2.FromInternal data) = Assoc.get e'.1 data := by
    intro e' he'
    have hne : e'.1 ≠ e.1 := fun heq => hnd.1 (heq ▸ List.mem_map_of_mem he')
    rw [h.get_head, if_neg hne, if_neg]
    exact fun hin => h.apart e List.mem_cons_self e' (List.mem_cons_of_mem e he') hin.2
  refine ⟨hnd.2, fun e' he' => h.field e' (List.mem_cons_of_mem e he'),
    fun e' he' e'' he'' => h.apart e' (List.mem_cons_of_mem e he') e'' (List.mem_cons_of_mem e he''),
    fun e' he' hne o => ?_, fun hmem => ?_⟩
  · rw [hkeep e' he']
    exact h.alone e' (List.mem_cons_of_mem e he') hne o
  · obtain ⟨e', he', rfl⟩ := List.mem_map.1 hmem
    rw [hkeep e' he']
    exact h.object (List.mem_cons_of_mem e.1 hmem)

/-- What `FromInternal` gives, in any order of the members. -/
theorem Members.get (k : String) : ∀ {l : List (String × Embed)} {data : Doc},
    Members name sub l data →
    Assoc.get k (FromInternal l data) = if k ∈ l.map Prod.fst then none
      else if ∃ e ∈ l, e.1 = name ∧ k ∈ e.2.embeddedFields then
        (Assoc.get k sub).or (Assoc.get k data)
      else Assoc.get k data
  | [], data, _ => by simp [FromInternal]
  | e :: l, data, h => by
    have ih := Members.get k h.tail
    rw [h.get_head] at ih
    have hcons : FromInternal (e :: l) data = FromInternal l (e.2.FromInternal data) := rfl
    rw [hcons, ih]
    simp only [List.map_cons, List.mem_cons, exists_eq_or_imp]
    by_cases hk : k ∈ l.map Prod.fst
    · simp [hk]
    rw [if_neg hk]
    by_cases hke : k = e.1
    · -- no member has the name of another one among its fields
      have hno : ¬ ∃ e' ∈ l, e'.1 = name ∧ k ∈ e'.2.embeddedFields := by
        rintro ⟨e', he', -, hin⟩
        exact h.apart e' (List.mem_cons_of_mem e he') e List.mem_cons_self (hke ▸ hin)
      rw [if_neg hno, if_pos hke, if_pos (Or.inl hke)]
    · rw [if_neg (not_or.2 ⟨hke, hk⟩), if_neg hke]
      by_cases hhead : e.1 = name ∧ k ∈ e.2.embeddedFields
      · have hno : ¬ ∃ e' ∈ l, e'.1 = name ∧ k ∈ e'.2.embeddedFields := by
          rintro ⟨e', he', hname, -⟩
          refine (List.nodup_cons.1 h.nodup).1 ?_
          rw [hhead.1, ← hname]
          exact List.mem_map_of_mem he'
        rw [if_neg hno, if_pos hhead, if_pos (Or.inl hhead)]
      · simp only [hhead, if_false, false_or]

theorem sorted_members : ∀ {l : List (String × Embed)} {data : Doc}, Assoc.Sorted data →
    Assoc.Sorted (FromInternal l data)
  | [], _, h => h
  | e :: l, data, h => by
    rw [FromInternal, List.foldl_cons]
    exact sorted_members (Embed.sorted_FromInternal h)

end Flat

section Back

variable {u u' : UnionEmbed} {before after : List UnionMapping} {data sub : Doc}
  {r : SortedMap String Embed × Schema} {l : List (String × Embed)}

/-- The check fields of a member are all there, among the fields of the object and those beside it;
and there are some. -/
def Passes (fields : List UnionMapping) (data sub : Doc) (m : UnionMapping) : Prop :=
  m.CheckFields ≠ [] ∧ ∀ check ∈ m.CheckFields, (∀ m' ∈ fields, check ≠ m'.FieldName)
    ∧ ∃ v ∈ (Assoc.get check sub).or (Assoc.get check data), IsAPIObjectEmpty v = false

theorem Modified.entry (h : Modified env schemas schema fields fields r) {e : String × Embed}
    (he : r.1.get e.1 = some e.2) :
    ∃ m ∈ fields, ∃ x ∈ memberSchema env schemas schema m, e.1 = m.FieldName ∧ Member x m e.2 := by
  obtain ⟨m, hm, hname⟩ := List.mem_map.1 (h.known e.1 e.2 he)
  obtain ⟨x, hx, e', he', hmember⟩ := h.member m hm
  have heq : e' = e.2 := by
    rw [Option.mem_def, hname, he] at he'
    exact (Option.some.inj he').symm
  exact ⟨m, hm, x, hx, hname.symm, heq ▸ hmember⟩

/-- An object of which one member is there, as `FromInternal` finds it. -/
structure Given (env : Env) (schemas : Schemas) (schema : Schema) (fields : List UnionMapping)
    (m : UnionMapping) (data sub : Doc) : Prop where
  get : Assoc.get m.FieldName data = some (.map sub)
  one : ∀ m' ∈ fields, m'.FieldName ≠ m.FieldName → ∀ o,
    Assoc.get m'.FieldName data ≠ some (.map o)
  check : ∀ check ∈ m.CheckFields, ∃ v ∈ Assoc.get check sub, IsAPIObjectEmpty v = false
  only : ∀ k, Assoc.get k sub ≠ none → ∀ x ∈ memberSchema env schemas schema m,
    x.resourceFields.get k ≠ none
  other : ∀ k, Assoc.get k data ≠ none → (∀ m' ∈ fields, k ≠ m'.FieldName) →
    ∀ m' ∈ fields, ∀ x ∈ memberSchema env schemas schema m', x.resourceFields.get k = none

/-- What `FromInternal` gives: the members are gone, and the fields of one are there. -/
theorem Given.flat
    (h : Given env schemas schema fields m data sub) (hapart : Apart env schemas schema fields)
    (hm : m ∈ fields) (hmod : Modified env schemas schema fields fields r)
    (hl : l.Perm r.1.entries) (k : String) :
    Assoc.get k (FromInternal l data) = if ∃ m' ∈ fields, k = m'.FieldName then none
      else (Assoc.get k sub).or (Assoc.get k data) := by
  have hentry : ∀ e ∈ l, r.1.get e.1 = some e.2 := fun e he =>
    SortedMap.mem_entries.1 (hl.mem_iff.1 he)
  have hmembers : Members m.FieldName sub l data := by
    refine ⟨(hl.map Prod.fst).nodup_iff.2 r.1.nodup_keys, fun e he => ?_, fun e he e' he' hin => ?_,
      fun e he hne o => ?_, fun _ => h.get⟩
    · obtain ⟨m', -, x, -, hname, hmember⟩ := hmod.entry (hentry e he)
      rw [hmember.field, hname]
    · obtain ⟨m₁, hm₁, x, hx, -, hmember⟩ := hmod.entry (hentry e he)
      obtain ⟨m₂, hm₂, -, -, hname, -⟩ := hmod.entry (hentry e' he')
      rw [hname] at hin
      exact (hmember.names _).1 hin (hapart m₁ hm₁ m₂ hm₂ x hx)
    · obtain ⟨m', hm', -, -, hname, -⟩ := hmod.entry (hentry e he)
      rw [hname] at hne ⊢
      exact h.one m' hm' hne o
  have hnames : k ∈ l.map Prod.fst ↔ ∃ m' ∈ fields, k = m'.FieldName := by
    rw [(hl.map Prod.fst).mem_iff]
    constructor
    · intro hk
      obtain ⟨e, he⟩ := SortedMap.mem_keys.1 hk
      obtain ⟨m', hm', -, -, hname, -⟩ := hmod.entry (e := (k, e)) he
      exact ⟨m', hm', hname⟩
    · rintro ⟨m', hm', rfl⟩
      obtain ⟨-, -, e, he, -⟩ := hmod.member m' hm'
      exact SortedMap.mem_keys.2 ⟨e, he⟩
  rw [hmembers.get k]
  simp only [hnames]
  split_ifs with hname hfield
  · rfl
  · rfl
  · -- the field is none of the member's
    have hsub : Assoc.get k sub = none := by
      by_contra hsome
      obtain ⟨x, hx, e, he, hmember⟩ := hmod.member m hm
      exact hfield ⟨(m.FieldName, e), hl.mem_iff.2 (SortedMap.mem_entries.2 he), rfl,
        (hmember.names k).2 (h.only k hsome x hx)⟩
    rw [hsub, Option.none_or]

theorem checks_iff {flat : Doc} (hflat : ∀ k, Assoc.get k flat
      = if ∃ m' ∈ fields, k = m'.FieldName then none else (Assoc.get k sub).or (Assoc.get k data))
    (m : UnionMapping) : checks flat m = true ↔ Passes fields data sub m := by
  simp only [checks, Bool.and_eq_true, List.all_eq_true, Passes, decide_eq_true_eq]
  refine and_congr_right fun _ => forall₂_congr fun check _ => ?_
  rw [hflat]
  split_ifs with hname
  · obtain ⟨m', hm', rfl⟩ := hname
    simp only [false_iff, not_and]
    exact fun hall => absurd rfl (hall m' hm')
  · rcases (Assoc.get check sub).or (Assoc.get check data) with _ | v
    · simp
    · simp only [Bool.not_eq_true', Option.mem_def, Option.some.injEq, exists_eq_left']
      refine ⟨fun hv => ⟨fun m' hm' heq => hname ⟨m', hm', heq⟩, hv⟩, fun hv => hv.2⟩

/-- The member that is found is the one whose name has a value then. -/
theorem name_of_restored {flat : Doc}
    (hmod : Modified env schemas schema fields fields r) {v : Value}
    (hflat : Assoc.get m.FieldName flat = none)
    (h : Assoc.get m.FieldName (UnionEmbed.ToInternal ⟨fields, r.1⟩ flat) = some v) :
    ∃ m' ∈ fields, fields.find? (checks flat) = some m' ∧ m'.FieldName = m.FieldName := by
  rw [ToInternal] at h
  rcases hfind : fields.find? (checks flat) with _ | m'
  · simp only [hfind, hflat] at h
    cases h
  · have hm' := List.mem_of_find?_eq_some hfind
    obtain ⟨x, hx, e, he, hmember⟩ := hmod.member m' hm'
    have he' : r.1.get m'.FieldName = some e := he
    simp only [hfind, he', Option.getD_some] at h
    refine ⟨m', hm', rfl, ?_⟩
    by_contra hne
    rw [Embed.get_ToInternal_of_ne flat (by rw [hmember.field]; exact Ne.symm hne), hflat,
      ite_self] at h
    cases h

/-- A member is found if it passes and none before it does. -/
theorem find_member_iff {p : UnionMapping → Bool} (hnd : (fields.map (·.FieldName)).Nodup)
    (hfields : fields = before ++ m :: after) :
    fields.find? p = some m ↔ p m = true ∧ ∀ m' ∈ before, p m' = false := by
  subst hfields
  have hnd' := (List.Nodup.of_map _ hnd)
  rw [List.nodup_middle, List.nodup_cons, List.mem_append, not_or] at hnd'
  rw [List.find?_append, List.find?_cons]
  constructor
  · intro h
    rcases hb : before.find? p with _ | m'
    · rw [hb, Option.none_or] at h
      refine ⟨?_, fun m' hm' => by simpa using List.find?_eq_none.1 hb m' hm'⟩
      by_contra hp
      rw [Bool.not_eq_true] at hp
      rw [hp] at h
      exact hnd'.1.2 (List.mem_of_find?_eq_some h)
    · rw [hb, Option.some_or] at h
      cases h
      exact absurd (List.mem_of_find?_eq_some hb) hnd'.1.1
  · rintro ⟨hp, hbefore⟩
    rw [List.find?_eq_none.2 fun m' hm' => by simp [hbefore m' hm'], hp]
    rfl

/-- The round trip of a union, with the members in any order. The object comes back if and only if
its member has check fields, no member before it passes its check with the fields that are there,
and no other member's name has a value. -/
theorem union_restored_iff (hmodify : u.ModifySchema env order schema schemas = .ok (u', schema'))
    (hapart : Apart env schemas schema u.Fields) (hfields : u.Fields = before ++ m :: after)
    (hdata : Assoc.Sorted data) (hsub : Assoc.Sorted sub)
    (h : Given env schemas schema u.Fields m data sub)
    (hl : l.Perm u'.embeds.entries) :
    u'.ToInternal (FromInternal l data) = data
      ↔ m.CheckFields ≠ []
        ∧ (∀ m' ∈ u.Fields, m'.FieldName ≠ m.FieldName → Assoc.get m'.FieldName data = none)
        ∧ ∀ m' ∈ before, ¬ Passes u.Fields data sub m' := by
  obtain ⟨hsame, hmod⟩ := ModifySchema_modified hapart hmodify
  have hm : m ∈ u.Fields := by simp [hfields]
  obtain ⟨x, hx, e, he, hmember⟩ := hmod.member m hm
  have he' : u'.embeds.get m.FieldName = some e := he
  have hflat := h.flat hapart hm hmod hl
  have hpasses := checks_iff hflat
  have hgone : ∀ m' ∈ u.Fields, Assoc.get m'.FieldName (FromInternal l data) = none :=
    fun m' hm' => by rw [hflat, if_pos ⟨m', hm', rfl⟩]
  have hfind := find_member_iff (p := checks (FromInternal l data)) hmod.nodup hfields
  -- if the member is found, then its own mapper is at work
  have hback : u.Fields.find? (checks (FromInternal l data)) = some m →
      u'.ToInternal (FromInternal l data) = e.ToInternal (FromInternal l data) := by
    intro hfound
    simp only [ToInternal, hsame, hfound, he', Option.getD_some]
  constructor
  · intro hall
    obtain ⟨m', hm', hfound, hname⟩ := name_of_restored (r := (u'.embeds, schema')) hmod
      (v := .map sub) (hgone m hm) (by rw [← hsame, hall, h.get])
    rw [List.inj_on_of_nodup_map hmod.nodup hm' hm hname] at hfound
    obtain ⟨hpass, hbefore⟩ := hfind.1 hfound
    refine ⟨((hpasses m).1 hpass).1, fun m' hm' hne => ?_, fun m' hm' hpass' => ?_⟩
    · rw [← hall, hback hfound, Embed.get_ToInternal_of_ne _ (by rwa [hmember.field]), hgone m' hm',
        ite_self]
    · have hfails := hbefore m' hm'
      rw [(hpasses m').2 hpass'] at hfails
      cases hfails
  · rintro ⟨hcheck, hnone, hbefore⟩
    -- a field of the member's schema is neither a member's name nor in the data
    have hfree : ∀ k, x.resourceFields.get k ≠ none →
        (¬ ∃ m' ∈ u.Fields, k = m'.FieldName) ∧ Assoc.get k data = none := by
      intro k hk
      have hno : ∀ m' ∈ u.Fields, k ≠ m'.FieldName := by
        rintro m' hm' rfl
        exact hk (hapart m hm m' hm' x hx)
      refine ⟨fun ⟨m', hm', heq⟩ => hno m' hm' heq, ?_⟩
      by_contra hsome
      exact hk (h.other k hsome hno m hm x hx)
    have hsubfree : ∀ k, Assoc.get k sub ≠ none →
        (¬ ∃ m' ∈ u.Fields, k = m'.FieldName) ∧ Assoc.get k data = none :=
      fun k hk => hfree k (h.only k hk x hx)
    have hfound : u.Fields.find? (checks (FromInternal l data)) = some m := by
      refine hfind.2 ⟨(hpasses m).2 ⟨hcheck, fun check hmem => ?_⟩, fun m' hm' => ?_⟩
      · obtain ⟨v, hv, hempty⟩ := h.check check hmem
        have hv' : Assoc.get check sub = some v := hv
        refine ⟨fun m' hm' heq => ?_, v, by simp [hv'], hempty⟩
        exact (hsubfree check (by simp [hv'])).1 ⟨m', hm', heq⟩
      · have hno := hbefore m' hm'
        rw [← hpasses] at hno
        simpa using hno
    have hne : sub ≠ [] := by
      obtain ⟨check, hmem⟩ := List.exists_mem_of_ne_nil _ hcheck
      obtain ⟨v, hv, -⟩ := h.check check hmem
      rintro rfl
      cases hv
    have hget : Assoc.get e.Field data = some (.map sub) := by rw [hmember.field, h.get]
    rw [hback hfound, Embed.ToInternal_eq_iff (sorted_members hdata) hdata hsub hget hne
      (by rw [hmember.field, hgone m hm])]
    refine ⟨fun k => ?_, fun k hk => ?_⟩
    · split_ifs with hin
      · obtain ⟨hname, hdatak⟩ := hfree k ((hmember.names k).1 hin)
        rw [hflat, if_neg hname, hdatak, Option.or_none]
      · by_contra hsome
        exact hin ((hmember.names k).2 (h.only k (Ne.symm hsome) x hx))
    · rw [hmember.field] at hk
      split_ifs with hin
      · exact (hfree k ((hmember.names k).1 hin)).2.symm
      · rw [hflat]
        split_ifs with hname
        · obtain ⟨m', hm', rfl⟩ := hname
          exact (hnone m' hm' hk).symm
        · have hsubk : Assoc.get k sub = none := by
            by_contra hsome
            exact hin ((hmember.names k).2 (h.only k hsome x hx))
          rw [hsubk, Option.none_or]

end Back

section Volumes

open Schemas (plainEnv)
open Embed (schemaWith byName)

/-- A volume of one of two kinds. -/
def volume : Schema := schemaWith "volume" [("hostPath", "hostPath"), ("nfs", "nfs")]

def kinds : Schemas :=
  (NewSchemas.store (schemaWith "hostPath" [("path", "string")]) false).store
    (schemaWith "nfs" [("path", "string"), ("server", "string")]) false

def hostPath : UnionMapping := ⟨"hostPath", ["path"]⟩

def nfs : UnionMapping := ⟨"nfs", ["server"]⟩

/-- The mapper of the members in this order, after `ModifySchema`. -/
def unionOf (fields : List UnionMapping) : UnionEmbed where
  Fields := fields
  embeds :=
    ((∅ : SortedMap String Embed).set "hostPath"
      { Field := "hostPath", ignoreOverride := true, embeddedFields := ["path"] }).set "nfs"
      { Field := "nfs", ignoreOverride := true, embeddedFields := ["path", "server"] }

def share : Doc := [("path", .str "/srv"), ("server", .str "files")]

theorem memberSchema_nfs : memberSchema plainEnv kinds volume nfs
    = some (schemaWith "nfs" [("path", "string"), ("server", "string")]) := by
  decide +kernel

theorem share_keys {k : String} (hk : Assoc.get k share ≠ none) : k = "path" ∨ k = "server" := by
  by_contra hno
  rw [not_or] at hno
  exact hk (by simp [share, Assoc.get, hno.1, hno.2])

theorem share_given (hfields : ∀ m, m ∈ fields ↔ m = nfs ∨ m = hostPath) :
    Given plainEnv kinds volume fields nfs [("nfs", .map share)] share := by
  refine ⟨by decide +kernel, fun m' hm' hne o ho => ?_, by decide +kernel, fun k hk x hx => ?_,
    fun k hk hno => ?_⟩
  · rcases (hfields m').1 hm' with rfl | rfl
    · exact hne rfl
    · cases ho
  · rw [memberSchema_nfs] at hx
    cases hx
    rcases share_keys hk with rfl | rfl <;> decide +kernel
  · refine absurd ?_ (hno nfs ((hfields nfs).2 (.inl rfl)))
    by_contra hne
    exact hk (by simp [Assoc.get, show k ≠ "nfs" from hne])

/-- The share is found by its server. -/
theorem share_restored :
    (unionOf [nfs, hostPath]).ToInternal
        (FromInternal (unionOf [nfs, hostPath]).embeds.entries.reverse [("nfs", .map share)])
      = [("nfs", .map share)] := by
  have hmodify : UnionEmbed.ModifySchema ⟨[nfs, hostPath], ∅⟩ plainEnv (fun _ => byName) volume kinds
      = .ok (unionOf [nfs, hostPath],
        schemaWith "volume" [("path", "string"), ("server", "string")]) := by
    decide +kernel
  have hfields : [nfs, hostPath] = [] ++ nfs :: [hostPath] := rfl
  refine (union_restored_iff hmodify (by decide +kernel) hfields (by decide +kernel)
    (by decide +kernel) (share_given (by simp)) (List.reverse_perm _)).2
    ⟨by decide, fun m' hm' hne => ?_, by simp⟩
  rcases List.mem_cons.1 hm' with rfl | hm'
  · exact absurd rfl hne
  · rw [List.mem_singleton.1 hm']
    rfl

/-- A share has a path, and so is taken for a path of the host if that is asked for first. -/
theorem share_mistaken :
    UnionEmbed.ModifySchema ⟨[hostPath, nfs], ∅⟩ plainEnv (fun _ => byName) volume kinds
        = .ok (unionOf [hostPath, nfs], schemaWith "volume" [("path", "string"), ("server", "string")])
      ∧ Apart plainEnv kinds volume [hostPath, nfs]
      ∧ Given plainEnv kinds volume [hostPath, nfs] nfs [("nfs", .map share)] share
      ∧ (unionOf [hostPath, nfs]).ToInternal
          (FromInternal (unionOf [hostPath, nfs]).embeds.entries [("nfs", .map share)])
        = [("hostPath", .map [("path", .str "/srv")]), ("server", .str "files")] := by
  refine ⟨by decide +kernel, by decide +kernel, share_given ?_, by decide +kernel⟩
  simp [or_comm]

end Volumes

end UnionEmbed

end Norman.FieldMapper
