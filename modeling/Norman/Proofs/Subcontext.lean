import Norman.Proofs.Levels
import Norman.Subcontext
import Mathlib.Data.List.Nodup

/-!
# The sub-context picks the field

Which field of a schema stands for a sub-context is left to the order of its fields: the first one
that refers to the type of the sub-context is taken. And where two sub-contexts take the same field,
the later one in the order of the sub-contexts fills it. So what the provider returns is settled if
and only if each field that may be taken is the only choice of some sub-context, and sub-contexts
that may take the same field have the same value (`Unambiguous`).
-/

namespace Norman.Parse

open Norman.Types

namespace SubContext

variable {c : SubContext} {schema : Schema}

section Chosen

variable (c schema) in
/-- The sub-context may take the field. -/
def Candidate (id name : String) : Prop :=
  ∃ subContextSchema field, c.schemaOf id = some subContextSchema
    ∧ schema.resourceFields.get name = some field ∧ refersTo subContextSchema field = true

variable (o : Order c schema)

/-- The field that a sub-context takes. -/
def chosen (id : String) : Option String :=
  (c.schemaOf id).bind fun subContextSchema =>
    ((o.fields id).find? fun f => refersTo subContextSchema f.2).map Prod.fst

theorem fill_eq (result : SortedMap String String) (e : String × String) :
    fill o result e = match chosen o e.1 with
      | none => result
      | some name => result.set name e.2 := by
  unfold fill chosen
  cases c.schemaOf e.1 with
  | none => rfl
  | some subContextSchema =>
    cases hf : (o.fields e.1).find? fun f => refersTo subContextSchema f.2 <;> simp [hf]

theorem mem_fields {id name : String} {field : Field} :
    (name, field) ∈ o.fields id ↔ schema.resourceFields.get name = some field := by
  rw [(o.fields_perm id).mem_iff, SortedMap.mem_entries]

theorem candidate_of_chosen {id name : String} (h : chosen o id = some name) :
    Candidate c schema id name := by
  obtain ⟨subContextSchema, hs, hf⟩ := Option.bind_eq_some_iff.1 h
  obtain ⟨f, hfind, rfl⟩ := Option.map_eq_some_iff.1 hf
  have href := List.find?_some hfind
  exact ⟨subContextSchema, f.2, hs, (mem_fields o).1 (List.mem_of_find?_eq_some hfind), href⟩

theorem exists_chosen {id name : String} (h : Candidate c schema id name) :
    ∃ name', chosen o id = some name' := by
  obtain ⟨subContextSchema, field, hs, hget, href⟩ := h
  rcases hfind : (o.fields id).find? fun f => refersTo subContextSchema f.2 with _ | f
  · exact absurd href (List.find?_eq_none.1 hfind _ ((mem_fields o).2 hget))
  · exact ⟨f.1, by simp [chosen, hs, hfind]⟩

end Chosen

section Create

variable (o : Order c schema)

/-- What the loop has at a field is what some sub-context that took it has put there. -/
theorem get_foldl_fill {name value : String} : ∀ (l : List (String × String))
    {result : SortedMap String String}, (l.foldl (fill o) result).get name = some value →
      (∃ e ∈ l, chosen o e.1 = some name ∧ e.2 = value) ∨ result.get name = some value
  | [], _, h => .inr h
  | e :: l, result, h => by
    rcases get_foldl_fill l h with ⟨e', he', hname⟩ | h
    · exact .inl ⟨e', List.mem_cons_of_mem _ he', hname⟩
    · rw [fill_eq] at h
      split at h
      · exact .inr h
      · rename_i name' hname'
        rw [SortedMap.get_set] at h
        split_ifs at h with heq
        · cases h
          exact .inl ⟨e, List.mem_cons_self, heq ▸ hname', rfl⟩
        · exact .inr h

theorem get_foldl_fill_ne_none {name : String} : ∀ (l : List (String × String))
    {result : SortedMap String String},
      ((∃ e ∈ l, chosen o e.1 = some name) ∨ result.get name ≠ none) →
      (l.foldl (fill o) result).get name ≠ none
  | [], _, h => by simpa using h
  | e :: l, result, h => by
    refine get_foldl_fill_ne_none l ?_
    rw [fill_eq]
    rcases h with ⟨e', he', hname⟩ | h
    · rcases List.mem_cons.1 he' with rfl | he'
      · exact .inr (by simp [hname])
      · exact .inl ⟨e', he', hname⟩
    · right
      split
      · exact h
      · rw [SortedMap.get_set]
        split_ifs
        · simp
        · exact h

theorem mem_subContext {id value : String} :
    (id, value) ∈ o.subContext ↔ c.subContext.get id = some value := by
  rw [o.subContext_perm.mem_iff, SortedMap.mem_entries]

theorem get_create {name value : String} (h : (create o).get name = some value) :
    ∃ id, c.subContext.get id = some value ∧ chosen o id = some name := by
  rcases get_foldl_fill o _ h with ⟨⟨id, _⟩, he, hname, rfl⟩ | h
  · exact ⟨id, (mem_subContext o).1 he, hname⟩
  · simp at h

theorem get_create_ne_none {id value name : String} (h : c.subContext.get id = some value)
    (hname : chosen o id = some name) : (create o).get name ≠ none :=
  get_foldl_fill_ne_none o _ (.inl ⟨(id, value), (mem_subContext o).2 h, hname⟩)

end Create

section Results

variable (o : Order c schema)

theorem mem_result {name value : String} :
    (name, value) ∈ o.result (create o) ↔ (create o).get name = some value := by
  rw [(o.result_perm _).mem_iff, SortedMap.mem_entries]

theorem mem_Query {name value : String} :
    NewConditionFromString name .eq [value] ∈ Query o ↔ (create o).get name = some value := by
  rw [← mem_result]
  unfold Query NewConditionFromString
  simp

theorem Create_eq : Create o = (create o).map .str :=
  SortedMap.foldl_set_eq_map _ _ (o.result_perm _)

end Results

section Choice

variable (c schema) in
/-- The orders that try the field `pref id` first for a sub-context `id`, and come to the
sub-context `last` at the end. -/
def preferring (pref : String → String) (last : String) : Order c schema where
  subContext := c.subContext.entries.filter (fun e => ¬ decide (e.1 = last))
    ++ c.subContext.entries.filter fun e => e.1 = last
  fields id := schema.resourceFields.entries.filter (fun f => f.1 = pref id)
    ++ schema.resourceFields.entries.filter fun f => ¬ decide (f.1 = pref id)
  result m := m.entries
  subContext_perm := by
    simpa using List.perm_append_comm.trans
      (List.filter_append_perm (fun e : String × String => e.1 = last) _)
  fields_perm id := by
    simpa using List.filter_append_perm (fun f : String × Field => f.1 = pref id) _
  result_perm _ := List.Perm.refl _

theorem chosen_preferring {pref : String → String} {last id : String}
    (h : Candidate c schema id (pref id)) :
    chosen (preferring c schema pref last) id = some (pref id) := by
  obtain ⟨subContextSchema, field, hs, hget, href⟩ := h
  have hfind : ∃ f, (schema.resourceFields.entries.filter fun f => f.1 = pref id).find?
      (fun f => refersTo subContextSchema f.2) = some f := by
    rw [← Option.isSome_iff_exists, List.find?_isSome]
    exact ⟨(pref id, field), by simp [SortedMap.mem_entries, hget], href⟩
  obtain ⟨f, hf⟩ := hfind
  have hname : f.1 = pref id := by
    simpa using (List.mem_filter.1 (List.mem_of_find?_eq_some hf)).2
  simp only [chosen, hs, Option.bind_some, preferring, List.find?_append, hf, Option.some_or,
    Option.map_some, hname]

/-- The sub-context at the end has the last word. -/
theorem get_create_preferring (pref : String → String) {id value : String}
    (hv : c.subContext.get id = some value) (h : Candidate c schema id (pref id)) :
    (create (preferring c schema pref id)).get (pref id) = some value := by
  have hlast : c.subContext.entries.filter (fun e => e.1 = id) = [(id, value)] := by
    have hcongr : ∀ e ∈ c.subContext.entries, decide (e.1 = id) = decide (e = (id, value)) := by
      rintro ⟨id', value'⟩ he
      have hv' := SortedMap.mem_entries.1 he
      by_cases heq : id' = id
      · subst heq
        simp [Option.some.inj (hv'.symm.trans hv)]
      · simp [heq]
    have hmem := SortedMap.mem_entries.2 hv
    rw [List.filter_congr hcongr, List.filter_eq,
      List.count_eq_one_of_mem (List.Nodup.of_map _ c.subContext.nodup_keys) hmem]
    rfl
  have hsub : (preferring c schema pref id).subContext
      = c.subContext.entries.filter (fun e => ¬ decide (e.1 = id)) ++ [(id, value)] := by
    simp only [preferring, hlast]
  unfold create
  rw [hsub, List.foldl_append, List.foldl_cons, List.foldl_nil, fill_eq]
  simp [chosen_preferring h]

end Choice

variable (c schema) in
/-- What the provider returns does not depend on the orders of its maps, and what a read is filtered
by is what a new object has. -/
def WellDefined : Prop :=
  ∀ o o' : Order c schema, (Query o).Perm (Query o') ∧ Create o = Create o'
    ∧ ∀ name value, NewConditionFromString name .eq [value] ∈ Query o
        ↔ (Create o').get name = some (.str value)

variable (c schema) in
/-- Each field that some sub-context may take is all that some sub-context may take, and
sub-contexts that may take the same field have the same value. -/
structure Unambiguous : Prop where
  sole : ∀ id value name, c.subContext.get id = some value → Candidate c schema id name →
    ∃ id' value', c.subContext.get id' = some value'
      ∧ ∀ name', Candidate c schema id' name' ↔ name' = name
  agree : ∀ id id' value value' name, c.subContext.get id = some value →
    c.subContext.get id' = some value' → Candidate c schema id name →
    Candidate c schema id' name → value = value'

theorem get_create_iff (h : Unambiguous c schema) (o : Order c schema) {name value : String} :
    (create o).get name = some value
      ↔ ∃ id, c.subContext.get id = some value ∧ Candidate c schema id name := by
  constructor
  · intro hget
    obtain ⟨id, hv, hname⟩ := get_create o hget
    exact ⟨id, hv, candidate_of_chosen o hname⟩
  · rintro ⟨id, hv, hname⟩
    obtain ⟨id', value', hv', hsole⟩ := h.sole id value name hv hname
    obtain ⟨name', hchosen⟩ := exists_chosen o ((hsole name).2 rfl)
    obtain rfl := (hsole name').1 (candidate_of_chosen o hchosen)
    obtain ⟨w, hw⟩ := Option.ne_none_iff_exists'.1 (get_create_ne_none o hv' hchosen)
    obtain ⟨id'', hv'', hname''⟩ := get_create o hw
    rw [hw, h.agree id'' id w value name' hv'' hv (candidate_of_chosen o hname'') hname]

theorem create_eq_of_unambiguous (h : Unambiguous c schema) (o o' : Order c schema) :
    create o = create o' := by
  ext1 name
  refine Option.ext fun value => ?_
  rw [get_create_iff h, get_create_iff h]

theorem wellDefined_of_create (h : ∀ o o' : Order c schema, create o = create o') :
    WellDefined c schema := by
  intro o o'
  have hperm : (o.result (create o)).Perm (o'.result (create o')) := by
    rw [h o' o]
    exact (o.result_perm _).trans (o'.result_perm _).symm
  refine ⟨hperm.map _, by rw [Create_eq, Create_eq, h o o'], fun name value => ?_⟩
  rw [mem_Query, Create_eq, SortedMap.get_map, h o o']
  simp

theorem create_eq_of_wellDefined (h : WellDefined c schema) (o o' : Order c schema) :
    create o = create o' := by
  ext1 name
  refine Option.ext fun value => ?_
  rw [← mem_Query, (h o o').2.2, Create_eq, SortedMap.get_map]
  simp

theorem unambiguous_of_create (h : ∀ o o' : Order c schema, create o = create o') :
    Unambiguous c schema where
  sole id value name hv hname := by
    by_contra hno
    push Not at hno
    -- Every other sub-context that may take the field may take another one instead.
    have hother : ∀ id', ∃ other, (∃ name', name' ≠ name ∧ Candidate c schema id' name') →
        other ≠ name ∧ Candidate c schema id' other := by
      intro id'
      by_cases hex : ∃ name', name' ≠ name ∧ Candidate c schema id' name'
      · exact ⟨hex.choose, fun _ => hex.choose_spec⟩
      · exact ⟨name, fun hex' => absurd hex' hex⟩
    choose other hother using hother
    have hnone : (create (preferring c schema other id)).get name = none := by
      by_contra hne
      obtain ⟨w, hw⟩ := Option.ne_none_iff_exists'.1 hne
      obtain ⟨id', hv', hchosen⟩ := get_create _ hw
      have hcand := candidate_of_chosen _ hchosen
      obtain ⟨name', hname'⟩ := hno id' w hv'
      have hex : ∃ name', name' ≠ name ∧ Candidate c schema id' name' := by
        rcases hname' with ⟨hc, hne'⟩ | ⟨hc, rfl⟩
        · exact ⟨name', hne', hc⟩
        · exact absurd hcand hc
      rw [chosen_preferring (hother id' hex).2] at hchosen
      exact (hother id' hex).1 (Option.some.inj hchosen)
    have hsome := get_create_preferring (fun _ => name) hv hname
    rw [h _ (preferring c schema other id), hnone] at hsome
    cases hsome
  agree id id' value value' name hv hv' hname hname' := by
    have h₁ := get_create_preferring (fun _ => name) hv hname
    have h₂ := get_create_preferring (fun _ => name) hv' hname'
    rw [h _ (preferring c schema (fun _ => name) id')] at h₁
    exact Option.some.inj (h₁.symm.trans h₂)

/-- The restriction to a sub-context is the same in each call if and only if the schema and the
values of the sub-contexts leave no choice. -/
theorem subContext_wellDefined_iff (c : SubContext) (schema : Schema) :
    WellDefined c schema ↔ Unambiguous c schema :=
  ⟨fun h => unambiguous_of_create (create_eq_of_wellDefined h),
    fun h => wellDefined_of_create (create_eq_of_unambiguous h)⟩

/-- A request under the project `p1`. -/
def inProject : SubContext where
  names := Schemas.plainEnv
  schemas := (plainBuilder [plainSchema "project" []]).Schemas
  subContext := (∅ : SortedMap String String).set "/v1/schemas/project" "p1"

/-- An app has a project, and refers to the project it was copied from. -/
def app : Schema :=
  plainSchema "app" [("projectId", { type := "reference[project]" }),
    ("sourceId", { type := "reference[/v1/schemas/project]" })]

/-- One call filters by the project of the app, another one by the project it was copied from. -/
theorem app_two_projects : ¬ WellDefined inProject app := by
  intro h
  have hperm := (h (preferring inProject app (fun _ => "projectId") "")
    (preferring inProject app (fun _ => "sourceId") "")).2.1
  revert hperm
  decide +kernel

end SubContext

end Norman.Parse
