import Norman.Proofs.Imports
import Norman.Proofs.Levels
import Norman.Proofs.TypeMappers
import Norman.Proofs.TypeNames

/-!
# Nested mappers

The mapper of a type looks up the schemas of its fields before its own schema is registered, and
while the types it was reached from are still under way. So it has an entry for a field exactly if
the schema of the field was registered before: the mappers are complete if and only if no schema was
registered after one that has a field of its type, or has such a field itself (`InOrder`). If the
struct types refer to each other in no circle, this is so.
-/

namespace Norman.Types

variable {T : Type}

/-- Every mapper has an entry for every field whose type is registered, plain, in an array or in a
map, and it is that schema. -/
def Complete (st : Importing T) : Prop :=
  ∀ x ∈ st.imported, ∀ f field, x.internal.get f = some field → st.schemas.Has (x.placeOf field) →
    (x.mapper.table (nesting field.type).1).get f = some (x.placeOf field)

/-- The internal schema has a field of the type that is registered at this place. -/
def Imported.Names (x : Imported) (p : Place) : Prop :=
  ∃ f field, x.internal.get f = some field ∧ x.placeOf field = p

/-- When a schema was registered, neither it nor one registered before had a field of its type. -/
def InOrder (imported : List Imported) : Prop :=
  ∀ before x after, imported = before ++ x :: after → ∀ y ∈ before ++ [x], ¬ y.Names x.place

section Order

variable {has : Place → Prop} {l : List Imported} {x : Imported}

theorem inOrder_append :
    InOrder (l ++ [x]) ↔ InOrder l ∧ ∀ y ∈ l ++ [x], ¬ y.Names x.place := by
  constructor
  · intro h
    refine ⟨fun before y after heq => h before y (after ++ [x]) ?_, h l x [] rfl⟩
    rw [heq, List.append_assoc, List.cons_append]
  · rintro ⟨hl, hx⟩ before y after heq
    rcases List.eq_nil_or_concat after with rfl | ⟨after', z, rfl⟩
    · obtain ⟨rfl, hxy⟩ := List.append_inj' heq rfl
      rw [← List.singleton_inj.1 hxy]
      exact hx
    · rw [List.concat_eq_append, ← List.cons_append, ← List.append_assoc] at heq
      exact hl before y after' (List.append_inj' heq rfl).1

/-- What the tables of the mappers have is registered, and they are complete if and only if the
schemas were registered in order. -/
structure Ordered (has : Place → Prop) (l : List Imported) : Prop where
  only : ∀ x ∈ l, ∀ {f field q}, x.internal.get f = some field →
    (x.mapper.table (nesting field.type).1).get f = some q → has q
  complete : (∀ x ∈ l, ∀ f field, x.internal.get f = some field → has (x.placeOf field) →
    (x.mapper.table (nesting field.type).1).get f = some (x.placeOf field)) ↔ InOrder l

/-- A schema that is registered is in no table yet. -/
theorem Ordered.register (h : Ordered has l) (hnew : ¬ has x.place) (hlooked : Looked has x) :
    Ordered (fun p => has p ∨ p = x.place) (l ++ [x]) where
  only y hy f field q hf hq := by
    rcases List.mem_append.1 hy with hy | hy
    · exact .inl (h.only y hy hf hq)
    · obtain rfl := List.mem_singleton.1 hy
      exact .inl (hlooked.only hf hq)
  complete := by
    have honly : ∀ y ∈ l ++ [x], ∀ {f field q}, y.internal.get f = some field →
        (y.mapper.table (nesting field.type).1).get f = some q → has q := by
      intro y hy f field q hf hq
      rcases List.mem_append.1 hy with hy | hy
      · exact h.only y hy hf hq
      · obtain rfl := List.mem_singleton.1 hy
        exact hlooked.only hf hq
    rw [inOrder_append, ← h.complete]
    constructor
    · intro hc
      refine ⟨fun y hy f field hf hhas => ?_, ?_⟩
      · exact hc y (List.mem_append_left _ hy) f field hf (.inl hhas)
      · rintro y hy ⟨f, field, hf, hplace⟩
        refine hnew (honly y hy hf ?_)
        rw [hc y hy f field hf (.inr hplace), hplace]
    · rintro ⟨hl, hnames⟩ y hy f field hf hhas
      have hhas' : has (y.placeOf field) :=
        hhas.resolve_right fun hplace => hnames y hy ⟨f, field, hf, hplace⟩
      rcases List.mem_append.1 hy with hy | hy
      · exact hl y hy f field hf hhas'
      · obtain rfl := List.mem_singleton.1 hy
        exact hlooked.found hf hhas'

theorem ordered_rule (env : ImportEnv) (prog : Program T) :
    Rule env prog Ordered (fun _ _ _ => True) (fun _ _ => True) where
  register h hnew _ hlooked _ := h.register hnew hlooked
  grows _ _ := trivial
  basic _ := trivial
  array _ := trivial
  map _ := trivial
  tag _ _ _ := trivial
  found _ _ := trivial
  back _ _ _ := trivial
  enter _ _ _ := trivial
  embed _ _ := trivial
  root _ := trivial
  override _ := trivial

end Order

section Layers

variable (env : ImportEnv) (prog : Program T)

/-- The struct types refer to each other in no circle; their names are neither those of other types
nor end like these, and no tag gives one. -/
structure Layered : Prop where
  acyclic : ∀ t, ¬ Relation.TransGen (fun t u => Refers env prog t u ∨ Embeds prog t u) t t
  split : ∀ t, splitName (getTypeName env prog t) = none
  bracket : ∀ t, hasSuffix (getTypeName env prog t) "]" = false
  basic : ∀ t, getTypeName env prog t ∉ basicTypes
  tags : ∀ t, ∀ field ∈ (prog.struct t).fields, ∀ f, applyTag env field (newField field) = .ok f →
    f.type ≠ "" → ∀ v u, (resolve v f.type).2 ≠ getTypeName env prog u
      ∧ (resolve v (nesting f.type).2).2 ≠ getTypeName env prog u

/-- A place is registered already, or never is. -/
def Settled (has : Place → Prop) (p : Place) : Prop := has p ∨ ∀ t, p.2 ≠ getTypeName env prog t

variable {env prog} {has has' : Place → Prop} {v : APIVersion} {name : String}

theorem Settled.grows {p : Place} (h : Settled env prog has p) (hgrows : ∀ p, has p → has' p) :
    Settled env prog has' p :=
  h.imp_left (hgrows p)

theorem cut_eq {sep : List Char} : ∀ {l a b : List Char}, cut sep l = some (a, b) →
    l = a ++ sep ++ b
  | [], a, b, h => by simp [cut] at h
  | c :: cs, a, b, h => by
    rw [cut] at h
    split_ifs at h with hp
    · cases h
      obtain ⟨t, ht⟩ := List.isPrefixOf_iff_prefix.1 hp
      rw [← ht, List.drop_left, List.nil_append]
    · obtain ⟨⟨a', b'⟩, hr, heq⟩ := Option.map_eq_some_iff.1 h
      simp only [Prod.mk.injEq] at heq
      obtain ⟨rfl, rfl⟩ := heq
      rw [cut_eq hr]
      simp

/-- What ends with a bracket still does so without the path in front. -/
theorem hasSuffix_resolve (h : hasSuffix name "]" = true) :
    hasSuffix (resolve v name).2 "]" = true := by
  unfold resolve
  rcases hs : splitName name with _ | r
  · exact h
  · rw [Option.getD_some]
    obtain ⟨⟨a, b⟩, hcut, rfl⟩ := Option.map_eq_some_iff.1 hs
    obtain ⟨u, hu⟩ := hasSuffix_iff.1 h
    have hlist : u.toList ++ [']'] = a ++ "/schemas/".toList ++ b := by
      rw [← cut_eq hcut, hu]
      simp
    rcases List.eq_nil_or_concat b with rfl | ⟨b', c, rfl⟩
    · have hlast := congrArg List.getLast? hlist
      simp at hlast
    · rw [List.concat_eq_append, ← List.append_assoc] at hlist
      obtain ⟨-, hc⟩ := List.append_inj' hlist rfl
      obtain rfl := List.singleton_inj.1 hc
      exact hasSuffix_iff.2 ⟨String.ofList b', String.toList_inj.1 (by simp)⟩

theorem nesting_plain (h : hasSuffix name "]" = false) : nesting name = (.plain, name) := by
  simp [nesting, IsArrayType, IsMapType, h]

theorem nesting_array (name : String) : nesting ("array[" ++ name ++ "]") = (.array, name) := by
  have harray : IsArrayType ("array[" ++ name ++ "]") = true :=
    (bracket_iff (by decide)).2 ⟨name, rfl⟩
  have hsub : SubType ("array[" ++ name ++ "]") = name :=
    subType_bracket "array" (by decide) (by decide) name
  simp [nesting, harray, hsub]

theorem nesting_map (name : String) : nesting ("map[" ++ name ++ "]") = (.map, name) := by
  have hmap : IsMapType ("map[" ++ name ++ "]") = true := (bracket_iff (by decide)).2 ⟨name, rfl⟩
  have harray : IsArrayType ("map[" ++ name ++ "]") = false := by
    simp [IsArrayType, hasPrefix]
  have hsub : SubType ("map[" ++ name ++ "]") = name :=
    subType_bracket "map" (by decide) (by decide) name
  simp [nesting, harray, hmap, hsub]

theorem Layered.settled_bracket (h : Layered env prog) (hname : hasSuffix name "]" = true) :
    Settled env prog has (resolve v name) := by
  refine .inr fun t ht => ?_
  have := h.bracket t
  rw [← ht, hasSuffix_resolve hname] at this
  cases this

theorem Layered.resolve_typeName (h : Layered env prog) (t : T) :
    resolve v (getTypeName env prog t) = (v.path, getTypeName env prog t) := by
  rw [resolve, h.split t, Option.getD_none]

/-- The registry has schemas of struct types only, in order, and the types of fields are settled. -/
structure InLayers (env : ImportEnv) (prog : Program T) (has : Place → Prop) (l : List Imported) :
    Prop where
  named : ∀ p, has p → ∃ t, p.2 = getTypeName env prog t
  settled : ∀ y ∈ l, ∀ {f field}, y.internal.get f = some field →
    Settled env prog has (y.placeOf field)
  inOrder : InOrder l

theorem InLayers.register {l : List Imported} {x : Imported} {t : T} (h : InLayers env prog has l)
    (hnew : ¬ has x.place) (hid : x.id = getTypeName env prog t)
    (hfields : ∀ {f field}, x.internal.get f = some field →
      Settled env prog has (x.placeOf field)) :
    InLayers env prog (fun p => has p ∨ p = x.place) (l ++ [x]) := by
  have hsettled : ∀ y ∈ l ++ [x], ∀ {f field}, y.internal.get f = some field →
      Settled env prog has (y.placeOf field) := by
    intro y hy f field hf
    rcases List.mem_append.1 hy with hy | hy
    · exact h.settled y hy hf
    · obtain rfl := List.mem_singleton.1 hy
      exact hfields hf
  refine ⟨fun p hp => ?_, fun y hy f field hf => (hsettled y hy hf).grows fun _ => .inl,
    inOrder_append.2 ⟨h.inOrder, ?_⟩⟩
  · rcases hp with hp | rfl
    · exact h.named p hp
    · exact ⟨t, hid⟩
  · rintro y hy ⟨f, field, hf, hplace⟩
    rcases hsettled y hy hf with hhas | hnever
    · exact hnew (hplace ▸ hhas)
    · exact hnever t (by rw [hplace]; exact hid)

/-- The type of a field is settled, as it is and as the mapper looks it up. -/
def SettledType (env : ImportEnv) (prog : Program T) (v : APIVersion) (has : Place → Prop)
    (type : String) : Prop :=
  Settled env prog has (resolve v type) ∧ Settled env prog has (resolve v (nesting type).2)

theorem Layered.settledType_basic (h : Layered env prog) (hname : name ∈ basicTypes) :
    SettledType env prog v has name := by
  have hplain : ∀ name ∈ basicTypes, splitName name = none ∧ nesting name = (.plain, name) := by
    decide
  have hnever : Settled env prog has (resolve v name) := by
    refine .inr fun t ht => h.basic t ?_
    rw [← ht, resolve, (hplain name hname).1]
    exact hname
  exact ⟨hnever, by rw [(hplain name hname).2]; exact hnever⟩

/-- All schemas are registered in order. -/
theorem Layered.rule (h : Layered env prog) :
    Rule env prog (InLayers env prog) (SettledType env prog)
      (fun P t => ∀ u ∈ P, Relation.ReflTransGen
        (fun t u => Refers env prog t u ∨ Embeds prog t u) u t) where
  register hl hnew hid _ hfields := hl.register hnew hid fun hf => (hfields hf).2
  grows hb hgrows := ⟨hb.1.grows hgrows, hb.2.grows hgrows⟩
  basic hname := h.settledType_basic hname
  array {v has type} hb := by
    refine ⟨h.settled_bracket (hasSuffix_iff.2 ⟨_, rfl⟩), ?_⟩
    rw [nesting_array]
    exact hb.1
  map {v has type} hb := by
    refine ⟨h.settled_bracket (hasSuffix_iff.2 ⟨_, rfl⟩), ?_⟩
    rw [nesting_map]
    exact hb.1
  tag {v has t field f} hfield hf htype := by
    have htag := h.tags t field hfield f hf htype v
    exact ⟨.inr fun u => (htag u).1, .inr fun u => (htag u).2⟩
  found {v has l t id} hl hhas := by
    obtain ⟨u, hu⟩ := hl.named _ hhas
    simp only at hu
    subst hu
    rw [h.resolve_typeName] at hhas
    have hsettled : Settled env prog has (resolve v (getTypeName env prog u)) := by
      rw [h.resolve_typeName]
      exact .inl hhas
    refine ⟨hsettled, ?_⟩
    rw [nesting_plain (h.bracket u)]
    exact hsettled
  back {v has P t u} hP hu hin := absurd (.tail' (hP u hin) (.inl hu)) (h.acyclic u)
  enter {P t u} hP hu _ w hw := by
    rcases List.mem_cons.1 hw with rfl | hw
    · exact .refl
    · exact (hP w hw).tail (.inl hu)
  embed {P t u} hP hu w hw := (hP w hw).tail (.inr hu)
  root t u hu := by
    rw [List.mem_singleton.1 hu]
  override t u hu := by
    cases hu

end Layers

section Occurrences

/-- A map is in the value of a field, as the field contains its type. -/
def Inside (w : Doc) : Nesting → Value → Prop
  | .plain, value => value = .map w
  | .array, value => ∃ xs, value = .arr xs ∧ .map w ∈ xs
  | .map, value => ∃ m k, value = .map m ∧ (k, .map w) ∈ m

/-- From the data of a schema to those of the schemas of its fields, at any depth. -/
inductive Below (field : Imported → Nesting → String → Place → Prop) (imported : List Imported) :
    Place → Doc → Place → Doc → Prop
  | here (p : Place) (m : Doc) : Below field imported p m p m
  | into {x : Imported} {n : Nesting} {f : String} {q r : Place} {m w u : Doc} {value : Value}
      (hx : x ∈ imported) (hf : field x n f q) (hv : Assoc.get f m = some value)
      (hw : Inside w n value) (h : Below field imported q w r u) :
      Below field imported x.place m r u

/-- Where the data of a schema have those of another, by the types of the fields. -/
def Occurs (st : Importing T) : Place → Doc → Place → Doc → Prop :=
  Below (fun x n f q => ∃ field, x.internal.get f = some field ∧ (nesting field.type).1 = n
    ∧ x.placeOf field = q ∧ st.schemas.Has q) st.imported

/-- Where `FromInternal` and `ToInternal` come to in the data of a schema, by the tables of the
mappers. -/
def Applies (st : Importing T) : Place → Doc → Place → Doc → Prop :=
  Below (fun x n f q => (x.mapper.table n).get f = some q) st.imported

theorem Complete.applies {st : Importing T} (h : Complete st) {p q : Place} {m w : Doc}
    (hoccurs : Occurs st p m q w) : Applies st p m q w := by
  induction hoccurs with
  | here p m => exact .here p m
  | into hx hf hv hw _ ih =>
    obtain ⟨field, hfield, rfl, rfl, hhas⟩ := hf
    exact .into hx (h _ hx _ field hfield hhas) hv hw ih

def Nesting.inTable : Nesting → Table
  | .plain => .subSchemas
  | .array => .subArraySchemas
  | .map => .subMapSchemas

/-- The mapper of a schema, with those that its tables have for its fields. -/
inductive Unfolds (st : Importing T) : Place → MapperTree → Prop
  | node {p : Place} {mappers : List LeafMapper} {root : Bool} {typeName : String}
      {fields : List (String × Table × MapperTree)} {sub : String → MapperTree}
      (distinct : (fields.map Prod.fst).Nodup)
      (listed : ∀ x ∈ st.imported, x.place = p → ∀ n f q, (x.mapper.table n).get f = some q →
        Assoc.get f fields = some (n.inTable, sub f))
      (below : ∀ x ∈ st.imported, x.place = p → ∀ n f q, (x.mapper.table n).get f = some q →
        Unfolds st q (sub f)) :
      Unfolds st p (.node mappers root typeName fields)

theorem Inside.mapped {R : Doc → Doc → Prop} {w : Doc} {v v' : Value} : ∀ {n : Nesting},
    Inside w n v → AtValue R n.inTable v v' → ∃ w', R w w'
  | .plain, hw, h => by
    subst hw
    obtain ⟨w', hR, -⟩ := h
    exact ⟨w', hR⟩
  | .array, ⟨xs, hv, hw⟩, h => by
    subst hv
    obtain ⟨ys, hys, -⟩ := h
    obtain ⟨y, -, w', hR, -⟩ := Gather.forall₂_mem hys hw
    exact ⟨w', hR⟩
  | .map, ⟨m, k, hv, hw⟩, h => by
    subst hv
    obtain ⟨ys, hys, -⟩ := h
    obtain ⟨y, -, -, w', hR, -⟩ := Gather.forall₂_mem hys hw
    exact ⟨w', hR⟩

/-- Where the mapper of another schema is applied, every run of `FromInternal` has a run of it on
the data there. -/
theorem applies_from {st : Importing T} {p q : Place} {m w : Doc} (h : Applies st p m q w)
    {tree : MapperTree} {m' : Doc} (htree : Unfolds st p tree) (hm : tree.From m m') :
    ∃ t w', Unfolds st q t ∧ t.From w w' := by
  induction h generalizing tree m' with
  | here p m => exact ⟨tree, m', htree, hm⟩
  | @into x n f _ _ _ _ _ _ hx hf hv hw _ ih =>
    obtain ⟨distinct, listed, below⟩ := htree
    rw [MapperTree.From] at hm
    obtain ⟨order, nested, hin, hloop, -⟩ := hm
    rw [MapperTree.froms_eq] at hin
    have hat := MapperTree.loop_at distinct
      (hin.perm (by rintro (_ | _ | _) <;> rfl)) hloop f
    rw [listed x hx rfl n f _ hf, hv] at hat
    obtain ⟨v', -, hv'⟩ := hat
    obtain ⟨w', hw'⟩ := hw.mapped hv'
    exact ih (below x hx rfl n f _ hf) hw'

end Occurrences

section Result

variable [DecidableEq T] [Fintype T] {env : ImportEnv} {prog : Program T}

/-- Any imports of types that do not embed themselves come to an end; the mappers are complete
afterwards if and only if the schemas were registered in order, which they are if the types refer to
each other in no circle; and complete mappers are applied wherever their types occur. -/
theorem imports_complete_iff (hhook : HookKeepsNames env.toEnv)
    (hembed : ∀ t, ¬ Relation.TransGen (Embeds prog) t t) (s : Schemas)
    (calls : List (ImportCall T)) : ∃ n, ∀ fuel ≥ n, ∃ st,
      imports env prog fuel calls (.start s) = some st
        ∧ (Complete st ↔ InOrder st.imported)
        ∧ (Complete st → ∀ p m q w, Occurs st p m q w → Applies st p m q w)
        ∧ ((∀ p, ¬ s.Has p) → Layered env prog → Complete st) := by
  refine ⟨Fintype.card T * (Fintype.card T + 2) + Fintype.card T + 3, fun fuel hfuel => ?_⟩
  have hstart : Good Ordered [] (.start s : Importing T) := by
    refine ⟨⟨by simp [Importing.start], by simp [Importing.start, InOrder]⟩, rfl⟩
  obtain ⟨st, hrun, hordered, -⟩ :=
    imports_does (ordered_rule env prog) hhook hembed hfuel calls hstart
  refine ⟨st, hrun, hordered.complete, fun h p m q w => h.applies, fun hempty hlayered => ?_⟩
  have hlayers : Good (InLayers env prog) [] (.start s : Importing T) := by
    refine ⟨⟨fun p hp => absurd hp (hempty p), ?_, ?_⟩, rfl⟩
    · simp [Importing.start]
    · simp [Importing.start, InOrder]
  obtain ⟨st', hrun', hin, -⟩ := imports_does hlayered.rule hhook hembed hfuel calls hlayers
  obtain rfl := Option.some.inj (hrun.symm.trans hrun')
  exact hordered.complete.2 hin.inOrder

end Result

section Nodes

/-- `types.Resource`, `types.Namespaced`, a node and its taints. -/
inductive NodeType where
  | resource
  | namespaced
  | node
  | taint
  deriving DecidableEq

instance : Fintype NodeType :=
  ⟨{.resource, .namespaced, .node, .taint}, fun t => by cases t <;> decide⟩

/-- Nodes with taints; if `next`, a node also has the node next to it. -/
def nodes (next : Bool) : Program NodeType where
  struct
    | .resource => { name := "Resource", fields := [] }
    | .namespaced => { name := "Namespaced", fields := [] }
    | .node =>
      { name := "Node"
        fields := [{ name := "Name", type := .string },
          { name := "Taints", type := .slice (.struct .taint), json := "taints,omitempty" }]
          ++ if next then [{ name := "Next", type := .ptr (.struct .node) }] else [] }
    | .taint => { name := "Taint", fields := [{ name := "Key", type := .string }] }
  resourceType := .resource
  namespacedType := .namespaced
  typeNames _ := none

def plainImport : ImportEnv where
  toEnv := Schemas.plainEnv
  isUpper := Char.isUpper
  toLower := Char.toLower
  convert := Parse.plainConvert

/-- A mapper that leaves the schema as it is. -/
def plainMapper : Mapper NodeType where
  modifySchema schema _ st := (.ok schema, st.schemas)
  keeps_schema h := by
    cases h
    exact ⟨rfl, rfl, rfl⟩
  keeps_places _ _ _ _ _ := rfl

/-- Nodes are imported, with a mapper. -/
def nodeCall : ImportCall NodeType where
  table :=
    { mappers := (∅ : SortedMap String _).set "/v3"
        ((∅ : SortedMap String _).set "node" [plainMapper])
      DefaultMappers := none
      DefaultPostMappers := none }
  version := { version := "v3", path := "/v3" }
  type := .node

/-- The mapper of a node has no entry for the node next to it. -/
theorem nodes_next_incomplete :
    ∃ st, imports plainImport (nodes true) 31 [nodeCall] (.start NewSchemas) = some st
      ∧ ¬ Complete st := by
  have hend : (imports plainImport (nodes true) 31 [nodeCall] (.start NewSchemas)).map
      (fun st => st.imported.map fun x => (x.place, (x.internal.get "next").map (·.type),
        x.mapper.subSchemas.get "next"))
      = some [(("/v3", "taint"), none, none), (("/v3", "node"), some "node", none)] := by
    decide +kernel
  have hnode : (imports plainImport (nodes true) 31 [nodeCall] (.start NewSchemas)).all
      (fun st => (st.schemas.schemasByPath.get "/v3" "node").isSome) = true := by
    decide +kernel
  obtain ⟨st, hrun, himported⟩ := Option.map_eq_some_iff.1 hend
  rw [hrun, Option.all_some] at hnode
  refine ⟨st, hrun, fun hcomplete => ?_⟩
  obtain ⟨x, hx, hxval⟩ : ∃ x ∈ st.imported, (x.place, (x.internal.get "next").map (·.type),
      x.mapper.subSchemas.get "next") = (("/v3", "node"), some "node", none) :=
    List.mem_map.1 (by rw [himported]; simp)
  simp only [Prod.mk.injEq] at hxval
  obtain ⟨hplace, hnext, hentry⟩ := hxval
  obtain ⟨field, hfield, htype⟩ := Option.map_eq_some_iff.1 hnext
  have hresolve : x.placeOf field = ("/v3", "node") := by
    rw [Imported.placeOf, htype, show nesting "node" = (.plain, "node") by decide, resolve,
      show splitName "node" = none by decide, Option.getD_none, (Prod.mk.inj hplace).1]
  have hfound := hcomplete x hx "next" field hfield (by rw [hresolve]; exact hnode)
  rw [htype, show nesting "node" = (.plain, "node") by decide] at hfound
  exact absurd (hentry.symm.trans hfound) (by simp)

theorem nodes_layered : Layered plainImport (nodes false) := by
  have hnames : ∀ t, (splitName (getTypeName plainImport (nodes false) t) = none
      ∧ hasSuffix (getTypeName plainImport (nodes false) t) "]" = false)
      ∧ getTypeName plainImport (nodes false) t ∉ basicTypes := by
    intro t
    cases t <;> decide +kernel
  have hfields : ∀ t, ∀ field ∈ ((nodes false).struct t).fields,
      applyTag plainImport field (newField field) = .ok (newField field)
        ∧ (newField field).type = "" ∧ field.anonymous = false
        ∧ ∀ u ∈ field.type.structs, t = .node ∧ u = .taint := by
    intro t field hfield
    cases t with
    | resource => simp [nodes] at hfield
    | namespaced => simp [nodes] at hfield
    | node =>
      simp only [nodes, Bool.false_eq_true, if_false, List.append_nil, List.mem_cons,
        List.not_mem_nil, or_false] at hfield
      rcases hfield with rfl | rfl
      · exact ⟨rfl, rfl, rfl, by simp [GoType.structs]⟩
      · exact ⟨rfl, rfl, rfl, by simp [GoType.structs]⟩
    | taint =>
      simp only [nodes, List.mem_singleton] at hfield
      subst hfield
      exact ⟨rfl, rfl, rfl, by simp [GoType.structs]⟩
  have hedge : ∀ {t u}, Refers plainImport (nodes false) t u ∨ Embeds (nodes false) t u →
      t = .node ∧ u = .taint := by
    rintro t u (⟨field, hfield, -, -, -, -, -, hu⟩ | ⟨field, hfield, -, -, hanonymous, -, -⟩)
    · exact (hfields t field hfield).2.2.2 u hu
    · rw [(hfields t field hfield).2.2.1] at hanonymous
      cases hanonymous
  refine ⟨fun t ht => ?_, fun t => (hnames t).1.1, fun t => (hnames t).1.2, fun t => (hnames t).2,
    fun t field hfield f hf htype => ?_⟩
  · obtain ⟨u, hfirst, -⟩ := Relation.TransGen.head'_iff.1 ht
    obtain ⟨w, -, hlast⟩ := Relation.TransGen.tail'_iff.1 ht
    exact absurd ((hedge hfirst).1.symm.trans (hedge hlast).2) (by decide)
  · rw [(hfields t field hfield).1] at hf
    cases hf
    exact absurd (hfields t field hfield).2.1 htype

theorem nodes_complete : ∃ n, ∀ fuel ≥ n, ∃ st,
    imports plainImport (nodes false) fuel [nodeCall] (.start NewSchemas) = some st
      ∧ Complete st := by
  have hembed : ∀ t, ¬ Relation.TransGen (Embeds (nodes false)) t t := fun t ht =>
    nodes_layered.acyclic t (ht.lift id fun _ _ h => .inr h)
  have hhook : HookKeepsNames plainImport.toEnv := fun _ h => by cases h
  obtain ⟨n, hn⟩ := imports_complete_iff hhook hembed NewSchemas [nodeCall]
  refine ⟨n, fun fuel hfuel => ?_⟩
  obtain ⟨st, hrun, -, -, hlayered⟩ := hn fuel hfuel
  refine ⟨st, hrun, hlayered (fun p hp => ?_) nodes_layered⟩
  simp [Schemas.Has, NewSchemas, ByPath.get, ByPath.empty] at hp

end Nodes

end Norman.Types
