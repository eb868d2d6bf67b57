import Norman.Proofs.Imports

/-!
# Chains of embeddings

Adding a schema that is embedded takes its target out and adds it again, and so does removing one;
if the target is embedded itself, this goes on with the target of the target. What matters for that
are the names of the registered schemas and where they are embedded (`Shape`), which all this leaves
as it is: to add a schema puts its shape in its place, and to remove one takes it out, whatever
happens to the fields of others (`effect`). So the calls return, whichever of several schemas is
found, if there is no endless chain of targets (`returns`), and not otherwise: then the schemas that
are found may be those of the chain, for ever (`stuck`).
-/

namespace Norman.Types

section Shape

/-- What decides where a schema is found, and what it is embedded into. -/
structure Shape where
  id : String
  version : APIVersion
  embed : Bool
  embedType : String
  pluralName : String
  deriving DecidableEq

def Schema.shape (x : Schema) : Shape where
  id := x.id
  version := x.version
  embed := x.embed
  embedType := x.embedType
  pluralName := x.pluralName

/-- `setupDefaults` has nothing to add to the names. -/
def Shape.Settled (y : Shape) : Prop :=
  y.id ≠ "" → y.version.path ≠ "" → y.version.version ≠ "" → y.pluralName ≠ ""

/-- The hook leaves the shape of a schema as it is. -/
def Env.Keeps (env : Env) : Prop :=
  ∀ hook, env.addHook = some hook → ∀ x, (hook x).shape = x.shape

variable {env : Env} {x : Schema}

theorem append_ne_empty {s : String} (h : s ≠ "") (t : String) : t ++ s ≠ "" := by
  intro ht
  have hlen := congrArg String.length ht
  rw [String.length_append, String.length_empty] at hlen
  exact h (String.length_eq_zero_iff.1 (by omega))

theorem GuessPluralName_ne_empty {name : String} (h : name ≠ "") :
    GuessPluralName env name ≠ "" := by
  unfold GuessPluralName
  rw [if_neg h]
  split_ifs
  · exact h
  · exact append_ne_empty (by decide) _
  · exact append_ne_empty (by decide) _
  · exact append_ne_empty (by decide) _

/-- What `setupDefaults` does to the shape: it may have to guess the plural. -/
theorem setupDefaults_cases (env : Env) (x : Schema) :
    (x.shape.Settled ∧ (setupDefaults env x).1.shape = x.shape)
      ∨ (x.id ≠ "" ∧ (setupDefaults env x).1.shape
        = { x.shape with pluralName := GuessPluralName env x.id }
        ∧ ¬ x.shape.Settled) := by
  unfold setupDefaults
  by_cases hid : x.id = ""
  · exact .inl ⟨fun h => absurd hid h, by simp [hid, Schema.shape]⟩
  · by_cases hversion : x.version.path = "" ∨ x.version.version = ""
    · refine .inl ⟨fun _ hpath hver => (hversion.elim hpath hver).elim, ?_⟩
      simp only [if_neg hid, if_pos hversion]
      rfl
    · simp only [if_neg hid, if_neg hversion]
      rw [not_or] at hversion
      by_cases hplural : x.pluralName = ""
      · exact .inr ⟨hid, by simp only [Schema.shape, if_pos hplural],
          fun h => h hid hversion.1 hversion.2 hplural⟩
      · exact .inl ⟨fun _ _ _ => hplural, by simp only [Schema.shape, if_neg hplural]⟩

theorem setupDefaults_shape (h : x.shape.Settled) : (setupDefaults env x).1.shape = x.shape := by
  rcases setupDefaults_cases env x with ⟨-, heq⟩ | ⟨-, -, hno⟩
  · exact heq
  · exact absurd h hno

theorem setupDefaults_settled : (setupDefaults env x).1.shape.Settled := by
  rcases setupDefaults_cases env x with ⟨h, heq⟩ | ⟨hid, heq, -⟩
  · rwa [heq]
  · rw [heq]
    exact fun _ _ _ => GuessPluralName_ne_empty hid

theorem prepare_shape_eq (hk : env.Keeps) (x : Schema) :
    (prepare env x).shape = (setupDefaults env x).1.shape := by
  unfold prepare
  split
  · rfl
  · rename_i hook hhook
    exact hk hook hhook _

theorem prepare_settled (hk : env.Keeps) (x : Schema) : (prepare env x).shape.Settled :=
  prepare_shape_eq hk x ▸ setupDefaults_settled

theorem prepare_shape (hk : env.Keeps) (h : x.shape.Settled) : (prepare env x).shape = x.shape :=
  (prepare_shape_eq hk x).trans (setupDefaults_shape h)

end Shape

section Shapes

/-- The shapes by path and id. -/
abbrev Shapes := String → String → Option Shape

namespace Shapes

variable (S : Shapes) (y : Shape)

/-- A shape goes to its own place. -/
def put : Shapes := fun path id => if path = y.version.path ∧ id = y.id then some y else S path id

def drop : Shapes := fun path id => if path = y.version.path ∧ id = y.id then none else S path id

def Settled : Prop := ∀ ⦃path id y⦄, S path id = some y → y.Settled

variable {S y}

theorem put_drop (h : S y.version.path y.id = some y) : (S.drop y).put y = S := by
  funext path id
  unfold put drop
  split_ifs with hplace
  · rw [hplace.1, hplace.2, h]
  · rfl

theorem Settled.put (hS : S.Settled) (hy : y.Settled) : (S.put y).Settled := by
  intro path id z hz
  unfold Shapes.put at hz
  split_ifs at hz
  · cases hz
    exact hy
  · exact hS hz

theorem Settled.drop (hS : S.Settled) : (S.drop y).Settled := by
  intro path id z hz
  unfold Shapes.drop at hz
  split_ifs at hz
  exact hS hz

end Shapes

namespace Schemas

variable {env : Env} {s s' : Schemas} {x t : Schema} {replace : Bool}

def shapes (s : Schemas) : Shapes := fun path id => (s.schemasByPath.get path id).map Schema.shape

theorem shapes_of_get (h : s.schemasByPath.get x.version.path x.id = some x) :
    s.shapes x.shape.version.path x.shape.id = some x.shape := by
  show (s.schemasByPath.get x.version.path x.id).map Schema.shape = _
  rw [h, Option.map_some]

theorem shapes_store : (s.store x replace).shapes
    = if s.stores x replace then s.shapes.put x.shape else s.shapes := by
  funext path id
  by_cases hst : s.stores x replace = true
  · rw [if_pos hst]
    simp only [shapes, Schemas.store, hst, if_true, ByPath.get_put, Shapes.put]
    split_ifs with h1 h2 h2
    · rfl
    · exact absurd h1 h2
    · exact absurd h2 h1
    · rfl
  · rw [if_neg hst]
    simp only [shapes, Schemas.store, hst, Bool.false_eq_true, if_false]

theorem shapes_drop : (s.drop x).shapes = s.shapes.drop x.shape := by
  funext path id
  simp only [shapes, Schemas.drop, ByPath.get_delete, Shapes.drop]
  split_ifs with h1 h2 h2
  · rfl
  · exact absurd h1 h2
  · exact absurd h2 h1
  · rfl

theorem settled_store (hs : s.shapes.Settled) (hx : x.shape.Settled) :
    (s.store x replace).shapes.Settled := by
  rw [shapes_store]
  split_ifs
  · exact hs.put hx
  · exact hs

/-- A schema goes back to the place it was taken from. -/
theorem shapes_restore (ht : s.schemasByPath.get t.version.path t.id = some t)
    (hs' : s'.shapes = s.shapes.drop t.shape) (hx : x.shape = t.shape) :
    (s'.store x false).shapes = s.shapes := by
  have hpath : x.version.path = t.version.path := congrArg (fun y => y.version.path) hx
  have hid : x.id = t.id := congrArg Shape.id hx
  have hfree : s'.schemasByPath.get x.version.path x.id = none := by
    have hnone : s'.shapes t.version.path t.id = none := by
      rw [hs']
      exact if_pos ⟨rfl, rfl⟩
    rw [hpath, hid]
    exact Option.map_eq_none_iff.1 hnone
  have hst : s'.stores x false = true := by simp only [stores, hfree]
  rw [shapes_store, if_pos hst, hs', hx, Shapes.put_drop (shapes_of_get ht)]

end Schemas

end Shapes

section Targets

variable {env : Env} {s : Schemas} {x t : Schema} {S S' : Shapes} {y z : Shape}

/-- A schema of this shape may be found as the target of one of that shape: the one that has the
name, or else any that has it up to case. -/
def Target (env : Env) (S : Shapes) (y z : Shape) : Prop :=
  y.embed = true ∧
    match S (resolve y.version y.embedType).1 (resolve y.version y.embedType).2 with
    | some w => z = w
    | none => ∃ id, S (resolve y.version y.embedType).1 id = some z
        ∧ (env.equalFold z.id (resolve y.version y.embedType).2
          || env.equalFold z.pluralName (resolve y.version y.embedType).2) = true

theorem target_iff_of_get {w : Schema} (h : s.schemasByPath.get (resolve x.version x.embedType).1
    (resolve x.version x.embedType).2 = some w) :
    Target env s.shapes x.shape z ↔ x.embed = true ∧ z = w.shape := by
  have hw : s.shapes (resolve x.shape.version x.shape.embedType).1
      (resolve x.shape.version x.shape.embedType).2 = some w.shape := by
    exact congrArg (Option.map Schema.shape) h
  simp only [Target, hw]
  rfl

theorem target_iff_of_none (h : s.schemasByPath.get (resolve x.version x.embedType).1
    (resolve x.version x.embedType).2 = none) :
    Target env s.shapes x.shape z ↔ x.embed = true
      ∧ ∃ w ∈ s.matching env (resolve x.version x.embedType), z = w.shape := by
  have hw : s.shapes (resolve x.shape.version x.shape.embedType).1
      (resolve x.shape.version x.shape.embedType).2 = none := by
    exact congrArg (Option.map Schema.shape) h
  simp only [Target, hw, mem_matching]
  refine and_congr_right fun _ => ⟨?_, ?_⟩
  · rintro ⟨id, hz, hmatch⟩
    obtain ⟨w, hget, rfl⟩ := Option.map_eq_some_iff.1 hz
    exact ⟨w, ⟨id, hget, hmatch⟩, rfl⟩
  · rintro ⟨w, ⟨id, hget, hmatch⟩, rfl⟩
    exact ⟨id, congrArg (Option.map Schema.shape) hget, hmatch⟩

/-- What is found is registered, and a target. -/
theorem target_of_found (hx : x.embed = true)
    (h : s.doSchema env (some x.version) x.embedType = some t) :
    Target env s.shapes x.shape t.shape ∧ s.schemasByPath.get t.version.path t.id = some t := by
  rw [doSchema_eq] at h
  rcases hw : s.schemasByPath.get (resolve x.version x.embedType).1
      (resolve x.version x.embedType).2 with _ | w
  · rw [hw, Option.none_or] at h
    have hmem := env.pick_mem h
    obtain ⟨id, hget, -⟩ := mem_matching.1 hmem
    exact ⟨(target_iff_of_none hw).2 ⟨hx, t, hmem, rfl⟩, Schemas.registered_iff.1 ⟨_, _, hget⟩⟩
  · rw [hw, Option.some_or] at h
    cases h
    exact ⟨(target_iff_of_get hw).2 ⟨hx, rfl⟩, Schemas.registered_iff.1 ⟨_, _, hw⟩⟩

theorem not_target_of_none (h : s.doSchema env (some x.version) x.embedType = none) :
    ¬ Target env s.shapes x.shape z := by
  rw [doSchema_eq, Option.or_eq_none_iff] at h
  rw [target_iff_of_none h.1, env.pick_none h.2]
  simp

/-- Taking out a schema makes no new targets, except for those it was the target of. -/
theorem target_drop (hz : S z.version.path z.id = some z) {w u : Shape}
    (h : Target env (S.drop z) w u) : Target env S w u ∨ Target env S w z := by
  obtain ⟨hembed, h⟩ := h
  unfold Target
  by_cases hplace : (resolve w.version w.embedType).1 = z.version.path
      ∧ (resolve w.version w.embedType).2 = z.id
  · refine .inr ⟨hembed, ?_⟩
    rw [hplace.1, hplace.2, hz]
  · refine .inl ⟨hembed, ?_⟩
    have hsame : S.drop z (resolve w.version w.embedType).1 (resolve w.version w.embedType).2
        = S (resolve w.version w.embedType).1 (resolve w.version w.embedType).2 := if_neg hplace
    rw [hsame] at h
    rcases hv : S (resolve w.version w.embedType).1 (resolve w.version w.embedType).2 with _ | v
    · rw [hv] at h
      obtain ⟨id, hu, hmatch⟩ := h
      unfold Shapes.drop at hu
      split_ifs at hu
      exact ⟨id, hu, hmatch⟩
    · rw [hv] at h
      exact h

theorem not_transGen_self {α : Type} {r : α → α → Prop} {a : α}
    (h : Acc (Relation.TransGen r) a) : ¬ Relation.TransGen r a a := by
  induction h with
  | intro a _ ih => exact fun haa => ih a haa haa

/-- A choice of a schema whose shape has a property, where there is one. -/
noncomputable def Env.choosing (env : Env) (bad : Shape → Prop) : Env :=
  open Classical in
  { env with
    pick := fun l => if h : ∃ x ∈ l, bad x.shape then some h.choose else l.head?
    pick_mem := by
      intro l x hx
      split_ifs at hx with h
      · cases hx
        exact h.choose_spec.1
      · exact List.mem_of_head? hx
    pick_none := by
      intro l hl
      split_ifs at hl
      exact List.head?_eq_none_iff.1 hl }

theorem found_choosing {bad : Shape → Prop} (h : Target env s.shapes x.shape z) (hz : bad z) :
    ∃ t, s.doSchema (env.choosing bad) (some x.version) x.embedType = some t ∧ bad t.shape := by
  rw [doSchema_eq]
  rcases hw : s.schemasByPath.get (resolve x.version x.embedType).1
      (resolve x.version x.embedType).2 with _ | w
  · obtain ⟨-, w, hmem, rfl⟩ := (target_iff_of_none hw).1 h
    have hbad : ∃ w ∈ s.matching (env.choosing bad) (resolve x.version x.embedType), bad w.shape :=
      ⟨w, hmem, hz⟩
    exact ⟨hbad.choose, by rw [Option.none_or]; exact dif_pos hbad, hbad.choose_spec.2⟩
  · obtain ⟨-, rfl⟩ := (target_iff_of_get hw).1 h
    exact ⟨w, by rw [Option.some_or], hz⟩

end Targets

namespace Schemas

section Reput

variable {env : Env} {s s' s₁ : Schemas} {x t : Schema} {replace : Bool} {fuel : ℕ}

/-- A target is taken out and added again, with other fields. -/
def reput (env : Env) (fuel : ℕ) (s : Schemas) (t : Schema) (fields : SortedMap String Field) :
    Option Schemas :=
  (doRemoveSchema env fuel s t).bind fun s =>
    doAddSchema env fuel s { t with resourceFields := fields } false

theorem doAddSchema_reput (he : (prepare env x).embed = true)
    (ht : (s.stored env x replace).doSchema env (some (prepare env x).version)
      (prepare env x).embedType = some t) (fuel : ℕ) :
    doAddSchema env (fuel + 1) s x replace = reput env fuel (s.stored env x replace) t
      (embedded t (prepare env x)).resourceFields := by
  conv_lhs => unfold doAddSchema
  unfold stored at ht
  simp only [he, if_true, ht]
  rfl

theorem doRemoveSchema_reput (he : x.embed = true)
    (ht : (s.drop x).doSchema env (some x.version) x.embedType = some t) (fuel : ℕ) :
    doRemoveSchema env (fuel + 1) s x
      = reput env fuel (s.drop x) t (unembedded t x).resourceFields := by
  conv_lhs => unfold doRemoveSchema
  simp only [he, if_true, ht]
  rfl

/-- A registered schema with other fields has its shape again after it was added. -/
theorem prepare_fields (fields : SortedMap String Field) (hk : env.Keeps) (hs : s.shapes.Settled)
    (ht : s.schemasByPath.get t.version.path t.id = some t) :
    (prepare env { t with resourceFields := fields }).shape = t.shape := by
  have hsettled : t.shape.Settled := hs (shapes_of_get ht)
  exact prepare_shape hk hsettled

end Reput

end Schemas

open Schemas

/-- The calls, whatever the code they call does. -/
inductive Op where
  | AddSchema (schema : Schema)
  | ForceAddSchema (schema : Schema)
  | RemoveSchema (schema : Schema)

namespace Op

def call (env : Env) (fuel : ℕ) : Op → Call
  | .AddSchema schema => .AddSchema env fuel schema
  | .ForceAddSchema schema => .ForceAddSchema env fuel schema
  | .RemoveSchema schema => .RemoveSchema env fuel schema

/-- The shapes among which the targets are: with the schema in its place, or without it. -/
def shapes (env : Env) (s : Schemas) : Op → Shapes
  | .AddSchema schema => (s.store (prepare env schema) false).shapes
  | .ForceAddSchema schema => (s.store (prepare env schema) true).shapes
  | .RemoveSchema schema => (s.drop schema).shapes

/-- Where the chain of targets starts. -/
def start (env : Env) : Op → Shape
  | .AddSchema schema => (prepare env schema).shape
  | .ForceAddSchema schema => (prepare env schema).shape
  | .RemoveSchema schema => schema.shape

def run (env : Env) (fuel : ℕ) (s : Schemas) : Op → Option Schemas
  | .AddSchema schema => doAddSchema env fuel s schema false
  | .ForceAddSchema schema => doAddSchema env fuel s schema true
  | .RemoveSchema schema => doRemoveSchema env fuel s schema

/-- The schema whose target is looked for. -/
def schema (env : Env) : Op → Schema
  | .AddSchema schema => prepare env schema
  | .ForceAddSchema schema => prepare env schema
  | .RemoveSchema schema => schema

/-- The registry when the target is looked for. -/
def applied (env : Env) (s : Schemas) : Op → Schemas
  | .AddSchema schema => s.stored env schema false
  | .ForceAddSchema schema => s.stored env schema true
  | .RemoveSchema schema => s.drop schema

variable {env : Env} {s s' : Schemas} {o : Op} {fuel : ℕ}

theorem shapes_eq : o.shapes env s = (o.applied env s).shapes := by
  cases o <;> rfl

theorem start_eq : o.start env = (o.schema env).shape := by
  cases o <;> rfl

theorem step_call : s.step (o.call env fuel) = (o.run env fuel s).map fun s => (s, []) := by
  cases o <;> rfl

theorem run_of_none (h : (o.schema env).embed = true → (o.applied env s).doSchema env
      (some (o.schema env).version) (o.schema env).embedType = none) :
    o.run env fuel s = some (o.applied env s) := by
  cases o with
  | AddSchema x | ForceAddSchema x => exact doAddSchema_eq fuel h
  | RemoveSchema x => exact doRemoveSchema_eq fuel h

theorem run_of_some {t : Schema} (he : (o.schema env).embed = true)
    (ht : (o.applied env s).doSchema env (some (o.schema env).version) (o.schema env).embedType
      = some t) :
    ∃ fields, o.run env 0 s = none
      ∧ ∀ fuel, o.run env (fuel + 1) s = reput env fuel (o.applied env s) t fields := by
  cases o with
  | AddSchema x | ForceAddSchema x =>
    refine ⟨_, ?_, doAddSchema_reput he ht⟩
    simp only [schema, applied, stored] at he ht
    show doAddSchema env 0 s x _ = none
    unfold doAddSchema
    simp only [he, if_true, ht]
  | RemoveSchema x =>
    refine ⟨_, ?_, doRemoveSchema_reput he ht⟩
    simp only [schema, applied] at he ht
    show doRemoveSchema env 0 s x = none
    unfold doRemoveSchema
    simp only [he, if_true, ht]

/-- A call, by what is found. -/
theorem found (env : Env) (s : Schemas) (o : Op) :
    ((∀ z, ¬ Target env (o.applied env s).shapes (o.schema env).shape z)
        ∧ ∀ fuel, o.run env fuel s = some (o.applied env s))
      ∨ ∃ t fields, (o.schema env).embed = true
        ∧ (o.applied env s).doSchema env (some (o.schema env).version) (o.schema env).embedType
          = some t
        ∧ o.run env 0 s = none
        ∧ ∀ fuel, o.run env (fuel + 1) s = reput env fuel (o.applied env s) t fields := by
  by_cases he : (o.schema env).embed = true
  · rcases ht : (o.applied env s).doSchema env (some (o.schema env).version)
        (o.schema env).embedType with _ | t
    · exact .inl ⟨fun z => not_target_of_none ht, fun fuel => run_of_none fun _ => ht⟩
    · obtain ⟨fields, hrun⟩ := run_of_some he ht
      exact .inr ⟨t, fields, he, rfl, hrun⟩
  · exact .inl ⟨fun z h => he h.1, fun fuel => run_of_none fun h => absurd h he⟩

/-- More fuel changes nothing. -/
theorem run_succ (h : o.run env fuel s = some s') : o.run env (fuel + 1) s = some s' := by
  induction fuel generalizing s s' o with
  | zero =>
    rcases o.found env s with ⟨-, heq⟩ | ⟨t, fields, -, -, hzero, -⟩
    · rwa [heq] at h ⊢
    · rw [hzero] at h
      cases h
  | succ fuel ih =>
    rcases o.found env s with ⟨-, heq⟩ | ⟨t, fields, -, -, -, hsucc⟩
    · rwa [heq] at h ⊢
    · rw [hsucc] at h ⊢
      obtain ⟨s₁, h₁, h₂⟩ := Option.bind_eq_some_iff.1 h
      exact Option.bind_eq_some_iff.2
        ⟨s₁, ih (o := .RemoveSchema t) h₁, ih (o := .AddSchema _) h₂⟩

theorem run_mono {fuel' : ℕ} (hle : fuel ≤ fuel') (h : o.run env fuel s = some s') :
    o.run env fuel' s = some s' := by
  induction fuel', hle using Nat.le_induction with
  | base => exact h
  | succ fuel' _ ih => exact run_succ ih

theorem settled_applied (hk : env.Keeps) (hs : s.shapes.Settled) (o : Op) :
    (o.applied env s).shapes.Settled := by
  cases o with
  | AddSchema x | ForceAddSchema x => exact settled_store hs (prepare_settled hk x)
  | RemoveSchema x =>
    rw [applied, shapes_drop]
    exact hs.drop

/-- To add a schema puts its shape in its place, and to remove one takes it out, and nothing else
changes. -/
theorem effect (hk : env.Keeps) (hs : s.shapes.Settled) (h : o.run env fuel s = some s') :
    s'.shapes = (o.applied env s).shapes := by
  induction fuel generalizing s s' o with
  | zero =>
    rcases o.found env s with ⟨-, heq⟩ | ⟨t, fields, -, -, hzero, -⟩
    · rw [heq] at h
      cases h
      rfl
    · rw [hzero] at h
      cases h
  | succ fuel ih =>
    rcases o.found env s with ⟨-, heq⟩ | ⟨t, fields, he, ht, -, hsucc⟩
    · rw [heq] at h
      cases h
      rfl
    · rw [hsucc] at h
      obtain ⟨s₁, h₁, h₂⟩ := Option.bind_eq_some_iff.1 h
      have hset := settled_applied hk hs o
      obtain ⟨-, hget⟩ := target_of_found he ht
      have hs₁ : s₁.shapes = (o.applied env s).shapes.drop t.shape :=
        (ih (o := .RemoveSchema t) hset h₁).trans shapes_drop
      rw [ih (o := .AddSchema _) (hs₁ ▸ hset.drop) h₂]
      exact shapes_restore hget hs₁ (prepare_fields fields hk hset hget)

end Op

namespace Schemas

section Returns

variable {env : Env} {S S' : Shapes} {y z : Shape}

/-- There is no endless chain of targets. -/
def Ends (env : Env) (S : Shapes) (y : Shape) : Prop := Acc (fun z y => Target env S y z) y

/-- From `y` on, the targets among `S'` are targets among `S`. -/
def Within (env : Env) (S' S : Shapes) (y : Shape) : Prop :=
  ∀ ⦃w u⦄, Relation.ReflTransGen (Target env S) y w → Target env S' w u → Target env S w u

theorem Within.refl (env : Env) (S : Shapes) (y : Shape) : Within env S S y := fun _ _ _ h => h

theorem Within.tail (h : Within env S' S y) (hz : Target env S y z) : Within env S' S z :=
  fun _ _ hw => h (.head hz hw)

/-- A target may be taken out: its name leads to others then, but only from those it was the target
of, and they are not on the chain. -/
theorem Within.drop (h : Within env S' S y) (hz : Target env S y z) (hends : Ends env S z)
    (hget : S' z.version.path z.id = some z) : Within env (S'.drop z) S z := by
  intro w u hw hu
  rcases target_drop hget hu with hu | hcycle
  · exact h.tail hz hw hu
  · have htail : Relation.TransGen (fun z y => Target env S y z) z z := by
      have hback : Relation.TransGen (Target env S) z z := .tail' hw (h.tail hz hw hcycle)
      exact Relation.transGen_swap.1 hback
    exact absurd htail (not_transGen_self hends.transGen)

/-- Without an endless chain the calls return. -/
theorem returns (hk : env.Keeps) (hends : Ends env S y) (hwithin : Within env S' S y)
    {s : Schemas} {o : Op} (hs : s.shapes.Settled) (hshapes : (o.applied env s).shapes = S')
    (hx : (o.schema env).shape = y) : ∃ fuel s', o.run env fuel s = some s' := by
  induction hends generalizing S' s o with
  | intro y hy ih =>
    rcases o.found env s with ⟨-, heq⟩ | ⟨t, fields, he, ht, -, hsucc⟩
    · exact ⟨0, _, heq 0⟩
    · have hset := Op.settled_applied hk hs o
      obtain ⟨htarget, hget⟩ := target_of_found he ht
      have htarget' : Target env S y t.shape := hwithin .refl (hshapes ▸ hx ▸ htarget)
      have hget' : S' t.shape.version.path t.shape.id = some t.shape := hshapes ▸ shapes_of_get hget
      obtain ⟨fuel₁, s₁, h₁⟩ := ih t.shape htarget'
        (hwithin.drop htarget' (hy _ htarget') hget') (o := .RemoveSchema t) hset
        (shapes_drop.trans (by rw [hshapes])) rfl
      have hs₁ : s₁.shapes = (o.applied env s).shapes.drop t.shape :=
        (Op.effect hk hset h₁).trans shapes_drop
      have hprep := prepare_fields fields hk hset hget
      obtain ⟨fuel₂, s₂, h₂⟩ := ih t.shape htarget' (hwithin.tail htarget')
        (s := s₁) (o := .AddSchema { t with resourceFields := fields }) (hs₁ ▸ hset.drop)
        ((shapes_restore hget hs₁ hprep).trans hshapes) hprep
      exact ⟨max fuel₁ fuel₂ + 1, s₂, (hsucc _).trans (Option.bind_eq_some_iff.2
        ⟨s₁, Op.run_mono (le_max_left _ _) h₁, Op.run_mono (le_max_right _ _) h₂⟩)⟩

theorem ends_of_get {w : Shape}
    (hS : S (resolve y.version y.embedType).1 (resolve y.version y.embedType).2 = some w)
    (hw : w.embed = false) : Ends env S y := by
  refine .intro y fun z hz => .intro z fun u hu => ?_
  obtain ⟨-, hz⟩ := hz
  rw [hS] at hz
  rw [hz] at hu
  exact absurd hu.1 (by rw [hw]; decide)

end Returns

section Stuck

variable {env : Env} {S : Shapes} {s : Schemas} {x t : Schema} {y z : Shape} {bad : Shape → Prop}

/-- What is bad has a target, and the target that is found is bad again. -/
structure Leads (env : Env) (S : Shapes) (bad : Shape → Prop) : Prop where
  target : ∀ {y}, bad y → ∃ z, Target env S y z
  found : ∀ {s : Schemas} {x t : Schema}, s.shapes = S → bad x.shape →
    s.doSchema env (some x.version) x.embedType = some t → bad t.shape

/-- Where everything found is bad again, a call does not return. -/
theorem stuck (hk : env.Keeps) (hleads : Leads env S bad) (fuel : ℕ) {o : Op}
    (hs : s.shapes.Settled) (hshapes : (o.applied env s).shapes = S)
    (hx : bad (o.schema env).shape) : o.run env fuel s = none := by
  induction fuel generalizing s o with
  | zero =>
    rcases o.found env s with ⟨hno, -⟩ | ⟨t, fields, -, -, hzero, -⟩
    · obtain ⟨z, htarget⟩ := hleads.target hx
      exact absurd (hshapes ▸ htarget) (hno z)
    · exact hzero
  | succ fuel ih =>
    rcases o.found env s with ⟨hno, -⟩ | ⟨t, fields, he, ht, -, hsucc⟩
    · obtain ⟨z, htarget⟩ := hleads.target hx
      exact absurd (hshapes ▸ htarget) (hno z)
    · have hset := Op.settled_applied hk hs o
      obtain ⟨-, hget⟩ := target_of_found he ht
      rw [hsucc, reput]
      rcases h₁ : doRemoveSchema env fuel (o.applied env s) t with _ | s₁
      · rfl
      · have hs₁ : s₁.shapes = (o.applied env s).shapes.drop t.shape :=
          (Op.effect (o := .RemoveSchema t) hk hset h₁).trans shapes_drop
        have hprep := prepare_fields fields hk hset hget
        refine ih (o := .AddSchema _) (hs₁ ▸ hset.drop) ?_ ?_
        · exact (shapes_restore hget hs₁ hprep).trans hshapes
        · exact hprep.symm ▸ hleads.found hshapes hx ht

/-- The code when it finds the schemas on an endless chain wherever it can. -/
noncomputable def endless (env : Env) (S : Shapes) : Env := env.choosing fun z => ¬ Ends env S z

theorem not_ends (h : ¬ Ends env S y) : ∃ z, Target env S y z ∧ ¬ Ends env S z := by
  by_contra hno
  simp only [not_exists, not_and, not_not] at hno
  exact h (.intro y hno)

theorem leads_endless (env : Env) (S : Shapes) :
    Leads (endless env S) S fun z => ¬ Ends env S z where
  target := fun hy => (not_ends hy).imp fun _ hz => hz.1
  found := by
    intro s x t hshapes hx ht
    obtain ⟨z, htarget, hz⟩ := not_ends hx
    rw [← hshapes] at htarget
    obtain ⟨t', ht', hbad⟩ :
        ∃ t', s.doSchema (endless env S) (some x.version) x.embedType = some t'
          ∧ ¬ Ends env S t'.shape := found_choosing htarget hz
    obtain rfl : t = t' := Option.some.inj (ht.symm.trans ht')
    exact hbad

/-- A schema that is embedded into itself. -/
theorem leads_self (env : Env) (hy : y.embed = true)
    (hS : S (resolve y.version y.embedType).1 (resolve y.version y.embedType).2 = some y) :
    Leads env S fun z => z = y where
  target := by
    rintro z rfl
    refine ⟨z, hy, ?_⟩
    rw [hS]
  found := by
    rintro s x t rfl rfl ht
    obtain ⟨-, htarget⟩ := (target_of_found hy ht).1
    rw [hS] at htarget
    exact htarget

end Stuck

end Schemas

section Calls

/-- The code a call calls. -/
def Call.env : Call → Env
  | .AddSchema env _ _ => env
  | .ForceAddSchema env _ _ => env
  | .RemoveSchema env _ _ => env

/-- The same code, but for which of several schemas is found. -/
structure Env.Like (env' env : Env) : Prop where
  equalFold : env'.equalFold = env.equalFold
  capitalize : env'.capitalize = env.capitalize
  addHook : env'.addHook = env.addHook

variable {env env' : Env} {s : Schemas}

theorem Env.Like.prepare (h : env'.Like env) (x : Schema) :
    Types.prepare env' x = Types.prepare env x := by
  have hplural : ∀ name, GuessPluralName env' name = GuessPluralName env name := by
    intro name
    simp only [GuessPluralName, h.equalFold]
  have hdefaults : setupDefaults env' x = setupDefaults env x := by
    simp only [setupDefaults, hplural, h.capitalize]
  simp only [Types.prepare, h.addHook, hdefaults]

theorem Env.Like.ends (h : env'.Like env) {S : Shapes} {y : Shape} :
    Schemas.Ends env' S y ↔ Schemas.Ends env S y := by
  simp only [Schemas.Ends, Target, h.equalFold]

theorem Env.Like.keeps (h : env'.Like env) (hk : env.Keeps) : env'.Keeps := by
  intro hook hhook
  exact hk hook (h.addHook ▸ hhook)

theorem Env.Like.shapes (h : env'.Like env) (op : Op) (s : Schemas) :
    op.shapes env' s = op.shapes env s := by
  cases op <;> simp only [Op.shapes, h.prepare]

theorem Env.Like.start (h : env'.Like env) (op : Op) : op.start env' = op.start env := by
  cases op <;> simp only [Op.start, h.prepare]

theorem NewSchemas_settled : NewSchemas.shapes.Settled := by
  intro path id y h
  simp [Schemas.shapes, NewSchemas, ByPath.empty, ByPath.get] at h

/-- In every run, the registered schemas have their defaults. -/
theorem run_settled {cs : List Call} {o : List Empty}
    (hrun : Run.exec Schemas.step NewSchemas cs = some (s, o)) (hkeeps : ∀ c ∈ cs, c.env.Keeps) :
    s.shapes.Settled := by
  refine Run.exec_invariant_along (P := fun _ c => c.env.Keeps) (fun s _ => s.shapes.Settled)
    NewSchemas_settled ?_ hrun (Run.along_of_forall hkeeps)
  intro s w c s' o hs hk hstep
  obtain ⟨op, fuel, hc⟩ : ∃ op fuel, c = Op.call c.env fuel op := by
    cases c
    exacts [⟨.AddSchema _, _, rfl⟩, ⟨.ForceAddSchema _, _, rfl⟩, ⟨.RemoveSchema _, _, rfl⟩]
  rw [hc, Op.step_call] at hstep
  obtain ⟨s₁, h₁, heq⟩ := Option.map_eq_some_iff.1 hstep
  cases heq
  rw [Op.effect hk hs h₁]
  exact Op.settled_applied hk hs op

/-- Without an endless chain the call returns. -/
theorem step_returns (hk : env.Keeps) (hs : s.shapes.Settled) {op : Op}
    (hends : Schemas.Ends env (op.shapes env s) (op.start env)) :
    ∃ fuel, (s.step (op.call env fuel)).isSome := by
  rw [Op.shapes_eq, Op.start_eq] at hends
  obtain ⟨fuel, s', h⟩ := Schemas.returns hk hends (Schemas.Within.refl _ _ _) hs rfl rfl
  exact ⟨fuel, by rw [Op.step_call, h]; rfl⟩

theorem step_stuck (hk : env.Keeps) (hs : s.shapes.Settled) {op : Op} {bad : Shape → Prop}
    (hleads : Schemas.Leads env (op.shapes env s) bad) (hbad : bad (op.start env)) (fuel : ℕ) :
    s.step (op.call env fuel) = none := by
  rw [Op.step_call, Schemas.stuck hk hleads fuel hs Op.shapes_eq.symm (Op.start_eq ▸ hbad)]
  rfl

/-- The call returns, whichever schemas are found. -/
def Returns (env : Env) (s : Schemas) (op : Op) : Prop :=
  ∀ env', env'.Like env → ∃ fuel, (s.step (op.call env' fuel)).isSome

/-- In every registry that comes of calls, a call returns iff there is no endless chain of targets
from the schema on. -/
theorem returns_iff_ends {cs : List Call} {o : List Empty}
    (hrun : Run.exec Schemas.step NewSchemas cs = some (s, o)) (hkeeps : ∀ c ∈ cs, c.env.Keeps)
    (hk : env.Keeps) (op : Op) :
    Returns env s op ↔ Schemas.Ends env (op.shapes env s) (op.start env) := by
  have hs := run_settled hrun hkeeps
  constructor
  · intro hreturns
    by_contra hno
    have hlike : (Schemas.endless env (op.shapes env s)).Like env := ⟨rfl, rfl, rfl⟩
    obtain ⟨fuel, hsome⟩ := hreturns _ hlike
    have hleads := Schemas.leads_endless env (op.shapes env s)
    rw [← hlike.shapes op s] at hleads hno
    rw [step_stuck (hlike.keeps hk) hs hleads (hlike.start op ▸ hno) fuel] at hsome
    cases hsome
  · intro hends env' hlike
    rw [← hlike.ends, ← hlike.shapes op s, ← hlike.start op] at hends
    exact step_returns (hlike.keeps hk) hs hends

open Schemas (plainEnv schemaOf)

/-- A schema that is embedded into the node. -/
def gpuSchema : Schema := { schemaOf "gpu" "1" with embed := true, embedType := "node" }

theorem gpuSchema_returns :
    ∃ s o,
      Run.exec Schemas.step NewSchemas [.AddSchema plainEnv 0 (schemaOf "node" "1")] = some (s, o)
      ∧ Returns plainEnv s (.AddSchema gpuSchema) := by
  have hkeeps : plainEnv.Keeps := by
    intro hook hhook
    cases hhook
  have hnode : (Run.exec Schemas.step NewSchemas [.AddSchema plainEnv 0 (schemaOf "node" "1")]).map
      (fun r => (r.1.store (prepare plainEnv gpuSchema) false).shapes "/v1" "node")
      = some (some (prepare plainEnv (schemaOf "node" "1")).shape) := by decide +kernel
  obtain ⟨⟨s, o⟩, hrun, hs⟩ := Option.map_eq_some_iff.1 hnode
  refine ⟨s, o, hrun, (returns_iff_ends hrun ?_ hkeeps (.AddSchema gpuSchema)).2 ?_⟩
  · intro c hc
    cases List.mem_singleton.1 hc
    exact hkeeps
  · exact Schemas.ends_of_get hs rfl

/-- A schema that is embedded into itself. -/
def selfSchema : Schema := { schemaOf "node" "1" with embed := true, embedType := "node" }

theorem selfSchema_stuck :
    (∀ fuel, NewSchemas.step (.AddSchema plainEnv fuel selfSchema) = none)
      ∧ ¬ Returns plainEnv NewSchemas (.AddSchema selfSchema) := by
  have hkeeps : plainEnv.Keeps := by
    intro hook hhook
    cases hhook
  have hself : (NewSchemas.store (prepare plainEnv selfSchema) false).shapes "/v1" "node"
      = some (prepare plainEnv selfSchema).shape := by decide +kernel
  have hleads : Schemas.Leads plainEnv (Op.shapes plainEnv NewSchemas (.AddSchema selfSchema))
      fun z => z = (prepare plainEnv selfSchema).shape := Schemas.leads_self plainEnv rfl hself
  have hstuck : ∀ fuel, NewSchemas.step (.AddSchema plainEnv fuel selfSchema) = none :=
    step_stuck hkeeps NewSchemas_settled hleads rfl
  refine ⟨hstuck, ?_⟩
  intro hreturns
  obtain ⟨fuel, hsome⟩ := hreturns plainEnv ⟨rfl, rfl, rfl⟩
  rw [Op.call, hstuck] at hsome
  cases hsome

end Calls

end Norman.Types
