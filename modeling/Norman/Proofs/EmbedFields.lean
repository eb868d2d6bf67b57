import Norman.Proofs.EmbedChains

/-!
# The fields of a target

Schemas that are embedded into one target, with fields of their own each, come and go. The target
should have its own fields and those of the embedded schemas that are registered (`Composed`). But
`embed` strips the target of all its dynamic fields, also of those that it has itself or from
another schema, and a schema is added or removed with the fields of the one that is given, even
where another one is registered under its id. These are the only steps that go wrong
(`composed_iff_apt`).
-/

namespace Norman.Types

section Core

variable {env : Env} {x y : Schema}

/-- What embedding reads of a schema. -/
structure Core where
  place : Place
  version : APIVersion
  embed : Bool
  embedType : String
  resourceFields : SortedMap String Field
  deriving DecidableEq

def Schema.place (x : Schema) : Place := (x.version.path, x.id)

def Schema.core (x : Schema) : Core where
  place := x.place
  version := x.version
  embed := x.embed
  embedType := x.embedType
  resourceFields := x.resourceFields

/-- The hook leaves the core of a schema as it is. -/
def Env.KeepsCore (env : Env) : Prop :=
  ∀ hook, env.addHook = some hook → ∀ x, (hook x).core = x.core

theorem setupDefaults_core : (setupDefaults env x).1.core = x.core := by
  unfold setupDefaults
  simp only []
  split_ifs <;> rfl

theorem prepare_core (hk : env.KeepsCore) (x : Schema) : (prepare env x).core = x.core := by
  unfold prepare
  split
  · exact setupDefaults_core
  · rename_i hook hhook
    rw [hk hook hhook, setupDefaults_core]

/-- The schema is embedded into the one at this place. -/
def Schema.EmbedsInto (x : Schema) (p : Place) : Prop :=
  x.embed = true ∧ resolve x.version x.embedType = p

instance (x : Schema) (p : Place) : Decidable (x.EmbedsInto p) :=
  inferInstanceAs (Decidable (_ ∧ _))

theorem embedsInto_congr {p : Place} (h : x.core = y.core) : x.EmbedsInto p ↔ y.EmbedsInto p := by
  have hembed : x.embed = y.embed := congrArg Core.embed h
  have hversion : x.version = y.version := congrArg Core.version h
  have htype : x.embedType = y.embedType := congrArg Core.embedType h
  simp only [Schema.EmbedsInto, hembed, hversion, htype]

end Core

namespace Schemas

variable {env : Env} {s s' : Schemas} {x y z t : Schema} {p r : Place} {k : String} {f : Field}

section Effect

/-- The fields of a target that `embed` keeps. -/
theorem get_plain (m : SortedMap String Field) (k : String) :
    (m.entries.foldl (fun (fields : SortedMap String Field) e =>
      if e.2.dynamicField then fields else fields.set e.1 e.2) ∅).get k
      = (m.get k).filter fun f => !f.dynamicField := by
  have hround : ∀ (r : SortedMap String Field) (e : String × Field) (k : String),
      (if e.2.dynamicField then r else r.set e.1 e.2).get k
        = if k = e.1 then (Option.guard (fun f => !f.dynamicField) e.2).or (r.get k)
          else r.get k := by
    intro r e k
    rcases hd : e.2.dynamicField
    · simp [SortedMap.get_set, Option.guard, hd]
    · simp [Option.guard, hd]
  rw [SortedMap.get_foldl hround k m.nodup_keys, SortedMap.get_empty, Option.or_none]
  exact Option.bind_guard _ _

def lookup (s : Schemas) (p : Place) : Option Schema := s.schemasByPath.get p.1 p.2

theorem place_of_lookup (h : s.lookup r = some y) : y.place = r :=
  Prod.ext (ByPath.get_filed h).1 (ByPath.get_filed h).2

theorem lookup_store : (s.store x false).lookup r
    = if r = x.place ∧ s.lookup r = none then some x else s.lookup r := by
  by_cases hr : r = x.place
  · subst hr
    rcases h : s.lookup x.place with _ | z
    · have hst : s.stores x false = true := by
        unfold lookup Schema.place at h
        simp only [stores, h]
      simp [lookup, Schemas.store, hst, ByPath.get_put, Schema.place]
    · have hst : s.stores x false = false := by
        unfold lookup Schema.place at h
        simp only [stores, h, Bool.false_and]
      simpa [lookup, Schemas.store, hst] using h
  · have hne : ¬ (r.1 = x.version.path ∧ r.2 = x.id) := fun h => hr (Prod.ext h.1 h.2)
    rw [if_neg fun h => hr h.1]
    simp only [lookup, Schemas.store]
    split_ifs
    · rw [ByPath.get_put, if_neg hne]
    · rfl

theorem lookup_drop : (s.drop x).lookup r = if r = x.place then none else s.lookup r := by
  simp only [lookup, Schemas.drop, ByPath.get_delete, Schema.place, Prod.ext_iff]

theorem doSchema_of_lookup (hx : x.EmbedsInto p) (h : s.lookup p = some t) :
    s.doSchema env (some x.version) x.embedType = some t := by
  rw [doSchema_eq, hx.2]
  unfold lookup at h
  rw [h, Option.some_or]

/-- A target that is not embedded itself is only replaced. -/
theorem reput_plain (hk : env.KeepsCore) (ht : s.lookup p = some t) (hplain : t.embed = false)
    (fields : SortedMap String Field) (fuel : ℕ) :
    ∃ s' t', reput env fuel s t fields = some s' ∧ t'.embed = false ∧ t'.resourceFields = fields
      ∧ ∀ r, s'.lookup r = if r = p then some t' else s.lookup r := by
  unfold reput
  rw [doRemoveSchema_eq fuel (by simp [hplain]), Option.bind_some]
  -- what is added again: only its core matters
  generalize hu : { t with resourceFields := fields } = u
  have hcore := prepare_core hk u
  have hembed : (prepare env u).embed = false := by
    refine (congrArg Core.embed hcore).trans ?_
    rw [← hplain, ← hu]
    rfl
  have hplace : (prepare env u).place = p := by
    refine (congrArg Core.place hcore).trans ?_
    rw [← place_of_lookup ht, ← hu]
    rfl
  have hget : (prepare env u).resourceFields = fields := by
    refine (congrArg Core.resourceFields hcore).trans ?_
    rw [← hu]
    rfl
  refine ⟨(s.drop t).stored env u false, prepare env u, doAddSchema_eq fuel (by simp [hembed]),
    hembed, hget, fun r => ?_⟩
  have hstore : ((s.drop t).stored env u false).lookup r
      = if r = (prepare env u).place ∧ (s.drop t).lookup r = none then some (prepare env u)
        else (s.drop t).lookup r := lookup_store
  rw [hstore, hplace, lookup_drop, place_of_lookup ht]
  by_cases hr : r = p <;> simp [hr]

/-- What adding a schema that is embedded into a plain target comes to. -/
theorem add_embedded (hk : env.KeepsCore) (hx : x.EmbedsInto p) (hp : x.place ≠ p)
    (ht : s.lookup p = some t) (hplain : t.embed = false) (fuel : ℕ) :
    ∃ s' t' y, doAddSchema env (fuel + 1) s x false = some s' ∧ t'.embed = false
      ∧ y.core = x.core
      ∧ (∀ k, t'.resourceFields.get k = (x.resourceFields.get k).or
          ((t.resourceFields.get k).filter fun f => !f.dynamicField))
      ∧ ∀ r, s'.lookup r = if r = p then some t'
          else if r = x.place ∧ s.lookup r = none then some y else s.lookup r := by
  have hcore := prepare_core hk x
  have hinto : (prepare env x).EmbedsInto p := (embedsInto_congr hcore).2 hx
  have hplace : (prepare env x).place = x.place := congrArg Core.place hcore
  have hfields : (prepare env x).resourceFields = x.resourceFields :=
    congrArg Core.resourceFields hcore
  have hstored : ∀ r, (s.stored env x false).lookup r
      = if r = x.place ∧ s.lookup r = none then some (prepare env x) else s.lookup r := by
    intro r
    rw [← hplace]
    exact lookup_store
  have ht' : (s.stored env x false).lookup p = some t := by
    rw [hstored, if_neg fun h => hp h.1.symm, ht]
  obtain ⟨s', t', h, hembed, hget, hlookup⟩ := reput_plain hk ht' hplain
    (embedded t (prepare env x)).resourceFields fuel
  refine ⟨s', t', prepare env x, ?_, hembed, hcore, fun k => ?_, fun r => ?_⟩
  · rw [doAddSchema_reput hinto.1 (doSchema_of_lookup hinto ht'), h]
  · rw [hget, embedded, SortedMap.get_foldl_set, hfields, get_plain]
  · rw [hlookup, hstored]

/-- What removing one comes to. -/
theorem remove_embedded (hk : env.KeepsCore) (hx : x.EmbedsInto p) (hp : x.place ≠ p)
    (ht : s.lookup p = some t) (hplain : t.embed = false) (fuel : ℕ) :
    ∃ s' t', doRemoveSchema env (fuel + 1) s x = some s' ∧ t'.embed = false
      ∧ (∀ k, t'.resourceFields.get k
          = if x.resourceFields.get k = none then t.resourceFields.get k else none)
      ∧ ∀ r, s'.lookup r = if r = p then some t' else if r = x.place then none else s.lookup r := by
  have ht' : (s.drop x).lookup p = some t := by
    rw [lookup_drop, if_neg hp.symm, ht]
  obtain ⟨s', t', h, hembed, hget, hlookup⟩ := reput_plain hk ht' hplain
    (unembedded t x).resourceFields fuel
  refine ⟨s', t', ?_, hembed, fun k => ?_, fun r => ?_⟩
  · rw [doRemoveSchema_reput hx.1 (doSchema_of_lookup hx ht'), h]
  · rw [hget, unembedded, SortedMap.get_foldl_erase]
    have hmem : k ∈ x.resourceFields.keys ↔ ¬ x.resourceFields.get k = none := by
      rw [SortedMap.mem_keys]
      exact Option.ne_none_iff_exists'.symm
    by_cases hk : x.resourceFields.get k = none
    · rw [if_pos hk, if_neg fun h => hmem.1 h hk]
    · rw [if_neg hk, if_pos (hmem.2 hk)]
  · rw [hlookup, lookup_drop]

end Effect

section Composed

variable {F : Schema → Prop} {own : SortedMap String Field} {r' : Place} {f' : Field}

/-- The schema at this place gives the target a field. -/
def Gives (s : Schemas) (p r : Place) (k : String) (f : Field) : Prop :=
  ∃ y, s.lookup r = some y ∧ y.EmbedsInto p ∧ y.resourceFields.get k = some f

/-- The fields of the target are its own, and those of the embedded schemas that are registered. -/
def Composed (p : Place) (own : SortedMap String Field) (s : Schemas) : Prop :=
  ∃ t, s.lookup p = some t ∧
    ∀ k f, t.resourceFields.get k = some f ↔ own.get k = some f ∨ ∃ r, s.Gives p r k f

/-- Schemas embedded into one target, with fields of their own each. Two that have the same core are
the same schema, with more or less of its defaults. -/
structure Family (p : Place) (own : SortedMap String Field) (F : Schema → Prop) : Prop where
  embeds : ∀ {x}, F x → x.EmbedsInto p
  elsewhere : ∀ {x}, F x → x.place ≠ p
  apart : ∀ {x y}, F x → F y →
    x.core = y.core ∨ ∀ k, x.resourceFields.get k = none ∨ y.resourceFields.get k = none
  own : ∀ {x}, F x → ∀ k, own.get k = none ∨ x.resourceFields.get k = none

/-- The target is there, it is not embedded, and what is embedded into it is of the family. -/
structure Known (p : Place) (F : Schema → Prop) (s : Schemas) : Prop where
  target : ∃ t, s.lookup p = some t ∧ t.embed = false
  known : ∀ {r y}, s.lookup r = some y → y.EmbedsInto p → ∃ x, F x ∧ y.core = x.core

/-- What gives a field is one of the family, as far as embedding reads it. -/
theorem Gives.known (hs : s.Known p F) (h : s.Gives p r k f) :
    ∃ x, F x ∧ x.place = r ∧ x.resourceFields.get k = some f
      ∧ ∃ y, s.lookup r = some y ∧ y.core = x.core ∧ y.EmbedsInto p := by
  obtain ⟨y, hy, hinto, hf⟩ := h
  obtain ⟨x, hx, hcore⟩ := hs.known hy hinto
  refine ⟨x, hx, ?_, ?_, y, hy, hcore, hinto⟩
  · exact (congrArg Core.place hcore).symm.trans (place_of_lookup hy)
  · exact (congrArg (fun c => c.resourceFields.get k) hcore).symm.trans hf

/-- A field that one of the family has is given by this one, if by any. -/
theorem Gives.core (hF : Family p own F) (hs : s.Known p F) (hx : F x)
    (hk : x.resourceFields.get k ≠ none) (h : s.Gives p r k f) :
    r = x.place ∧ ∃ y, s.lookup r = some y ∧ y.core = x.core ∧ y.EmbedsInto p := by
  obtain ⟨x', hx', rfl, hf, y, hy, hcore, hinto⟩ := h.known hs
  have hsame : x'.core = x.core := by
    refine (hF.apart hx' hx).resolve_right fun hapart => ?_
    rcases hapart k with h | h
    · cases hf.symm.trans h
    · exact hk h
  exact ⟨congrArg Core.place hsame, y, hy, hcore.trans hsame, hinto⟩

/-- No field of the family is the target's own. -/
theorem Gives.not_own (hF : Family p own F) (hs : s.Known p F) (h : s.Gives p r k f) :
    own.get k = none := by
  obtain ⟨x, hx, -, hf, -⟩ := h.known hs
  exact (hF.own hx k).resolve_right (by simp [hf])

/-- No field is given by two. -/
theorem Gives.unique (hF : Family p own F) (hs : s.Known p F) (h : s.Gives p r k f)
    (h' : s.Gives p r' k f') : r = r' := by
  obtain ⟨x, hx, rfl, hf, -⟩ := h.known hs
  exact (h'.core hF hs hx (by simp [hf])).1.symm

end Composed

section Step

variable {F : Schema → Prop} {own : SortedMap String Field} {t' : Schema}

/-- A schema comes in beside those that are there, if its place is free. -/
theorem gives_add (hplain' : t'.embed = false) (ht : s.lookup p = some t) (hplain : t.embed = false)
    (hx : x.EmbedsInto p) (hp : x.place ≠ p) (hy : y.core = x.core)
    (hlookup : ∀ r, s'.lookup r = if r = p then some t'
      else if r = x.place ∧ s.lookup r = none then some y else s.lookup r) :
    s'.Gives p r k f ↔ s.Gives p r k f
      ∨ s.lookup x.place = none ∧ r = x.place ∧ x.resourceFields.get k = some f := by
  have hfields : y.resourceFields = x.resourceFields := congrArg Core.resourceFields hy
  have hinto : y.EmbedsInto p := (embedsInto_congr hy).2 hx
  simp only [Gives, hlookup]
  by_cases hrp : r = p
  · subst hrp
    simp [ht, Schema.EmbedsInto, hplain, hplain', hp.symm]
  · rw [if_neg hrp]
    by_cases hr : r = x.place
    · subst hr
      rcases hz : s.lookup x.place with _ | z
      · simp [hinto, hfields]
      · simp
    · simp [hr]

theorem gives_remove (hplain' : t'.embed = false) (ht : s.lookup p = some t)
    (hplain : t.embed = false) (hp : x.place ≠ p)
    (hlookup : ∀ r, s'.lookup r = if r = p then some t'
      else if r = x.place then none else s.lookup r) :
    s'.Gives p r k f ↔ r ≠ x.place ∧ s.Gives p r k f := by
  simp only [Gives, hlookup]
  by_cases hrp : r = p
  · subst hrp
    simp [ht, Schema.EmbedsInto, hplain, hplain']
  · rw [if_neg hrp]
    by_cases hr : r = x.place <;> simp [hr]

/-- What is found under a key after a map was stripped and another one put over it, against what was
in either. -/
theorem or_filter_iff {α : Type} {a b : Option α} {q : α → Bool} {S : Prop}
    (h : b = none ∨ a = none ∨ a = b) :
    (∀ v, b.or (a.filter q) = some v ↔ a = some v ∨ (S ∧ b = some v))
      ↔ (S ∨ b = none ∨ a = b) ∧ ∀ v, a = some v → q v = false → b ≠ none := by
  rcases b with _ | v
  · simp only [Option.none_or, Option.filter_eq_some_iff]
    simp
  · rcases h with h | rfl | rfl
    · cases h
    · simp
    · simp

/-- Whether the step leaves the target with the right fields. -/
def Apt (p : Place) (s : Schemas) : Call → Prop
  | .AddSchema _ _ x =>
    (∀ z, s.lookup x.place = some z → z.core = x.core ∨ x.resourceFields = ∅)
      ∧ ∀ t k f, s.lookup p = some t → t.resourceFields.get k = some f → f.dynamicField = true →
        x.resourceFields.get k ≠ none
  | .RemoveSchema _ _ x =>
    ∀ z, s.lookup x.place = some z → z.EmbedsInto p → z.core = x.core ∨ z.resourceFields = ∅
  | .ForceAddSchema _ _ _ => False

instance decidableApt (p : Place) (s : Schemas) : ∀ c, Decidable (Apt p s c)
  | .AddSchema _ _ x =>
    decidable_of_iff ((s.lookup x.place).all (fun z => z.core = x.core ∨ x.resourceFields = ∅)
      ∧ (s.lookup p).all fun t => t.resourceFields.entries.all fun e =>
        !e.2.dynamicField || (x.resourceFields.get e.1).isSome) (by
      simp only [Apt, Option.all_eq_true, decide_eq_true_eq, List.all_eq_true, Bool.or_eq_true,
        Bool.not_eq_true', Option.isSome_iff_ne_none, Prod.forall, SortedMap.mem_entries]
      refine and_congr_right fun _ => ⟨fun h t k f ht hf hd => ?_, fun h t ht k f hf => ?_⟩
      · exact (h t ht k f hf).resolve_left (by rw [hd]; decide)
      · by_cases hd : f.dynamicField = true
        · exact .inr (h t k f ht hf hd)
        · exact .inl (Bool.not_eq_true _ ▸ hd))
  | .RemoveSchema _ _ x =>
    decidable_of_iff ((s.lookup x.place).all fun z =>
      z.EmbedsInto p → z.core = x.core ∨ z.resourceFields = ∅) (by
      simp only [Apt, Option.all_eq_true, decide_eq_true_eq])
  | .ForceAddSchema _ _ _ => isFalse id

theorem composed_iff (ht : s.lookup p = some t) : s.Composed p own ↔
    ∀ k f, t.resourceFields.get k = some f ↔ own.get k = some f ∨ ∃ r, s.Gives p r k f := by
  constructor
  · rintro ⟨t₁, ht₁, h⟩
    obtain rfl : t = t₁ := Option.some.inj (ht.symm.trans ht₁)
    exact h
  · exact fun h => ⟨t, ht, h⟩

theorem exists_gives (hz : s.lookup r = some z) (hcore : z.core = x.core) (hx : x.EmbedsInto p)
    (hf : x.resourceFields.get k = some f) : ∃ r, s.Gives p r k f :=
  ⟨r, z, hz, (embedsInto_congr hcore).2 hx,
    (congrArg (fun c => c.resourceFields.get k) hcore).trans hf⟩

section Fields

variable (hF : Family p own F) (hs : s.Known p F) (hx : F x)
  (hfields : ∀ k f, t.resourceFields.get k = some f ↔ own.get k = some f ∨ ∃ r, s.Gives p r k f)

include hF hs hx hfields

/-- Where the target has a field that one of the family has, it has it from there. -/
theorem held_of_both {f' : Field} (hk : x.resourceFields.get k = some f')
    (h : t.resourceFields.get k = some f) :
    f = f' ∧ ∃ z, s.lookup x.place = some z ∧ z.core = x.core := by
  rcases (hfields k f).1 h with howned | ⟨r, hgives⟩
  · rcases hF.own hx k with hnone | hnone
    · rw [howned] at hnone
      cases hnone
    · rw [hk] at hnone
      cases hnone
  · obtain ⟨rfl, y, hy, hcore, -⟩ := hgives.core hF hs hx (by rw [hk]; exact Option.some_ne_none f')
    obtain ⟨y', hy', -, hf⟩ := hgives
    obtain rfl : y = y' := Option.some.inj (hy.symm.trans hy')
    have hf' : y.resourceFields.get k = some f' :=
      (congrArg (fun c => c.resourceFields.get k) hcore).trans hk
    exact ⟨Option.some.inj (hf.symm.trans hf'), y, hy, hcore⟩

theorem none_or_same (k : String) : x.resourceFields.get k = none
    ∨ t.resourceFields.get k = none ∨ t.resourceFields.get k = x.resourceFields.get k := by
  rcases hb : x.resourceFields.get k with _ | f'
  · exact .inl rfl
  · rcases ha : t.resourceFields.get k with _ | f
    · exact .inr (.inl rfl)
    · rw [(held_of_both hF hs hx hfields hb ha).1]
      exact .inr (.inr rfl)

/-- The fields of the schema are given by what is in its place, or there are none. -/
theorem held_iff : (∀ k, s.lookup x.place = none ∨ x.resourceFields.get k = none
      ∨ t.resourceFields.get k = x.resourceFields.get k)
    ↔ ∀ z, s.lookup x.place = some z → z.core = x.core ∨ x.resourceFields = ∅ := by
  constructor
  · intro h z hz
    by_cases hcore : z.core = x.core
    · exact .inl hcore
    · refine .inr (SortedMap.ext fun k => ?_)
      rcases hb : x.resourceFields.get k with _ | f
      · rfl
      · have ha : t.resourceFields.get k = some f := by
          rcases h k with hno | hno | hno
          · rw [hz] at hno
            cases hno
          · rw [hb] at hno
            cases hno
          · rw [hno, hb]
        obtain ⟨-, z', hz', hcore'⟩ := held_of_both hF hs hx hfields hb ha
        obtain rfl : z = z' := Option.some.inj (hz.symm.trans hz')
        exact absurd hcore' hcore
  · intro h k
    rcases hz : s.lookup x.place with _ | z
    · exact .inl rfl
    · rcases hb : x.resourceFields.get k with _ | f
      · exact .inr (.inl rfl)
      · rcases h z hz with hcore | hempty
        · have ha := (hfields k f).2 (.inr (exists_gives hz hcore (hF.embeds hx) hb))
          exact .inr (.inr ha)
        · rw [hempty] at hb
          cases hb

/-- Without the fields of the schema, the target has those of the schemas in other places. -/
theorem left_iff : (∀ k f, (if x.resourceFields.get k = none then t.resourceFields.get k else none)
      = some f ↔ own.get k = some f ∨ ∃ r, r ≠ x.place ∧ s.Gives p r k f)
    ↔ ∀ z, s.lookup x.place = some z → z.EmbedsInto p →
      z.core = x.core ∨ z.resourceFields = ∅ := by
  constructor
  · intro h z hz hinto
    by_cases hcore : z.core = x.core
    · exact .inl hcore
    · refine .inr (SortedMap.ext fun k => ?_)
      rcases hf : z.resourceFields.get k with _ | f
      · rfl
      · have hgives : s.Gives p x.place k f := ⟨z, hz, hinto, hf⟩
        have hnone : x.resourceFields.get k = none := by
          by_contra hk
          obtain ⟨-, z', hz', hcore', -⟩ := hgives.core hF hs hx hk
          obtain rfl : z = z' := Option.some.inj (hz.symm.trans hz')
          exact hcore hcore'
        -- the field is left over, and nothing accounts for it
        rcases (h k f).1 (by rw [if_pos hnone, hfields]; exact .inr ⟨_, hgives⟩) with h | ⟨r, hr, h⟩
        · rw [hgives.not_own hF hs] at h
          cases h
        · exact absurd (h.unique hF hs hgives) hr
  · intro h k f
    by_cases hk : x.resourceFields.get k = none
    · rw [if_pos hk, hfields]
      refine or_congr_right (exists_congr fun r => ⟨fun hgives => ⟨?_, hgives⟩, And.right⟩)
      rintro rfl
      obtain ⟨z, hz, hinto, hf⟩ := hgives
      rcases h z hz hinto with hcore | hempty
      · have hf' : z.resourceFields.get k = none :=
          (congrArg (fun c => c.resourceFields.get k) hcore).trans hk
        rw [hf] at hf'
        cases hf'
      · rw [hempty] at hf
        cases hf
    · rw [if_neg hk]
      refine ⟨fun hno => absurd hno.symm (Option.some_ne_none f), ?_⟩
      rintro (howned | ⟨r, hr, hgives⟩)
      · rcases hF.own hx k with hnone | hnone
        · rw [howned] at hnone
          cases hnone
        · exact absurd hnone hk
      · exact absurd (hgives.core hF hs hx hk).1 hr

end Fields

/-- A schema that is added: the target has the right fields afterwards iff the step is apt. -/
theorem Known.add (hF : Family p own F) (hs : s.Known p F) (hx : F x) (hk : env.KeepsCore)
    (fuel : ℕ) :
    ∃ s', doAddSchema env (fuel + 1) s x false = some s' ∧ s'.Known p F
      ∧ (s.Composed p own →
        (s'.Composed p own ↔ Apt p s (.AddSchema env (fuel + 1) x))) := by
  obtain ⟨t, ht, hplain⟩ := hs.target
  obtain ⟨s', t', y, h, hplain', hy, hget, hlookup⟩ :=
    add_embedded hk (hF.embeds hx) (hF.elsewhere hx) ht hplain fuel
  have ht' : s'.lookup p = some t' := by rw [hlookup, if_pos rfl]
  refine ⟨s', h, ⟨⟨t', ht', hplain'⟩, ?_⟩, fun hc => ?_⟩
  · intro r w hw hinto
    rw [hlookup] at hw
    split_ifs at hw with hr hfree
    · cases hw
      exact absurd hinto.1 (by simp [hplain'])
    · cases hw
      exact ⟨x, hx, hy⟩
    · exact hs.known hw hinto
  · have hfields := (composed_iff ht).1 hc
    have hgives : ∀ k f, (own.get k = some f ∨ ∃ r, s'.Gives p r k f)
        ↔ t.resourceFields.get k = some f
          ∨ s.lookup x.place = none ∧ x.resourceFields.get k = some f := by
      intro k f
      simp only [gives_add hplain' ht hplain (hF.embeds hx) (hF.elsewhere hx) hy hlookup, hfields]
      constructor
      · rintro (h | ⟨r, h | ⟨hfree, -, h⟩⟩)
        · exact .inl (.inl h)
        · exact .inl (.inr ⟨r, h⟩)
        · exact .inr ⟨hfree, h⟩
      · rintro ((h | ⟨r, h⟩) | ⟨hfree, h⟩)
        · exact .inl h
        · exact .inr ⟨r, .inl h⟩
        · exact .inr ⟨x.place, .inr ⟨hfree, rfl, h⟩⟩
    rw [composed_iff ht']
    simp only [hget, hgives, or_filter_iff (none_or_same hF hs hx hfields _), forall_and,
      held_iff hF hs hx hfields, Apt, Bool.not_eq_false']
    refine and_congr_right fun _ => ⟨fun hdyn t₁ k f ht₁ => ?_, fun hdyn k f => hdyn t k f ht⟩
    obtain rfl : t = t₁ := Option.some.inj (ht.symm.trans ht₁)
    exact hdyn k f

/-- A schema that is removed. -/
theorem Known.remove (hF : Family p own F) (hs : s.Known p F) (hx : F x) (hk : env.KeepsCore)
    (fuel : ℕ) :
    ∃ s', doRemoveSchema env (fuel + 1) s x = some s' ∧ s'.Known p F
      ∧ (s.Composed p own →
        (s'.Composed p own ↔ Apt p s (.RemoveSchema env (fuel + 1) x))) := by
  obtain ⟨t, ht, hplain⟩ := hs.target
  obtain ⟨s', t', h, hplain', hget, hlookup⟩ :=
    remove_embedded hk (hF.embeds hx) (hF.elsewhere hx) ht hplain fuel
  have ht' : s'.lookup p = some t' := by rw [hlookup, if_pos rfl]
  refine ⟨s', h, ⟨⟨t', ht', hplain'⟩, ?_⟩, fun hc => ?_⟩
  · intro r w hw hinto
    rw [hlookup] at hw
    split_ifs at hw with hr
    · cases hw
      exact absurd hinto.1 (by simp [hplain'])
    · exact hs.known hw hinto
  · have hfields := (composed_iff ht).1 hc
    have hgives : ∀ {r k f}, s'.Gives p r k f ↔ r ≠ x.place ∧ s.Gives p r k f :=
      gives_remove hplain' ht hplain (hF.elsewhere hx) hlookup
    rw [composed_iff ht']
    simp only [hget, hgives]
    exact left_iff hF hs hx hfields

/-- A call on a schema of the family, that may go on to the target. -/
def OnFamily (F : Schema → Prop) : Call → Prop
  | .AddSchema env fuel x | .RemoveSchema env fuel x => env.KeepsCore ∧ 0 < fuel ∧ F x
  | .ForceAddSchema _ _ _ => False

theorem Known.step {c : Call} (hF : Family p own F) (hs : s.Known p F) (hc : OnFamily F c) :
    ∃ s' o, s.step c = some (s', o) ∧ s'.Known p F
      ∧ (s.Composed p own → (s'.Composed p own ↔ Apt p s c)) := by
  cases c with
  | AddSchema env fuel x =>
    obtain ⟨hk, hfuel, hx⟩ := hc
    obtain ⟨fuel, rfl⟩ := Nat.exists_eq_add_one.2 hfuel
    obtain ⟨s', h, hs', hiff⟩ := hs.add hF hx hk fuel
    exact ⟨s', [], by rw [Schemas.step, h]; rfl, hs', hiff⟩
  | RemoveSchema env fuel x =>
    obtain ⟨hk, hfuel, hx⟩ := hc
    obtain ⟨fuel, rfl⟩ := Nat.exists_eq_add_one.2 hfuel
    obtain ⟨s', h, hs', hiff⟩ := hs.remove hF hx hk fuel
    exact ⟨s', [], by rw [Schemas.step, h]; rfl, hs', hiff⟩
  | ForceAddSchema env fuel x => exact hc.elim

end Step

section Run

variable {F : Schema → Prop} {own : SortedMap String Field} {cs : List Call}

/-- In every sequence of calls on schemas of the family, from every registry in which the target has
the right fields: it has them at all times iff every step is apt. -/
theorem composed_iff_apt (hF : Family p own F) (hs : s.Known p F) (hc : s.Composed p own)
    (hcs : ∀ c ∈ cs, OnFamily F c) :
    (Run.exec Schemas.step s cs).isSome
      ∧ ((∀ n s' o, Run.exec Schemas.step s (cs.take n) = some (s', o) → s'.Composed p own)
        ↔ Run.Along Schemas.step (Apt p) s cs) := by
  have hstep : ∀ s c, s.Known p F → OnFamily F c → ∃ s' o, s.step c = some (s', o)
      ∧ s'.Known p F ∧ (s.Composed p own → (s'.Composed p own ↔ Apt p s c)) :=
    fun s c hs hc => hs.step hF hc
  constructor
  · refine Run.exec_isSome (fun s c hs hc => ?_) hs hcs
    obtain ⟨s', o, h, hs', -⟩ := hstep s c hs hc
    exact ⟨s', o, h, hs'⟩
  · exact Run.forall_take_iff_along hstep hs hc hcs

/-- A node, with a name. -/
def namedNode : Schema :=
  { schemaOf "node" "1" with resourceFields := (∅ : SortedMap _ _).set "name" { type := "string" } }

/-- A device of a node: a schema with one field, that is embedded into the node. -/
def device (id name : String) (dynamicField : Bool) : Schema :=
  { schemaOf id "1" with
    embed := true
    embedType := "node"
    resourceFields := (∅ : SortedMap _ _).set name { type := "int", dynamicField } }

def Devices (dynamicField : Bool) (x : Schema) : Prop :=
  x = device "gpu" "cores" dynamicField ∨ x = device "fpga" "gates" dynamicField

def nodeRegistry : Schemas := NewSchemas.stored plainEnv namedNode false

theorem devices_family (dynamicField : Bool) :
    Family ("/v1", "node") namedNode.resourceFields (Devices dynamicField) where
  embeds := by
    have hnode : resolve (schemaOf "node" "1").version "node" = ("/v1", "node") := by
      decide +kernel
    rintro x (rfl | rfl) <;> exact ⟨rfl, hnode⟩
  elsewhere := by
    rintro x (rfl | rfl) <;> simp [device, Schema.place, schemaOf]
  apart := by
    have hne : ∀ k, k = "cores" → k ≠ "gates" := by
      rintro k rfl
      decide
    rintro x y (rfl | rfl) (rfl | rfl)
    · exact .inl rfl
    · refine .inr fun k => ?_
      by_cases hk : k = "cores"
      · exact .inr (by simp [device, SortedMap.get_set, hne k hk])
      · exact .inl (by simp [device, SortedMap.get_set, hk])
    · refine .inr fun k => ?_
      by_cases hk : k = "cores"
      · exact .inl (by simp [device, SortedMap.get_set, hne k hk])
      · exact .inr (by simp [device, SortedMap.get_set, hk])
    · exact .inl rfl
  own := by
    rintro x hx k
    by_cases hk : k = "name"
    · subst hk
      rcases hx with rfl | rfl <;> exact .inr (by simp [device, SortedMap.get_set])
    · exact .inl (by simp [namedNode, SortedMap.get_set, hk])

theorem lookup_nodeRegistry : nodeRegistry.lookup r
    = if r = ("/v1", "node") then some (prepare plainEnv namedNode) else none := by
  have hempty : ∀ r, NewSchemas.lookup r = none := by
    intro r
    simp [lookup, NewSchemas, ByPath.empty, ByPath.get]
  have hstore : nodeRegistry.lookup r = if r = (prepare plainEnv namedNode).place
      ∧ NewSchemas.lookup r = none then some (prepare plainEnv namedNode)
      else NewSchemas.lookup r := lookup_store
  have hplace : (prepare plainEnv namedNode).place = ("/v1", "node") := by decide +kernel
  rw [hstore, hplace, hempty]
  simp

theorem plainEnv_keepsCore : plainEnv.KeepsCore := by
  intro hook hhook
  cases hhook

theorem nodeRegistry_known (F : Schema → Prop) : nodeRegistry.Known ("/v1", "node") F where
  target := ⟨_, by rw [lookup_nodeRegistry, if_pos rfl], rfl⟩
  known := by
    intro r y hy hinto
    rw [lookup_nodeRegistry] at hy
    split_ifs at hy
    cases hy
    exact absurd hinto.1 (by decide +kernel)

theorem nodeRegistry_composed :
    nodeRegistry.Composed ("/v1", "node") namedNode.resourceFields := by
  refine ⟨prepare plainEnv namedNode, by rw [lookup_nodeRegistry, if_pos rfl], fun k f => ?_⟩
  have hfields : (prepare plainEnv namedNode).resourceFields = namedNode.resourceFields :=
    congrArg Core.resourceFields (prepare_core plainEnv_keepsCore namedNode)
  rw [hfields]
  refine ⟨.inl, fun h => h.resolve_right ?_⟩
  rintro ⟨r, y, hy, hinto, -⟩
  obtain ⟨x, hx, -⟩ := (nodeRegistry_known fun _ => False).known hy hinto
  exact hx

theorem devices_onFamily (dynamicField : Bool) : ∀ c ∈ [
    Call.AddSchema plainEnv 1 (device "gpu" "cores" dynamicField),
    Call.AddSchema plainEnv 1 (device "fpga" "gates" dynamicField),
    Call.RemoveSchema plainEnv 1 (device "gpu" "cores" dynamicField)],
    OnFamily (Devices dynamicField) c := by
  intro c hc
  simp only [List.mem_cons, List.not_mem_nil, or_false] at hc
  rcases hc with rfl | rfl | rfl
  · exact ⟨plainEnv_keepsCore, Nat.one_pos, .inl rfl⟩
  · exact ⟨plainEnv_keepsCore, Nat.one_pos, .inr rfl⟩
  · exact ⟨plainEnv_keepsCore, Nat.one_pos, .inl rfl⟩

/-- Devices with fields that are not dynamic come and go. -/
theorem devices_composed :
    Run.Along Schemas.step (Apt ("/v1", "node")) nodeRegistry
        [.AddSchema plainEnv 1 (device "gpu" "cores" false),
          .AddSchema plainEnv 1 (device "fpga" "gates" false),
          .RemoveSchema plainEnv 1 (device "gpu" "cores" false)]
      ∧ ∀ n s' o, Run.exec Schemas.step nodeRegistry
          ([Call.AddSchema plainEnv 1 (device "gpu" "cores" false),
            Call.AddSchema plainEnv 1 (device "fpga" "gates" false),
            Call.RemoveSchema plainEnv 1 (device "gpu" "cores" false)].take n) = some (s', o) →
        s'.Composed ("/v1", "node") namedNode.resourceFields := by
  have hapt : Run.Along Schemas.step (Apt ("/v1", "node")) nodeRegistry
      [.AddSchema plainEnv 1 (device "gpu" "cores" false),
        .AddSchema plainEnv 1 (device "fpga" "gates" false),
        .RemoveSchema plainEnv 1 (device "gpu" "cores" false)] := by decide +kernel
  exact ⟨hapt, (composed_iff_apt (devices_family false) (nodeRegistry_known _)
    nodeRegistry_composed (devices_onFamily false)).2.2 hapt⟩

/-- With dynamic fields, the second device takes away the field of the first. -/
theorem devices_lost :
    Family ("/v1", "node") namedNode.resourceFields (Devices true)
      ∧ nodeRegistry.Known ("/v1", "node") (Devices true)
      ∧ nodeRegistry.Composed ("/v1", "node") namedNode.resourceFields
      ∧ ∃ s' o, Run.exec Schemas.step nodeRegistry
          [.AddSchema plainEnv 1 (device "gpu" "cores" true),
            .AddSchema plainEnv 1 (device "fpga" "gates" true)] = some (s', o)
        ∧ (s'.lookup ("/v1", "gpu")).map Schema.core = some (device "gpu" "cores" true).core
        ∧ (s'.lookup ("/v1", "node")).bind (fun t => t.resourceFields.get "cores") = none
        ∧ ¬ s'.Composed ("/v1", "node") namedNode.resourceFields := by
  refine ⟨devices_family true, nodeRegistry_known _, nodeRegistry_composed, ?_⟩
  have hrun : (Run.exec Schemas.step nodeRegistry
      [.AddSchema plainEnv 1 (device "gpu" "cores" true),
        .AddSchema plainEnv 1 (device "fpga" "gates" true)]).map
      (fun r => ((r.1.lookup ("/v1", "gpu")).map Schema.core,
        (r.1.lookup ("/v1", "node")).bind fun t => t.resourceFields.get "cores"))
      = some (some (device "gpu" "cores" true).core, none) := by decide +kernel
  obtain ⟨⟨s', o⟩, hexec, heq⟩ := Option.map_eq_some_iff.1 hrun
  obtain ⟨hgpu, hnode⟩ := Prod.mk.inj heq
  refine ⟨s', o, hexec, hgpu, hnode, ?_⟩
  rintro ⟨t, ht, hfields⟩
  obtain ⟨y, hy, hcore⟩ := Option.map_eq_some_iff.1 hgpu
  have hinto : (device "gpu" "cores" true).EmbedsInto ("/v1", "node") :=
    (devices_family true).embeds (.inl rfl)
  have hget := (hfields "cores" _).2 (.inr (exists_gives hy hcore hinto
    (SortedMap.get_set_self _ _ _)))
  rw [ht, Option.bind_some, hget] at hnode
  cases hnode

end Run

end Schemas

end Norman.Types
