import Norman.Lib.Run
import Norman.Schemas

/-!
# The two views of the registry

The list of schemas and `schemasByPath` have the same schemas as long as a schema is added where
there is none (`Agree.append`) or takes the place of the one that is also first in the list with its
id (`Agree.replace`). The list is never made shorter, so any removal of a schema that is registered
leaves it behind in the list; and embedding a schema removes its target.
-/

namespace Norman.Types

section ByPath

namespace ByPath

variable {b : ByPath} {path id : String} {x y : Schema}

theorem get_put : (b.put x).get path id
    = if path = x.version.path ∧ id = x.id then some x else b.get path id := by
  simp only [ByPath.get, put, SortedMap.get_set]
  by_cases hp : path = x.version.path
  · subst hp
    simp only [if_true, Option.bind_some, SortedMap.get_set, true_and]
    split_ifs
    · rfl
    · rcases b.paths.get x.version.path with _ | m <;> simp
  · simp only [hp, if_false, false_and]

theorem get_delete {path' id' : String} : (b.delete path' id').get path id
    = if path = path' ∧ id = id' then none else b.get path id := by
  unfold delete
  split
  · rename_i h
    split_ifs with hp
    · simp [ByPath.get, hp.1, h]
    · rfl
  · rename_i m h
    simp only [ByPath.get, SortedMap.get_set]
    by_cases hp : path = path'
    · subst hp
      simp only [if_true, Option.bind_some, SortedMap.get_erase, true_and, h]
    · simp only [hp, if_false, false_and]

theorem paths_delete {path' : String} {m : SortedMap String Schema}
    (h : (b.delete path id).paths.get path' = some m) : ∃ m', b.paths.get path' = some m' := by
  unfold delete at h
  split at h
  · exact ⟨m, h⟩
  · rename_i m' hm
    rw [SortedMap.get_set] at h
    split_ifs at h with hp
    · exact ⟨m', hp ▸ hm⟩
    · exact ⟨m, h⟩

theorem get_filed (h : b.get path id = some x) : x.version.path = path ∧ x.id = id := by
  obtain ⟨m, hm, hx⟩ := Option.bind_eq_some_iff.1 h
  exact b.filed hm hx

end ByPath

end ByPath

namespace Schemas

variable {env : Env} {s s' : Schemas} {x y : Schema}

/-- The schema is in `schemasByPath`. -/
def Registered (s : Schemas) (x : Schema) : Prop :=
  ∃ path id, s.schemasByPath.get path id = some x

theorem registered_iff :
    s.Registered x ↔ s.schemasByPath.get x.version.path x.id = some x := by
  refine ⟨?_, fun h => ⟨_, _, h⟩⟩
  rintro ⟨path, id, h⟩
  obtain ⟨rfl, rfl⟩ := ByPath.get_filed h
  exact h

section Store

theorem doSchema_congr (h : s'.schemasByPath = s.schemasByPath) (version : Option APIVersion)
    (name : String) : s'.doSchema env version name = s.doSchema env version name := by
  unfold doSchema
  rw [h]

/-- The registry after the schema itself was added, up to the embedding. -/
def stored (env : Env) (s : Schemas) (x : Schema) (replace : Bool) : Schemas :=
  Schemas.store { s with errors := s.errors ++ (setupDefaults env x).2.toList } (prepare env x)
    replace

/-- Adding a schema that is not embedded, or has no target, only stores it. -/
theorem doAddSchema_eq {schema : Schema} {replace : Bool} (fuel : ℕ)
    (h : (prepare env schema).embed = true → (s.store (prepare env schema) replace).doSchema env
      (some (prepare env schema).version) (prepare env schema).embedType = none) :
    doAddSchema env fuel s schema replace = some (s.stored env schema replace) := by
  have hlook : (prepare env schema).embed = true → (s.stored env schema replace).doSchema env
      (some (prepare env schema).version) (prepare env schema).embedType = none := by
    intro he
    rw [← h he]
    exact doSchema_congr rfl _ _
  unfold stored at hlook ⊢
  unfold doAddSchema
  simp only []
  split_ifs with he
  · rw [hlook he]
  · rfl

theorem doRemoveSchema_eq {schema : Schema} (fuel : ℕ)
    (h : schema.embed = true →
      (s.drop schema).doSchema env (some schema.version) schema.embedType = none) :
    doRemoveSchema env fuel s schema = some (s.drop schema) := by
  unfold doRemoveSchema
  simp only []
  split_ifs with he
  · rw [h he]
  · rfl

end Store

section Agree

/-- The list has every registered schema once, and no other. -/
structure Agree (s : Schemas) : Prop where
  nodup : s.schemas.Nodup
  same : ∀ x, x ∈ s.schemas ↔ s.Registered x

/-- Every path has a version. -/
def Covered (s : Schemas) : Prop :=
  ∀ {path m}, s.schemasByPath.paths.get path = some m → ∃ v ∈ s.versions, v.path = path

theorem Agree.append (h : s.Agree)
    (hfree : s.schemasByPath.get x.version.path x.id = none) :
    Agree { s with schemasByPath := s.schemasByPath.put x, schemas := s.schemas ++ [x] } := by
  have hnew : x ∉ s.schemas := fun hx => by
    rw [h.same, registered_iff, hfree] at hx
    cases hx
  refine ⟨List.nodup_append.2 ⟨h.nodup, by simp, fun a ha b hb hab => ?_⟩, fun y => ?_⟩
  · rw [List.mem_singleton.1 hb] at hab
    exact hnew (hab ▸ ha)
  · rw [List.mem_append, List.mem_singleton, h.same, registered_iff, registered_iff,
      ByPath.get_put]
    split_ifs with hy
    · rw [hy.1, hy.2, hfree]
      simp [eq_comm]
    · refine or_iff_left ?_
      rintro rfl
      exact hy ⟨rfl, rfl⟩

theorem mem_replaceFirst {old : Schema} : ∀ {l : List Schema}, l.Nodup →
    l.find? (fun c => c.id = x.id) = some old → x ∉ l →
    (replaceFirst x l).Nodup ∧ ∀ y, y ∈ replaceFirst x l ↔ y = x ∨ (y ∈ l ∧ y ≠ old)
  | [], _, h, _ => by simp at h
  | c :: l, hnd, h, hx => by
    obtain ⟨hc, hnd'⟩ := List.nodup_cons.1 hnd
    rw [List.mem_cons, not_or] at hx
    by_cases hid : c.id = x.id
    · rw [List.find?_cons_of_pos (by simpa using hid)] at h
      cases h
      simp only [replaceFirst, hid, if_true]
      refine ⟨List.nodup_cons.2 ⟨hx.2, hnd'⟩, fun y => ?_⟩
      simp only [List.mem_cons]
      refine or_congr_right ⟨fun hy => ⟨.inr hy, ?_⟩, fun hy => hy.1.resolve_left hy.2⟩
      rintro rfl
      exact hc hy
    · rw [List.find?_cons_of_neg (by simpa using hid)] at h
      obtain ⟨ih1, ih2⟩ := mem_replaceFirst hnd' h hx.2
      have hco : c ≠ old := by
        rintro rfl
        exact hid (by simpa using List.find?_some h)
      simp only [replaceFirst, hid, if_false]
      refine ⟨List.nodup_cons.2 ⟨fun hm => ?_, ih1⟩, fun y => ?_⟩
      · rcases (ih2 c).1 hm with heq | hm
        · exact hx.1 heq.symm
        · exact hc hm.1
      · simp only [List.mem_cons, ih2]
        constructor
        · rintro (rfl | rfl | hy)
          · exact .inr ⟨.inl rfl, hco⟩
          · exact .inl rfl
          · exact .inr ⟨.inr hy.1, hy.2⟩
        · rintro (rfl | ⟨rfl | hy, hne⟩)
          · exact .inr (.inl rfl)
          · exact .inl rfl
          · exact .inr (.inr ⟨hy, hne⟩)

theorem Agree.replace (h : s.Agree) {old : Schema}
    (hold : s.schemasByPath.get x.version.path x.id = some old) (hne : old ≠ x)
    (hfirst : s.schemas.find? (fun c => c.id = x.id) = some old) :
    Agree { s with schemasByPath := s.schemasByPath.put x, schemas := replaceFirst x s.schemas } := by
  have hnew : x ∉ s.schemas := fun hx => by
    rw [h.same, registered_iff, hold] at hx
    exact hne (Option.some.inj hx)
  obtain ⟨hnd, hmem⟩ := mem_replaceFirst h.nodup hfirst hnew
  refine ⟨hnd, fun y => ?_⟩
  rw [hmem, h.same, registered_iff, registered_iff, ByPath.get_put]
  split_ifs with hy
  · rw [hy.1, hy.2, hold]
    constructor
    · rintro (rfl | ⟨hy, hyo⟩)
      · rfl
      · exact absurd (Option.some.inj hy).symm hyo
    · exact fun hy => .inl (Option.some.inj hy).symm
  · constructor
    · rintro (rfl | hyo)
      · exact absurd ⟨rfl, rfl⟩ hy
      · exact hyo.1
    · refine fun hget => .inr ⟨hget, ?_⟩
      rintro rfl
      obtain ⟨hp, hi⟩ := ByPath.get_filed hold
      exact hy ⟨hp, hi⟩

theorem Agree.store (h : s.Agree) {replace : Bool}
    (hrep : replace = true → ∃ old, s.schemasByPath.get x.version.path x.id = some old
      ∧ (x.dynamicSchemaVersion = old.dynamicSchemaVersion
        ∨ s.schemas.find? (fun c => c.id = x.id) = some old)) :
    (s.store x replace).Agree := by
  unfold Schemas.store
  by_cases hst : s.stores x replace = true
  · simp only [hst, if_true]
    unfold stores at hst
    rcases hold : s.schemasByPath.get x.version.path x.id with _ | old <;> simp only [hold] at hst
    · cases replace with
      | true =>
        obtain ⟨old, hget, -⟩ := hrep rfl
        rw [hold] at hget
        cases hget
      | false =>
        have happ := h.append hold
        exact ⟨happ.nodup, happ.same⟩
    · simp only [Bool.and_eq_true, decide_eq_true_eq] at hst
      obtain ⟨rfl, hdyn⟩ := hst
      obtain ⟨old', hget, hsame⟩ := hrep rfl
      rw [hold] at hget
      cases hget
      have hrpl := h.replace hold (fun heq => hdyn (by rw [heq])) (hsame.resolve_left hdyn)
      exact ⟨hrpl.nodup, hrpl.same⟩
  · simp only [hst, Bool.false_eq_true, if_false]
    exact ⟨h.nodup, h.same⟩

theorem Covered.store (h : s.Covered) (replace : Bool) : (s.store x replace).Covered := by
  intro path m hm
  have hver : ∀ v ∈ s.versions, v ∈ (s.store x replace).versions := by
    intro v hv
    simp only [Schemas.store]
    split_ifs
    · exact List.mem_append_left _ hv
    · exact hv
  by_cases hp : path = x.version.path
  · subst hp
    rcases hget : s.schemasByPath.paths.get x.version.path with _ | m'
    · exact ⟨x.version, by simp [Schemas.store, hget], rfl⟩
    · obtain ⟨v, hv, hpath⟩ := h hget
      exact ⟨v, hver v hv, hpath⟩
  · have hm' : s.schemasByPath.paths.get path = some m := by
      simp only [Schemas.store] at hm
      split_ifs at hm
      · rwa [ByPath.put, SortedMap.get_set, if_neg hp] at hm
      · exact hm
    obtain ⟨v, hv, hpath⟩ := h hm'
    exact ⟨v, hver v hv, hpath⟩

/-- Removing what is not registered changes nothing here. -/
theorem Agree.drop (h : s.Agree)
    (hfree : s.schemasByPath.get x.version.path x.id = none) : (s.drop x).Agree := by
  refine ⟨h.nodup, fun y => ?_⟩
  rw [registered_iff]
  simp only [Schemas.drop, ByPath.get_delete]
  rw [h.same, registered_iff]
  split_ifs with hy
  · rw [hy.1, hy.2, hfree]
    simp
  · rfl

theorem Covered.drop (h : s.Covered) : (s.drop x).Covered := by
  intro path m hm
  obtain ⟨m', hm'⟩ := ByPath.paths_delete hm
  exact h hm'

end Agree

section Run

/-- A call that keeps the two views together: `AddSchema` of a schema that is not embedded anywhere;
`ForceAddSchema` of such a schema in the place of one that has the same dynamic version, or is the
first in the list with the id; `RemoveSchema` of such a schema that is not registered. -/
def Quiet (s : Schemas) : Call → Prop
  | .AddSchema env _ schema =>
    let new := prepare env schema
    new.embed = true → (s.store new false).doSchema env (some new.version) new.embedType = none
  | .ForceAddSchema env _ schema =>
    let new := prepare env schema
    (∃ old ∈ s.schemasByPath.get new.version.path new.id,
        new.dynamicSchemaVersion = old.dynamicSchemaVersion
          ∨ s.schemas.find? (fun c => c.id = new.id) = some old)
      ∧ (new.embed = true → (s.store new true).doSchema env (some new.version) new.embedType = none)
  | .RemoveSchema env _ schema =>
    s.schemasByPath.get schema.version.path schema.id = none
      ∧ (schema.embed = true →
        (s.drop schema).doSchema env (some schema.version) schema.embedType = none)

instance : ∀ c : Call, Decidable (s.Quiet c)
  | .AddSchema _ _ _ => inferInstanceAs (Decidable (_ → _))
  | .ForceAddSchema _ _ _ => inferInstanceAs (Decidable (_ ∧ _))
  | .RemoveSchema _ _ _ => inferInstanceAs (Decidable (_ ∧ _))

theorem Agree.step (h : s.Agree) (hc : s.Covered) {c : Call} {o : List Empty} (hq : s.Quiet c)
    (hs : s.step c = some (s', o)) : s'.Agree ∧ s'.Covered := by
  cases c with
  | AddSchema env fuel schema =>
    rw [Schemas.step, doAddSchema_eq fuel hq] at hs
    cases hs
    have h' : Agree { s with errors := s.errors ++ (setupDefaults env schema).2.toList } :=
      ⟨h.nodup, h.same⟩
    exact ⟨h'.store (by simp), Covered.store hc false⟩
  | ForceAddSchema env fuel schema =>
    rw [Schemas.step, doAddSchema_eq fuel hq.2] at hs
    cases hs
    have h' : Agree { s with errors := s.errors ++ (setupDefaults env schema).2.toList } :=
      ⟨h.nodup, h.same⟩
    exact ⟨h'.store fun _ => hq.1, Covered.store hc true⟩
  | RemoveSchema env fuel schema =>
    rw [Schemas.step, doRemoveSchema_eq fuel hq.2] at hs
    cases hs
    exact ⟨h.drop hq.1, hc.drop⟩

theorem agree_new : NewSchemas.Agree := by
  refine ⟨by simp [NewSchemas], fun x => ?_⟩
  rw [registered_iff]
  simp [NewSchemas, ByPath.empty, ByPath.get]

/-- In every run of calls that keep the two views together, the list has every registered schema
once and no other, and these are the schemas of all versions. -/
theorem schemas_views_agree {cs : List Call} {o : List Empty}
    (hrun : Run.exec step NewSchemas cs = some (s, o)) (hq : Run.Along step Quiet NewSchemas cs) :
    s.schemas.Nodup ∧ (∀ x, x ∈ s.schemas ↔ s.Registered x)
      ∧ ∀ x, x ∈ s.schemas ↔ ∃ v ∈ s.versions, ∃ id, (s.SchemasForVersion v).get id = some x := by
  obtain ⟨hagree, hcov⟩ := Run.exec_invariant_along (fun s _ => Agree s ∧ Covered s)
    ⟨agree_new, by simp [Covered, NewSchemas, ByPath.empty]⟩
    (fun _ _ _ _ _ h hq hs => h.1.step h.2 hq hs) hrun hq
  refine ⟨hagree.nodup, hagree.same, fun x => (hagree.same x).trans ⟨?_, ?_⟩⟩
  · rintro ⟨path, id, hget⟩
    obtain ⟨m, hm, hx⟩ := Option.bind_eq_some_iff.1 hget
    obtain ⟨v, hv, rfl⟩ := hcov hm
    exact ⟨v, hv, id, by rwa [SchemasForVersion, hm]⟩
  · rintro ⟨v, -, id, hx⟩
    refine ⟨v.path, id, ?_⟩
    unfold SchemasForVersion at hx
    rcases hm : s.schemasByPath.paths.get v.path with _ | m
    · simp [hm] at hx
    · simpa [ByPath.get, hm] using hx

/-- The registry as it is called: upper and lower case of plain letters, no hook. -/
def plainEnv : Env where
  equalFold a b := a.toList.map Char.toLower = b.toList.map Char.toLower
  capitalize s := String.ofList (s.toList.take 1 |>.map Char.toUpper) ++ String.ofList (s.toList.drop 1)
  addHook := none
  pick := List.head?
  pick_mem := List.mem_of_head?
  pick_none := List.head?_eq_none_iff.1

/-- A schema of the first version of an API, without fields. -/
def schemaOf (id dynamicSchemaVersion : String) : Schema where
  id
  version := { version := "v1", path := "/v1" }
  resourceFields := ∅
  dynamicSchemaVersion

/-- Two schemas are added, and one of them is replaced. -/
def quietCalls : List Call :=
  [.AddSchema plainEnv 0 (schemaOf "node" "1"), .AddSchema plainEnv 0 (schemaOf "pod" "1"),
    .ForceAddSchema plainEnv 0 (schemaOf "node" "2")]

theorem quietCalls_agree :
    ∃ s o, Run.exec step NewSchemas quietCalls = some (s, o)
      ∧ s.schemas.map (fun x => (x.id, x.dynamicSchemaVersion)) = [("node", "2"), ("pod", "1")]
      ∧ s.schemas.Nodup ∧ (∀ x, x ∈ s.schemas ↔ s.Registered x)
      ∧ ∀ x, x ∈ s.schemas ↔ ∃ v ∈ s.versions, ∃ id, (s.SchemasForVersion v).get id = some x := by
  have hlist : (Run.exec step NewSchemas quietCalls).map
      (fun r => r.1.schemas.map fun x => (x.id, x.dynamicSchemaVersion))
      = some [("node", "2"), ("pod", "1")] := by
    decide +kernel
  obtain ⟨⟨s, o⟩, hrun, hs⟩ := Option.map_eq_some_iff.1 hlist
  exact ⟨s, o, hrun, hs, schemas_views_agree hrun (by decide +kernel)⟩

/-- After it was removed, the schema is still in the list. -/
theorem removed_still_listed :
    ∃ s o, Run.exec step NewSchemas [.AddSchema plainEnv 0 (schemaOf "node" "1"),
        .RemoveSchema plainEnv 0 (schemaOf "node" "1")] = some (s, o)
      ∧ prepare plainEnv (schemaOf "node" "1") ∈ s.schemas
      ∧ ¬ s.Registered (prepare plainEnv (schemaOf "node" "1")) := by
  have hlist : (Run.exec step NewSchemas [.AddSchema plainEnv 0 (schemaOf "node" "1"),
      .RemoveSchema plainEnv 0 (schemaOf "node" "1")]).map
        (fun r => (r.1.schemas, r.1.schemasByPath.get "/v1" "node"))
      = some ([prepare plainEnv (schemaOf "node" "1")], none) := by
    decide +kernel
  obtain ⟨⟨s, o⟩, hrun, hs⟩ := Option.map_eq_some_iff.1 hlist
  simp only [Prod.mk.injEq] at hs
  refine ⟨s, o, hrun, by rw [hs.1]; exact List.mem_singleton_self _, fun hreg => ?_⟩
  rw [registered_iff] at hreg
  exact absurd (hs.2.symm.trans hreg) (by simp)

end Run

end Schemas

end Norman.Types
