import Norman.Lib.Parts
import Norman.Parse
import Norman.Proofs.References

/-!
# How a path is parsed

A path of plain parts is split into them, and nothing in it is collapsed or escaped
(`pathParts_under`). The parser goes by the versions that match it, each path of which is registered
once: `Seen` says which is the longest, and how many parts belong to it. From there on the parts are
read directly (`Seen.direct`), as an object of a sub-context (`Seen.object`) or as something inside
of it (`Seen.inside`).
-/

namespace Norman.Types.Schemas

section Versions

variable {s s' : Schemas} {x : Schema}

/-- The list of versions has each path that is filed once, and no other. -/
structure Versioned (s : Schemas) : Prop where
  nodup : (s.versions.map APIVersion.path).Nodup
  mem : ∀ path, path ∈ s.versions.map APIVersion.path
    ↔ (s.schemasByPath.paths.get path).isSome = true

theorem paths_store (path : String) (replace : Bool) :
    ((s.store x replace).schemasByPath.paths.get path).isSome = true
      ↔ path = x.version.path ∨ (s.schemasByPath.paths.get path).isSome = true := by
  by_cases hst : s.stores x replace = true
  · simp only [Schemas.store, hst, if_true, ByPath.put, SortedMap.get_set]
    split_ifs with hp <;> simp [hp]
  · simp only [Schemas.store, hst, Bool.false_eq_true, if_false]
    refine ⟨.inr, fun h => h.elim (fun hp => ?_) id⟩
    rw [hp]
    unfold stores at hst
    rcases hget : s.schemasByPath.paths.get x.version.path with _ | m
    · simp [ByPath.get, hget] at hst
    · rfl

theorem paths_drop (path : String) :
    ((s.drop x).schemasByPath.paths.get path).isSome
      = (s.schemasByPath.paths.get path).isSome := by
  simp only [Schemas.drop, ByPath.delete]
  split
  · rfl
  · rename_i m hm
    rw [SortedMap.get_set]
    split_ifs with hp
    · rw [hp, hm]
      rfl
    · rfl

theorem Versioned.store (h : s.Versioned) (x : Schema) (replace : Bool) :
    (s.store x replace).Versioned := by
  have hversions : (s.store x replace).versions
      = if s.schemasByPath.paths.get x.version.path = none then s.versions ++ [x.version]
        else s.versions := rfl
  rcases hget : s.schemasByPath.paths.get x.version.path with _ | m
  · rw [hget, if_pos rfl] at hversions
    have hnew : x.version.path ∉ s.versions.map APIVersion.path := by
      rw [h.mem, hget]
      simp
    constructor
    · rw [hversions, List.map_append, List.map_singleton, ← List.concat_eq_append]
      exact h.nodup.concat hnew
    · intro path
      rw [hversions, paths_store, ← h.mem]
      simp [or_comm]
  · rw [hget, if_neg (by simp)] at hversions
    constructor
    · rw [hversions]
      exact h.nodup
    · intro path
      rw [hversions, paths_store, h.mem]
      refine ⟨.inr, fun hp => hp.elim (fun hp => ?_) id⟩
      rw [hp, hget]
      rfl

theorem Versioned.drop (h : s.Versioned) (x : Schema) : (s.drop x).Versioned :=
  ⟨h.nodup, fun path => by rw [paths_drop]; exact h.mem path⟩

/-- Every registry has its versions in order. -/
theorem versioned_of_run {cs : List Call} {o : List Empty}
    (hrun : Run.exec step NewSchemas cs = some (s, o)) : s.Versioned := by
  have hnew : NewSchemas.Versioned :=
    ⟨by simp [NewSchemas], fun path => by simp [NewSchemas, ByPath.empty]⟩
  refine Run.exec_invariant (P := fun s _ => s.Versioned) hnew ?_ hrun
  intro s _ c s' o h hs
  have herrors : ∀ {s : Schemas} errors, s.Versioned → Versioned { s with errors } :=
    fun _ h => ⟨h.nodup, h.mem⟩
  exact step_keeps (fun _ _ h => (herrors _ h).store _ false) (fun x h => h.drop x)
    (fun _ _ _ _ => (herrors _ h).store _ true) h hs

theorem Versioned.eq_of_path (h : s.Versioned) {v v' : APIVersion} (hv : v ∈ s.versions)
    (hv' : v' ∈ s.versions) (hpath : v.path = v'.path) : v = v' :=
  List.inj_on_of_nodup_map h.nodup hv hv' hpath

theorem Versioned.of_registered (h : s.Versioned) (hx : s.Registered x) :
    ∃ v ∈ s.versions, v.path = x.version.path := by
  obtain ⟨m, hm, -⟩ := Option.bind_eq_some_iff.1 (registered_iff.1 hx)
  have hmem := (h.mem x.version.path).2 (by rw [hm]; rfl)
  exact List.mem_map.1 hmem

end Versions

end Norman.Types.Schemas

namespace Norman.Parse

open Norman.Types

section Paths

/-- A character that stands for itself in a path: neither a separator nor escaped. -/
def keeps (c : Char) : Bool := c.isAlphanum || "-._~!$&'()*+,;=:@[]".toList.contains c

/-- One part of a path, in which nothing is escaped. -/
def Single (part : String) : Prop := part ≠ "" ∧ part.toList.all keeps = true

instance (part : String) : Decidable (Single part) := inferInstanceAs (Decidable (_ ∧ _))

/-- The path with further parts. -/
def under (path : String) (parts : List String) : String :=
  parts.foldl (fun buffer part => buffer ++ "/" ++ part) path

/-- A path such as `/v3/project`. -/
def Plain (path : String) : Prop :=
  ∃ parts, parts ≠ [] ∧ (∀ p ∈ parts, Single p) ∧ path = under "" parts

/-- How many parts a path has. -/
def depth (path : String) : ℕ := path.toList.count '/'

variable {net : Net} {parts : List String}

theorem Single.not_mem {part : String} (h : Single part) {c : Char} (hc : keeps c = false) :
    c ∉ part.toList := by
  intro hmem
  rw [List.all_eq_true.1 h.2 c hmem] at hc
  cases hc

theorem Single.no_slash {part : String} (h : Single part) : '/' ∉ part.toList :=
  h.not_mem (by decide)

theorem under_append (path : String) (parts more : List String) :
    under path (parts ++ more) = under (under path parts) more :=
  List.foldl_append

theorem toList_under : ∀ (parts : List String) (path : String),
    (under path parts).toList = path.toList ++ Parts.joined '/' (parts.map String.toList)
  | [], path => by simp [under]
  | p :: parts, path => by
    have hcons : under path (p :: parts) = under (path ++ "/" ++ p) parts := rfl
    rw [hcons, toList_under parts]
    simp

theorem no_slash_of_single (h : ∀ p ∈ parts, Single p) :
    ∀ p ∈ parts.map String.toList, '/' ∉ p := by
  intro p hp
  obtain ⟨q, hq, rfl⟩ := List.mem_map.1 hp
  exact (h q hq).no_slash

theorem collapse_append {l : List Char} (hl : '/' ∉ l) (hne : l ≠ []) (r : List Char) :
    collapse (l ++ r) = l ++ collapse r := by
  fun_induction collapse l with
  | case1 => exact absurd rfl hne
  | case2 c =>
    have hc : c ≠ '/' := fun hc => hl (by simp [hc])
    rcases r with _ | ⟨d, r⟩
    · rfl
    · simp [collapse, hc]
  | case3 c d cs hslash ih => exact absurd (List.mem_cons_self) (hslash.1 ▸ hl)
  | case4 c d cs hslash ih =>
    have hd : '/' ∉ d :: cs := fun h => hl (List.mem_cons_of_mem _ h)
    rw [List.cons_append, List.cons_append, collapse, if_neg hslash, ← List.cons_append,
      ih hd (by simp)]
    rfl

/-- There is nothing to collapse. -/
theorem collapse_joined : ∀ {parts : List String}, (∀ p ∈ parts, Single p) →
    collapse (Parts.joined '/' (parts.map String.toList))
      = Parts.joined '/' (parts.map String.toList)
  | [], _ => rfl
  | p :: parts, h => by
    have hp := h p List.mem_cons_self
    have ih := collapse_joined fun q hq => h q (List.mem_cons_of_mem _ hq)
    have hne : p.toList ≠ [] := by simpa using hp.1
    have happ := collapse_append hp.no_slash hne (Parts.joined '/' (parts.map String.toList))
    rw [ih] at happ
    rw [List.map_cons, Parts.joined_cons]
    rcases hl : p.toList with _ | ⟨c, cs⟩
    · exact absurd hl hne
    · have hc : c ≠ '/' := fun hc => hp.no_slash (by simp [hl, hc])
      rw [hl] at happ
      simp only [List.cons_append] at happ ⊢
      simp [collapse, hc, happ]

theorem getLast?_joined : ∀ {parts : List String}, (∀ p ∈ parts, Single p) →
    (Parts.joined '/' (parts.map String.toList)).getLast? ≠ some '/'
  | [], _ => by simp
  | p :: parts, h => by
    have hp := h p List.mem_cons_self
    have ih := getLast?_joined fun q hq => h q (List.mem_cons_of_mem _ hq)
    rw [List.map_cons, Parts.joined_cons, ← List.cons_append, List.getLast?_append]
    rcases hl : (Parts.joined '/' (parts.map String.toList)).getLast? with _ | c
    · have hne : p.toList ≠ [] := by simpa using hp.1
      rw [Option.none_or, List.getLast?_cons_of_ne_nil hne]
      exact fun hlast => hp.no_slash (List.mem_of_getLast? hlast)
    · rw [hl] at ih
      exact ih

theorem split_under (h : ∀ p ∈ parts, Single p) :
    split '/' (under "" parts) = "" :: parts := by
  unfold split
  rw [toList_under, Parts.splitOn_append_joined _ _ (no_slash_of_single h)]
  simp [Function.comp_def]

theorem collapse_under (h : ∀ p ∈ parts, Single p) :
    String.ofList (collapse (under "" parts).toList) = under "" parts := by
  rw [toList_under, String.toList_empty, List.nil_append, collapse_joined h]
  exact String.toList_inj.1 (by simp [toList_under])

/-- A path of plain parts is split into them. -/
theorem pathParts_under (h : ∀ p ∈ parts, Single p) :
    pathParts net (under "" parts) = "" :: parts := by
  have hsuffix : hasSuffix (under "" parts) "/" = false := by
    rw [Bool.eq_false_iff]
    intro hs
    obtain ⟨t, ht⟩ := hasSuffix_iff.1 hs
    apply getLast?_joined h
    have hlist : Parts.joined '/' (parts.map String.toList) = t.toList ++ ['/'] := by
      rw [← List.nil_append (Parts.joined _ _), ← String.toList_empty, ← toList_under, ht]
      simp
    rw [hlist, List.getLast?_append]
    rfl
  have hplain : ∀ p ∈ "" :: parts, (net.pathUnescape p).getD p = p := by
    intro p hp
    have hpercent : '%' ∉ p.toList := by
      rcases List.mem_cons.1 hp with rfl | hp
      · simp
      · exact (h p hp).not_mem (by decide)
    rw [net.pathUnescape_plain p hpercent, Option.getD_some]
  unfold pathParts
  simp only [hsuffix, Bool.false_eq_true, if_false, split_under h]
  exact (List.map_congr_left hplain).trans (List.map_id' _)

end Paths

section Matching

variable (schemas : Schemas) (path : String)

/-- The registered version is taken into account for the path. -/
def Matching (v : APIVersion) : Prop := v ∈ schemas.versions ∧ matchesVersion path v = true

/-- No version with a longer path matches. -/
structure Longest (v : APIVersion) : Prop where
  matching : Matching schemas path v
  length_le : ∀ v', Matching schemas path v' → v'.path.toList.length ≤ v.path.toList.length

/-- The longest one of the other versions that match. -/
structure Next (v next : APIVersion) : Prop where
  matching : Matching schemas path next
  ne : next ≠ v
  length_le : ∀ v', Matching schemas path v' → v' ≠ v →
    v'.path.toList.length ≤ next.path.toList.length

/-- The version is a sub-context of another one that matches. -/
def Opens (v : APIVersion) : Prop :=
  v.subContext = true ∧ ∃ v', Matching schemas path v' ∧ v' ≠ v

variable {schemas path} {v v' : APIVersion} {vs : List APIVersion}

theorem Matching.starts (h : Matching schemas path v) : v.path.toList <+: path.toList := by
  have hm := h.2
  unfold matchesVersion at hm
  rw [Bool.and_eq_true] at hm
  exact List.isPrefixOf_iff_prefix.1 hm.1

theorem mem_versionsForPath : v ∈ versionsForPath schemas path ↔ Matching schemas path v := by
  unfold versionsForPath
  rw [(List.perm_insertionSort _ _).mem_iff, List.mem_filter]
  rfl

/-- The longer versions come first, and no two are of one length. -/
theorem pairwise_versionsForPath (hs : schemas.Versioned) (path : String) :
    (versionsForPath schemas path).Pairwise
      fun a b => b.path.toList.length < a.path.toList.length := by
  have htotal : Std.Total fun a b : APIVersion => b.path.toList.length ≤ a.path.toList.length :=
    ⟨fun a b => le_total _ _⟩
  have htrans : IsTrans APIVersion fun a b => b.path.toList.length ≤ a.path.toList.length :=
    ⟨fun a b c hab hbc => le_trans hbc hab⟩
  have hsorted := List.pairwise_insertionSort
    (fun a b : APIVersion => b.path.toList.length ≤ a.path.toList.length)
    (schemas.versions.filter (matchesVersion path))
  have hnodup : (versionsForPath schemas path).Nodup :=
    (List.perm_insertionSort _ _).nodup_iff.2 ((List.Nodup.of_map _ hs.nodup).filter _)
  refine (hsorted.and hnodup).imp_of_mem ?_
  rintro a b ha hb ⟨hle, hne⟩
  refine lt_of_le_of_ne hle fun hlen => hne ?_
  have ha := mem_versionsForPath.1 ha
  have hb := mem_versionsForPath.1 hb
  have hpre := List.prefix_of_prefix_length_le hb.starts ha.starts hle
  exact hs.eq_of_path ha.1 hb.1 (String.toList_inj.1 (hpre.eq_of_length hlen).symm)

/-- In a list that falls, the head is the greatest. -/
theorem exists_cons_iff {α : Type*} {f : α → ℕ} {l : List α}
    (hl : l.Pairwise fun a b => f b < f a) {a : α} :
    (∃ t, l = a :: t) ↔ a ∈ l ∧ ∀ b ∈ l, f b ≤ f a := by
  constructor
  · rintro ⟨t, rfl⟩
    refine ⟨List.mem_cons_self, fun b hb => ?_⟩
    rcases List.mem_cons.1 hb with rfl | hb
    · exact le_rfl
    · exact ((List.pairwise_cons.1 hl).1 b hb).le
  · rintro ⟨ha, hmax⟩
    rcases l with _ | ⟨b, t⟩
    · cases ha
    · rcases List.mem_cons.1 ha with rfl | ha
      · exact ⟨t, rfl⟩
      · have hlt := (List.pairwise_cons.1 hl).1 a ha
        exact absurd (hmax b List.mem_cons_self) (not_le.2 hlt)

theorem longest_iff (hs : schemas.Versioned) :
    Longest schemas path v ↔ ∃ vs, versionsForPath schemas path = v :: vs := by
  rw [exists_cons_iff (pairwise_versionsForPath hs path)]
  simp only [mem_versionsForPath]
  exact ⟨fun h => ⟨h.matching, h.length_le⟩, fun h => ⟨h.1, h.2⟩⟩

/-- The versions behind the first one. -/
theorem mem_tail_iff (hs : schemas.Versioned) (hvs : versionsForPath schemas path = v :: vs) :
    v' ∈ vs ↔ Matching schemas path v' ∧ v' ≠ v := by
  have hpair := pairwise_versionsForPath hs path
  rw [hvs] at hpair
  rw [← mem_versionsForPath, hvs, List.mem_cons]
  constructor
  · intro h
    refine ⟨.inr h, ?_⟩
    rintro rfl
    exact lt_irrefl _ ((List.pairwise_cons.1 hpair).1 v' h)
  · rintro ⟨rfl | h, hne⟩
    · exact absurd rfl hne
    · exact h

theorem opens_iff (hs : schemas.Versioned) (hvs : versionsForPath schemas path = v :: vs) :
    Opens schemas path v ↔ v.subContext = true ∧ vs ≠ [] := by
  simp only [Opens, ← mem_tail_iff hs hvs]
  exact and_congr_right fun _ => ⟨fun ⟨_, h⟩ => List.ne_nil_of_mem h, List.exists_mem_of_ne_nil vs⟩

theorem next_iff (hs : schemas.Versioned) (hvs : versionsForPath schemas path = v :: vs) :
    Next schemas path v v' ↔ ∃ vs', vs = v' :: vs' := by
  have hpair := pairwise_versionsForPath hs path
  rw [hvs] at hpair
  rw [exists_cons_iff (List.pairwise_cons.1 hpair).2]
  simp only [mem_tail_iff hs hvs, and_imp]
  exact ⟨fun h => ⟨⟨h.matching, h.ne⟩, h.length_le⟩, fun h => ⟨h.1.1, h.1.2, h.2⟩⟩

end Matching

section Found

/-- The names under which the schemas themselves are read. -/
def IsSchemas (name : String) : Prop := name = "schema" ∨ name = "schemas"

/-- The name stands for the schema in this version; the schemas themselves are found in every
version that does not have such a name. -/
def Finds (net : Net) (schemas : Schemas) (v : APIVersion) (name : String) (x : Schema) : Prop :=
  schemas.doSchema net.toEnv (some v) name = some x
    ∨ schemas.doSchema net.toEnv (some v) name = none ∧ IsSchemas name
      ∧ schemas.doSchema net.toEnv (some builtinVersion) name = some x

/-- A request for the path is one for the schema, and parsed like this. -/
def ReadAs (net : Net) (schemas : Schemas) (path : String) (x : Schema) (parsed : ParsedURL) :
    Prop :=
  DefaultURLParser net schemas path ∅ = some parsed
    ∧ (DefaultResolver net schemas parsed.type
        { version := parsed.version, request := { urlPath := path, escapedPath := path } }).schema
      = some x

variable {net : Net} {schemas : Schemas} {path name : String} {x : Schema} {v next : APIVersion}
  {vs : List APIVersion} {parts versionParts rest : List String} {p q : String}

theorem defaultResolver_schema {request : APIContext} (hversion : request.version = some v)
    (hschema : request.schema = none) :
    (DefaultResolver net schemas name request).schema = some x
      ↔ name ≠ "" ∧ Finds net schemas v name x := by
  unfold DefaultResolver Finds IsSchemas
  by_cases hname : name = ""
  · simp [hname, hschema]
  · rw [if_neg hname, hversion]
    simp only [ne_eq, hname, not_false_eq_true, true_and]
    rcases schemas.doSchema net.toEnv (some v) name with _ | y
    · by_cases hn : name = "schema" ∨ name = "schemas"
      · simp only [hn, and_self, if_true]
        rcases schemas.doSchema net.toEnv (some builtinVersion) name with _ | y <;> simp [hschema]
      · simp [hn, hschema]
    · simp

theorem readAs_iff {found : Found} (hcollapse : String.ofList (collapse path.toList) = path)
    (hfound : parseVersionAndSubContext net schemas path = some (some found))
    {Q : String → String → Prop} :
    (∃ parsed, ReadAs net schemas path x parsed ∧ Q parsed.id parsed.link)
      ↔ safeIndex found.parts 0 ≠ "" ∧ Finds net schemas found.version (safeIndex found.parts 0) x
        ∧ Q (safeIndex found.parts 1) (safeIndex found.parts 2) := by
  unfold ReadAs DefaultURLParser
  rw [hcollapse, hfound, Option.map_some]
  constructor
  · rintro ⟨parsed, ⟨hparsed, hres⟩, hq⟩
    cases hparsed
    obtain ⟨hne, hfinds⟩ := (defaultResolver_schema rfl rfl).1 hres
    exact ⟨hne, hfinds, hq⟩
  · rintro ⟨hne, hfinds, hq⟩
    exact ⟨_, ⟨rfl, (defaultResolver_schema rfl rfl).2 ⟨hne, hfinds⟩⟩, hq⟩

theorem parse_plain (hvs : versionsForPath schemas path = v :: vs)
    (hplain : ¬ (v.subContext = true ∧ vs ≠ []))
    (hlen : (split '/' v.path).length ≤ (pathParts net path).length) :
    parseVersionAndSubContext net schemas path
      = some (some ⟨none, v, "", (pathParts net path).drop (split '/' v.path).length, ∅⟩) := by
  unfold parseVersionAndSubContext
  rw [hvs]
  simp only [if_neg (not_lt.2 hlen)]
  rcases hsub : v.subContext with _ | _
  · rfl
  · rcases vs with _ | ⟨next, vs⟩
    · rfl
    · exact absurd ⟨hsub, by simp⟩ hplain

theorem parse_opened (hvs : versionsForPath schemas path = v :: next :: vs)
    (hsub : v.subContext = true)
    (hlen : (split '/' v.path).length ≤ (pathParts net path).length) :
    parseVersionAndSubContext net schemas path
      = some (some (parseSubContext net schemas v next (v :: next :: vs) (pathParts net path)
          (split '/' v.path))) := by
  unfold parseVersionAndSubContext
  rw [hvs]
  simp only [if_neg (not_lt.2 hlen), hsub]

section SubContext

variable (net schemas v next)

/-- Nothing but the name of the sub-context follows: it is an object of the next version. -/
theorem parseSubContext_object (versions : List APIVersion) (h : parts.drop versionParts.length = []
      ∨ ∃ p, parts.drop versionParts.length = [p] ∧ ¬ IsSchemas p) :
    (parseSubContext net schemas v next versions parts versionParts).version = next
      ∧ (parseSubContext net schemas v next versions parts versionParts).parts
        = parts.drop (versionParts.length - 1) := by
  unfold parseSubContext
  rcases h with h | ⟨p, h, hp⟩
  · simp [h]
  · unfold IsSchemas at hp
    simp [h, hp]

theorem parseSubContext_schemas (versions : List APIVersion)
    (h : parts.drop versionParts.length = p :: rest) (hp : IsSchemas p) :
    (parseSubContext net schemas v next versions parts versionParts).version = v
      ∧ (parseSubContext net schemas v next versions parts versionParts).parts = p :: rest := by
  unfold parseSubContext
  unfold IsSchemas at hp
  rcases rest with _ | ⟨q, rest⟩ <;> simp [h, hp]

/-- The schema is in the version itself, or it may be in another one. -/
theorem parseSubContext_inside (vs : List APIVersion)
    (h : parts.drop versionParts.length = p :: q :: rest) (hp : ¬ IsSchemas p) :
    (parseSubContext net schemas v next (v :: vs) parts versionParts).parts = q :: rest
      ∧ ((parseSubContext net schemas v next (v :: vs) parts versionParts).version = v
        ∨ schemas.doSchema net.toEnv (some v) q = none ∧ (schemas.doSchema net.toEnv
          (some (parseSubContext net schemas v next (v :: vs) parts versionParts).version)
            q).isSome = true) := by
  unfold parseSubContext
  unfold IsSchemas at hp
  simp only [h, hp, if_false]
  split
  · rename_i i u hu
    obtain ⟨⟨u', j⟩, hfind, hswap⟩ := Option.map_eq_some_iff.1 hu
    cases hswap
    refine ⟨rfl, .inr ⟨?_, ?_⟩⟩
    · rw [← Option.not_isSome_iff_eq_none]
      intro hsome
      rw [List.zipIdx_cons, List.find?_cons_of_pos (by simpa using hsome)] at hfind
      cases hfind
    · simpa using List.find?_some hfind
  · exact ⟨rfl, .inl rfl⟩

end SubContext

end Found

section Seen

variable {net : Net} {schemas : Schemas} {own : String} {rest : List String} {x : Schema}
  {v w next : APIVersion} {vs : List APIVersion} {k : ℕ} {Q : String → String → Prop}

theorem length_split (path : String) : (split '/' path).length = depth path + 1 := by
  rw [split, List.length_map, Parts.length_splitOn]
  rfl

theorem depth_under (path : String) {parts : List String} (h : ∀ p ∈ parts, Single p) :
    depth (under path parts) = depth path + parts.length := by
  unfold depth
  rw [toList_under, List.count_append, Parts.count_joined (no_slash_of_single h), List.length_map]

theorem Plain.ne_empty (h : Plain own) : own ≠ "" := by
  obtain ⟨parts, hne, -, rfl⟩ := h
  intro hempty
  have hlist := congrArg String.toList hempty
  rw [toList_under] at hlist
  rcases parts with _ | ⟨p, parts⟩
  · exact hne rfl
  · simp at hlist

/-- The link of plain parts is one. -/
theorem Plain.under (h : Plain own) (hrest : ∀ p ∈ rest, Single p) :
    ∃ parts, parts.length = depth own ∧ (∀ p ∈ parts ++ rest, Single p)
      ∧ under own rest = Parse.under "" (parts ++ rest) := by
  obtain ⟨parts, -, hparts, rfl⟩ := h
  refine ⟨parts, ?_, fun p hp => (List.mem_append.1 hp).elim (hparts p) (hrest p), ?_⟩
  · rw [depth_under "" hparts]
    simp [depth]
  · rw [under_append]

/-- The version of the link itself matches. -/
theorem matching_own (hw : w ∈ schemas.versions) (hpath : w.path = own) (hne : rest ≠ []) :
    Matching schemas (under own rest) w := by
  refine ⟨hw, ?_⟩
  unfold matchesVersion hasPrefix
  rw [hpath, toList_under, List.drop_left, Bool.and_eq_true]
  refine ⟨List.isPrefixOf_iff_prefix.2 (List.prefix_append _ _), ?_⟩
  rcases rest with _ | ⟨p, rest⟩
  · exact absurd rfl hne
  · simp

/-- How the parser sees a link: the versions that match, the longest one first, and how many of the
parts behind its own version belong to that one. -/
structure Seen (schemas : Schemas) (own : String) (rest : List String) (v : APIVersion)
    (vs : List APIVersion) (k : ℕ) : Prop where
  versions : versionsForPath schemas (under own rest) = v :: vs
  le : k ≤ rest.length
  depth_eq : depth v.path = depth own + k
  zero_iff : k = 0 ↔ v.path = own

theorem exists_seen (hs : schemas.Versioned) (hrest : ∀ p ∈ rest, Single p) (hne : rest ≠ [])
    (hw : w ∈ schemas.versions) (hpath : w.path = own) :
    ∃ v vs k, Seen schemas own rest v vs k := by
  have hmatch : Matching schemas (under own rest) w := matching_own hw hpath hne
  rcases hvs : versionsForPath schemas (under own rest) with _ | ⟨v, vs⟩
  · have hmem := mem_versionsForPath.2 hmatch
    rw [hvs] at hmem
    cases hmem
  · have hlongest := (longest_iff hs).2 ⟨vs, hvs⟩
    have hlen := hlongest.length_le w hmatch
    have hpre := hlongest.matching.starts
    rw [hpath] at hlen
    rw [toList_under] at hpre
    obtain ⟨k, hk, hcount, hzero⟩ := Parts.count_of_front (no_slash_of_single hrest) hpre hlen
    rw [List.length_map] at hk
    exact ⟨v, vs, k, hvs, hk, hcount, hzero.trans String.toList_inj⟩

/-- The path is one for the schema, and its id and link are like this. -/
def PathReads (net : Net) (schemas : Schemas) (path : String) (x : Schema)
    (Q : String → String → Prop) : Prop :=
  ∃ parsed, ReadAs net schemas path x parsed ∧ Q parsed.id parsed.link

/-- The parts, in the version, are those of such a path. -/
def Yields (net : Net) (schemas : Schemas) (v : APIVersion) (parts : List String) (x : Schema)
    (Q : String → String → Prop) : Prop :=
  safeIndex parts 0 ≠ "" ∧ Finds net schemas v (safeIndex parts 0) x
    ∧ Q (safeIndex parts 1) (safeIndex parts 2)

namespace Seen

variable (h : Seen schemas own rest v vs k) (hown : Plain own) (hrest : ∀ p ∈ rest, Single p)

include hown hrest

theorem reads_iff {found : Found} (hfound : parseVersionAndSubContext net schemas (under own rest)
      = some (some found)) :
    PathReads net schemas (under own rest) x Q
      ↔ Yields net schemas found.version found.parts x Q := by
  obtain ⟨parts, -, hall, heq⟩ := hown.under hrest
  refine readAs_iff ?_ hfound
  rw [heq]
  exact collapse_under hall

include h

variable (net) in
theorem length_le : (split '/' v.path).length ≤ (pathParts net (under own rest)).length := by
  obtain ⟨parts, hlen, hall, heq⟩ := hown.under hrest
  rw [heq, pathParts_under hall, length_split, h.depth_eq, ← hlen]
  have := h.le
  simp
  omega

variable (net) in
theorem drop_eq : (pathParts net (under own rest)).drop (split '/' v.path).length
    = rest.drop k := by
  obtain ⟨parts, hlen, hall, heq⟩ := hown.under hrest
  rw [heq, pathParts_under hall, length_split, h.depth_eq, ← hlen, List.drop_succ_cons,
    ← List.drop_drop, List.drop_left]

variable (net) in
theorem drop_pred {j : ℕ} (hj : k = j + 1) :
    (pathParts net (under own rest)).drop ((split '/' v.path).length - 1) = rest.drop j := by
  obtain ⟨parts, hlen, hall, heq⟩ := hown.under hrest
  rw [heq, pathParts_under hall, length_split, h.depth_eq, ← hlen, hj, Nat.add_sub_cancel,
    ← Nat.add_assoc, List.drop_succ_cons, ← List.drop_drop, List.drop_left]

/-- The version is no sub-context here, or the schemas are asked for. -/
theorem direct (hs : schemas.Versioned)
    (hplain : Opens schemas (under own rest) v → ∃ p tail, rest.drop k = p :: tail ∧ IsSchemas p) :
    PathReads net schemas (under own rest) x Q ↔ Yields net schemas v (rest.drop k) x Q := by
  have hlen := h.length_le net hown hrest
  by_cases hopens : Opens schemas (under own rest) v
  · obtain ⟨p, tail, hdrop, hp⟩ := hplain hopens
    have hsub := (opens_iff hs h.versions).1 hopens
    rcases vs with _ | ⟨next, vs⟩
    · exact absurd rfl hsub.2
    · rw [reads_iff hown hrest (parse_opened h.versions hsub.1 hlen)]
      have hfound := parseSubContext_schemas net schemas v next (v :: next :: vs)
        ((h.drop_eq net hown hrest).trans hdrop) hp
      rw [hfound.1, hfound.2, hdrop]
  · rw [reads_iff hown hrest (parse_plain h.versions (mt (opens_iff hs h.versions).2 hopens) hlen),
      h.drop_eq net hown hrest]

theorem object (hs : schemas.Versioned) (hsub : v.subContext = true)
    (hnext : Next schemas (under own rest) v next) {j : ℕ} (hj : k = j + 1)
    (hdrop : rest.drop k = [] ∨ ∃ p, rest.drop k = [p] ∧ ¬ IsSchemas p) :
    PathReads net schemas (under own rest) x Q ↔ Yields net schemas next (rest.drop j) x Q := by
  obtain ⟨vs', rfl⟩ := (next_iff hs h.versions).1 hnext
  rw [reads_iff hown hrest (parse_opened h.versions hsub (h.length_le net hown hrest))]
  rw [← h.drop_eq net hown hrest] at hdrop
  have hfound := parseSubContext_object net schemas v next (v :: next :: vs') hdrop
  rw [hfound.1, hfound.2, h.drop_pred net hown hrest hj]

variable (net Q) in
theorem inside (hs : schemas.Versioned) (hopens : Opens schemas (under own rest) v)
    {p q : String} {tail : List String} (hdrop : rest.drop k = p :: q :: tail)
    (hp : ¬ IsSchemas p) :
    ∃ w, (w = v ∨ schemas.doSchema net.toEnv (some v) q = none
        ∧ (schemas.doSchema net.toEnv (some w) q).isSome = true)
      ∧ (PathReads net schemas (under own rest) x Q ↔ Yields net schemas w (q :: tail) x Q) := by
  have hsub := (opens_iff hs h.versions).1 hopens
  rcases vs with _ | ⟨next, vs⟩
  · exact absurd rfl hsub.2
  · have hlen := h.length_le net hown hrest
    have hfound := parseSubContext_inside net schemas v next (next :: vs)
      ((h.drop_eq net hown hrest).trans hdrop) hp
    refine ⟨_, hfound.2, ?_⟩
    rw [reads_iff hown hrest (parse_opened h.versions hsub.1 hlen), hfound.1]

end Seen

end Seen

end Norman.Parse
