import Norman.Proofs.Imports
import Norman.Proofs.Mediation
import Norman.Proofs.Paths

/-!
# Links read back

A link is the path of the version of the schema, the sub-context of the request, the plural name
and the id. Whether the parser reads it as it was written depends on which versions match it: the
longest one decides, and one that is a sub-context takes the part behind it for the name of the
sub-context. As the sub-context of the request is written behind the path of every version, a link
to a schema of another version is not read back in general.
-/

namespace Norman

open Norman.Types

section Base

/-- A text that ends with another one has it there for the last time. -/
theorem lastIndex_append (s t : String) : lastIndex (s ++ t) t = some s.toList.length := by
  unfold lastIndex
  rw [List.find?_eq_some_iff_append]
  have hrange : (List.range ((s ++ t).toList.length + 1)).reverse
      = ((List.range t.toList.length).map (s.toList.length + 1 + ·)).reverse
        ++ s.toList.length :: (List.range s.toList.length).reverse := by
    rw [String.toList_append, List.length_append, Nat.add_right_comm, List.range_add,
      List.range_succ]
    simp
  refine ⟨by simp, _, _, hrange, fun i hi => ?_⟩
  obtain ⟨j, hj, rfl⟩ := List.mem_map.1 (List.mem_reverse.1 hi)
  rw [Bool.not_eq_true', Bool.eq_false_iff, ne_eq, List.isPrefixOf_iff_prefix]
  intro hpre
  have hlen := hpre.length_le
  rw [List.length_drop, String.toList_append, List.length_append] at hlen
  have hj := List.mem_range.1 hj
  omega

namespace UrlBuilder

variable {u : UrlBuilder}

/-- The path that a link leads to: what follows the base. -/
def pathOf (u : UrlBuilder) (link : String) : String :=
  String.ofList (link.toList.drop u.responseURLBase.toList.length)

theorem pathOf_base (path : String) : u.pathOf (u.responseURLBase ++ path) = path := by
  simp [pathOf]

/-- The URL of the request itself leads to the path of the request. -/
theorem pathOf_requestURL {parse : String → Except String (String × String)} {r : Request}
    {version : APIVersion} (h : New parse r version = .ok u) :
    u.pathOf (Urlbuilder.parseRequestURL r) = r.urlPath := by
  obtain ⟨base, hbase⟩ := Urlbuilder.requestURL_ends r
  unfold New Urlbuilder.parseResponseURLBase at h
  rw [hbase, lastIndex_append] at h
  cases h
  rw [hbase]
  simp [pathOf, upTo]

end UrlBuilder

end Base

end Norman

namespace Norman.Parse

open Norman.Types

section Returns

/-- How the link to an object of the schema is read as that object. The longest version that
matches the link decides.
* `plain`: the version ends before the plural name.
* `object`: the version is a sub-context that ends with the plural name, as `/v3/project` in
  `/v3/projects/p1`; the object is looked for in the next version.
* `inside`: the version is the one of the schema, and the link has a sub-context of it.
* `echo`: the sub-context is taken for the name of the type, and happens to be one of the schema,
  and the plural name, taken for the id, is the id. -/
inductive Returns (net : Net) (schemas : Schemas) (u : UrlBuilder) (x : Schema) (id : String) : Prop
  | plain {v : APIVersion}
      (longest : Longest schemas (u.constructPath x.version [x.pluralName, id]) v)
      (ends : depth v.path = depth (u.constructPath x.version []))
      (closed : Opens schemas (u.constructPath x.version [x.pluralName, id]) v →
        IsSchemas x.pluralName)
      (finds : Finds net schemas v x.pluralName x)
  | object {v next : APIVersion}
      (longest : Longest schemas (u.constructPath x.version [x.pluralName, id]) v)
      (sub : v.subContext = true)
      (ends : depth v.path = depth (u.constructPath x.version []) + 1)
      (notSchemas : ¬ IsSchemas id)
      (second : Next schemas (u.constructPath x.version [x.pluralName, id]) v next)
      (finds : Finds net schemas next x.pluralName x)
  | inside {v : APIVersion} {p : String} (prefixed : u.subContext = "/" ++ p)
      (longest : Longest schemas (u.constructPath x.version [x.pluralName, id]) v)
      (own : v.path = x.version.path)
      (opens : Opens schemas (u.constructPath x.version [x.pluralName, id]) v)
      (notSchemas : ¬ IsSchemas p)
      (finds : Finds net schemas v x.pluralName x)
  | echo {v : APIVersion} {p : String} (prefixed : u.subContext = "/" ++ p)
      (longest : Longest schemas (u.constructPath x.version [x.pluralName, id]) v)
      (own : v.path = x.version.path)
      (closed : Opens schemas (u.constructPath x.version [x.pluralName, id]) v → IsSchemas p)
      (finds : Finds net schemas v p x)
      (same : x.pluralName = id)

variable {net : Net} {schemas : Schemas} {u : UrlBuilder} {x : Schema} {id : String}
  {v : APIVersion} {vs : List APIVersion} {k : ℕ}

theorem constructPath_eq (hown : x.version.path ≠ "") (parts : List String) :
    u.constructPath x.version parts = under (x.version.path ++ u.subContext) parts := by
  unfold UrlBuilder.constructPath under
  rw [if_neg hown]

theorem constructPath_top (hown : x.version.path ≠ "") (hu : u.subContext = "")
    (parts : List String) : u.constructPath x.version parts = under x.version.path parts := by
  rw [constructPath_eq hown, hu, String.append_empty]

theorem constructPath_nested {p : String} (hown : x.version.path ≠ "")
    (hu : u.subContext = "/" ++ p) (parts : List String) :
    u.constructPath x.version parts = under x.version.path (p :: parts) := by
  rw [constructPath_eq hown, hu, ← String.append_assoc]
  exact List.foldl_cons.symm

theorem not_yields {parts : List String} (hid : id ≠ "") (hlen : parts.length ≤ 1) :
    ¬ Yields net schemas v parts x fun i _ => i = id := by
  rintro ⟨-, -, hq⟩
  apply hid
  rw [← hq, safeIndex, List.getD_eq_getElem?_getD, List.getElem?_eq_none hlen, Option.getD_none]

theorem yields_cons {t i : String} {parts : List String} (ht : t ≠ "") :
    (Yields net schemas v (t :: i :: parts) x fun i _ => i = id)
      ↔ Finds net schemas v t x ∧ i = id :=
  and_iff_right ht

theorem Seen.longest_iff {rest : List String} {own : String} (hs : schemas.Versioned)
    (h : Seen schemas own rest v vs k) {w : APIVersion} :
    Longest schemas (under own rest) w ↔ w = v := by
  rw [Parse.longest_iff hs, h.versions]
  simp [eq_comm]

/-- The ways to read the link, when the longest version is known. -/
theorem Seen.returns_iff {rest : List String} {n : ℕ} (hs : schemas.Versioned)
    (h : Seen schemas x.version.path rest v vs k)
    (hpath : u.constructPath x.version [x.pluralName, id] = under x.version.path rest)
    (hends : depth (u.constructPath x.version []) = depth x.version.path + n) :
    Returns net schemas u x id
      ↔ (k = n ∧ (Opens schemas (under x.version.path rest) v → IsSchemas x.pluralName)
          ∧ Finds net schemas v x.pluralName x)
        ∨ (k = n + 1 ∧ v.subContext = true ∧ ¬ IsSchemas id ∧ ∃ next,
          Next schemas (under x.version.path rest) v next ∧ Finds net schemas next x.pluralName x)
        ∨ (k = 0 ∧ ∃ p, u.subContext = "/" ++ p ∧ Opens schemas (under x.version.path rest) v
          ∧ ¬ IsSchemas p ∧ Finds net schemas v x.pluralName x)
        ∨ (k = 0 ∧ ∃ p, u.subContext = "/" ++ p
          ∧ (Opens schemas (under x.version.path rest) v → IsSchemas p)
          ∧ Finds net schemas v p x ∧ x.pluralName = id) := by
  have hlongest : Longest schemas (under x.version.path rest) v := (h.longest_iff hs).2 rfl
  have hdepth := h.depth_eq
  constructor
  · intro hr
    cases hr with
    | plain longest ends closed finds =>
      rw [hpath] at longest closed
      obtain rfl := (h.longest_iff hs).1 longest
      exact .inl ⟨by omega, closed, finds⟩
    | object longest sub ends notSchemas second finds =>
      rw [hpath] at longest second
      obtain rfl := (h.longest_iff hs).1 longest
      exact .inr (.inl ⟨by omega, sub, notSchemas, _, second, finds⟩)
    | inside prefixed longest own opens notSchemas finds =>
      rw [hpath] at longest opens
      obtain rfl := (h.longest_iff hs).1 longest
      exact .inr (.inr (.inl ⟨h.zero_iff.2 own, _, prefixed, opens, notSchemas, finds⟩))
    | echo prefixed longest own closed finds same =>
      rw [hpath] at longest closed
      obtain rfl := (h.longest_iff hs).1 longest
      exact .inr (.inr (.inr ⟨h.zero_iff.2 own, _, prefixed, closed, finds, same⟩))
  · rw [← hpath] at hlongest ⊢
    rintro (⟨hk, closed, finds⟩ | ⟨hk, sub, notSchemas, next, second, finds⟩
      | ⟨hk, p, prefixed, opens, notSchemas, finds⟩ | ⟨hk, p, prefixed, closed, finds, same⟩)
    · exact .plain hlongest (by omega) closed finds
    · exact .object hlongest sub (by omega) notSchemas second finds
    · exact .inside prefixed hlongest (h.zero_iff.1 hk) opens notSchemas finds
    · exact .echo prefixed hlongest (h.zero_iff.1 hk) closed finds same

theorem opens_of_next {path : String} {next : APIVersion} (hsub : v.subContext = true)
    (hnext : Next schemas path v next) : Opens schemas path v :=
  ⟨hsub, next, hnext.matching, hnext.ne⟩

theorem exists_next {path : String} (hs : schemas.Versioned)
    (hvs : versionsForPath schemas path = v :: vs) (hopens : Opens schemas path v) :
    ∃ next, Next schemas path v next := by
  obtain ⟨-, hne⟩ := (opens_iff hs hvs).1 hopens
  obtain ⟨next, vs', rfl⟩ := List.exists_cons_of_ne_nil hne
  exact ⟨next, (next_iff hs hvs).2 ⟨vs', rfl⟩⟩

/-- What finds the schema by a name in some version finds it in the schema's own one. -/
theorem doSchema_own {w : APIVersion} {name : String} (hpath : v.path = x.version.path)
    (h : schemas.doSchema net.toEnv (some w) name = some x) :
    schemas.doSchema net.toEnv (some v) name = some x := by
  obtain ⟨-, hplace⟩ := doSchema_has h
  have hresolve : resolve v name = resolve w name := by
    unfold resolve at hplace ⊢
    rcases hsplit : splitName name with _ | r
    · rw [hsplit, Option.getD_none] at hplace
      rw [Option.getD_none, Option.getD_none, hpath, hplace]
    · rfl
  rw [← h, doSchema_eq, doSchema_eq, hresolve]

theorem finds_own_iff {name : String} (hpath : v.path = x.version.path) :
    Finds net schemas v name x ↔ schemas.doSchema net.toEnv (some v) name = some x := by
  refine ⟨fun h => h.elim id fun hb => ?_, .inl⟩
  exact doSchema_own hpath hb.2.2

section Cases

variable {rest : List String} (hs : schemas.Versioned) (hown : Plain x.version.path)
  (hrest : ∀ p ∈ rest, Single p) (h : Seen schemas x.version.path rest v vs k)

include hs hown hrest h

/-- The version ends before the plural name. -/
theorem Seen.reads_plural (hplural : x.pluralName ≠ "") (hid : id ≠ "")
    (hdrop : rest.drop k = [x.pluralName, id]) :
    (PathReads net schemas (under x.version.path rest) x fun i _ => i = id)
      ↔ (Opens schemas (under x.version.path rest) v → IsSchemas x.pluralName)
        ∧ Finds net schemas v x.pluralName x := by
  by_cases hclosed : Opens schemas (under x.version.path rest) v → IsSchemas x.pluralName
  · rw [h.direct hown hrest hs fun ho => ⟨_, _, hdrop, hclosed ho⟩, hdrop, yields_cons hplural]
    exact ⟨fun hf => ⟨hclosed, hf.1⟩, fun hf => ⟨hf.2, rfl⟩⟩
  · obtain ⟨hopens, hnot⟩ := Classical.not_imp.1 hclosed
    obtain ⟨w, -, hreads⟩ := h.inside net (fun i _ => i = id) hown hrest hs hopens hdrop hnot
    rw [hreads, iff_false_right (fun hr => hclosed hr.1)]
    exact not_yields hid (by simp)

/-- The version ends with the plural name. -/
theorem Seen.reads_id (hplural : x.pluralName ≠ "") (hid : id ≠ "") {j : ℕ} (hj : k = j + 1)
    (hdrop : rest.drop j = [x.pluralName, id]) :
    (PathReads net schemas (under x.version.path rest) x fun i _ => i = id)
      ↔ v.subContext = true ∧ ¬ IsSchemas id ∧ ∃ next,
        Next schemas (under x.version.path rest) v next
          ∧ Finds net schemas next x.pluralName x := by
  have hdrop' : rest.drop k = [id] := by
    rw [hj, ← List.drop_drop, hdrop]
    rfl
  by_cases hobject : Opens schemas (under x.version.path rest) v ∧ ¬ IsSchemas id
  · obtain ⟨hopens, hnot⟩ := hobject
    obtain ⟨next, hnext⟩ := exists_next hs h.versions hopens
    rw [h.object hown hrest hs hopens.1 hnext hj (.inr ⟨id, hdrop', hnot⟩), hdrop,
      yields_cons hplural]
    constructor
    · rintro ⟨hfinds, -⟩
      exact ⟨hopens.1, hnot, next, hnext, hfinds⟩
    · rintro ⟨-, -, next', hnext', hfinds⟩
      obtain ⟨vs', hvs⟩ := (next_iff hs h.versions).1 hnext
      obtain ⟨vs'', hvs'⟩ := (next_iff hs h.versions).1 hnext'
      cases hvs.symm.trans hvs'
      exact ⟨hfinds, rfl⟩
  · have hschemas : Opens schemas (under x.version.path rest) v → IsSchemas id :=
      fun ho => by_contra fun hn => hobject ⟨ho, hn⟩
    rw [h.direct hown hrest hs fun ho => ⟨_, _, hdrop', hschemas ho⟩, hdrop', iff_false_right]
    · exact not_yields hid (by simp)
    · rintro ⟨hsub, hnot, next, hnext, -⟩
      exact hobject ⟨opens_of_next hsub hnext, hnot⟩

/-- The version ends with the id. -/
theorem Seen.not_reads (hid : id ≠ "") {j : ℕ} (hj : k = j + 1) (hdrop : rest.drop j = [id]) :
    ¬ PathReads net schemas (under x.version.path rest) x fun i _ => i = id := by
  have hdrop' : rest.drop k = [] := by
    rw [hj, ← List.drop_drop, hdrop]
    rfl
  by_cases hopens : Opens schemas (under x.version.path rest) v
  · obtain ⟨next, hnext⟩ := exists_next hs h.versions hopens
    rw [h.object hown hrest hs hopens.1 hnext hj (.inl hdrop'), hdrop]
    exact not_yields hid (by simp)
  · rw [h.direct hown hrest hs fun ho => absurd ho hopens, hdrop']
    exact not_yields hid (by simp)

/-- The version ends before the sub-context. -/
theorem Seen.reads_prefixed {p : String} (hplural : x.pluralName ≠ "")
    (hpath : v.path = x.version.path) (hdrop : rest.drop k = [p, x.pluralName, id]) :
    (PathReads net schemas (under x.version.path rest) x fun i _ => i = id)
      ↔ (Opens schemas (under x.version.path rest) v ∧ ¬ IsSchemas p
          ∧ Finds net schemas v x.pluralName x)
        ∨ ((Opens schemas (under x.version.path rest) v → IsSchemas p)
          ∧ Finds net schemas v p x ∧ x.pluralName = id) := by
  by_cases hclosed : Opens schemas (under x.version.path rest) v → IsSchemas p
  · have hp : p ≠ "" := (hrest p (List.mem_of_mem_drop (hdrop ▸ List.mem_cons_self))).1
    rw [h.direct hown hrest hs fun ho => ⟨_, _, hdrop, hclosed ho⟩, hdrop, yields_cons hp]
    constructor
    · exact fun hr => .inr ⟨hclosed, hr⟩
    · rintro (⟨hopens, hnot, -⟩ | ⟨-, hr⟩)
      · exact absurd (hclosed hopens) hnot
      · exact hr
  · obtain ⟨hopens, hnot⟩ := Classical.not_imp.1 hclosed
    obtain ⟨w, hw, hreads⟩ := h.inside net (fun i _ => i = id) hown hrest hs hopens hdrop hnot
    rw [hreads, yields_cons hplural, finds_own_iff hpath]
    constructor
    · rintro ⟨hfinds, -⟩
      refine .inl ⟨hopens, hnot, ?_⟩
      rcases hw with rfl | ⟨hnone, hsome⟩
      · exact (finds_own_iff hpath).1 hfinds
      · obtain ⟨y, hy⟩ := Option.isSome_iff_exists.1 hsome
        rcases hfinds with hfinds | ⟨hfinds, -⟩
        · exact doSchema_own hpath hfinds
        · rw [hy] at hfinds
          cases hfinds
    · rintro (⟨-, -, hfinds⟩ | ⟨hc, -⟩)
      · rcases hw with rfl | ⟨hnone, -⟩
        · exact ⟨.inl hfinds, rfl⟩
        · rw [hnone] at hfinds
          cases hfinds
      · exact absurd hc hclosed

end Cases

theorem reads_iff_returns (hs : schemas.Versioned) (hx : schemas.Registered x)
    (hown : Plain x.version.path) (hplural : Single x.pluralName) (hid : Single id)
    (hu : u.subContext = "" ∨ ∃ p, u.subContext = "/" ++ p ∧ Single p) :
    (PathReads net schemas (u.constructPath x.version [x.pluralName, id]) x fun i _ => i = id)
      ↔ Returns net schemas u x id := by
  obtain ⟨w, hw, hwpath⟩ := hs.of_registered hx
  rcases hu with hu | ⟨p, hu, hp⟩
  · have hpath := constructPath_top hown.ne_empty hu [x.pluralName, id]
    have hends : depth (u.constructPath x.version []) = depth x.version.path + 0 := by
      rw [constructPath_top hown.ne_empty hu, depth_under x.version.path (by simp),
        List.length_nil]
    have hno : ∀ p, u.subContext ≠ "/" ++ p := by
      intro p hp
      rw [hu] at hp
      simpa using congrArg String.toList hp
    have hrest : ∀ p ∈ [x.pluralName, id], Single p := by simp [hplural, hid]
    obtain ⟨v, vs, k, h⟩ := exists_seen hs hrest (by simp) hw hwpath
    rw [h.returns_iff hs hpath hends, hpath]
    simp only [hno, false_and, exists_false, and_false, or_false]
    have hk : k ≤ 2 := h.le
    obtain rfl | rfl | rfl : k = 0 ∨ k = 1 ∨ k = 2 := by omega
    · rw [h.reads_plural hs hown hrest hplural.1 hid.1 rfl]
      simp
    · rw [h.reads_id hs hown hrest hplural.1 hid.1 (Nat.zero_add 1).symm rfl]
      simp
    · simpa using h.not_reads hs hown hrest hid.1 rfl rfl
  · have hpath := constructPath_nested hown.ne_empty hu [x.pluralName, id]
    have hrest : ∀ q ∈ [p, x.pluralName, id], Single q := by simp [hp, hplural, hid]
    have hends : depth (u.constructPath x.version []) = depth x.version.path + 1 := by
      have hsub : ∀ q ∈ [p], Single q := by simpa using hp
      rw [constructPath_nested hown.ne_empty hu, depth_under x.version.path hsub,
        List.length_singleton]
    have hsame : ∀ q, u.subContext = "/" ++ q ↔ q = p := by
      intro q
      rw [hu, String.append_right_inj, eq_comm]
    obtain ⟨v, vs, k, h⟩ := exists_seen hs hrest (by simp) hw hwpath
    rw [h.returns_iff hs hpath hends, hpath]
    simp only [hsame, exists_eq_left]
    have hk : k ≤ 3 := h.le
    obtain rfl | rfl | rfl | rfl : k = 0 ∨ k = 1 ∨ k = 2 ∨ k = 3 := by omega
    · rw [h.reads_prefixed hs hown hrest hplural.1 (h.zero_iff.1 rfl) rfl]
      simp
    · rw [h.reads_plural hs hown hrest hplural.1 hid.1 rfl]
      simp
    · rw [h.reads_id hs hown hrest hplural.1 hid.1 rfl rfl]
      simp
    · simpa using h.not_reads hs hown hrest hid.1 rfl rfl

end Returns

section Request

variable {net : Net} {schemas : Schemas} {req : Request} {request : APIContext}
  {err : Option Httperror.Err} {u : UrlBuilder}

theorem parseSubContext_prefixed (version next : APIVersion) (versions : List APIVersion)
    (parts versionParts : List String) :
    (parseSubContext net schemas version next versions parts versionParts).prefixed = ""
      ∨ ∃ p, (parseSubContext net schemas version next versions parts versionParts).prefixed
        = "/" ++ p := by
  unfold parseSubContext
  split
  · exact .inl rfl
  · split_ifs <;> exact .inl rfl
  · simp only []
    split_ifs
    · exact .inl rfl
    · split
      · exact .inl rfl
      · exact .inr ⟨_, rfl⟩

theorem parseURL_prefixed {path : String} {query : SortedMap String (List String)}
    {parsed : ParsedURL} (h : DefaultURLParser net schemas path query = some parsed) :
    parsed.subContextPrefix = "" ∨ ∃ p, parsed.subContextPrefix = "/" ++ p := by
  obtain ⟨found, hfound, rfl⟩ := Option.map_eq_some_iff.1 h
  rcases found with _ | found
  · exact .inl rfl
  · unfold parseVersionAndSubContext at hfound
    simp only [] at hfound
    split at hfound
    · cases hfound
    · split_ifs at hfound
      cases hfound
      simp only []
      split
      · exact parseSubContext_prefixed _ _ _ _ _
      · exact .inl rfl

theorem urlBuilder_defaultResolver (name : String) (request : APIContext) :
    (DefaultResolver net schemas name request).urlBuilder = request.urlBuilder := by
  unfold DefaultResolver
  simp only []
  split_ifs
  · rfl
  · split <;> rfl
  · split <;> rfl

theorem New_subContext {parse : String → Except String (String × String)} {version : APIVersion}
    (h : UrlBuilder.New parse req version = .ok u) : u.subContext = "" := by
  unfold UrlBuilder.New at h
  split at h
  · cases h
  · cases h
    rfl

/-- The builder of a request has the sub-context of its URL. -/
theorem Parse_subContext (hparse : Parse net schemas req = some (request, err))
    (hu : request.urlBuilder = some u) :
    u.subContext = "" ∨ ∃ p, u.subContext = "/" ++ p := by
  obtain ⟨parsed, hparsed, heq⟩ := Option.map_eq_some_iff.1 hparse
  simp only [] at heq
  split at heq
  · cases heq
    rcases hnew : UrlBuilder.New net.parseURL req { version := "", path := "" } with e | b
    · rw [hnew] at hu
      cases hu
    · rw [hnew] at hu
      cases hu
      exact .inl (New_subContext hnew)
  · rename_i version hversion
    split at heq
    · cases heq
      cases hu
    · rename_i b hnew
      have hb := New_subContext hnew
      have hbuilder : request.urlBuilder = some (if parsed.subContextPrefix ≠ "" then
          b.SetSubContext parsed.subContextPrefix else b) := by
        split at heq <;>
          · cases heq
            exact urlBuilder_defaultResolver _ _
      rw [hu] at hbuilder
      cases hbuilder
      split_ifs
      · exact parseURL_prefixed hparsed
      · exact .inl hb

end Request

section Link

variable {net : Net} {schemas : Schemas} {req : Request} {request : APIContext}
  {err : Option Httperror.Err} {u : UrlBuilder} {x : Schema} {v : APIVersion}
  {vs : List APIVersion} {k : ℕ}

/-- What an id is made of. -/
def idChar (c : Char) : Bool := c.isAlphanum || "-.:".toList.contains c

theorem single_of_idChar {id : String} (hid : ∀ c ∈ id.toList, idChar c = true) (hne : id ≠ "") :
    Single id := by
  refine ⟨hne, List.all_eq_true.2 fun c hc => ?_⟩
  have h := hid c hc
  simp only [idChar, keeps, Bool.or_eq_true, List.contains_iff_mem] at h ⊢
  refine h.imp_right fun hmem => ?_
  have hsub : "-.:".toList ⊆ "-._~!$&'()*+,;=:@[]".toList := by decide
  exact hsub hmem

theorem parse_empty {found : Found}
    (h : parseVersionAndSubContext net schemas "" = some (some found)) :
    safeIndex found.parts 0 = "" := by
  have hparts : pathParts net "" = [""] := @pathParts_under net [] (by simp)
  rcases hvs : versionsForPath schemas "" with _ | ⟨v, vs⟩
  · simp [parseVersionAndSubContext, hvs] at h
  · have hpre := (mem_versionsForPath.1 (hvs ▸ List.mem_cons_self)).starts
    have hv : v.path = "" := String.toList_inj.1 (List.prefix_nil.1 hpre)
    have hsplit : split '/' v.path = [""] := by
      rw [hv]
      decide
    have hlen : (split '/' v.path).length ≤ (pathParts net "").length := by rw [hsplit, hparts]
    by_cases hopens : v.subContext = true ∧ vs ≠ []
    · obtain ⟨next, vs, rfl⟩ := List.exists_cons_of_ne_nil hopens.2
      rw [parse_opened hvs hopens.1 hlen, hparts, hsplit] at h
      cases h
      rw [(parseSubContext_object net schemas v next _ (.inl rfl)).2]
      rfl
    · rw [parse_plain hvs hopens hlen, hparts, hsplit] at h
      cases h
      rfl

/-- Where there is no link, nothing is read. -/
theorem not_readAs_empty {parsed : ParsedURL} : ¬ ReadAs net schemas "" x parsed := by
  rintro ⟨hparsed, hres⟩
  have htype : parsed.type = "" := by
    obtain ⟨found, hfound, rfl⟩ := Option.map_eq_some_iff.1 hparsed
    rcases found with _ | found
    · rfl
    · exact parse_empty hfound
  rw [htype] at hres
  simp [DefaultResolver] at hres

/-- A link to an object is read back as a request for it if and only if it is written at all and the
versions that match it allow for it. -/
theorem resourceLinkByID_returns_iff {cs : List Call} {o : List Empty}
    (hrun : Run.exec Schemas.step NewSchemas cs = some (schemas, o))
    (hparse : Parse net schemas req = some (request, err)) (hu : request.urlBuilder = some u)
    (hx : schemas.Registered x) (hown : Plain x.version.path) (hplural : Single x.pluralName)
    (hsub : ∀ p, u.subContext = "/" ++ p → Single p) {id : String}
    (hid : ∀ c ∈ id.toList, idChar c = true) :
    (∃ parsed, ReadAs net schemas (u.pathOf (u.ResourceLinkByID x id)) x parsed ∧ parsed.id = id)
      ↔ id ≠ "" ∧ Returns net schemas u x id := by
  by_cases hne : id = ""
  · subst hne
    have hlink : u.pathOf (u.ResourceLinkByID x "") = "" := by
      simp [UrlBuilder.ResourceLinkByID, UrlBuilder.constructBasicURL, UrlBuilder.pathOf]
    rw [hlink]
    simp [not_readAs_empty]
  · have hlink : u.pathOf (u.ResourceLinkByID x id)
        = u.constructPath x.version [x.pluralName, id] := by
      unfold UrlBuilder.ResourceLinkByID UrlBuilder.constructBasicURL
      rw [if_neg (by simp [Ne.symm hplural.1, Ne.symm hne]), UrlBuilder.pathOf_base]
    have hprefixed : u.subContext = "" ∨ ∃ p, u.subContext = "/" ++ p ∧ Single p :=
      (Parse_subContext hparse hu).imp_right fun ⟨p, hp⟩ => ⟨p, hp, hsub p hp⟩
    rw [hlink, and_iff_right hne]
    exact reads_iff_returns (Schemas.versioned_of_run hrun) hx hown hplural
      (single_of_idChar hid hne) hprefixed

section SubResource

variable {rest : List String} (hs : schemas.Versioned) (hown : Plain x.version.path)
  (hrest : ∀ p ∈ rest, Single p) (h : Seen schemas x.version.path rest v vs k)
  {Q : String → String → Prop}

include hs hown hrest h

variable (net Q) in
/-- A version that reaches into the parts leaves fewer of them. -/
theorem Seen.exists_yields (hk : k ≠ 0) (hlen : 3 ≤ rest.length) :
    ∃ w parts, parts.length < rest.length
      ∧ (PathReads net schemas (under x.version.path rest) x Q
        ↔ Yields net schemas w parts x Q) := by
  obtain ⟨j, hj⟩ := Nat.exists_eq_succ_of_ne_zero hk
  have hdroplen : (rest.drop k).length = rest.length - k := List.length_drop
  have hpred : (rest.drop j).length = rest.length - j := List.length_drop
  by_cases hclosed : Opens schemas (under x.version.path rest) v →
      ∃ p tail, rest.drop k = p :: tail ∧ IsSchemas p
  · exact ⟨v, rest.drop k, by omega, h.direct hown hrest hs hclosed⟩
  · obtain ⟨hopens, hnot⟩ := Classical.not_imp.1 hclosed
    rcases hdrop : rest.drop k with _ | ⟨p, _ | ⟨q, tail⟩⟩
    · obtain ⟨next, hnext⟩ := exists_next hs h.versions hopens
      rw [hdrop, List.length_nil] at hdroplen
      exact ⟨next, rest.drop j, by omega,
        h.object hown hrest hs hopens.1 hnext hj (.inl hdrop)⟩
    · obtain ⟨next, hnext⟩ := exists_next hs h.versions hopens
      rw [hdrop, List.length_singleton] at hdroplen
      exact ⟨next, rest.drop j, by omega, h.object hown hrest hs hopens.1 hnext hj
        (.inr ⟨p, hdrop, fun hp => hnot ⟨p, [], hdrop, hp⟩⟩)⟩
    · rw [hdrop, List.length_cons] at hdroplen
      obtain ⟨w, -, hreads⟩ := h.inside net Q hown hrest hs hopens hdrop
        fun hp => hnot ⟨p, _, hdrop, hp⟩
      exact ⟨w, q :: tail, by omega, hreads⟩

end SubResource

theorem not_yields_link {parts : List String} {id linkName : String} (hlink : linkName ≠ "")
    (hlen : parts.length ≤ 2) :
    ¬ Yields net schemas v parts x fun i l => i = id ∧ l = linkName := by
  rintro ⟨-, -, -, hq⟩
  apply hlink
  rw [← hq, safeIndex, List.getD_eq_getElem?_getD, List.getElem?_eq_none hlen, Option.getD_none]

theorem reads_link_iff (hs : schemas.Versioned) (hx : schemas.Registered x)
    (hown : Plain x.version.path) (hplural : Single x.pluralName) {id linkName : String}
    (hid : Single id) (hlink : Single linkName) :
    (PathReads net schemas (under x.version.path [x.pluralName, id, linkName]) x
        fun i l => i = id ∧ l = linkName)
      ↔ ∃ v, Longest schemas (under x.version.path [x.pluralName, id, linkName]) v
        ∧ v.path = x.version.path
        ∧ (Opens schemas (under x.version.path [x.pluralName, id, linkName]) v →
          IsSchemas x.pluralName)
        ∧ schemas.doSchema net.toEnv (some v) x.pluralName = some x := by
  have hrest : ∀ p ∈ [x.pluralName, id, linkName], Single p := by simp [hplural, hid, hlink]
  obtain ⟨w, hw, hwpath⟩ := hs.of_registered hx
  obtain ⟨v, vs, k, h⟩ := exists_seen hs hrest (by simp) hw hwpath
  simp only [h.longest_iff hs, exists_eq_left]
  by_cases hk : k = 0
  · subst hk
    have hpath := h.zero_iff.1 rfl
    rw [and_iff_right hpath, ← finds_own_iff hpath]
    by_cases hclosed : Opens schemas (under x.version.path [x.pluralName, id, linkName]) v →
        IsSchemas x.pluralName
    · rw [h.direct hown hrest hs fun ho => ⟨_, _, rfl, hclosed ho⟩, and_iff_right hclosed]
      exact ⟨fun hy => hy.2.1, fun hf => ⟨hplural.1, hf, rfl, rfl⟩⟩
    · obtain ⟨hopens, hnot⟩ := Classical.not_imp.1 hclosed
      obtain ⟨w, -, hreads⟩ := h.inside net _ hown hrest hs hopens rfl hnot
      rw [hreads, iff_false_right (fun hr => hclosed hr.1)]
      exact not_yields_link hlink.1 le_rfl
  · obtain ⟨w, parts, hlen, hreads⟩ := h.exists_yields net hs hown hrest _ hk le_rfl
    rw [hreads, iff_false_right (fun hr => hk (h.zero_iff.2 hr.1))]
    exact not_yields_link hlink.1 (Nat.le_of_lt_succ hlen)

/-- A link of an object is read back as a request for it if and only if no version longer than that
of the schema matches it, the version of the schema is not a sub-context of another one, and the
plural name stands for the schema. -/
theorem link_returns_iff {cs : List Call} {o : List Empty}
    (hrun : Run.exec Schemas.step NewSchemas cs = some (schemas, o))
    (hsub : u.subContext = "") {resource : RawResource} (hx : schemas.Registered resource.schema)
    (hself : ∀ self, resource.links.get "self" = some self → self = u.ResourceLink resource)
    (hown : Plain resource.schema.version.path) (hplural : Single resource.schema.pluralName)
    (hid : ∀ c ∈ resource.id.toList, idChar c = true) {linkName : String}
    (hlower : net.toLower linkName = linkName) (hlink : linkName.toList.all keeps = true) :
    (∃ parsed, ReadAs net schemas (u.pathOf (u.Link net.toLower linkName resource))
          resource.schema parsed
        ∧ parsed.id = resource.id ∧ parsed.link = linkName)
      ↔ resource.id ≠ "" ∧ linkName ≠ "" ∧ ∃ v, Longest schemas (u.constructPath
          resource.schema.version [resource.schema.pluralName, resource.id, linkName]) v
        ∧ v.path = resource.schema.version.path
        ∧ (Opens schemas (u.constructPath resource.schema.version
            [resource.schema.pluralName, resource.id, linkName]) v →
          IsSchemas resource.schema.pluralName)
        ∧ schemas.doSchema net.toEnv (some v) resource.schema.pluralName
          = some resource.schema := by
  have hconstruct : ∀ parts, u.constructPath resource.schema.version parts
      = under resource.schema.version.path parts := by
    intro parts
    rw [constructPath_eq hown.ne_empty, hsub, String.append_empty]
  by_cases hempty : resource.id = "" ∨ linkName = ""
  · have hnone : u.pathOf (u.Link net.toLower linkName resource) = "" := by
      simp [UrlBuilder.Link, hempty, UrlBuilder.pathOf]
    rw [hnone]
    constructor
    · rintro ⟨parsed, hread, -⟩
      exact absurd hread not_readAs_empty
    · rintro ⟨h1, h2, -⟩
      exact absurd hempty (not_or.2 ⟨h1, h2⟩)
  · obtain ⟨hne, hlne⟩ := not_or.1 hempty
    have hpath : u.pathOf (u.Link net.toLower linkName resource)
        = under resource.schema.version.path
          [resource.schema.pluralName, resource.id, linkName] := by
      have hurl : u.Link net.toLower linkName resource = u.responseURLBase
          ++ under resource.schema.version.path
            [resource.schema.pluralName, resource.id, linkName] := by
        unfold UrlBuilder.Link
        rw [if_neg hempty, hlower]
        rcases hlinks : resource.links.get "self" with _ | self
        · simp [UrlBuilder.constructBasicURL, hconstruct, Ne.symm hplural.1, Ne.symm hne,
            Ne.symm hlne]
        · simp [hself self hlinks, UrlBuilder.ResourceLink, UrlBuilder.constructBasicURL, hne,
            hconstruct, Ne.symm hplural.1, Ne.symm hne, under, String.append_assoc]
      rw [hurl, UrlBuilder.pathOf_base]
    rw [hpath, hconstruct, and_iff_right hne, and_iff_right hlne]
    exact reads_link_iff (Schemas.versioned_of_run hrun) hx hown hplural
      (single_of_idChar hid hne) ⟨hlne, hlink⟩

end Link

section Projects

def v3 : APIVersion := { version := "v3", path := "/v3" }

/-- What is in a project. -/
def v3project : APIVersion :=
  { version := "v3", path := "/v3/project", subContext := true,
    subContextSchema := "/v3/schemas/project" }

def schemaIn (version : APIVersion) (id : String) : Schema :=
  prepare Schemas.plainEnv { id, version, resourceFields := ∅ }

/-- Nodes and projects, and the pods of a project. -/
def projectCalls : List Call :=
  [.AddSchema Schemas.plainEnv 0 { id := "node", version := v3, resourceFields := ∅ },
    .AddSchema Schemas.plainEnv 0 { id := "project", version := v3, resourceFields := ∅ },
    .AddSchema Schemas.plainEnv 0 { id := "pod", version := v3project, resourceFields := ∅ }]

/-- `GET /v3/project/p1/pods`. -/
def podsRequest : Request where
  host := "localhost"
  urlPath := "/v3/project/p1/pods"
  escapedPath := "/v3/project/p1/pods"

/-- How the link to an object is read: its schema, and its id and link. -/
def readLink (schemas : Schemas) (path : String) : Option (Option Schema × String × String) :=
  (DefaultURLParser Api.plainNet schemas path ∅).map fun parsed =>
    ((DefaultResolver Api.plainNet schemas parsed.type
      { version := parsed.version, request := { urlPath := path, escapedPath := path } }).schema,
      parsed.id, parsed.link)

theorem readAs_iff_readLink {schemas : Schemas} {path id link : String} {x : Schema} :
    (∃ parsed, ReadAs Api.plainNet schemas path x parsed ∧ parsed.id = id ∧ parsed.link = link)
      ↔ readLink schemas path = some (some x, id, link) := by
  unfold readLink ReadAs
  rw [Option.map_eq_some_iff]
  simp only [Prod.mk.injEq, and_assoc]

/-- In a request for the pods of a project, the link to a pod is read back. -/
theorem pod_link_returns : ∃ schemas o request err u,
    Run.exec Schemas.step NewSchemas projectCalls = some (schemas, o)
      ∧ Parse Api.plainNet schemas podsRequest = some (request, err)
      ∧ request.urlBuilder = some u ∧ u.subContext = "/p1"
      ∧ schemas.Registered (schemaIn v3project "pod")
      ∧ Returns Api.plainNet schemas u (schemaIn v3project "pod") "web" := by
  have hdone : (Run.exec Schemas.step NewSchemas projectCalls).bind (fun r =>
      (Parse Api.plainNet r.1 podsRequest).bind fun c => c.1.urlBuilder.map fun u =>
        (u.subContext, r.1.schemasByPath.get "/v3/project" "pod", readLink r.1
          (u.pathOf (u.ResourceLinkByID (schemaIn v3project "pod") "web"))))
      = some ("/p1", some (schemaIn v3project "pod"),
        some (some (schemaIn v3project "pod"), "web", "")) := by
    decide +kernel
  obtain ⟨⟨schemas, o⟩, hrun, hdone⟩ := Option.bind_eq_some_iff.1 hdone
  obtain ⟨⟨request, err⟩, hparse, hdone⟩ := Option.bind_eq_some_iff.1 hdone
  obtain ⟨u, hu, hdone⟩ := Option.map_eq_some_iff.1 hdone
  simp only [Prod.mk.injEq] at hdone
  obtain ⟨hsub, hreg, hread⟩ := hdone
  obtain ⟨parsed, hparsed, hid, -⟩ := readAs_iff_readLink.2 hread
  have hp : ∀ p, u.subContext = "/" ++ p → Single p := by
    intro p hp
    rw [hsub] at hp
    obtain rfl : "p1" = p := (String.append_right_inj "/").1 hp
    exact ⟨by decide, by decide +kernel⟩
  have hown : Plain (schemaIn v3project "pod").version.path :=
    ⟨["v3", "project"], by simp, by decide +kernel, by decide +kernel⟩
  have hreturns := (resourceLinkByID_returns_iff hrun hparse hu ⟨_, _, hreg⟩ hown
    ⟨by decide +kernel, by decide +kernel⟩ hp (List.all_eq_true.1 (by decide +kernel))).1
      ⟨parsed, hparsed, hid⟩
  exact ⟨schemas, o, request, err, u, hrun, hparse, hu, hsub, ⟨_, _, hreg⟩, hreturns.2⟩

/-- In the same request, the link to a node, which is in no project, is not read back. -/
theorem node_link_lost : ∃ schemas o request err u,
    Run.exec Schemas.step NewSchemas projectCalls = some (schemas, o)
      ∧ Parse Api.plainNet schemas podsRequest = some (request, err)
      ∧ request.urlBuilder = some u
      ∧ schemas.Registered (schemaIn v3 "node") ∧ (schemaIn v3 "node").version.subContext = false
      ∧ ¬ ∃ parsed, ReadAs Api.plainNet schemas
          (u.pathOf (u.ResourceLinkByID (schemaIn v3 "node") "n1")) (schemaIn v3 "node") parsed
        ∧ parsed.id = "n1" := by
  have hdone : (Run.exec Schemas.step NewSchemas projectCalls).bind (fun r =>
      (Parse Api.plainNet r.1 podsRequest).bind fun c => c.1.urlBuilder.map fun u =>
        (r.1.schemasByPath.get "/v3" "node", (readLink r.1
          (u.pathOf (u.ResourceLinkByID (schemaIn v3 "node") "n1"))).map Prod.fst))
      = some (some (schemaIn v3 "node"), some none) := by
    decide +kernel
  obtain ⟨⟨schemas, o⟩, hrun, hdone⟩ := Option.bind_eq_some_iff.1 hdone
  obtain ⟨⟨request, err⟩, hparse, hdone⟩ := Option.bind_eq_some_iff.1 hdone
  obtain ⟨u, hu, hdone⟩ := Option.map_eq_some_iff.1 hdone
  obtain ⟨hreg, hread⟩ := Prod.mk.inj hdone
  refine ⟨schemas, o, request, err, u, hrun, hparse, hu, ⟨_, _, hreg⟩, by decide +kernel, ?_⟩
  rintro ⟨parsed, hparsed, hid⟩
  rw [readAs_iff_readLink.1 ⟨parsed, hparsed, hid, rfl⟩] at hread
  simp at hread

/-- A builder in a request without a sub-context. -/
def rootBuilder : UrlBuilder where
  responseURLBase := "http://localhost"
  apiVersion := v3
  subContext := ""

/-- An object, before it gets its links. -/
def objectOf (schema : Schema) (id : String) : RawResource where
  id
  schema
  links := ∅

/-- The log of a node is found. -/
theorem node_log_returns : ∃ schemas o,
    Run.exec Schemas.step NewSchemas projectCalls = some (schemas, o)
      ∧ ∃ v, Longest schemas (rootBuilder.constructPath v3 ["nodes", "n1", "log"]) v
        ∧ v.path = "/v3" := by
  have hdone : (Run.exec Schemas.step NewSchemas projectCalls).map (fun r =>
      (r.1.schemasByPath.get "/v3" "node", readLink r.1 (rootBuilder.pathOf
        (rootBuilder.Link Api.plainNet.toLower "log" (objectOf (schemaIn v3 "node") "n1")))))
      = some (some (schemaIn v3 "node"), some (some (schemaIn v3 "node"), "n1", "log")) := by
    decide +kernel
  obtain ⟨⟨schemas, o⟩, hrun, hdone⟩ := Option.map_eq_some_iff.1 hdone
  obtain ⟨hreg, hread⟩ := Prod.mk.inj hdone
  have hown : Plain (schemaIn v3 "node").version.path :=
    ⟨["v3"], by simp, by decide +kernel, by decide +kernel⟩
  have hx : schemas.Registered (objectOf (schemaIn v3 "node") "n1").schema := ⟨_, _, hreg⟩
  have hreturns := (link_returns_iff hrun rfl hx (by simp [objectOf]) hown
    ⟨by decide +kernel, by decide +kernel⟩ (List.all_eq_true.1 (by decide +kernel)) rfl
    (by decide +kernel)).1 (readAs_iff_readLink.2 hread)
  obtain ⟨-, -, v, hlongest, hpath, -⟩ := hreturns
  exact ⟨schemas, o, hrun, v, hlongest, hpath⟩

/-- The log of a project is taken for something in the project. -/
theorem project_log_lost : ∃ schemas o,
    Run.exec Schemas.step NewSchemas projectCalls = some (schemas, o)
      ∧ schemas.Registered (schemaIn v3 "project")
      ∧ (schemaIn v3 "project").version.subContext = false
      ∧ (∀ v ∈ schemas.versions, schemas.doSchema Schemas.plainEnv (some v) "log" = none)
      ∧ ¬ ∃ parsed, ReadAs Api.plainNet schemas (rootBuilder.pathOf (rootBuilder.Link
          Api.plainNet.toLower "log" (objectOf (schemaIn v3 "project") "p1")))
            (schemaIn v3 "project") parsed
        ∧ parsed.id = "p1" ∧ parsed.link = "log" := by
  have hdone : (Run.exec Schemas.step NewSchemas projectCalls).map (fun r =>
      (r.1.schemasByPath.get "/v3" "project", decide (∀ v ∈ r.1.versions,
        r.1.doSchema Schemas.plainEnv (some v) "log" = none), (readLink r.1 (rootBuilder.pathOf
          (rootBuilder.Link Api.plainNet.toLower "log"
            (objectOf (schemaIn v3 "project") "p1")))).map Prod.fst))
      = some (some (schemaIn v3 "project"), true, some none) := by
    decide +kernel
  obtain ⟨⟨schemas, o⟩, hrun, hdone⟩ := Option.map_eq_some_iff.1 hdone
  simp only [Prod.mk.injEq, decide_eq_true_eq] at hdone
  obtain ⟨hreg, hlog, hread⟩ := hdone
  refine ⟨schemas, o, hrun, ⟨_, _, hreg⟩, by decide +kernel, hlog, fun h => ?_⟩
  rw [readAs_iff_readLink.1 h] at hread
  simp at hread

end Projects

end Norman.Parse
