import Norman.Proofs.Links
import Mathlib.Data.List.Chain

/-!
# Every path is parsed

The parser with its indexes written out does the same as the one without (`Indexed`), and none of
the indexes is out of range as long as no version has a path that ends in a slash: such a path is a
beginning of the path of the request also without the slash at its end, so it has no more parts.

The parts are compared with the segments of a path, which are what is between the slashes. In a path
that is not empty, without doubled slashes and without one at the end (`Neat`), the parts are the
segments, behind an empty part if there is a slash in front (`split_neat`). The path of a version
begins like that of the request, so what follows its parts also follows its segments.
-/

namespace Norman.Parse

open Norman.Types

section Indexed

open Indexed

variable {α : Type} (net : Net) (schemas : Schemas)

theorem sliceFrom_eq {s : List α} {low : ℕ} (h : low ≤ s.length) :
    sliceFrom s low = some (s.drop low) := by
  unfold sliceFrom
  rw [if_pos (by omega), Int.toNat_natCast]

theorem sliceFrom_none {s : List α} {low : ℕ} (h : s.length < low) : sliceFrom s low = none := by
  unfold sliceFrom
  rw [if_neg (by omega)]

theorem sliceTo_eq {s : List α} {high : ℕ} (h : high ≤ s.length) :
    sliceTo s high = some (s.take high) := by
  unfold sliceTo
  rw [if_pos (by omega), Int.toNat_natCast]

theorem near_eq (afterPath : List Char) :
    near afterPath = some (afterPath.length < 3 || '/' ∈ afterPath.take 3) := by
  unfold near
  split_ifs with h
  · simp [h]
  · have hthree : sliceTo afterPath 3 = some (afterPath.take 3) := sliceTo_eq (not_lt.1 h)
    simp [hthree, h]

theorem collect_eq (path : String) (matched : List APIVersion) (version : APIVersion) :
    collect path matched version
      = some (if matchesVersion path version then matched ++ [version] else matched) := by
  unfold collect matchesVersion
  by_cases h : hasPrefix path version.path = true
  · have hlen : version.path.toList.length ≤ path.toList.length :=
      (List.isPrefixOf_iff_prefix.1 h).length_le
    rw [if_pos h, sliceFrom_eq hlen]
    simp [near_eq, h]
  · simp [h]

theorem foldlM_collect (path : String) : ∀ (versions matched : List APIVersion),
    versions.foldlM (collect path) matched
      = some (matched ++ versions.filter (matchesVersion path))
  | [], matched => by simp
  | v :: versions, matched => by
    rw [List.foldlM_cons, collect_eq, Option.bind_eq_bind, Option.bind_some,
      foldlM_collect path versions]
    by_cases hv : matchesVersion path v = true <;> simp [hv]

theorem versionsForPath_indexed (path : String) :
    Indexed.versionsForPath schemas path = some (versionsForPath schemas path) := by
  unfold Indexed.versionsForPath versionsForPath
  rw [foldlM_collect]
  rfl

/-- The path without the slash at its end. -/
def trimmed (path : String) : String :=
  if hasSuffix path "/" then upTo path (path.toList.length - 1) else path

theorem withoutSlash_eq (path : String) : withoutSlash path = some (trimmed path) := by
  unfold withoutSlash trimmed
  split_ifs with h
  · obtain ⟨t, rfl⟩ := hasSuffix_iff.1 h
    have hlen : ((t ++ "/").toList.length : ℤ) - 1 = ((t ++ "/").toList.length - 1 : ℕ) := by
      simp
    rw [hlen, sliceTo_eq (Nat.sub_le _ _)]
    rfl
  · rfl

theorem inContext_eq {v next : APIVersion} {vs : List APIVersion} {parts versionParts : List String}
    (hone : 1 ≤ versionParts.length) (hlen : versionParts.length ≤ parts.length)
    (hschemas : forSchemas (parts.drop versionParts.length) = some false) :
    inContext net schemas (v :: next :: vs) v parts versionParts (parts.drop versionParts.length)
      = some (parseSubContext net schemas v next (v :: next :: vs) parts versionParts) := by
  have hlow : ((versionParts.length : ℤ) - 1) = (versionParts.length - 1 : ℕ) := by omega
  have hslice : sliceFrom parts (versionParts.length - 1)
      = some (parts.drop (versionParts.length - 1)) := by
    rw [hlow]
    exact sliceFrom_eq (by omega)
  unfold inContext parseSubContext
  rcases hdrop : parts.drop versionParts.length with _ | ⟨p, _ | ⟨q, rest⟩⟩
  · simp [newVersion, hslice]
  · rw [hdrop] at hschemas
    have hp : ¬ (p = "schema" ∨ p = "schemas") := by simpa [forSchemas] using hschemas
    simp [newVersion, hslice, hp]
  · rw [hdrop] at hschemas
    have hp : ¬ (p = "schema" ∨ p = "schemas") := by simpa [forSchemas] using hschemas
    have hrest : sliceFrom (p :: q :: rest) 1 = some (q :: rest) := sliceFrom_eq (by simp)
    simp [hrest, hp]

theorem parseSubContext_forSchemas {v next : APIVersion} {versions : List APIVersion}
    {parts versionParts : List String}
    (h : forSchemas (parts.drop versionParts.length) = some true) :
    parseSubContext net schemas v next versions parts versionParts
      = ⟨none, v, "", parts.drop versionParts.length, ∅⟩ := by
  unfold parseSubContext
  rcases hdrop : parts.drop versionParts.length with _ | ⟨p, _ | ⟨q, rest⟩⟩
  · rw [hdrop] at h
    simp [forSchemas] at h
  · rw [hdrop] at h
    have hp : p = "schema" ∨ p = "schemas" := by simpa [forSchemas] using h
    simp [hp]
  · rw [hdrop] at h
    have hp : p = "schema" ∨ p = "schemas" := by simpa [forSchemas] using h
    simp [hp]

theorem exists_forSchemas (paths : List String) : ∃ b, forSchemas paths = some b := by
  unfold forSchemas
  rcases paths with _ | ⟨p, paths⟩
  · exact ⟨false, rfl⟩
  · exact ⟨_, rfl⟩

theorem parseVersionAndSubContext_indexed (path : String) :
    Indexed.parseVersionAndSubContext net schemas path
      = parseVersionAndSubContext net schemas path := by
  unfold Indexed.parseVersionAndSubContext parseVersionAndSubContext
  rw [versionsForPath_indexed, Option.bind_eq_bind, Option.bind_some, withoutSlash_eq]
  rcases versionsForPath schemas path with _ | ⟨v, vs⟩
  · rfl
  · have hone : 1 ≤ (split '/' v.path).length := by
      rw [length_split]
      exact Nat.le_add_left 1 _
    have hparts : (split '/' (trimmed path)).map (fun p => (net.pathUnescape p).getD p)
        = pathParts net path := rfl
    simp only [List.length_cons, Nat.add_eq_zero_iff, one_ne_zero, and_false, if_false,
      List.getElem?_cons_zero, Option.bind_eq_bind, Option.bind_some, hparts]
    by_cases hlen : (pathParts net path).length < (split '/' v.path).length
    · rw [if_pos hlen, sliceFrom_none hlen]
      rfl
    · rw [if_neg hlen, sliceFrom_eq (not_lt.1 hlen), Option.bind_some]
      rcases hsub : v.subContext with _ | _
      · rfl
      · rcases vs with _ | ⟨next, vs⟩
        · rfl
        · obtain ⟨b, hb⟩ := exists_forSchemas ((pathParts net path).drop (split '/' v.path).length)
          rw [hb]
          cases b with
          | true => simp [parseSubContext_forSchemas net schemas hb]
          | false => simp [inContext_eq net schemas hone (not_lt.1 hlen) hb]

theorem safeIndex_indexed (slice : List String) (index : ℕ) :
    Indexed.safeIndex slice index = some (safeIndex slice index) := by
  unfold Indexed.safeIndex safeIndex
  rw [List.getD_eq_getElem?_getD]
  split_ifs with h
  · rw [List.getElem?_eq_none h, Option.getD_none]
  · rw [List.getElem?_eq_getElem (not_le.1 h), Option.getD_some]

/-- The indexes make no difference. -/
theorem DefaultURLParser_indexed (path : String) (query : SortedMap String (List String)) :
    Indexed.DefaultURLParser net schemas path query = DefaultURLParser net schemas path query := by
  unfold Indexed.DefaultURLParser DefaultURLParser
  rw [parseVersionAndSubContext_indexed]
  simp only [safeIndex_indexed, Option.bind_eq_bind, Option.bind_some]
  rcases parseVersionAndSubContext net schemas (String.ofList (collapse path.toList)) with
    _ | _ | found
  · rfl
  · rfl
  · rfl

end Indexed

section Segments

/-- What is between the slashes of a path. -/
def segments (path : String) : List String := (split '/' path).filter (· ≠ "")

/-- No slash is next to another one or at the end. -/
structure Neat (l : List Char) : Prop where
  ne_nil : l ≠ []
  chain : l.IsChain fun a b => a = '/' → b ≠ '/'
  last : l.getLast? ≠ some '/'

variable {l l' : List Char} {path : String}

/-- Only empty parts go. -/
theorem splitOn_collapse (l : List Char) : ∃ h t t', (collapse l).splitOn '/' = h :: t
    ∧ l.splitOn '/' = h :: t' ∧ t.filter (· ≠ []) = t'.filter (· ≠ []) := by
  fun_induction collapse l with
  | case1 => exact ⟨[], [], [], by simp, by simp, rfl⟩
  | case2 c =>
    obtain ⟨t, ht⟩ := Parts.exists_splitOn '/' [c]
    exact ⟨_, t, t, ht, ht, rfl⟩
  | case3 c d cs hslash ih =>
    obtain ⟨rfl, rfl⟩ := hslash
    obtain ⟨h, t, t', hcollapse, hsplit, hfilter⟩ := ih
    have hcons : ('/' :: cs).splitOn '/' = [] :: cs.splitOn '/' := by
      rw [List.splitOn_cons_eq_if_modifyHead, if_pos BEq.rfl]
    obtain ⟨rfl, -⟩ := List.cons.inj (hsplit.symm.trans hcons)
    refine ⟨[], t, [] :: t', hcollapse, ?_, ?_⟩
    · rw [List.splitOn_cons_eq_if_modifyHead, hsplit]
      rfl
    · rw [hfilter]
      simp
  | case4 c d cs hslash ih =>
    obtain ⟨h, t, t', hcollapse, hsplit, hfilter⟩ := ih
    rw [List.splitOn_cons_eq_if_modifyHead, List.splitOn_cons_eq_if_modifyHead, hcollapse, hsplit]
    split_ifs with hc
    · exact ⟨[], h :: t, h :: t', rfl, rfl, by simp only [List.filter_cons, hfilter]⟩
    · exact ⟨c :: h, t, t', rfl, rfl, hfilter⟩

theorem exists_collapse_cons : ∀ (c : Char) (cs : List Char), ∃ t, collapse (c :: cs) = c :: t
  | c, [] => ⟨[], rfl⟩
  | c, d :: cs => by
    rw [collapse]
    split_ifs with hslash
    · obtain ⟨rfl, rfl⟩ := hslash
      exact exists_collapse_cons '/' cs
    · exact ⟨_, rfl⟩

theorem chain_collapse (l : List Char) : (collapse l).IsChain fun a b => a = '/' → b ≠ '/' := by
  fun_induction collapse l with
  | case1 => exact .nil
  | case2 c => exact .singleton c
  | case3 c d cs hslash ih => exact ih
  | case4 c d cs hslash ih =>
    obtain ⟨t, hhead⟩ := exists_collapse_cons d cs
    rw [hhead] at ih ⊢
    exact List.isChain_cons_cons.2 ⟨fun hc hd => hslash ⟨hc, hd⟩, ih⟩

theorem filter_map_ofList (parts : List (List Char)) :
    (parts.map String.ofList).filter (· ≠ "") = (parts.filter (· ≠ [])).map String.ofList := by
  rw [List.filter_map]
  congr 1
  refine List.filter_congr fun p _ => ?_
  simp [String.ofList_eq_empty_iff]

theorem segments_eq (path : String) :
    segments path = ((path.toList.splitOn '/').filter (· ≠ [])).map String.ofList :=
  filter_map_ofList _

theorem segments_collapse (path : String) :
    segments (String.ofList (collapse path.toList)) = segments path := by
  obtain ⟨h, t, t', hcollapse, hsplit, hfilter⟩ := splitOn_collapse path.toList
  rw [segments_eq, segments_eq, String.toList_ofList, hcollapse, hsplit, List.filter_cons,
    List.filter_cons, hfilter]

theorem segments_trimmed (path : String) : segments (trimmed path) = segments path := by
  unfold trimmed
  split_ifs with h
  · obtain ⟨t, rfl⟩ := hasSuffix_iff.1 h
    have htake : upTo (t ++ "/") ((t ++ "/").toList.length - 1) = t := by
      simp [upTo]
    rw [htake, segments_eq, segments_eq, String.toList_append]
    have hslash : "/".toList = '/' :: [] := rfl
    rw [hslash, List.splitOn_append_cons_self]
    simp
  · rfl

/-- In front of the segments there is an empty part if the path begins with a slash. -/
theorem split_neat (h : Neat path.toList) :
    split '/' path = (if path.toList.head? = some '/' then [""] else []) ++ segments path := by
  obtain ⟨t, ht⟩ := Parts.exists_splitOn '/' path.toList
  have htail := Parts.ne_nil_of_mem_tail h.chain h.last
  rw [ht, List.tail_cons] at htail
  have hfilter : t.filter (· ≠ []) = t :=
    List.filter_eq_self.2 fun p hp => by simpa using htail p hp
  rw [segments_eq, split, ht, List.filter_cons, hfilter]
  rcases hl : path.toList with _ | ⟨c, l⟩
  · exact absurd hl h.ne_nil
  · by_cases hc : c = '/' <;> simp [hc]

end Segments

section Following

variable {net : Net} {schemas : Schemas} {path : String} {v : APIVersion}

/-- The segments of a path, each of them unescaped if it can be. -/
def unescaped (net : Net) (path : String) : List String :=
  (segments path).map fun p => (net.pathUnescape p).getD p

/-- The path as it is parsed. -/
def collapsed (path : String) : String := String.ofList (collapse path.toList)

theorem chain_collapsed (path : String) :
    (collapsed path).toList.IsChain fun a b => a = '/' → b ≠ '/' := by
  rw [collapsed, String.toList_ofList]
  exact chain_collapse _

theorem trimmed_cases (path : String) :
    path.toList.getLast? ≠ some '/' ∧ trimmed path = path
      ∨ path.toList = (trimmed path).toList ++ ['/'] := by
  unfold trimmed
  split_ifs with h
  · obtain ⟨t, rfl⟩ := hasSuffix_iff.1 h
    right
    simp [upTo]
  · left
    refine ⟨fun hlast => h (hasSuffix_iff.2 ?_), rfl⟩
    obtain ⟨t, ht⟩ := List.getLast?_eq_some_iff.1 hlast
    refine ⟨String.ofList t, String.toList_inj.1 ?_⟩
    rw [ht, String.toList_append, String.toList_ofList]
    rfl

/-- The path of a version is a beginning of the path also without the slash at the end. -/
theorem starts_trimmed (h : Matching schemas path v) (hend : v.path.toList.getLast? ≠ some '/') :
    v.path.toList <+: (trimmed path).toList := by
  rcases trimmed_cases path with ⟨-, htrim⟩ | hslash
  · rw [htrim]
    exact h.starts
  · have hstarts := h.starts
    rw [hslash, List.prefix_concat_iff] at hstarts
    rcases hstarts with heq | hstarts
    · exact absurd (by rw [heq, List.getLast?_concat]) hend
    · exact hstarts

theorem neat_trimmed (hne : (trimmed (collapsed path)).toList ≠ []) :
    Neat (trimmed (collapsed path)).toList := by
  have hchain := chain_collapsed path
  rcases trimmed_cases (collapsed path) with ⟨hlast, htrim⟩ | hslash
  · rw [htrim] at hne ⊢
    exact ⟨hne, hchain, hlast⟩
  · rw [hslash, List.isChain_append] at hchain
    exact ⟨hne, hchain.1, fun hlast => hchain.2.2 '/' hlast '/' rfl rfl rfl⟩

/-- What the path of a version and the path of a request have in common. -/
structure Leads (v : APIVersion) (path : String) : Prop where
  starts : v.path.toList <+: (trimmed (collapsed path)).toList
  own : Neat v.path.toList
  whole : Neat (trimmed (collapsed path)).toList

theorem leads (h : Matching schemas (collapsed path) v) (hne : v.path ≠ "")
    (hend : v.path.toList.getLast? ≠ some '/') : Leads v path := by
  have hstarts := starts_trimmed h hend
  have hne : v.path.toList ≠ [] := by simpa using hne
  have hwhole : Neat (trimmed (collapsed path)).toList := by
    refine neat_trimmed fun hnil => hne ?_
    rw [hnil] at hstarts
    exact List.prefix_nil.1 hstarts
  have hown : v.path.toList.IsChain fun a b => a = '/' → b ≠ '/' := by
    obtain ⟨t, ht⟩ := hstarts
    have hchain := hwhole.chain
    rw [← ht, List.isChain_append] at hchain
    exact hchain.1
  exact ⟨hstarts, ⟨hne, hown, hend⟩, hwhole⟩

theorem Leads.length_le (h : Leads v path) :
    (split '/' v.path).length ≤ (pathParts net (collapsed path)).length := by
  have hparts : (pathParts net (collapsed path)).length
      = (split '/' (trimmed (collapsed path))).length := List.length_map _
  rw [hparts, length_split, length_split]
  exact Nat.succ_le_succ (h.starts.sublist.count_le '/')

theorem Leads.head (h : Leads v path) :
    (trimmed (collapsed path)).toList.head? = v.path.toList.head? := by
  obtain ⟨t, ht⟩ := h.starts
  rw [← ht, List.head?_append_of_ne_nil _ h.own.ne_nil]

theorem unescape_empty (net : Net) : (net.pathUnescape "").getD "" = "" := by
  rw [net.pathUnescape_plain "" (by simp), Option.getD_some]

theorem Leads.pathParts_eq (h : Leads v path) : pathParts net (collapsed path)
    = (if v.path.toList.head? = some '/' then [""] else []) ++ unescaped net path := by
  have hparts : pathParts net (collapsed path)
      = (split '/' (trimmed (collapsed path))).map fun p => (net.pathUnescape p).getD p := rfl
  have hsegments : segments (trimmed (collapsed path)) = segments path := by
    rw [segments_trimmed, collapsed, segments_collapse]
  rw [hparts, split_neat h.whole, h.head, List.map_append, hsegments]
  split_ifs
  · rw [List.map_singleton, unescape_empty]
    rfl
  · rfl

/-- The segments behind those of the version. -/
theorem Leads.drop_eq (h : Leads v path) :
    (pathParts net (collapsed path)).drop (split '/' v.path).length
      = (unescaped net path).drop (segments v.path).length := by
  rw [h.pathParts_eq, split_neat h.own]
  split_ifs
  · rw [List.singleton_append, List.singleton_append, List.length_cons, List.drop_succ_cons]
  · rfl

theorem Leads.segments_pos (h : Leads v path) : 0 < (segments v.path).length := by
  rw [List.length_pos_iff]
  intro hnil
  have hlen := length_split v.path
  rw [split_neat h.own, hnil] at hlen
  split_ifs at hlen with hhead
  · obtain ⟨l, hl⟩ := List.head?_eq_some_iff.1 hhead
    simp [depth, hl] at hlen
  · simp at hlen

/-- The segments from the last one of the version on. -/
theorem Leads.drop_pred_eq (h : Leads v path) :
    (pathParts net (collapsed path)).drop ((split '/' v.path).length - 1)
      = (unescaped net path).drop ((segments v.path).length - 1) := by
  have hpos := h.segments_pos
  rw [h.pathParts_eq, split_neat h.own]
  split_ifs
  · rw [List.singleton_append, List.singleton_append, List.length_cons, Nat.add_sub_cancel]
    obtain ⟨n, hn⟩ := Nat.exists_eq_add_of_lt hpos
    rw [hn, List.drop_succ_cons]
    rfl
  · rfl

end Following

section Parsed

variable {net : Net} {schemas : Schemas} {path : String} {v root : APIVersion}
  {vs : List APIVersion}

/-- The path of a sub-context itself or of one object in it, such as a project: the version that is
the longest is a sub-context of another one, and no more than one segment follows it, which is not
the name of the schemas. -/
structure AtRoot (net : Net) (schemas : Schemas) (path : String) (root : APIVersion) : Prop where
  longest : Longest schemas (collapsed path) root
  opens : Opens schemas (collapsed path) root
  short : ((unescaped net path).drop (segments root.path).length).length < 2
  not_schemas : ∀ p ∈ (unescaped net path).drop (segments root.path).length, ¬ IsSchemas p

/-- Type, id and link are the first three of these, as far as there are any. -/
def ReadsFrom (parsed : ParsedURL) (parts : List String) : Prop :=
  parsed.type = parts.getD 0 "" ∧ parsed.id = parts.getD 1 "" ∧ parsed.link = parts.getD 2 ""

theorem Longest.unique (hs : schemas.Versioned) (h : Longest schemas path v)
    (h' : Longest schemas path root) : v = root := by
  obtain ⟨vs, hvs⟩ := (longest_iff hs).1 h
  obtain ⟨vs', hvs'⟩ := (longest_iff hs).1 h'
  exact (List.cons.inj (hvs.symm.trans hvs')).1

/-- What is found for a path outside of a sub-context. -/
def Outside (net : Net) (schemas : Schemas) (path : String) (v : APIVersion) (found : Found) :
    Prop :=
  AtRoot net schemas path v ∧ Next schemas (collapsed path) v found.version
      ∧ found.parts = (unescaped net path).drop ((segments v.path).length - 1)
    ∨ ¬ AtRoot net schemas path v ∧ found.version = v
      ∧ found.parts = (unescaped net path).drop (segments v.path).length

theorem outside_subContext (hs : schemas.Versioned) {next : APIVersion}
    (hvs : versionsForPath schemas (collapsed path) = v :: next :: vs) (hleads : Leads v path)
    (hsub : v.subContext = true)
    (hempty : (parseSubContext net schemas v next (v :: next :: vs)
      (pathParts net (collapsed path)) (split '/' v.path)).subContext = ∅) :
    Outside net schemas path v (parseSubContext net schemas v next (v :: next :: vs)
      (pathParts net (collapsed path)) (split '/' v.path)) := by
  have hlongest : Longest schemas (collapsed path) v := (longest_iff hs).2 ⟨_, hvs⟩
  have hopens : Opens schemas (collapsed path) v := (opens_iff hs hvs).2 ⟨hsub, by simp⟩
  have hnext : Next schemas (collapsed path) v next := (next_iff hs hvs).2 ⟨_, rfl⟩
  have hdrop : (pathParts net (collapsed path)).drop (split '/' v.path).length
      = (unescaped net path).drop (segments v.path).length := hleads.drop_eq
  rcases hfollow : (unescaped net path).drop (segments v.path).length with _ | ⟨p, rest⟩
  · have hobject := parseSubContext_object net schemas v next (v :: next :: vs)
      (.inl (hdrop.trans hfollow))
    refine .inl ⟨⟨hlongest, hopens, by simp [hfollow], by simp [hfollow]⟩, ?_, ?_⟩
    · rw [hobject.1]
      exact hnext
    · rw [hobject.2, hleads.drop_pred_eq]
  · by_cases hp : IsSchemas p
    · have hschemas := parseSubContext_schemas net schemas v next (v :: next :: vs)
        (hdrop.trans hfollow) hp
      refine .inr ⟨fun hroot => ?_, hschemas.1, hschemas.2.trans hfollow.symm⟩
      exact hroot.not_schemas p (by simp [hfollow]) hp
    · rcases rest with _ | ⟨q, rest⟩
      · have hobject := parseSubContext_object net schemas v next (v :: next :: vs)
          (.inr ⟨p, hdrop.trans hfollow, hp⟩)
        refine .inl ⟨⟨hlongest, hopens, by simp [hfollow], by simpa [hfollow] using hp⟩, ?_, ?_⟩
        · rw [hobject.1]
          exact hnext
        · rw [hobject.2, hleads.drop_pred_eq]
      · -- inside of the sub-context
        exfalso
        have hname := congrArg (SortedMap.get · v.subContextSchema) hempty
        unfold IsSchemas at hp
        unfold parseSubContext at hname
        simp only [hdrop.trans hfollow, hp, if_false] at hname
        split at hname <;> simp at hname

variable (net) in
theorem exists_found (hs : schemas.Versioned)
    (hvs : versionsForPath schemas (collapsed path) = v :: vs) (hleads : Leads v path) :
    ∃ found, parseVersionAndSubContext net schemas (collapsed path) = some (some found)
      ∧ (found.subContext = ∅ → Outside net schemas path v found) := by
  by_cases hopened : v.subContext = true ∧ vs ≠ []
  · obtain ⟨hsub, hne⟩ := hopened
    obtain ⟨next, vs, rfl⟩ := List.exists_cons_of_ne_nil hne
    exact ⟨_, parse_opened hvs hsub hleads.length_le, outside_subContext hs hvs hleads hsub⟩
  · refine ⟨_, parse_plain hvs hopened hleads.length_le, fun _ => .inr ⟨fun hroot => ?_, rfl, ?_⟩⟩
    · exact hopened ((opens_iff hs hvs).1 hroot.opens)
    · exact hleads.drop_eq

/-- Every path is parsed. Outside of a sub-context, type, id and link are the segments that follow
those of the version, or for the path of a sub-context the last segment of its own path and what
follows it. -/
theorem urls_parsed {cs : List Call} {o : List Empty}
    (hrun : Run.exec Schemas.step NewSchemas cs = some (schemas, o))
    (hpaths : ∀ v ∈ schemas.versions, v.path ≠ "" ∧ v.path.toList.getLast? ≠ some '/')
    (net : Net) (path : String) (query : SortedMap String (List String)) :
    ∃ parsed, Indexed.DefaultURLParser net schemas path query = some parsed
      ∧ ∀ version, parsed.version = some version → parsed.subContext = ∅ →
        (∃ root, AtRoot net schemas path root ∧ Next schemas (collapsed path) root version
            ∧ ReadsFrom parsed ((unescaped net path).drop ((segments root.path).length - 1)))
          ∨ (¬ ∃ root, AtRoot net schemas path root) ∧ Longest schemas (collapsed path) version
            ∧ ReadsFrom parsed ((unescaped net path).drop (segments version.path).length) := by
  have hs := Schemas.versioned_of_run hrun
  rw [DefaultURLParser_indexed]
  unfold DefaultURLParser
  rcases hvs : versionsForPath schemas (collapsed path) with _ | ⟨v, vs⟩
  · have hnone : parseVersionAndSubContext net schemas (collapsed path) = some none := by
      unfold parseVersionAndSubContext
      rw [hvs]
    refine ⟨{}, ?_, fun version hversion => ?_⟩
    · exact congrArg (Option.map _) hnone
    · cases hversion
  · have hlongest : Longest schemas (collapsed path) v := (longest_iff hs).2 ⟨vs, hvs⟩
    obtain ⟨hne, hend⟩ := hpaths v hlongest.matching.1
    obtain ⟨found, hfound, houtside⟩ :=
      exists_found net hs hvs (leads hlongest.matching hne hend)
    refine ⟨_, congrArg (Option.map _) hfound, fun version hversion hempty => ?_⟩
    cases hversion
    rcases houtside hempty with ⟨hroot, hnext, hparts⟩ | ⟨hroot, hversion, hparts⟩
    · refine .inl ⟨v, hroot, hnext, ?_⟩
      rw [← hparts]
      exact ⟨rfl, rfl, rfl⟩
    · refine .inr ⟨?_, ?_, ?_⟩
      · rintro ⟨root, h⟩
        obtain rfl := hlongest.unique hs h.longest
        exact hroot h
      · rw [hversion]
        exact hlongest
      · rw [hversion, ← hparts]
        exact ⟨rfl, rfl, rfl⟩

/-- A path with doubled slashes and a slash at the end. -/
theorem node_path_parsed : ∃ schemas o parsed,
    Run.exec Schemas.step NewSchemas projectCalls = some (schemas, o)
      ∧ Indexed.DefaultURLParser Api.plainNet schemas "//v3/nodes//n1/" ∅ = some parsed
      ∧ parsed.version = some v3 ∧ ReadsFrom parsed ["nodes", "n1"] := by
  have hdone : (Run.exec Schemas.step NewSchemas projectCalls).bind (fun r =>
      (Indexed.DefaultURLParser Api.plainNet r.1 "//v3/nodes//n1/" ∅).map fun parsed =>
        (r.1.versions, parsed.version, parsed.subContext))
      = some ([v3, v3project], some v3, ∅) := by
    decide +kernel
  obtain ⟨⟨schemas, o⟩, hrun, hdone⟩ := Option.bind_eq_some_iff.1 hdone
  obtain ⟨parsed, hparsed, hdone⟩ := Option.map_eq_some_iff.1 hdone
  simp only [Prod.mk.injEq] at hdone
  obtain ⟨hversions, hversion, hempty⟩ := hdone
  have hpaths : ∀ v ∈ schemas.versions, v.path ≠ "" ∧ v.path.toList.getLast? ≠ some '/' := by
    rw [hversions]
    decide +kernel
  have hmatch : ∀ v ∈ schemas.versions,
      ¬ (v.subContext = true ∧ matchesVersion (collapsed "//v3/nodes//n1/") v = true) := by
    rw [hversions]
    decide +kernel
  have hrest : (unescaped Api.plainNet "//v3/nodes//n1/").drop (segments v3.path).length
      = ["nodes", "n1"] := by
    decide +kernel
  obtain ⟨parsed', hparsed', hreads⟩ :=
    urls_parsed hrun hpaths Api.plainNet "//v3/nodes//n1/" ∅
  obtain rfl : parsed = parsed' := Option.some.inj (hparsed.symm.trans hparsed')
  refine ⟨schemas, o, parsed, hrun, hparsed, hversion, ?_⟩
  rcases hreads v3 hversion hempty with ⟨root, hroot, -, -⟩ | ⟨-, -, hreads⟩
  · have hmatching := hroot.longest.matching
    exact absurd ⟨hroot.opens.1, hmatching.2⟩ (hmatch root hmatching.1)
  · rwa [hrest] at hreads

end Parsed

end Norman.Parse
