import Norman.Proofs.Paths

/-!
# Which paths a version matches

A version matches a path that goes on, behind the path of the version, with at most two characters
before the next slash or the end (`matchesVersion_iff`). That lets `/v3/cluster` match
`/v3/clusters`, as it should; but `/v3x` is matched by `/v3` just as well.
-/

namespace Norman.Parse

open Norman.Types

section Segments

variable {env : Types.Env} {schemas : Schemas} {path rest : String} {v : APIVersion}

/-- What comes before the next slash. -/
def firstPart (path : String) : String := String.ofList (path.toList.takeWhile (· ≠ '/'))

/-- What comes behind the last slash. -/
def lastPart (path : String) : String := (split '/' path).getLastD ""

/-- The path begins with the parts of the path of the version, or with its plural in the place of
the last one. -/
def Respects (env : Types.Env) (v : APIVersion) (path : String) : Prop :=
  ∃ front last part tail, split '/' v.path = front ++ [last]
    ∧ split '/' path = front ++ part :: tail
    ∧ (part = last ∨ part = GuessPluralName env last ∧ hasPrefix part last = true)

theorem split_append {front : List String} {last : String} (h : split '/' path = front ++ [last])
    (rest : String) :
    ∃ tail, split '/' (path ++ rest) = front ++ (last ++ firstPart rest) :: tail := by
  obtain ⟨front', last', hsplit, rfl, hlast⟩ := List.map_eq_append_iff.1 h
  obtain ⟨last, rfl, rfl⟩ := List.map_eq_singleton_iff.1 hlast
  obtain ⟨t, ht⟩ := Parts.exists_splitOn '/' rest.toList
  refine ⟨t.map String.ofList, ?_⟩
  rw [split, String.toList_append, Parts.splitOn_append ht hsplit]
  simp [firstPart]

theorem lastPart_eq {front : List String} {last : String} (h : split '/' path = front ++ [last]) :
    lastPart path = last := by
  simp [lastPart, h]

theorem exists_split (path : String) : ∃ front, split '/' path = front ++ [lastPart path] := by
  rcases List.eq_nil_or_concat (split '/' path) with h | ⟨front, last, h⟩
  · obtain ⟨t, ht⟩ := Parts.exists_splitOn '/' path.toList
    rw [split, ht] at h
    cases h
  · rw [List.concat_eq_append] at h
    exact ⟨front, by rw [lastPart_eq h, h]⟩

theorem near_slash_iff (l : List Char) :
    (l.length < 3 ∨ '/' ∈ l.take 3) ↔ (l.takeWhile (· ≠ '/')).length ≤ 2 := by
  rcases l with _ | ⟨a, _ | ⟨b, _ | ⟨c, l⟩⟩⟩
  · simp
  · by_cases ha : a = '/' <;> simp [ha]
  · by_cases ha : a = '/' <;> by_cases hb : b = '/' <;> simp [ha, hb]
  · by_cases ha : a = '/'
    · simp [ha]
    · by_cases hb : b = '/'
      · simp [ha, hb]
      · by_cases hc : c = '/'
        · simp [ha, hb, hc]
        · simp [ha, hb, hc, Ne.symm ha, Ne.symm hb, Ne.symm hc]

theorem matchesVersion_iff : matchesVersion path v = true
    ↔ ∃ rest, path = v.path ++ rest ∧ (firstPart rest).toList.length ≤ 2 := by
  unfold matchesVersion
  rw [Bool.and_eq_true, hasPrefix_iff]
  constructor
  · rintro ⟨⟨rest, rfl⟩, h⟩
    refine ⟨rest, rfl, ?_⟩
    rw [String.toList_append, List.drop_left, Bool.or_eq_true, decide_eq_true_eq,
      decide_eq_true_eq, near_slash_iff] at h
    simpa [firstPart] using h
  · rintro ⟨rest, rfl, h⟩
    refine ⟨⟨rest, rfl⟩, ?_⟩
    rw [String.toList_append, List.drop_left, Bool.or_eq_true, decide_eq_true_eq,
      decide_eq_true_eq, near_slash_iff]
    simpa [firstPart] using h

/-- A version goes together with a path that it begins if and only if what is in between is nothing
or the ending of the plural. -/
theorem respects_iff : Respects env v (v.path ++ rest)
    ↔ firstPart rest = ""
      ∨ lastPart v.path ++ firstPart rest = GuessPluralName env (lastPart v.path) := by
  constructor
  · rintro ⟨front, last, part, tail, hv, hpath, hpart⟩
    obtain ⟨tail', htail⟩ := split_append hv rest
    rw [hpath, List.append_cancel_left_eq, List.cons.injEq] at htail
    obtain ⟨rfl, -⟩ := htail
    rw [lastPart_eq hv]
    rcases hpart with hpart | ⟨hpart, -⟩
    · left
      exact String.toList_inj.1 (by simpa using congrArg String.toList hpart)
    · exact .inr hpart
  · intro h
    obtain ⟨front, hv⟩ := exists_split v.path
    obtain ⟨tail, htail⟩ := split_append hv rest
    refine ⟨front, _, _, tail, hv, htail, ?_⟩
    rcases h with h | h
    · left
      rw [h, String.append_empty]
    · exact .inr ⟨h, hasPrefix_iff.2 ⟨_, rfl⟩⟩

/-- The versions that are selected for a path go together with it if and only if, wherever the path
of a registered version goes on in it with one or two characters, these are the ending of the
plural. -/
theorem versionsForPath_respects_iff (env : Types.Env) (schemas : Schemas) (path : String) :
    (∀ v ∈ versionsForPath schemas path, Respects env v path)
      ↔ ∀ v ∈ schemas.versions, ∀ rest, path = v.path ++ rest →
        (firstPart rest).toList.length ∈ [1, 2] →
        lastPart v.path ++ firstPart rest = GuessPluralName env (lastPart v.path) := by
  constructor
  · rintro h v hv rest rfl hlen
    have hmatch : matchesVersion (v.path ++ rest) v = true := by
      refine matchesVersion_iff.2 ⟨rest, rfl, ?_⟩
      simp at hlen
      omega
    refine (respects_iff.1 (h v (mem_versionsForPath.2 ⟨hv, hmatch⟩))).resolve_left fun hempty => ?_
    simp [hempty] at hlen
  · intro h v hv
    obtain ⟨hreg, hmatch⟩ := mem_versionsForPath.1 hv
    obtain ⟨rest, rfl, hlen⟩ := matchesVersion_iff.1 hmatch
    rw [respects_iff]
    by_cases hempty : firstPart rest = ""
    · exact .inl hempty
    · refine .inr (h v hreg rest rfl ?_)
      have hne : (firstPart rest).toList ≠ [] := by simpa using hempty
      have hpos := List.length_pos_iff.2 hne
      simp
      omega

/-- `/v1x` is taken for `/v1`. -/
theorem v1x_taken_for_v1 :
    ∃ schemas o, Run.exec Schemas.step NewSchemas
        [.AddSchema Schemas.plainEnv 0 (Schemas.schemaOf "pod" "1")] = some (schemas, o)
      ∧ ∃ v ∈ versionsForPath schemas "/v1x/pods", ¬ Respects Schemas.plainEnv v "/v1x/pods" := by
  have hdone : (Run.exec Schemas.step NewSchemas
      [.AddSchema Schemas.plainEnv 0 (Schemas.schemaOf "pod" "1")]).map
        (fun r => versionsForPath r.1 "/v1x/pods") = some [{ version := "v1", path := "/v1" }] := by
    decide +kernel
  obtain ⟨⟨schemas, o⟩, hrun, hdone⟩ := Option.map_eq_some_iff.1 hdone
  refine ⟨schemas, o, hrun, { version := "v1", path := "/v1" }, ?_, ?_⟩
  · rw [hdone]
    exact List.mem_singleton_self _
  · have hpath : "/v1x/pods" = "/v1" ++ "x/pods" := by decide
    rw [hpath]
    exact mt respects_iff.1 (by decide +kernel)

end Segments

end Norman.Parse
