import Norman.Keys
import Norman.Lib.Parts

/-!
# Keys there and back

Behind a lower case letter every upper case letter starts a part of the YAML key, and is what the
title of the part makes of its first letter. The parts up to a place in the key are what was read of
it (`joined_yamlFrom`).
-/

namespace Norman.Convert

variable {u : Unicode}

section Ascii

variable {c : Char}

/-- What holds of the ASCII characters one by one. -/
theorem of_ascii {P : Char → Prop} (h : ∀ n < 128, P (Char.ofNat n))
    (hc : c.toNat < 128) : P c := by
  have := h c.toNat hc
  rwa [Char.ofNat_toNat] at this

theorem toNat_lt_of_isAlphanum (h : c.isAlphanum = true) : c.toNat < 128 := by
  change ((decide (c.val ≥ 'A'.val ∧ c.val ≤ 'Z'.val)
    || decide (c.val ≥ 'a'.val) && decide (c.val ≤ 'z'.val))
    || decide (c.val ≥ '0'.val) && decide (c.val ≤ '9'.val)) = true at h
  simp only [Bool.or_eq_true, Bool.and_eq_true, decide_eq_true_eq, UInt32.le_iff_toNat_le] at h
  have hval : c.toNat = c.val.toNat := rfl
  have hZ : 'Z'.val.toNat = 90 := rfl
  have hz : 'z'.val.toNat = 122 := rfl
  have hnine : '9'.val.toNat = 57 := rfl
  omega

theorem isAlphanum_of_isUpper (h : c.isUpper = true) : c.isAlphanum = true := by
  change ((c.isUpper || c.isLower) || c.isDigit) = true
  rw [h, Bool.true_or, Bool.true_or]

theorem isAlphanum_of_isLower (h : c.isLower = true) : c.isAlphanum = true := by
  change ((c.isUpper || c.isLower) || c.isDigit) = true
  rw [h, Bool.or_true, Bool.true_or]

theorem toUpper_toLower (h : c.isUpper = true) : c.toLower.toUpper = c := by
  have hascii : c.toNat < 128 := toNat_lt_of_isAlphanum (isAlphanum_of_isUpper h)
  exact of_ascii (P := fun c => c.isUpper = true → c.toLower.toUpper = c) (by decide) hascii h

theorem isAlphanum_toLower (h : c.isUpper = true) : c.toLower.isAlphanum = true := by
  have hascii : c.toNat < 128 := toNat_lt_of_isAlphanum (isAlphanum_of_isUpper h)
  exact of_ascii (P := fun c => c.isUpper = true → c.toLower.isAlphanum = true) (by decide) hascii h

/-- Letters and digits. -/
def Plain (s : List Char) : Prop := ∀ c ∈ s, c.isAlphanum = true

theorem Plain.no_underscore {s : List Char} (h : Plain s) : '_' ∉ s :=
  fun hmem => absurd (h '_' hmem) (by decide)

end Ascii

section Title

theorem titleFrom_append {prev : Char} {s : List Char} : ∀ {t : List Char},
    titleFrom u prev (t ++ s) = titleFrom u prev t ++ titleFrom u (t.getLast?.getD prev) s
  | [] => by simp [titleFrom]
  | c :: t => by
    rw [List.cons_append, titleFrom, titleFrom, titleFrom_append, List.cons_append]
    congr 3
    cases t with
    | nil => rfl
    | cons d t => simp [List.getLast?_cons]

/-- A character behind a letter or digit stays as it is. -/
theorem title_concat {s : List Char} (hs : Plain s) (hne : s ≠ []) (r : Char) :
    title u (s ++ [r]) = title u s ++ [r] := by
  have hlast : (s.getLast hne).isAlphanum = true := hs _ (List.getLast_mem hne)
  have hnot : u.isSeparator (s.getLast hne) = false := by
    rw [u.isSeparator_ascii _ (toNat_lt_of_isAlphanum hlast), hlast]
    rfl
  rw [title, titleFrom_append, List.getLast?_eq_getLast_of_ne_nil hne]
  simp [titleFrom, hnot, title]

/-- The title of a letter that was made lower case. -/
theorem title_toLower {r : Char} (h : r.isUpper = true) : title u [u.toLower r] = [r] := by
  have hascii : r.toNat < 128 := toNat_lt_of_isAlphanum (isAlphanum_of_isUpper h)
  have hlower : (r.toLower).toNat < 128 := toNat_lt_of_isAlphanum (isAlphanum_toLower h)
  have hspace : u.isSeparator ' ' = true := by
    rw [u.isSeparator_ascii ' ' (by decide)]
    decide
  simp only [title, titleFrom, hspace, if_true, u.toLower_ascii r hascii,
    u.toTitle_ascii _ hlower, toUpper_toLower h]

end Title

section RoundTrip

/-- The parts of a key, of which the first is treated by a function. -/
def joinedBy (f : List Char → List Char) (u : Unicode) : List (List Char) → List Char
  | [] => []
  | part :: parts => f part ++ (parts.map (title u)).flatten

theorem joinedBy_append {f : List Char → List Char} {s rest : List Char} (hs : '_' ∉ s) :
    joinedBy f u ((s ++ '_' :: rest).splitOn '_')
      = f s ++ joinedBy (title u) u (rest.splitOn '_') := by
  rw [List.splitOn_append_cons_self, List.splitOn_eq_singleton hs, List.singleton_append]
  obtain ⟨t, ht⟩ := Parts.exists_splitOn '_' rest
  simp [joinedBy, ht]

/-- What was read of a key stands in front of the rest: in the first part, or as the title of
another one. -/
theorem joined_yamlFrom : ∀ {rest s : List Char} {f : List Char → List Char},
    (∀ {s r}, Plain s → s ≠ [] → f (s ++ [r]) = f s ++ [r]) → Plain s → s ≠ [] → Plain rest →
      joinedBy f u ((s ++ yamlFrom u false rest).splitOn '_') = f s ++ rest
  | [], s, f, hf, hs, hne, hrest => by
    rw [yamlFrom, List.append_nil, List.splitOn_eq_singleton hs.no_underscore]
    simp [joinedBy]
  | r :: rest, s, f, hf, hs, hne, hrest => by
    have hr : r.isAlphanum = true := hrest r List.mem_cons_self
    have hrest' : Plain rest := fun c hc => hrest c (List.mem_cons_of_mem r hc)
    have hascii := toNat_lt_of_isAlphanum hr
    rw [yamlFrom, u.isUpper_ascii r hascii]
    by_cases hup : r.isUpper = true
    · have hplain : Plain [u.toLower r] := by
        intro c hc
        rw [List.mem_singleton.1 hc, u.toLower_ascii r hascii]
        exact isAlphanum_toLower hup
      have hnext := joined_yamlFrom (f := title u) (fun hs hne => title_concat hs hne _) hplain
        (by simp) hrest'
      rw [List.singleton_append] at hnext
      rw [if_pos hup, if_neg (by decide), joinedBy_append hs.no_underscore, hnext,
        title_toLower hup, List.singleton_append]
    · have hplain : Plain (s ++ [r]) := by
        intro c hc
        rcases List.mem_append.1 hc with hc | hc
        · exact hs c hc
        · rw [List.mem_singleton.1 hc]
          exact hr
      have hnext := joined_yamlFrom hf hplain (by simp) hrest'
      rw [List.append_assoc, List.singleton_append] at hnext
      rw [if_neg hup, hnext, hf hs hne, List.append_assoc, List.singleton_append]

/-- A key starts with a lower case letter, and has only letters and digits. -/
def IsKey (s : String) : Prop := ∃ r rs, s.toList = r :: rs ∧ r.isLower = true ∧ Plain rs

theorem ToJSONKey_ToYAMLKey {s : String} (h : IsKey s) : ToJSONKey u (ToYAMLKey u s) = s := by
  obtain ⟨r, rs, hs, hlower, hrs⟩ := h
  have hr : r.isAlphanum = true := isAlphanum_of_isLower hlower
  have hascii := toNat_lt_of_isAlphanum hr
  have hnot : r.isUpper = false :=
    of_ascii (P := fun c => c.isLower = true → c.isUpper = false) (by decide) hascii hlower
  have hsame : r.toLower = r :=
    of_ascii (P := fun c => c.isLower = true → c.toLower = c) (by decide) hascii hlower
  have hplain : Plain [r] := by
    intro c hc
    rw [List.mem_singleton.1 hc]
    exact hr
  have hjoin : joinedBy id u (([r] ++ yamlFrom u false rs).splitOn '_') = [r] ++ rs :=
    joined_yamlFrom (fun _ _ => rfl) hplain (by simp) hrs
  have hyaml : (ToYAMLKey u s).toList = [r] ++ yamlFrom u false rs := by
    rw [ToYAMLKey, hs]
    simp [u.toLower_ascii r hascii, u.isUpper_ascii r hascii, hnot, hsame]
  have hjoined : joinTitled u ((ToYAMLKey u s).toList.splitOn '_') = [r] ++ rs := by
    rw [hyaml, ← hjoin]
    obtain ⟨t, ht⟩ := Parts.exists_splitOn '_' ([r] ++ yamlFrom u false rs)
    rw [ht]
    rfl
  rw [ToJSONKey, hjoined, List.singleton_append, ← hs, String.ofList_toList]

/-- Keys of a JSON document come back from YAML, so no two of them are spelled alike there. -/
theorem keys_round_trip (u : Unicode) {s t : String} (hs : IsKey s) (ht : IsKey t) :
    ToJSONKey u (ToYAMLKey u s) = s ∧ (s ≠ t → ToYAMLKey u s ≠ ToYAMLKey u t) := by
  refine ⟨ToJSONKey_ToYAMLKey hs, fun hne heq => hne ?_⟩
  rw [← ToJSONKey_ToYAMLKey (u := u) hs, heq, ToJSONKey_ToYAMLKey ht]

/-- The characters beyond ASCII have no case, and are no separators. -/
def asciiOnly : Unicode where
  isUpper := Char.isUpper
  toLower := Char.toLower
  toTitle := Char.toUpper
  isSeparator c := !(c.isAlphanum || c = '_')
  isUpper_ascii _ _ := rfl
  toLower_ascii _ _ := rfl
  toTitle_ascii _ _ := rfl
  isSeparator_ascii _ _ := rfl

theorem nodeIP_round_trip :
    ToYAMLKey asciiOnly "nodeIP4Address" = "node_i_p4_address"
      ∧ ToJSONKey asciiOnly (ToYAMLKey asciiOnly "nodeIP4Address") = "nodeIP4Address"
      ∧ ToYAMLKey asciiOnly "nodeIP4Address" ≠ ToYAMLKey asciiOnly "nodeIp4Address" := by
  have hkey : ∀ r rs, rs.all Char.isAlphanum = true → r.isLower = true →
      IsKey (String.ofList (r :: rs)) :=
    fun r rs hrs hr => ⟨r, rs, String.toList_ofList, hr, List.all_eq_true.1 hrs⟩
  obtain ⟨hback, hdiff⟩ := keys_round_trip asciiOnly
    (hkey 'n' "odeIP4Address".toList (by decide +kernel) (by decide))
    (hkey 'n' "odeIp4Address".toList (by decide +kernel) (by decide))
  exact ⟨by decide +kernel, hback, hdiff (by decide +kernel)⟩

end RoundTrip

end Norman.Convert
