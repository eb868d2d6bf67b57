import Norman.Schemas

/-!
# Names of types

`map[x]`, `array[x]` and `reference[x]` are recognised by how they begin and end, and `SubType`
gives the `x` back.
-/

namespace Norman.Types

variable {t : String}

theorem hasPrefix_iff {s p : String} : hasPrefix s p = true ↔ ∃ t, s = p ++ t := by
  unfold hasPrefix
  rw [List.isPrefixOf_iff_prefix]
  constructor
  · rintro ⟨t, ht⟩
    exact ⟨String.ofList t, String.toList_inj.1 (by simp [← ht])⟩
  · rintro ⟨t, rfl⟩
    exact ⟨t.toList, by simp⟩

theorem hasSuffix_iff {s p : String} : hasSuffix s p = true ↔ ∃ t, s = t ++ p := by
  unfold hasSuffix
  rw [List.isSuffixOf_iff_suffix]
  constructor
  · rintro ⟨t, ht⟩
    exact ⟨String.ofList t, String.toList_inj.1 (by simp [← ht])⟩
  · rintro ⟨t, rfl⟩
    exact ⟨t.toList, by simp⟩

/-- The two ends do not overlap. -/
theorem bracket_iff {s p : String} (hp : p.toList.getLast? ≠ some ']') :
    (hasPrefix s p && hasSuffix s "]") = true ↔ ∃ x, s = p ++ x ++ "]" := by
  rw [Bool.and_eq_true, hasPrefix_iff, hasSuffix_iff]
  constructor
  · rintro ⟨⟨t, rfl⟩, u, hu⟩
    have hlist : p.toList ++ t.toList = u.toList ++ [']'] := by
      simpa using congrArg String.toList hu
    rcases List.eq_nil_or_concat t.toList with ht | ⟨x, c, ht⟩
    · rw [ht, List.append_nil] at hlist
      exact absurd (by simp [hlist]) hp
    · rw [ht, List.concat_eq_append, ← List.append_assoc] at hlist
      obtain ⟨-, hc⟩ := List.append_inj' hlist rfl
      refine ⟨String.ofList x, String.toList_inj.1 ?_⟩
      simp [ht, List.singleton_inj.1 hc]
  · rintro ⟨x, rfl⟩
    exact ⟨⟨x ++ "]", by rw [String.append_assoc]⟩, p ++ x, rfl⟩

theorem subType_bracket (name : String) (hne : name ≠ "") (hn : '[' ∉ name.toList) (x : String) :
    SubType (name ++ "[" ++ x ++ "]") = x := by
  have hlist : (name ++ "[" ++ x ++ "]").toList = name.toList ++ '[' :: (x.toList ++ [']']) := by
    simp
  have hidx : (name.toList ++ '[' :: (x.toList ++ [']'])).findIdx (· = '[') = name.toList.length := by
    rw [List.findIdx_append, List.findIdx_eq_length_of_false (by
      intro c hc
      simp only [decide_eq_false_iff_not]
      rintro rfl
      exact hn hc)]
    simp [List.findIdx_cons]
  have hlen : name.toList.length ≠ 0 := by simpa using hne
  unfold SubType
  simp only [hlist, hidx]
  rw [if_neg (by simp only [hlen, false_or, List.length_append, List.length_cons]; simp)]
  refine String.toList_inj.1 ?_
  rw [String.toList_ofList, List.drop_append, List.drop_eq_nil_of_le (by omega)]
  simp

theorem isReferenceType_iff : IsReferenceType t = true ↔ ∃ x, t = "reference[" ++ x ++ "]" :=
  bracket_iff (by decide)

theorem isMapType_of_isArrayType (h : IsArrayType t = true) : IsMapType t = false := by
  simp only [IsArrayType, Bool.and_eq_true, hasPrefix_iff] at h
  obtain ⟨⟨u, rfl⟩, -⟩ := h
  simp [IsMapType, hasPrefix]

theorem isReferenceType_of_isArrayType (h : IsArrayType t = true) : IsReferenceType t = false := by
  simp only [IsArrayType, Bool.and_eq_true, hasPrefix_iff] at h
  obtain ⟨⟨u, rfl⟩, -⟩ := h
  simp [IsReferenceType, hasPrefix]

theorem isReferenceType_of_isMapType (h : IsMapType t = true) : IsReferenceType t = false := by
  simp only [IsMapType, Bool.and_eq_true, hasPrefix_iff] at h
  obtain ⟨⟨u, rfl⟩, -⟩ := h
  simp [IsReferenceType, hasPrefix]

theorem subType_reference (x : String) : SubType ("reference[" ++ x ++ "]") = x :=
  subType_bracket "reference" (by decide) (by decide) x

end Norman.Types
