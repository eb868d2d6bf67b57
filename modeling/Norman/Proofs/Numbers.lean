import Norman.Lib.Strconv
import Norman.Proofs.ReadBack

/-!
# Integers

A `json.Number` that does not fit into an `int64` is read as a `float64` by `ToNumber`, and that is
made an `int64`, so that another number comes out, and no error. A string is read as an `int64` or
not at all.
-/

namespace Norman.Convert

open Strconv Httperror

/-- From here on an integer is too large for `strconv.ParseFloat`: it is half a unit in the last
place beyond the largest `float64`. -/
def floatBound : ℕ := 2 ^ 1024 - 2 ^ 970

/-- `strconv`, as far as integers are concerned. -/
structure ReadsIntegers (env : Env) : Prop where
  parseInt : ∀ s, env.parseInt s = ParseInt s
  parseFloat : ∀ l : Literal,
    (∃ err, env.parseFloat l.text = .error err) ↔ floatBound ≤ l.value.natAbs

/-- The number itself if an `int64` can be this number, and an error otherwise. -/
def Exactly (n : Int) (result : Except Err Int) : Prop :=
  if FitsInt64 n then result = .ok n else ∃ err, result = .error err

variable {env : Env} {l : Literal}

theorem trimSpace_eq {s : String} (h : ∀ c ∈ s.toList, isSpace c = false) : trimSpace s = s := by
  have hdrop : ∀ l : List Char, (∀ c ∈ l, isSpace c = false) → l.dropWhile isSpace = l := by
    intro l hl
    rcases l with _ | ⟨c, l⟩
    · rfl
    · rw [List.dropWhile_cons_of_neg (by simp [hl c])]
  unfold trimSpace
  rw [hdrop _ h, hdrop _ fun c hc => h c (List.mem_reverse.1 hc), List.reverse_reverse]
  exact String.ofList_toList

theorem isSpace_of_isDigit {c : Char} (h : c.isDigit = true) : isSpace c = false := by
  have hle : 48 ≤ c.toNat ∧ c.toNat ≤ 57 := by
    simp only [Char.isDigit, Bool.and_eq_true, decide_eq_true_eq, ge_iff_le,
      UInt32.le_iff_toNat_le] at h
    exact h
  obtain ⟨h1, h2⟩ := hle
  unfold isSpace
  simp only [List.mem_cons, List.not_mem_nil, or_false, Bool.or_eq_false_iff,
    decide_eq_false_iff_not, Bool.and_eq_false_iff]
  omega

theorem trimSpace_text : trimSpace l.text = l.text := by
  refine trimSpace_eq fun c hc => ?_
  rw [Literal.text, String.toList_ofList, Literal.chars] at hc
  split at hc
  · rcases List.mem_cons.1 hc with rfl | hc
    · rfl
    · exact isSpace_of_isDigit (l.isDigit_of_mem hc)
  · exact isSpace_of_isDigit (l.isDigit_of_mem hc)

theorem exactly_parseInt (henv : ReadsIntegers env) (l : Literal) :
    Exactly l.value (ofStd (env.parseInt l.text)) := by
  rw [henv.parseInt, l.ParseInt_text]
  unfold Exactly
  split_ifs
  · rfl
  · exact ⟨_, rfl⟩

/-- An integer that arrives as a string is never altered. -/
theorem ToNumber_str_exactly (henv : ReadsIntegers env) (l : Literal) :
    Exactly l.value (ToNumber env (.str l.text)) := by
  rw [Convert.toNumber_str, trimSpace_text]
  exact exactly_parseInt henv l

theorem ToNumber_number_exactly_iff (henv : ReadsIntegers env) (l : Literal) :
    Exactly l.value (ToNumber env (.number l.text))
      ↔ FitsInt64 l.value ∨ floatBound ≤ l.value.natAbs := by
  rw [← henv.parseFloat]
  have hparse := (henv.parseInt l.text).trans l.ParseInt_text
  unfold Exactly
  by_cases hfits : FitsInt64 l.value
  · rw [if_pos hfits] at hparse
    have hnumber : ToNumber env (.number l.text) = .ok l.value := by
      simp only [ToNumber, Singular, hparse]
    simp [hfits, hnumber]
  · rw [if_neg hfits] at hparse
    have hnumber : ToNumber env (.number l.text)
        = (ofStd (env.parseFloat l.text)).map env.truncate := by
      simp only [ToNumber, Singular, hparse]
    simp only [hfits, hnumber, if_false, false_or]
    rcases env.parseFloat l.text with err | bits
    · simp [ofStd, Except.mapError, Except.map]
    · simp [ofStd, Except.mapError, Except.map]

/-- An integer arrives unaltered, or not at all, both as a number and as a string, if and only if it
fits into an `int64` or is too large even for a `float64`. -/
theorem ToNumber_exactly_iff (henv : ReadsIntegers env) (l : Literal) :
    (Exactly l.value (ToNumber env (.number l.text)) ∧ Exactly l.value (ToNumber env (.str l.text)))
      ↔ FitsInt64 l.value ∨ floatBound ≤ l.value.natAbs :=
  (and_iff_left (ToNumber_str_exactly henv l)).trans (ToNumber_number_exactly_iff henv l)

/-- The text is that of an integer, of this size. -/
def integer (s : String) : Option ℕ :=
  let digits := (sign s.toList).2
  if digits = [] ∨ digits.all Char.isDigit = false then none else some (digitsValue digits)

/-- `strconv`, with `2 ^ 63` for every `float64`, and what amd64 makes of a `float64` that is too
large for an `int64`. -/
def roughConvert : Env :=
  { Parse.plainConvert with
    parseInt := ParseInt
    parseFloat := fun s =>
      if (integer s).all (· < floatBound) then .ok 0x43e0000000000000
      else .error "value out of range"
    truncate := fun _ => -9223372036854775808 }

theorem integer_text (l : Literal) : integer l.text = some l.value.natAbs := by
  unfold integer
  rw [Literal.text, String.toList_ofList, l.sign_chars]
  simp only [l.nonempty, l.isDigit, Bool.true_eq_false, or_self, if_false]
  unfold Literal.value signed
  split <;> simp

theorem roughConvert_readsIntegers : ReadsIntegers roughConvert where
  parseInt _ := rfl
  parseFloat l := by
    unfold roughConvert
    simp only [integer_text, Option.all_some]
    split_ifs with h
    · simpa using h
    · simpa using h

/-- One more than the largest `int64`. -/
def beyond : Literal where
  negative := false
  digits := "9223372036854775808".toList
  nonempty := by decide
  isDigit := by decide

/-- It comes out with the sign changed. -/
theorem beyond_altered : ToNumber roughConvert (.number beyond.text) = .ok (-9223372036854775808)
    ∧ ¬ Exactly beyond.value (ToNumber roughConvert (.number beyond.text)) := by
  refine ⟨by decide +kernel, ?_⟩
  rw [ToNumber_number_exactly_iff roughConvert_readsIntegers]
  decide +kernel

/-- The largest `int64`. -/
def largest : Literal where
  negative := false
  digits := "9223372036854775807".toList
  nonempty := by decide
  isDigit := by decide

theorem largest_exactly :
    Exactly largest.value (ToNumber roughConvert (.number largest.text))
      ∧ Exactly largest.value (ToNumber roughConvert (.str largest.text)) :=
  (ToNumber_exactly_iff roughConvert_readsIntegers largest).2 (.inl (by decide))

end Norman.Convert
