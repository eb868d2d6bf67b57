import Mathlib.Data.Int.Basic
import Mathlib.Data.String.Basic

/-!
# Integers in decimal

`ParseInt` reads a text as Go's `strconv.ParseInt(s, 10, 64)` does: a sign, if there is one, and
decimal digits, whose value has to fit into 64 bits.
-/

namespace Strconv

/-- The value of decimal digits. -/
def digitsValue (digits : List Char) : ℕ :=
  digits.foldl (fun n c => 10 * n + (c.toNat - '0'.toNat)) 0

/-- An `int64` can have this value. -/
def FitsInt64 (n : Int) : Prop := -9223372036854775808 ≤ n ∧ n ≤ 9223372036854775807

instance (n : Int) : Decidable (FitsInt64 n) := inferInstanceAs (Decidable (_ ∧ _))

/-- The sign of a text, and what follows it. -/
def sign : List Char → Bool × List Char
  | '-' :: digits => (true, digits)
  | '+' :: digits => (false, digits)
  | digits => (false, digits)

/-- The value with its sign. -/
def signed (negative : Bool) (n : ℕ) : Int := if negative then -n else n

/-- An error that `strconv` gives. -/
def numError (s what : String) : String := "strconv.ParseInt: parsing \"" ++ s ++ "\": " ++ what

def ParseInt (s : String) : Except String Int :=
  let (negative, digits) := sign s.toList
  if digits = [] ∨ digits.all Char.isDigit = false then .error (numError s "invalid syntax")
  else if FitsInt64 (signed negative (digitsValue digits)) then
    .ok (signed negative (digitsValue digits))
  else .error (numError s "value out of range")

/-- An integer as JSON writes it. -/
structure Literal where
  negative : Bool
  digits : List Char
  nonempty : digits ≠ []
  isDigit : digits.all Char.isDigit = true

namespace Literal

variable (l : Literal)

def chars : List Char := if l.negative then '-' :: l.digits else l.digits

def text : String := String.ofList l.chars

def value : Int := signed l.negative (digitsValue l.digits)

theorem isDigit_of_mem {c : Char} (hc : c ∈ l.digits) : c.isDigit = true :=
  List.all_eq_true.1 l.isDigit c hc

theorem sign_chars : sign l.chars = (l.negative, l.digits) := by
  unfold chars
  rcases hn : l.negative with _ | _
  · rw [if_neg (by simp)]
    rcases hd : l.digits with _ | ⟨c, digits⟩
    · exact absurd hd l.nonempty
    · have hc : c.isDigit = true := l.isDigit_of_mem (by simp [hd])
      have hminus : c ≠ '-' := by
        rintro rfl
        cases hc
      have hplus : c ≠ '+' := by
        rintro rfl
        cases hc
      unfold sign
      split
      · rename_i h
        exact absurd (List.cons.inj h).1 hminus
      · rename_i h
        exact absurd (List.cons.inj h).1 hplus
      · rfl
  · rfl

/-- A literal is read as its value, or it is out of range. -/
theorem ParseInt_text : ParseInt l.text
    = if FitsInt64 l.value then .ok l.value else .error (numError l.text "value out of range") := by
  unfold ParseInt
  rw [text, String.toList_ofList, l.sign_chars]
  simp only [l.nonempty, l.isDigit, Bool.true_eq_false, or_self, if_false]
  rfl

end Literal

end Strconv
