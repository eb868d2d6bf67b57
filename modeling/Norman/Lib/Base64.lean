import Mathlib.Data.List.Basic

/-!
# Base64

The standard encoding, with padding: three bytes are written as four digits of six bits. A decoder
leaves out line breaks, and at the first quantum that is not well formed it ends with what it has so
far. What is encoded is decoded again (`decode_encode`).
-/

namespace Base64Codec

/-- The digits, by their values. -/
def alphabet : List UInt8 :=
  "ABCDEFGHIJKLMNOPQRSTUVWXYZabcdefghijklmnopqrstuvwxyz0123456789+/".toList.map fun c =>
    UInt8.ofNat c.toNat

/-- `=`. -/
def pad : UInt8 := 61

def digit (n : ℕ) : UInt8 := alphabet.getD n pad

/-- The value of a digit. -/
def value (c : UInt8) : Option ℕ :=
  if alphabet.findIdx (· == c) < 64 then some (alphabet.findIdx (· == c)) else none

def encode : List UInt8 → List UInt8
  | [] => []
  | [a] => [digit (a.toNat / 4), digit (a.toNat % 4 * 16), pad, pad]
  | [a, b] => [digit (a.toNat / 4), digit (a.toNat % 4 * 16 + b.toNat / 16),
      digit (b.toNat % 16 * 4), pad]
  | a :: b :: c :: l =>
    digit (a.toNat / 4) :: digit (a.toNat % 4 * 16 + b.toNat / 16)
      :: digit (b.toNat % 16 * 4 + c.toNat / 64) :: digit (c.toNat % 64) :: encode l

/-- The bytes of one quantum: of two digits, of three, and of four. -/
def first (s t : ℕ) : UInt8 := UInt8.ofNat (s * 4 + t / 16)

def second (t u : ℕ) : UInt8 := UInt8.ofNat (t % 16 * 16 + u / 4)

def third (u v : ℕ) : UInt8 := UInt8.ofNat (u % 4 * 64 + v)

/-- The bytes of quanta without line breaks, and whether all of them were well formed. -/
def quanta : List UInt8 → List UInt8 × Bool
  | [] => ([], true)
  | a :: b :: c :: d :: l =>
    match value a, value b with
    | some s, some t =>
      if c = pad then
        if d = pad then ([first s t], l.isEmpty) else ([], false)
      else
        match value c with
        | some u =>
          if d = pad then ([first s t, second t u], l.isEmpty)
          else
            match value d with
            | some v => (first s t :: second t u :: third u v :: (quanta l).1, (quanta l).2)
            | none => ([], false)
        | none => ([], false)
    | _, _ => ([], false)
  | _ => ([], false)

def decode (text : List UInt8) : List UInt8 × Bool :=
  quanta (text.filter fun c => c ≠ 10 ∧ c ≠ 13)

theorem encode_nil : encode [] = [] := rfl

section RoundTrip

variable {n : ℕ} {a b c : UInt8}

theorem value_digit : ∀ n < 64, value (digit n) = some n := by decide +kernel

theorem digit_ne_pad : ∀ n < 64, digit n ≠ pad := by decide +kernel

theorem lt_of_byte (a : UInt8) : a.toNat < 256 := a.toNat_lt

theorem first_eq (a b : UInt8) : first (a.toNat / 4) (a.toNat % 4 * 16 + b.toNat / 16) = a := by
  have ha := lt_of_byte a
  have hb := lt_of_byte b
  rw [first, show a.toNat / 4 * 4 + (a.toNat % 4 * 16 + b.toNat / 16) / 16 = a.toNat by omega]
  exact UInt8.ofNat_toNat

theorem first_eq_alone (a : UInt8) : first (a.toNat / 4) (a.toNat % 4 * 16) = a := by
  have ha := lt_of_byte a
  rw [first, show a.toNat / 4 * 4 + a.toNat % 4 * 16 / 16 = a.toNat by omega]
  exact UInt8.ofNat_toNat

theorem second_eq (a b c : UInt8) :
    second (a.toNat % 4 * 16 + b.toNat / 16) (b.toNat % 16 * 4 + c.toNat / 64) = b := by
  have ha := lt_of_byte a
  have hb := lt_of_byte b
  have hc := lt_of_byte c
  rw [second, show (a.toNat % 4 * 16 + b.toNat / 16) % 16 * 16
    + (b.toNat % 16 * 4 + c.toNat / 64) / 4 = b.toNat by omega]
  exact UInt8.ofNat_toNat

theorem second_eq_alone (a b : UInt8) :
    second (a.toNat % 4 * 16 + b.toNat / 16) (b.toNat % 16 * 4) = b := by
  have ha := lt_of_byte a
  have hb := lt_of_byte b
  rw [second, show (a.toNat % 4 * 16 + b.toNat / 16) % 16 * 16 + b.toNat % 16 * 4 / 4 = b.toNat
    by omega]
  exact UInt8.ofNat_toNat

theorem third_eq (b c : UInt8) :
    third (b.toNat % 16 * 4 + c.toNat / 64) (c.toNat % 64) = c := by
  have hb := lt_of_byte b
  have hc := lt_of_byte c
  rw [third, show (b.toNat % 16 * 4 + c.toNat / 64) % 4 * 64 + c.toNat % 64 = c.toNat by omega]
  exact UInt8.ofNat_toNat

theorem quanta_encode : ∀ l : List UInt8, quanta (encode l) = (l, true)
  | [] => rfl
  | [a] => by
    have ha := lt_of_byte a
    simp only [encode, quanta, value_digit (a.toNat / 4) (by omega),
      value_digit (a.toNat % 4 * 16) (by omega), if_true, first_eq_alone, List.isEmpty_nil]
  | [a, b] => by
    have ha := lt_of_byte a
    have hb := lt_of_byte b
    simp only [encode, quanta, value_digit (a.toNat / 4) (by omega),
      value_digit (a.toNat % 4 * 16 + b.toNat / 16) (by omega),
      value_digit (b.toNat % 16 * 4) (by omega), digit_ne_pad (b.toNat % 16 * 4) (by omega), if_false,
      if_true, first_eq, second_eq_alone, List.isEmpty_nil]
  | a :: b :: c :: l => by
    have ha := lt_of_byte a
    have hb := lt_of_byte b
    have hc := lt_of_byte c
    simp only [encode, quanta, value_digit (a.toNat / 4) (by omega),
      value_digit (a.toNat % 4 * 16 + b.toNat / 16) (by omega),
      value_digit (b.toNat % 16 * 4 + c.toNat / 64) (by omega),
      digit_ne_pad (b.toNat % 16 * 4 + c.toNat / 64) (by omega),
      value_digit (c.toNat % 64) (by omega), digit_ne_pad (c.toNat % 64) (by omega), if_false,
      first_eq, second_eq, third_eq, quanta_encode l]

/-- A byte of a text that is encoded. -/
theorem mem_encode : ∀ {l : List UInt8}, c ∈ encode l → c ∈ pad :: alphabet := by
  have hdigit : ∀ n, digit n ∈ pad :: alphabet := by
    intro n
    rw [digit, List.getD_eq_getElem?_getD]
    rcases h : alphabet[n]? with _ | d
    · exact List.mem_cons_self
    · exact List.mem_cons_of_mem _ (List.mem_of_getElem? h)
  intro l
  induction l using encode.induct with
  | case1 => simp [encode]
  | case2 a =>
    simp only [encode, List.mem_cons, List.not_mem_nil, or_false]
    rintro (rfl | rfl | rfl | rfl) <;> first | exact List.mem_cons.1 (hdigit _) | exact .inl rfl
  | case3 a b =>
    simp only [encode, List.mem_cons, List.not_mem_nil, or_false]
    rintro (rfl | rfl | rfl | rfl) <;> first | exact List.mem_cons.1 (hdigit _) | exact .inl rfl
  | case4 a b c l ih =>
    simp only [encode, List.mem_cons]
    rintro (rfl | rfl | rfl | rfl | h)
    · exact List.mem_cons.1 (hdigit _)
    · exact List.mem_cons.1 (hdigit _)
    · exact List.mem_cons.1 (hdigit _)
    · exact List.mem_cons.1 (hdigit _)
    · exact List.mem_cons.1 (ih h)

theorem decode_encode (l : List UInt8) : decode (encode l) = (l, true) := by
  have hbreaks : ∀ c ∈ pad :: alphabet, c ≠ 10 ∧ c ≠ 13 := by decide +kernel
  rw [decode, List.filter_eq_self.2 fun c hc => by simpa using hbreaks c (mem_encode hc),
    quanta_encode]

theorem encode_injective {l l' : List UInt8} (h : encode l = encode l') : l = l' := by
  have heq := quanta_encode l
  rw [h, quanta_encode l'] at heq
  exact (Prod.mk.inj heq).1.symm

end RoundTrip

end Base64Codec
