import Mathlib.Algebra.Order.Ring.Nat
import Mathlib.Data.Nat.Log
import Mathlib.Order.Fin.Basic
import Mathlib.Tactic.Ring

/-!
# Varints

Integers of 64 bits as bytes of seven bits each, lowest first, every byte but the last with its high
bit set; an integer is made a natural number first, the sign in its lowest bit. What `put` writes
`read` reads, and leaves what comes after it (`read_put`). How many bytes that takes depends on the
size of the integer (`length_put`).
-/

namespace Varint

/-- The integers of 64 bits. -/
def IsInt64 (x : Int) : Prop := -9223372036854775808 ≤ x ∧ x < 9223372036854775808

instance (x : Int) : Decidable (IsInt64 x) := inferInstanceAs (Decidable (_ ∧ _))

/-- The sign goes into the lowest bit. -/
def zigzag : Int → ℕ
  | .ofNat n => 2 * n
  | .negSucc n => 2 * n + 1

def unzigzag (u : ℕ) : Int := if u % 2 = 0 then .ofNat (u / 2) else .negSucc (u / 2)

/-- The lowest byte of a number. -/
def byte (u : ℕ) : Fin 256 := ⟨u % 256, Nat.mod_lt u (by decide)⟩

theorem byte_val (u : ℕ) : (byte u).val = u % 256 := rfl

/-- The bytes of a number, `n` of them with more to come and the last one. -/
def putUvarint : ℕ → ℕ → List (Fin 256)
  | 0, u => [byte u]
  | n + 1, u =>
    if u < 128 then [byte u]
    else byte (u % 128 + 128) :: putUvarint n (u / 128)

/-- The number in at most `n` bytes, of which the tenth can only be one bit, and what comes after
it. -/
def readUvarint : ℕ → List (Fin 256) → Option (ℕ × List (Fin 256))
  | 0, _ => none
  | _ + 1, [] => none
  | n + 1, b :: rest =>
    if b.val < 128 then
      if n = 0 ∧ 1 < b.val then none else some (b.val, rest)
    else (readUvarint n rest).map fun r => (b.val - 128 + 128 * r.1, r.2)

def put (x : Int) : List (Fin 256) := putUvarint 9 (zigzag x)

def read (bytes : List (Fin 256)) : Option (Int × List (Fin 256)) :=
  (readUvarint 10 bytes).map fun r => (unzigzag r.1, r.2)

theorem unzigzag_zigzag : ∀ x : Int, unzigzag (zigzag x) = x
  | .ofNat n => by simp [zigzag, unzigzag]
  | .negSucc n => by
    have hodd : (2 * n + 1) % 2 = 1 := by omega
    have hhalf : (2 * n + 1) / 2 = n := by omega
    simp [zigzag, unzigzag, hodd, hhalf]

theorem zigzag_lt {x : Int} (h : IsInt64 x) : zigzag x < 2 * 128 ^ 9 := by
  obtain ⟨hlow, hhigh⟩ := h
  cases x with
  | ofNat n =>
    simp only [zigzag, Int.ofNat_eq_natCast] at hhigh ⊢
    omega
  | negSucc n =>
    simp only [zigzag]
    omega

theorem readUvarint_putUvarint (rest : List (Fin 256)) :
    ∀ (n u : ℕ), u < 2 * 128 ^ n → readUvarint (n + 1) (putUvarint n u ++ rest) = some (u, rest)
  | 0, u, h => by
    have hval : (byte u).val = u := by
      rw [byte_val]
      omega
    have hle : ¬ 1 < u := by omega
    simp only [putUvarint, List.singleton_append, readUvarint, hval]
    rw [if_pos (by omega), if_neg (by omega)]
  | n + 1, u, h => by
    rw [putUvarint]
    split
    · have hval : (byte u).val = u := by
        rw [byte_val]
        omega
      simp only [List.singleton_append, readUvarint, hval]
      rw [if_pos (by assumption), if_neg (by omega)]
    · have hval : (byte (u % 128 + 128)).val = u % 128 + 128 := by
        rw [byte_val]
        omega
      have hlt : u / 128 < 2 * 128 ^ n := by
        rw [Nat.div_lt_iff_lt_mul (by omega)]
        calc u < 2 * 128 ^ (n + 1) := h
          _ = 2 * 128 ^ n * 128 := by ring
      rw [List.cons_append, readUvarint, hval, if_neg (by omega),
        readUvarint_putUvarint rest n (u / 128) hlt]
      simp only [Option.map_some, Option.some.injEq, Prod.mk.injEq, and_true]
      omega

theorem read_put {x : Int} (h : IsInt64 x) (rest : List (Fin 256)) :
    read (put x ++ rest) = some (x, rest) := by
  rw [read, put, readUvarint_putUvarint rest 9 _ (zigzag_lt h), Option.map_some, unzigzag_zigzag]

theorem putUvarint_length_le : ∀ n u : ℕ, (putUvarint n u).length ≤ n + 1
  | 0, _ => by simp [putUvarint]
  | n + 1, u => by
    rw [putUvarint]
    split
    · simp
    · have := putUvarint_length_le n (u / 128)
      simp only [List.length_cons]
      omega

theorem put_length_le (x : Int) : (put x).length ≤ 10 := putUvarint_length_le 9 _

section Width

/-- The number of bytes of an integer. -/
def width (x : Int) : ℕ := Nat.log 128 (zigzag x) + 1

theorem length_putUvarint : ∀ {n u : ℕ}, u < 2 * 128 ^ n →
    (putUvarint n u).length = Nat.log 128 u + 1
  | 0, u, h => by
    rw [Nat.log_of_lt (by omega)]
    rfl
  | n + 1, u, h => by
    rw [putUvarint]
    split
    · rename_i hlt
      rw [Nat.log_of_lt hlt]
      rfl
    · rename_i hge
      have hrest : u / 128 < 2 * 128 ^ n := by
        rw [Nat.div_lt_iff_lt_mul (by omega)]
        calc u < 2 * 128 ^ (n + 1) := h
          _ = 2 * 128 ^ n * 128 := by ring
      have hpos : 0 < Nat.log 128 u := Nat.log_pos (by omega) (by omega)
      rw [List.length_cons, length_putUvarint hrest, Nat.log_div_base]
      omega

theorem length_put {x : Int} (h : IsInt64 x) : (put x).length = width x :=
  length_putUvarint (zigzag_lt h)

theorem width_le {x : Int} (h : IsInt64 x) : width x ≤ 10 := length_put h ▸ put_length_le x

end Width

end Varint
