import Mathlib.Data.Nat.Notation
import Norman.Lib.SortedMap

/-!
# Weights

The weight of a list is the sum of the weights of its entries, and so is that of a map's values.
What an update does to it is stated without subtraction: what goes out on the one side, what comes
in on the other (`total_set`, `total_erase`).
-/

namespace Weight

variable {α : Type*} (f : α → ℕ)

/-- The weights of the entries together. -/
def sum : List α → ℕ
  | [] => 0
  | a :: l => f a + sum l

@[simp] theorem sum_nil : sum f [] = 0 := rfl

@[simp] theorem sum_cons (a : α) (l : List α) : sum f (a :: l) = f a + sum f l := rfl

@[simp] theorem sum_append : ∀ l l' : List α, sum f (l ++ l') = sum f l + sum f l'
  | [], l' => by simp
  | a :: l, l' => by
    rw [List.cons_append, sum_cons, sum_cons, sum_append l l', Nat.add_assoc]

theorem sum_eraseIdx : ∀ {l : List α} {i : ℕ} {a : α}, l[i]? = some a →
    sum f l = f a + sum f (l.eraseIdx i)
  | [], _, _, h => by cases h
  | b :: l, 0, a, h => by
    cases h
    rfl
  | b :: l, i + 1, a, h => by
    have ih := sum_eraseIdx (l := l) (i := i) h
    rw [List.eraseIdx_cons_succ, sum_cons, sum_cons, ih]
    omega

section Map

variable {κ β : Type*} [LinearOrder κ] (f : β → ℕ)

/-- The weights of the values together. -/
def total (m : SortedMap κ β) : ℕ := sum (fun e => f e.2) m.entries

theorem sum_set (k : κ) (v : β) : ∀ {l : List (κ × β)}, Assoc.Sorted l →
    sum (fun e => f e.2) (Assoc.set k v l) + (Assoc.get k l).elim 0 f
      = sum (fun e => f e.2) l + f v
  | [], _ => by simp [Assoc.set]
  | (j, u) :: l, hs => by
    simp only [Assoc.set]
    split_ifs with h1 h2
    · have hnone : Assoc.get k l = none := hs.get_head_lt h1.le
      simp only [Assoc.get, if_neg h1.ne, hnone, sum_cons, Option.elim_none]
      omega
    · simp only [Assoc.get, if_pos h2, sum_cons, Option.elim_some]
      omega
    · have ih := sum_set k v hs.tail
      simp only [Assoc.get, if_neg h2, sum_cons] at ih ⊢
      omega

theorem sum_erase (k : κ) : ∀ l : List (κ × β),
    sum (fun e => f e.2) (Assoc.erase k l) + (Assoc.get k l).elim 0 f ≤ sum (fun e => f e.2) l
  | [] => by simp [Assoc.erase]
  | (j, u) :: l => by
    have ih := sum_erase k l
    simp only [Assoc.erase] at ih ⊢
    by_cases h : k = j
    · subst h
      rw [List.filter_cons_of_neg (by simp)]
      simp only [Assoc.get, if_true, sum_cons, Option.elim_some]
      omega
    · have hj : j ≠ k := Ne.symm h
      rw [List.filter_cons_of_pos (by simpa using hj)]
      simp only [Assoc.get, if_neg h, sum_cons]
      omega

/-- The value that is replaced goes out of the sum. -/
theorem total_set (m : SortedMap κ β) (k : κ) (v : β) :
    total f (m.set k v) + (m.get k).elim 0 f = total f m + f v :=
  sum_set f k v m.sorted

theorem total_erase (m : SortedMap κ β) (k : κ) :
    total f (m.erase k) + (m.get k).elim 0 f ≤ total f m :=
  sum_erase f k m.entries

end Map

end Weight
