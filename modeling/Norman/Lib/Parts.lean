import Mathlib.Data.List.Basic

/-!
# Parts behind separators

A list of parts, each behind a separator (`joined`), is split into these parts again, whatever
stands in front of it; a beginning of such a list that reaches beyond the front has some more
separators than the front. Without separators next to each other or at the end, only the first part
can be empty (`ne_nil_of_mem_tail`).
-/

namespace Parts

variable {α : Type*} {sep : α}

/-- Each part stands behind a separator. -/
def joined (sep : α) (parts : List (List α)) : List α := parts.flatMap (sep :: ·)

@[simp] theorem joined_nil : joined sep [] = [] := rfl

@[simp] theorem joined_cons (p : List α) (parts : List (List α)) :
    joined sep (p :: parts) = sep :: (p ++ joined sep parts) := rfl

variable [DecidableEq α]

theorem splitOn_append_joined : ∀ (parts : List (List α)) (l : List α), (∀ p ∈ parts, sep ∉ p) →
    (l ++ joined sep parts).splitOn sep = l.splitOn sep ++ parts
  | [], l, _ => by simp
  | p :: parts, l, h => by
    have hp : sep ∉ p := h p List.mem_cons_self
    have hparts : ∀ q ∈ parts, sep ∉ q := fun q hq => h q (List.mem_cons_of_mem _ hq)
    rw [joined_cons, List.splitOn_append_cons_self, splitOn_append_joined parts p hparts,
      List.splitOn_eq_singleton hp, List.singleton_append]

theorem length_splitOn : ∀ l : List α, (l.splitOn sep).length = l.count sep + 1
  | [] => by simp
  | a :: l => by
    have ih := length_splitOn l
    rw [List.splitOn_cons_eq_if_modifyHead, List.count_cons]
    split_ifs with ha
    · rw [List.length_cons, ih]
    · rw [List.length_modifyHead, ih, Nat.add_zero]

/-- The first part ends where the first separator is. -/
theorem exists_splitOn (sep : α) : ∀ l : List α, ∃ t, l.splitOn sep = l.takeWhile (· ≠ sep) :: t
  | [] => ⟨[], by simp⟩
  | a :: l => by
    obtain ⟨t, ht⟩ := exists_splitOn sep l
    rw [List.splitOn_cons_eq_if_modifyHead]
    by_cases ha : a = sep
    · exact ⟨l.splitOn sep, by simp [ha]⟩
    · exact ⟨t, by simp [ha, ht]⟩

/-- What is appended goes on with the last part. -/
theorem splitOn_append {b last h : List α} {t : List (List α)} (hb : b.splitOn sep = h :: t) :
    ∀ {a : List α} {front : List (List α)}, a.splitOn sep = front ++ [last] →
      (a ++ b).splitOn sep = front ++ (last ++ h) :: t
  | [], front, ha => by
    rw [List.splitOn_nil, List.singleton_eq_append_iff] at ha
    rcases ha with ⟨rfl, hlast⟩ | ⟨-, hlast⟩
    · cases hlast
      simpa using hb
    · cases hlast
  | c :: a, front, ha => by
    rw [List.splitOn_cons_eq_if_modifyHead] at ha
    rw [List.cons_append, List.splitOn_cons_eq_if_modifyHead]
    split_ifs at ha ⊢ with hc
    · rcases front with _ | ⟨f, front⟩
      · obtain ⟨t', ht'⟩ := exists_splitOn sep a
        rw [ht'] at ha
        cases ha
      · rw [List.cons_append, List.cons.injEq] at ha
        rw [splitOn_append hb ha.2, ha.1]
        rfl
    · obtain ⟨t', ht'⟩ := exists_splitOn sep a
      rw [ht', List.modifyHead_cons] at ha
      rcases front with _ | ⟨f, front⟩
      · rw [List.nil_append, List.cons.injEq] at ha
        obtain ⟨rfl, rfl⟩ := ha
        rw [splitOn_append hb (ht'.trans (List.nil_append _).symm)]
        rfl
      · rw [List.cons_append, List.cons.injEq] at ha
        obtain ⟨rfl, rfl⟩ := ha
        rw [splitOn_append hb (ht'.trans (List.cons_append).symm)]
        rfl

theorem count_joined : ∀ {parts : List (List α)}, (∀ p ∈ parts, sep ∉ p) →
    (joined sep parts).count sep = parts.length
  | [], _ => by simp
  | p :: parts, h => by
    have hp : sep ∉ p := h p List.mem_cons_self
    have hparts : ∀ q ∈ parts, sep ∉ q := fun q hq => h q (List.mem_cons_of_mem _ hq)
    simp [List.count_eq_zero_of_not_mem hp, count_joined hparts]

/-- What reaches beyond the front reaches into one of the parts. -/
theorem count_of_front {front l : List α} {parts : List (List α)}
    (hparts : ∀ p ∈ parts, sep ∉ p) (hl : l <+: front ++ joined sep parts)
    (hlen : front.length ≤ l.length) :
    ∃ k ≤ parts.length, l.count sep = front.count sep + k ∧ (k = 0 ↔ l = front) := by
  obtain ⟨m, rfl⟩ := List.prefix_of_prefix_length_le (List.prefix_append front _) hl hlen
  have hm : m <+: joined sep parts := (List.prefix_append_right_inj front).1 hl
  refine ⟨m.count sep, ?_, List.count_append, ?_⟩
  · exact (count_joined hparts).symm ▸ hm.sublist.count_le sep
  · rw [List.append_right_eq_self]
    constructor
    · intro hcount
      rcases m with _ | ⟨a, m⟩
      · rfl
      · rcases parts with _ | ⟨p, parts⟩
        · simp at hm
        · rw [joined_cons, List.cons_prefix_cons] at hm
          simp [hm.1] at hcount
    · rintro rfl
      rfl

/-- Where no two separators are next to each other and none is at the end, only the first part can
be empty. -/
theorem ne_nil_of_mem_tail : ∀ {l : List α}, l.IsChain (fun a b => a = sep → b ≠ sep) →
    l.getLast? ≠ some sep → ∀ p ∈ (l.splitOn sep).tail, p ≠ []
  | [], _, _, p, hp => by simp at hp
  | [a], _, hlast, p, hp => by
    have ha : a ≠ sep := fun ha => hlast (by rw [ha]; rfl)
    rw [List.splitOn_cons_eq_if_modifyHead, if_neg (by simpa using ha)] at hp
    simp at hp
  | a :: b :: l, hchain, hlast, p, hp => by
    obtain ⟨hab, hchain⟩ := List.isChain_cons_cons.1 hchain
    rw [List.getLast?_cons_cons] at hlast
    have ih := ne_nil_of_mem_tail hchain hlast
    obtain ⟨t, ht⟩ := exists_splitOn sep (b :: l)
    rw [ht, List.tail_cons] at ih
    rw [List.splitOn_cons_eq_if_modifyHead, ht] at hp
    split_ifs at hp with ha
    · rw [List.tail_cons] at hp
      have hb : b ≠ sep := hab (by simpa using ha)
      rcases List.mem_cons.1 hp with rfl | hp
      · simp [hb]
      · exact ih p hp
    · rw [List.modifyHead_cons, List.tail_cons] at hp
      exact ih p hp

end Parts
