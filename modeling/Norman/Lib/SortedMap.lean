import Mathlib.Data.List.Forall2
import Mathlib.Data.List.Pairwise
import Mathlib.Order.Lattice

/-!
# Maps as sorted association lists

A finite map is kept as the list of its entries by strictly increasing key, so that two maps with
the same lookups are the same list (`Assoc.ext`), and the entries are there to be enumerated. The
functions are on plain lists, for use inside nested data types; `SortedMap` is a list together
with its order.
-/

namespace Assoc

variable {κ β : Type*} [LinearOrder κ]

/-- The keys are strictly increasing. -/
def Sorted (l : List (κ × β)) : Prop := l.Pairwise fun a b => a.1 < b.1

instance (l : List (κ × β)) : Decidable (Sorted l) :=
  inferInstanceAs (Decidable (l.Pairwise fun a b => a.1 < b.1))

/-- The value at a key. -/
def get (k : κ) : List (κ × β) → Option β
  | [] => none
  | (k', v) :: l => if k = k' then some v else get k l

/-- Put a value at a key, in the key's place. -/
def set (k : κ) (v : β) : List (κ × β) → List (κ × β)
  | [] => [(k, v)]
  | (k', v') :: l =>
    if k < k' then (k, v) :: (k', v') :: l
    else if k = k' then (k, v) :: l
    else (k', v') :: set k v l

/-- Drop a key. -/
def erase (k : κ) (l : List (κ × β)) : List (κ × β) := l.filter fun e => e.1 ≠ k

@[simp] theorem get_nil (k : κ) : get k ([] : List (κ × β)) = none := rfl

theorem get_set (k k' : κ) (v : β) :
    ∀ l : List (κ × β), get k' (set k v l) = if k' = k then some v else get k' l
  | [] => by simp [set, get]
  | (j, u) :: l => by
    simp only [set]
    split_ifs with h1 h2 h3 h4 h5
    · simp [get, h2]
    · simp [get, h2]
    · subst h3; simp [get, h4]
    · subst h3; simp [get, h4]
    · subst h5
      simp [get, h3, get_set k' k' v l]
    · simp [get, get_set k k' v l, h5]

theorem get_erase (k k' : κ) :
    ∀ l : List (κ × β), get k' (erase k l) = if k' = k then none else get k' l
  | [] => by simp [erase]
  | (j, u) :: l => by
    have ih := get_erase k k' l
    simp only [erase] at ih
    by_cases hj : j = k
    · subst hj
      simp only [erase, ne_eq, decide_not, List.filter_cons, decide_true, Bool.not_true,
        Bool.false_eq_true, if_false, get]
      simp only [ne_eq, decide_not] at ih
      rw [ih]
      split_ifs <;> rfl
    · simp only [erase, ne_eq, decide_not, List.filter_cons, hj, decide_false, Bool.not_false,
        if_true, get]
      simp only [ne_eq, decide_not] at ih
      rw [ih]
      split_ifs with h1 h2 <;> first | rfl | (subst h1; exact absurd h2 hj)

theorem mem_of_get {k : κ} {v : β} : ∀ {l : List (κ × β)}, get k l = some v → (k, v) ∈ l
  | [], h => by simp at h
  | (j, u) :: l, h => by
    simp only [get] at h
    split_ifs at h with hk
    · simp only [Option.some.injEq] at h
      subst hk h
      exact List.mem_cons_self
    · exact List.mem_cons_of_mem _ (mem_of_get h)

theorem get_eq_none {k : κ} :
    ∀ {l : List (κ × β)}, get k l = none ↔ ∀ e ∈ l, e.1 ≠ k
  | [] => by simp
  | (j, u) :: l => by
    simp only [get, List.mem_cons, forall_eq_or_imp]
    split_ifs with h
    · simp [h]
    · simp only [get_eq_none (l := l)]
      exact ⟨fun hl => ⟨Ne.symm h, hl⟩, fun hl => hl.2⟩

theorem get_of_mem_nodup {k : κ} {v : β} :
    ∀ {l : List (κ × β)}, (l.map Prod.fst).Nodup → (k, v) ∈ l → get k l = some v
  | [], _, h => by simp at h
  | (j, u) :: l, hn, h => by
    rw [List.map_cons, List.nodup_cons] at hn
    rcases List.mem_cons.1 h with heq | hmem
    · cases heq
      simp [get]
    · have hkj : k ≠ j := by
        rintro rfl
        exact hn.1 (List.mem_map.2 ⟨(k, v), hmem, rfl⟩)
      simp only [get, if_neg hkj]
      exact get_of_mem_nodup hn.2 hmem

theorem forall_get_eq_none_iff {l : List (κ × β)} : (∀ k, get k l = none) ↔ l = [] := by
  constructor
  · intro h
    cases l with
    | nil => rfl
    | cons e l =>
      have hk := h e.1
      simp [get] at hk
  · rintro rfl k
    rfl

/-- All entries, by their keys. -/
theorem forall_mem_iff_get {P : κ → β → Prop} {l : List (κ × β)} (hn : (l.map Prod.fst).Nodup) :
    (∀ e ∈ l, P e.1 e.2) ↔ ∀ k v, get k l = some v → P k v :=
  ⟨fun h k v hv => h (k, v) (mem_of_get hv), fun h e he => h e.1 e.2 (get_of_mem_nodup hn he)⟩

namespace Sorted

variable {l : List (κ × β)}

theorem nil : Sorted ([] : List (κ × β)) := List.Pairwise.nil

theorem tail {e : κ × β} (h : Sorted (e :: l)) : Sorted l :=
  (List.pairwise_cons.1 h).2

theorem nodup (hs : Sorted l) : (l.map Prod.fst).Nodup :=
  List.pairwise_map.2 (List.Pairwise.imp (fun h => h.ne) hs)

theorem mem_iff (hs : Sorted l) {k : κ} {v : β} : (k, v) ∈ l ↔ get k l = some v :=
  ⟨get_of_mem_nodup hs.nodup, mem_of_get⟩

theorem get_head_lt {j k : κ} {u : β} (hs : Sorted ((j, u) :: l))
    (hk : k ≤ j) : get k l = none := by
  refine get_eq_none.2 fun e he h => ?_
  have : j < e.1 := (List.pairwise_cons.1 hs).1 e he
  exact absurd (h ▸ this) (not_lt.2 hk)

theorem mem_set {k : κ} {v : β} :
    ∀ {l : List (κ × β)} {e : κ × β}, e ∈ set k v l → e = (k, v) ∨ e ∈ l
  | [], e, h => by simpa [set] using h
  | (j, u) :: l, e, h => by
    simp only [set] at h
    split_ifs at h with h1 h2
    · simpa using h
    · rcases List.mem_cons.1 h with h | h
      · exact .inl h
      · exact .inr (List.mem_cons_of_mem _ h)
    · rcases List.mem_cons.1 h with h | h
      · exact .inr (h ▸ List.mem_cons_self)
      · rcases mem_set h with h | h
        · exact .inl h
        · exact .inr (List.mem_cons_of_mem _ h)

protected theorem set {k : κ} {v : β} : ∀ {l : List (κ × β)}, Sorted l → Sorted (set k v l)
  | [], _ => by simp [Assoc.set, Sorted]
  | (j, u) :: l, hs => by
    have hjl := List.pairwise_cons.1 hs
    simp only [Assoc.set]
    split_ifs with h1 h2
    · refine List.pairwise_cons.2 ⟨fun e he => ?_, hs⟩
      rcases List.mem_cons.1 he with rfl | he
      · exact h1
      · exact h1.trans (hjl.1 e he)
    · subst h2
      exact List.pairwise_cons.2 ⟨hjl.1, hjl.2⟩
    · refine List.pairwise_cons.2 ⟨fun e he => ?_, Sorted.set hs.tail⟩
      rcases mem_set he with rfl | he
      · exact lt_of_le_of_ne (not_lt.1 h1) (Ne.symm h2)
      · exact hjl.1 e he

protected theorem filter (p : κ × β → Bool) (hs : Sorted l) : Sorted (l.filter p) :=
  List.Pairwise.filter p hs

protected theorem erase {k : κ} (hs : Sorted l) : Sorted (erase k l) :=
  hs.filter _

end Sorted

/-- Sorted lists with the same lookups are the same. -/
theorem ext : ∀ {l l' : List (κ × β)}, Sorted l → Sorted l' → (∀ k, get k l = get k l') → l = l'
  | [], [], _, _, _ => rfl
  | [], (j, u) :: l', _, _, h => by simpa [get] using h j
  | (j, u) :: l, [], _, _, h => by simpa [get] using h j
  | (j, u) :: l, (j', u') :: l', hs, hs', h => by
    rcases lt_trichotomy j j' with hlt | rfl | hlt
    · have := h j
      simp only [get, if_true, if_neg hlt.ne, hs'.get_head_lt hlt.le] at this
      cases this
    · have hu := h j
      simp only [get, if_true, Option.some.injEq] at hu
      subst hu
      rw [ext hs.tail hs'.tail]
      intro k
      by_cases hk : k = j
      · subst hk
        rw [hs.get_head_lt le_rfl, hs'.get_head_lt le_rfl]
      · simpa [get, hk] using h k
    · have := h j'
      simp only [get, if_true, if_neg hlt.ne, hs.get_head_lt hlt.le] at this
      cases this

/-- A value that is there is changed in its place. -/
theorem set_eq_map {k : κ} {v : β} {g : β → β} :
    ∀ {l : List (κ × β)}, Sorted l → get k l = some v →
      set k (g v) l = l.map fun e => if e.1 = k then (e.1, g e.2) else e
  | [], _, h => by cases h
  | (j, u) :: l, hs, h => by
    rw [get] at h
    rw [set, List.map_cons]
    by_cases hk : k = j
    · subst hk
      rw [if_pos rfl] at h
      cases h
      have hrest : l.map (fun e => if e.1 = k then (e.1, g e.2) else e) = l.map id := by
        refine List.map_congr_left fun e he => ?_
        have hlt : k < e.1 := (List.pairwise_cons.1 hs).1 e he
        rw [if_neg hlt.ne', id]
      rw [if_neg (lt_irrefl k), if_pos rfl, if_pos rfl, hrest, List.map_id]
    · rw [if_neg hk] at h
      have hlt : ¬ k < j := fun hlt => by
        rw [hs.get_head_lt hlt.le] at h
        cases h
      rw [if_neg hlt, if_neg hk, if_neg (Ne.symm hk), set_eq_map hs.tail h]

/-- Two lookups of which both or neither find something. -/
theorem both_cases {γ : Type*} {P : Option β → Option γ → Prop} {x : Option β} {y : Option γ}
    (hkeys : x = none ↔ y = none) (hnone : P none none)
    (hsome : ∀ a b, x = some a → y = some b → P (some a) (some b)) : P x y := by
  rcases x with _ | a <;> rcases y with _ | b
  · exact hnone
  · simp at hkeys
  · simp at hkeys
  · exact hsome a b rfl rfl

theorem get_filter (p : κ → Bool) (k : κ) :
    ∀ l : List (κ × β), get k (l.filter fun e => p e.1) = if p k then get k l else none
  | [] => by simp
  | (j, u) :: l => by
    have ih := get_filter p k l
    by_cases hkj : k = j
    · subst hkj
      cases hp : p k <;> simp [get, hp] at ih ⊢
      exact ih
    · cases hj : p j <;> simp [get, hj, hkj, ih]

/-- Sorted lists with the same keys go through them together. -/
theorem forall₂_of_get {γ : Type*} (R : κ → β → γ → Prop) :
    ∀ {l : List (κ × β)} {l' : List (κ × γ)}, Sorted l → Sorted l' →
      (∀ k, get k l = none ↔ get k l' = none) →
      (∀ k x y, get k l = some x → get k l' = some y → R k x y) →
      List.Forall₂ (fun e e' => e.1 = e'.1 ∧ R e.1 e.2 e'.2) l l'
  | [], [], _, _, _, _ => .nil
  | [], (j, u) :: l', _, _, h, _ => by simpa [get] using h j
  | (j, u) :: l, [], _, _, h, _ => by simpa [get] using h j
  | (j, u) :: l, (j', u') :: l', hs, hs', h, hR => by
    rcases lt_trichotomy j j' with hlt | rfl | hlt
    · exact absurd ((h j).2 (by simp [get, hlt.ne, hs'.get_head_lt hlt.le])) (by simp [get])
    · have htail : ∀ k, k ≠ j → get k ((j, u) :: l) = get k l
          ∧ get k ((j, u') :: l') = get k l' := fun k hk => by simp [get, hk]
      refine .cons ⟨rfl, hR j u u' (by simp [get]) (by simp [get])⟩
        (forall₂_of_get R hs.tail hs'.tail (fun k => ?_) fun k x y hx hy => ?_)
      · by_cases hk : k = j
        · subst hk
          simp [hs.get_head_lt le_rfl, hs'.get_head_lt le_rfl]
        · rw [← (htail k hk).1, ← (htail k hk).2]
          exact h k
      · have hk : k ≠ j := by
          rintro rfl
          simp [hs.get_head_lt le_rfl] at hx
        exact hR k x y ((htail k hk).1.trans hx) ((htail k hk).2.trans hy)
    · exact absurd ((h j').1 (by simp [get, hlt.ne, hs.get_head_lt hlt.le])) (by simp [get])

end Assoc

/-- A finite map: its entries by increasing key. -/
structure SortedMap (κ β : Type*) [LinearOrder κ] where
  entries : List (κ × β)
  sorted : Assoc.Sorted entries

namespace SortedMap

variable {κ β γ : Type*} [LinearOrder κ]

instance : EmptyCollection (SortedMap κ β) := ⟨⟨[], Assoc.Sorted.nil⟩⟩

instance : Inhabited (SortedMap κ β) := ⟨∅⟩

instance [DecidableEq β] : DecidableEq (SortedMap κ β) := fun m m' =>
  decidable_of_iff (m.entries = m'.entries) <| by
    cases m; cases m'; simp

/-- The value at a key. -/
def get (m : SortedMap κ β) (k : κ) : Option β := Assoc.get k m.entries

/-- Put a value at a key. -/
def set (m : SortedMap κ β) (k : κ) (v : β) : SortedMap κ β :=
  ⟨Assoc.set k v m.entries, m.sorted.set⟩

/-- Drop a key. -/
def erase (m : SortedMap κ β) (k : κ) : SortedMap κ β :=
  ⟨Assoc.erase k m.entries, m.sorted.erase⟩

@[ext] theorem ext {m m' : SortedMap κ β} (h : ∀ k, m.get k = m'.get k) : m = m' := by
  cases m with | mk l hl =>
  cases m' with | mk l' hl' =>
  obtain rfl : l = l' := Assoc.ext hl hl' h
  rfl

@[simp] theorem get_empty (k : κ) : (∅ : SortedMap κ β).get k = none := rfl

theorem get_set (m : SortedMap κ β) (k k' : κ) (v : β) :
    (m.set k v).get k' = if k' = k then some v else m.get k' :=
  Assoc.get_set k k' v m.entries

theorem get_erase (m : SortedMap κ β) (k k' : κ) :
    (m.erase k).get k' = if k' = k then none else m.get k' :=
  Assoc.get_erase k k' m.entries

@[simp] theorem get_set_self (m : SortedMap κ β) (k : κ) (v : β) :
    (m.set k v).get k = some v := by
  simp [get_set]

@[simp] theorem get_erase_self (m : SortedMap κ β) (k : κ) : (m.erase k).get k = none := by
  simp [get_erase]

theorem mem_entries {m : SortedMap κ β} {k : κ} {v : β} :
    (k, v) ∈ m.entries ↔ m.get k = some v :=
  m.sorted.mem_iff

/-- The keys of the map. -/
def keys (m : SortedMap κ β) : List κ := m.entries.map Prod.fst

theorem mem_keys {m : SortedMap κ β} {k : κ} : k ∈ m.keys ↔ ∃ v, m.get k = some v := by
  simp [keys, mem_entries]

theorem nodup_keys (m : SortedMap κ β) : m.keys.Nodup := m.sorted.nodup

/-- The same function at every value. -/
def map {γ : Type*} (f : β → γ) (m : SortedMap κ β) : SortedMap κ γ where
  entries := m.entries.map fun e => (e.1, f e.2)
  sorted := List.pairwise_map.2 (m.sorted.imp fun h => h)

theorem get_map (f : β → γ) (m : SortedMap κ β) (k : κ) : (m.map f).get k = (m.get k).map f := by
  rcases h : m.get k with _ | v
  · rcases h' : (m.map f).get k with _ | w
    · rfl
    · obtain ⟨e, he, heq⟩ := List.mem_map.1 (mem_entries.2 h')
      obtain ⟨rfl, rfl⟩ := Prod.mk.inj heq
      rw [mem_entries.1 (show (e.1, e.2) ∈ m.entries from he)] at h
      cases h
  · exact mem_entries.1 (List.mem_map.2 ⟨(k, v), mem_entries.2 h, rfl⟩)

/-- A function at every value, which may drop it. -/
def filterMap {γ : Type*} (f : κ → β → Option γ) (m : SortedMap κ β) : SortedMap κ γ where
  entries := m.entries.filterMap fun e => (f e.1 e.2).map fun v => (e.1, v)
  sorted := by
    refine List.Pairwise.filterMap _ (fun a a' h b hb b' hb' => ?_) m.sorted
    obtain ⟨v, -, rfl⟩ := Option.map_eq_some_iff.1 hb
    obtain ⟨v', -, rfl⟩ := Option.map_eq_some_iff.1 hb'
    exact h

theorem get_filterMap (f : κ → β → Option γ) (m : SortedMap κ β) (k : κ) :
    (m.filterMap f).get k = (m.get k).bind (f k) := by
  have hmem : ∀ {w}, (m.filterMap f).get k = some w ↔ ∃ v, m.get k = some v ∧ f k v = some w := by
    intro w
    rw [← mem_entries]
    constructor
    · intro h
      obtain ⟨e, he, heq⟩ := List.mem_filterMap.1 h
      obtain ⟨w', hw, heq⟩ := Option.map_eq_some_iff.1 heq
      obtain ⟨rfl, rfl⟩ := Prod.mk.inj heq
      exact ⟨e.2, mem_entries.1 he, hw⟩
    · rintro ⟨v, hv, hw⟩
      exact List.mem_filterMap.2 ⟨(k, v), mem_entries.2 hv, by rw [hw]; rfl⟩
  ext w
  rw [hmem, Option.bind_eq_some_iff]

/-- A loop over bindings with distinct keys, each of which may set its own key. -/
theorem get_foldl {g : SortedMap κ γ → κ × β → SortedMap κ γ} {f : β → Option γ}
    (hg : ∀ r e k, (g r e).get k = if k = e.1 then (f e.2).or (r.get k) else r.get k) (k : κ) :
    ∀ {l : List (κ × β)} {r : SortedMap κ γ}, (l.map Prod.fst).Nodup →
      (l.foldl g r).get k = ((Assoc.get k l).bind f).or (r.get k)
  | [], _, _ => by simp
  | e :: l, r, hn => by
    rw [List.map_cons, List.nodup_cons] at hn
    rw [List.foldl_cons, get_foldl hg k hn.2, hg]
    by_cases hk : k = e.1
    · have hnone : Assoc.get k l = none :=
        Assoc.get_eq_none.2 fun e' he' h => hn.1 (List.mem_map.2 ⟨e', he', h.trans hk⟩)
      simp [Assoc.get, hk, hk ▸ hnone]
    · simp [Assoc.get, hk]

theorem get_foldl_set (m r : SortedMap κ β) (k : κ) :
    (m.entries.foldl (fun r e => r.set e.1 e.2) r).get k = (m.get k).or (r.get k) := by
  rw [get_foldl (f := some) _ k m.nodup_keys, Option.bind_fun_some]
  · rfl
  · intro r e k
    rw [get_set, Option.some_or]

/-- Bindings with distinct keys, put into an empty map, are its entries, in another order. -/
theorem perm_foldl_set {l : List (κ × β)} (hn : (l.map Prod.fst).Nodup) :
    (l.foldl (fun r e => r.set e.1 e.2) (∅ : SortedMap κ β)).entries.Perm l := by
  have hnodup : ∀ {l : List (κ × β)}, (l.map Prod.fst).Nodup → l.Nodup :=
    fun hn => List.Pairwise.of_map Prod.fst (fun a b hne heq => hne (heq ▸ rfl)) hn
  refine (List.perm_ext_iff_of_nodup (hnodup (nodup_keys _)) (hnodup hn)).2 ?_
  rintro ⟨k, v⟩
  rw [mem_entries, get_foldl (f := some) _ k hn, Option.bind_fun_some, get_empty, Option.or_none]
  · exact ⟨Assoc.mem_of_get, Assoc.get_of_mem_nodup hn⟩
  · intro r e k
    rw [get_set, Option.some_or]

theorem get_foldl_erase (k : κ) : ∀ (l : List κ) (r : SortedMap κ β),
    (l.foldl (fun r k => r.erase k) r).get k = if k ∈ l then none else r.get k
  | [], r => by simp
  | k' :: l, r => by
    rw [List.foldl_cons, get_foldl_erase k l, get_erase]
    by_cases hk : k = k' <;> simp [hk]

/-- The entries of a map, put into another one in any order, give the map again. -/
theorem foldl_set_eq_map (f : β → γ) (m : SortedMap κ β) {l : List (κ × β)}
    (hl : l.Perm m.entries) :
    l.foldl (fun r e => r.set e.1 (f e.2)) (∅ : SortedMap κ γ) = m.map f := by
  have hn : (l.map Prod.fst).Nodup := (hl.map Prod.fst).nodup_iff.2 m.nodup_keys
  ext1 k
  rw [get_foldl (f := some ∘ f) _ k hn, get_map, get_empty, Option.or_none, ← Option.map_eq_bind]
  · congr 1
    refine Option.ext fun v => ?_
    rw [← mem_entries, ← hl.mem_iff]
    exact ⟨Assoc.mem_of_get, Assoc.get_of_mem_nodup hn⟩
  · intro r e k
    rw [get_set, Function.comp_apply, Option.some_or]

end SortedMap
