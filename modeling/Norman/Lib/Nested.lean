import Norman.Lib.SortedMap

/-!
# Nested maps

A value is a map of values, or it is not; it may also be the nil map, which can be read and not
written. A path of keys leads from map to map, and what is found at its end may be taken out
(`remove`) or put in (`put`), which makes the maps that are missing on the way and gives up at a
value that is no map.

What is there at a path is nothing, a map or another value (`heldAt`). This says all about the maps,
as a map is known from what is there below it, and both operations are described by it:
`heldAt_remove`, `heldAt_put`.
-/

namespace Nested

/-- A value, taken as a map. -/
inductive View (κ α : Type*) where
  | other
  | nil
  | map (m : List (κ × α))

/-- Values of which some are maps of values. -/
class Maps (κ : outParam Type*) (α : Type*) where
  view : α → View κ α
  node : List (κ × α) → α
  view_node : ∀ m, view (node m) = .map m

open Maps

variable {κ α : Type*} [LinearOrder κ] [Maps κ α]

/-- Take out the value at the path. -/
def remove : List κ → List (κ × α) → Option α × List (κ × α)
  | [], m => (none, m)
  | [key], m => (Assoc.get key m, Assoc.erase key m)
  | key :: keys, m =>
    match (Assoc.get key m).map view with
    | some (.map sub) => ((remove keys sub).1, Assoc.set key (node (remove keys sub).2) m)
    | _ => (none, m)

/-- Put a value in at the path; there is no result if the nil map were to be written. -/
def put (v : α) : List κ → List (κ × α) → Option (List (κ × α))
  | [], m => some m
  | [key], m => some (Assoc.set key v m)
  | key :: keys, m =>
    match (Assoc.get key m).map view with
    | none => (put v keys []).map fun sub => Assoc.set key (node sub) m
    | some (.map sub) => (put v keys sub).map fun sub => Assoc.set key (node sub) m
    | some .nil => none
    | some .other => some m

section Look

/-- The value at the path, from a value on. -/
def look : List κ → α → Option α
  | [], x => some x
  | key :: keys, x =>
    match view x with
    | .map m => (Assoc.get key m).bind (look keys)
    | _ => none

/-- What is at a path: nothing, a map, or another value. -/
inductive Held (α : Type*) where
  | nothing
  | object
  | leaf (x : α)
  deriving DecidableEq

/-- A value, as what is at its path. -/
def held (x : α) : Held α :=
  match view x with
  | .map _ => .object
  | _ => .leaf x

/-- What is at the path, from a value on. -/
def heldAt (path : List κ) (x : α) : Held α := ((look path x).map held).getD .nothing

variable {m : List (κ × α)} {k : κ} {p q : List κ} {x v : α}

theorem look_node : look (k :: p) (node m : α) = (Assoc.get k m).bind (look p) := by
  simp only [look, view_node]

theorem look_of_view (h : view x = .map m) : look (k :: p) x = (Assoc.get k m).bind (look p) := by
  simp only [look, h]

theorem look_append : ∀ {p : List κ} {x : α}, look (p ++ q) x = (look p x).bind (look q)
  | [], x => rfl
  | k :: p, x => by
    simp only [List.cons_append, look]
    cases view x with
    | map m =>
      rcases h : Assoc.get k m with _ | y
      · simp [h]
      · simp [h, look_append (p := p)]
    | other => rfl
    | nil => rfl

theorem heldAt_nil_node : heldAt [] (node m : α) = .object := by
  simp [heldAt, look, held, view_node]

theorem heldAt_nil_of_view (h : view x = .map m) : heldAt [] x = .object := by
  simp [heldAt, look, held, h]

theorem heldAt_cons_node : heldAt (k :: p) (node m : α) = ((Assoc.get k m).map (heldAt p)).getD .nothing := by
  rw [heldAt, look_node]
  rcases Assoc.get k m with _ | y <;> rfl

/-- A value that is a map is known by its entries. -/
theorem heldAt_of_view (h : view x = .map m) : ∀ p, heldAt p x = heldAt p (node m : α)
  | [] => by rw [heldAt_nil_of_view h, heldAt_nil_node]
  | k :: p => by simp only [heldAt, look_node, look_of_view h]

theorem heldAt_eq_nothing : heldAt p x = .nothing ↔ look p x = none := by
  rcases h : look p x with _ | y
  · simp [heldAt, h]
  · simp only [heldAt, h, Option.map_some, Option.getD_some, reduceCtorEq, iff_false, held]
    cases view y <;> simp

theorem look_of_heldAt {y : α} (h : heldAt p x = .leaf y) : look p x = some y := by
  rcases hp : look p x with _ | z
  · simp [heldAt, hp] at h
  · rw [heldAt, hp, Option.map_some, Option.getD_some, held] at h
    cases hz : view z <;> simp only [hz, reduceCtorEq, Held.leaf.injEq] at h <;> rw [h]

theorem heldAt_append : heldAt (p ++ q) x = ((look p x).map (heldAt q)).getD .nothing := by
  rw [heldAt, look_append]
  rcases look p x with _ | y <;> rfl

/-- Nothing is below what is no map. -/
theorem heldAt_append_of_not_object (hq : q ≠ []) (h : heldAt p x ≠ .object) : heldAt (p ++ q) x = .nothing := by
  obtain ⟨k, q, rfl⟩ := List.exists_cons_of_ne_nil hq
  rw [heldAt_append]
  rcases hp : look p x with _ | y
  · rfl
  · rw [heldAt, hp, Option.map_some, Option.getD_some, held] at h
    rw [Option.map_some, Option.getD_some, heldAt, look]
    cases hy : view y with
    | map m => simp [hy] at h
    | other => rfl
    | nil => rfl

/-- On the way to a value there are maps. -/
theorem heldAt_of_way (hv : look q x = some v) (hp : p <+: q) (hne : p ≠ q) :
    heldAt p x = .object := by
  obtain ⟨r, rfl⟩ := hp
  by_contra hno
  have hnone := heldAt_append_of_not_object (q := r) (by simpa using hne) hno
  rw [heldAt_eq_nothing, hv] at hnone
  cases hnone

/-- Below two values that are the same, all is the same. -/
theorem heldAt_of_look {y : α} (h : look p x = look p y) (hp : p <+: q) :
    heldAt q x = heldAt q y := by
  obtain ⟨r, rfl⟩ := hp
  rw [heldAt_append, heldAt_append, h]

/-- Nothing is below nothing. -/
theorem heldAt_of_none (h : look p x = none) (hp : p <+: q) : heldAt q x = .nothing := by
  obtain ⟨r, rfl⟩ := hp
  rw [heldAt_append, h]
  rfl

end Look

section Operations

variable {m sub : List (κ × α)} {k k' j : κ} {p q : List κ} {x y v : α}

/-- One key leads to a map. -/
def Leads (k : κ) (m sub : List (κ × α)) : Prop := ∃ y, Assoc.get k m = some y ∧ view y = .map sub

theorem leads_or (k : κ) (m : List (κ × α)) : (∃ sub, Leads k m sub) ∨ ∀ sub, ¬ Leads k m sub := by
  by_cases h : ∃ sub, Leads k m sub
  · exact .inl h
  · exact .inr (not_exists.1 h)

theorem Leads.look (h : Leads k m sub) (hp : p ≠ []) :
    look (k :: p) (node m : α) = look p (node sub : α) := by
  obtain ⟨y, hget, hy⟩ := h
  obtain ⟨j, p, rfl⟩ := List.exists_cons_of_ne_nil hp
  rw [look_node, hget, Option.bind_some, look_of_view hy, look_node]

theorem Leads.heldAt (h : Leads k m sub) (p : List κ) :
    heldAt (k :: p) (node m : α) = Nested.heldAt p (node sub : α) := by
  obtain ⟨y, hget, hy⟩ := h
  rw [heldAt_cons_node, hget, Option.map_some, Option.getD_some, heldAt_of_view hy]

/-- Nothing is below a key that does not lead to a map. -/
theorem look_of_not_leads (h : ∀ sub, ¬ Leads k m sub) (hp : p ≠ []) :
    look (k :: p) (node m : α) = none := by
  obtain ⟨j, p, rfl⟩ := List.exists_cons_of_ne_nil hp
  rw [look_node]
  rcases hget : Assoc.get k m with _ | y
  · rfl
  · rw [Option.bind_some, look]
    cases hy : view y with
    | map sub => exact absurd ⟨y, hget, hy⟩ (h sub)
    | other => rfl
    | nil => rfl

theorem heldAt_set : heldAt (j :: q) (node (Assoc.set k y m) : α)
    = if j = k then heldAt q y else heldAt (j :: q) (node m : α) := by
  rw [heldAt_cons_node, heldAt_cons_node, Assoc.get_set]
  split_ifs <;> rfl

theorem remove_of_leads (h : Leads k m sub) : remove (k :: k' :: p) m
    = ((remove (k' :: p) sub).1, Assoc.set k (node (remove (k' :: p) sub).2) m) := by
  obtain ⟨y, hget, hy⟩ := h
  simp only [remove, hget, Option.map_some, hy]

theorem remove_of_not_leads (h : ∀ sub, ¬ Leads k m sub) :
    remove (k :: k' :: p) m = (none, m) := by
  rcases hget : Assoc.get k m with _ | y
  · simp only [remove, hget, Option.map_none]
  · cases hy : view y with
    | map sub => exact absurd ⟨y, hget, hy⟩ (h sub)
    | other => simp only [remove, hget, Option.map_some, hy]
    | nil => simp only [remove, hget, Option.map_some, hy]

theorem remove_fst : ∀ {p : List κ} {m : List (κ × α)}, p ≠ [] →
    (remove p m).1 = look p (node m : α)
  | [], _, h => absurd rfl h
  | [k], m, _ => by
    rw [look_node]
    rcases h : Assoc.get k m with _ | y <;> simp [remove, h, look]
  | k :: k' :: p, m, _ => by
    rcases leads_or k m with ⟨sub, h⟩ | h
    · rw [remove_of_leads h, h.look (by simp), remove_fst (by simp)]
    · rw [remove_of_not_leads h, look_of_not_leads h (by simp)]

/-- Taking out leaves all but what was at the path and below. -/
theorem heldAt_remove : ∀ {p : List κ} {m : List (κ × α)} (q : List κ), p ≠ [] →
    heldAt q (node (remove p m).2 : α) = if p <+: q then .nothing else heldAt q (node m : α)
  | [], _, _, h => absurd rfl h
  | k :: p, m, [], h => by
    rw [if_neg (by simp), heldAt_nil_node, heldAt_nil_node]
  | [k], m, j :: q, _ => by
    rw [heldAt_cons_node, heldAt_cons_node, remove, Assoc.get_erase]
    by_cases hj : k = j
    · simp [hj]
    · simp [hj, List.cons_prefix_cons, Ne.symm hj]
  | k :: k' :: p, m, j :: q, _ => by
    rcases leads_or k m with ⟨sub, h⟩ | h
    · rw [remove_of_leads h, heldAt_set]
      by_cases hj : k = j
      · subst hj
        simp only [List.cons_prefix_cons, true_and, if_true,
          heldAt_remove q (List.cons_ne_nil k' p), h.heldAt]
      · simp only [List.cons_prefix_cons, hj, Ne.symm hj, if_false, false_and]
    · rw [remove_of_not_leads h]
      split_ifs with hpre
      · obtain ⟨r, hr⟩ := hpre
        rw [← hr]
        exact heldAt_eq_nothing.2 (look_of_not_leads h (by simp))
      · rfl

/-- All on the way to the end of the path is a map, or not there. -/
def Open (p : List κ) (m : List (κ × α)) : Prop :=
  ∀ q, q <+: p → q ≠ p → heldAt q (node m : α) = .nothing ∨ heldAt q (node m : α) = .object

theorem Open.below (h : Open (k :: k' :: p) m) :
    (Assoc.get k m = none ∧ Open (k' :: p) ([] : List (κ × α)))
      ∨ ∃ sub, Leads k m sub ∧ Open (k' :: p) sub := by
  rcases hget : Assoc.get k m with _ | y
  · refine .inl ⟨rfl, fun q _ _ => ?_⟩
    cases q with
    | nil => exact .inr heldAt_nil_node
    | cons j q => exact .inl (by simp [heldAt_cons_node])
  · have hk := h [k] (by simp) (by simp)
    rw [heldAt_cons_node, hget, Option.map_some, Option.getD_some, Nested.heldAt, look,
      Option.map_some, Option.getD_some, held] at hk
    cases hy : view y with
    | map sub =>
      have hleads : Leads k m sub := ⟨y, hget, hy⟩
      refine .inr ⟨sub, hleads, fun q hq hne => ?_⟩
      rw [← hleads.heldAt]
      exact h (k :: q) (List.cons_prefix_cons.2 ⟨rfl, hq⟩) (by simpa using hne)
    | other => simp [hy] at hk
    | nil => simp [hy] at hk

/-- Putting in at an open path makes the path and changes nothing beside it. -/
theorem heldAt_put (v : α) : ∀ {p : List κ} {m : List (κ × α)}, p ≠ [] → Open p m →
    ∃ m', put v p m = some m' ∧ look p (node m' : α) = some v ∧ ∀ q, ¬ p <+: q →
      heldAt q (node m' : α) = if q <+: p then .object else heldAt q (node m : α)
  | [], _, h, _ => absurd rfl h
  | [k], m, _, _ => by
    refine ⟨Assoc.set k v m, rfl, by rw [look_node, Assoc.get_set, if_pos rfl]; rfl, fun q hq => ?_⟩
    cases q with
    | nil => simp [heldAt_nil_node]
    | cons j q =>
      have hj : j ≠ k := by
        rintro rfl
        simp at hq
      simp [heldAt_set, hj, List.cons_prefix_cons]
  | k :: k' :: p, m, _, h => by
    -- the map below, which may have to be made
    have hbelow : ∃ sub : List (κ × α), Open (k' :: p) sub
        ∧ put v (k :: k' :: p) m
          = (put v (k' :: p) sub).map (fun sub => Assoc.set k (node sub) m)
        ∧ ∀ q, q ≠ [] → heldAt (k :: q) (node m : α) = heldAt q (node sub : α) := by
      rcases h.below with ⟨hget, hopen⟩ | ⟨sub, ⟨y, hget, hy⟩, hopen⟩
      · refine ⟨[], hopen, by simp only [put, hget, Option.map_none], fun q hq => ?_⟩
        obtain ⟨j, q, rfl⟩ := List.exists_cons_of_ne_nil hq
        simp [heldAt_cons_node, hget]
      · exact ⟨sub, hopen, by simp only [put, hget, Option.map_some, hy],
          fun q _ => Leads.heldAt ⟨y, hget, hy⟩ q⟩
    obtain ⟨sub, hopen, hput, hsub⟩ := hbelow
    obtain ⟨sub', hput', hlook, hheld⟩ := heldAt_put v (List.cons_ne_nil k' p) hopen
    refine ⟨Assoc.set k (node sub') m, by rw [hput, hput']; rfl, ?_, fun q hq => ?_⟩
    · rw [look_node, Assoc.get_set, if_pos rfl]
      exact hlook
    · cases q with
      | nil => simp [heldAt_nil_node]
      | cons j q =>
        rw [heldAt_set]
        by_cases hj : j = k
        · subst hj
          simp only [List.cons_prefix_cons, true_and, if_true] at hq ⊢
          rw [hheld q hq]
          split_ifs with hpre
          · rfl
          · refine (hsub q ?_).symm
            rintro rfl
            simp at hpre
        · simp [hj, List.cons_prefix_cons]

/-- A value that is taken out and another one put in its place. -/
theorem heldAt_replace (w : α) (hp : p ≠ []) (hv : look p (node m : α) = some v) :
    ∃ m', put w p (remove p m).2 = some m' ∧ look p (node m' : α) = some w
      ∧ ∀ q, ¬ p <+: q → heldAt q (node m' : α) = heldAt q (node m : α) := by
  have hway : ∀ q, q <+: p → q ≠ p → heldAt q (node m : α) = .object :=
    fun q hq hne => heldAt_of_way hv hq hne
  have hremoved : ∀ q, ¬ p <+: q → heldAt q (node (remove p m).2 : α) = heldAt q (node m : α) :=
    fun q hq => by rw [heldAt_remove q hp, if_neg hq]
  have hopen : Open p (remove p m).2 := by
    intro q hq hne
    rw [hremoved q fun hpq => hne (hq.eq_of_length_le hpq.length_le)]
    exact .inr (hway q hq hne)
  obtain ⟨m', hput, hlook, hheld⟩ := heldAt_put w hp hopen
  refine ⟨m', hput, hlook, fun q hq => ?_⟩
  rw [hheld q hq]
  split_ifs with hqp
  · exact (hway q hqp fun heq => hq (heq ▸ List.prefix_rfl)).symm
  · exact hremoved q hq

/-- Putting in gives up at a value on the way that is no map. -/
theorem put_of_leaf (v : α) : ∀ {p q : List κ} {m : List (κ × α)} {y : α}, q <+: p → q ≠ p →
    look q (node m : α) = some y → view y = .other →
    ∃ m', put v p m = some m' ∧ look p (node m' : α) = none
  | p, [], m, y, _, _, hq, hy => by
    simp only [look, Option.some.injEq] at hq
    rw [← hq, view_node] at hy
    cases hy
  | [], k :: q, _, _, hpre, _, _, _ => by simp at hpre
  | [k], j :: q, _, _, hpre, hne, _, _ => by
    rw [List.cons_prefix_cons, List.prefix_nil] at hpre
    exact absurd (by rw [hpre.1, hpre.2]) hne
  | k :: k' :: p, j :: q, m, y, hpre, hne, hq, hy => by
    obtain ⟨rfl, hbelow⟩ := List.cons_prefix_cons.1 hpre
    rcases hget : Assoc.get j m with _ | z
    · simp [look_node, hget] at hq
    · rw [look_node, hget, Option.bind_some] at hq
      cases q with
      | nil =>
        simp only [look, Option.some.injEq] at hq
        subst hq
        refine ⟨m, by simp only [put, hget, Option.map_some, hy], ?_⟩
        rw [look_node, hget, Option.bind_some, look, hy]
      | cons i q =>
        rw [look] at hq
        cases hz : view z with
        | map sub =>
          simp only [hz] at hq
          obtain ⟨sub', hput, hlook⟩ := put_of_leaf v (m := sub) hbelow (by simpa using hne)
            (by rw [look_node]; exact hq) hy
          refine ⟨Assoc.set j (node sub') m, by simp only [put, hget, Option.map_some, hz, hput], ?_⟩
          rw [look_node, Assoc.get_set, if_pos rfl]
          exact hlook
        | other => simp [hz] at hq
        | nil => simp [hz] at hq

end Operations

end Nested
