import Norman.Proofs.MergeTwice
import Norman.Transform

/-!
# What a path reaches

A path reaches the values under its keys, and at a marker those in every element of an array or
every entry of an object that is an object itself (`replaced`). The code differs from this in two
ways. An array of which an element is no object is skipped as a whole, and a marker that does not
stand behind a key is a key (`behind` says what is done with the value under a key). Neither makes a
difference if nothing is reached there: `Agree` follows the path and says where nothing may be
reached by the one reading (`Misses`) or the other (`Idle`).
-/

namespace Norman

section Canonical

variable {m : Doc} {x : Value} {k : String} {items : List Value}

theorem Canonical.sorted (h : Canonical (.map m)) : Assoc.Sorted m := by
  cases h with
  | map hs _ => exact hs

theorem Canonical.entry (h : Canonical (.map m)) (hx : (k, x) ∈ m) : Canonical x := by
  cases h with
  | map _ hall => exact hall _ hx

theorem Canonical.item (h : Canonical (.arr items)) (hx : x ∈ items) :
    Canonical x := by
  cases h with
  | arr hall => exact hall _ hx

end Canonical

namespace Convert

section Readings

variable (f : Value → Value)

/-- What is changed in a value that is an object. -/
def inObject (change : Value → Value) : Value → Value
  | .map m => change (.map m)
  | v => v

/-- What is changed in the elements of an array. -/
def inItems (change : Value → Value) : Value → Value
  | .arr items => .arr (items.map change)
  | v => v

/-- What is changed among the entries of an object. -/
def inEach (change : String × Value → String × Value) : Value → Value
  | .map m => .map (m.map change)
  | v => v

/-- Every value that the path reaches is replaced, if it is not null. -/
def replaced : List String → Value → Value
  | [], v => if v = .nil then v else f v
  | step :: path, v =>
    if step = ArrayKey then inItems (inObject (replaced path)) v
    else if step = MapKey then inEach (fun e => (e.1, inObject (replaced path) e.2)) v
    else inEach (fun e => if e.1 = step then (e.1, replaced path e.2) else e) v

/-- The object, with every value in it that the path reaches replaced. -/
def replacedIn (path : List String) (data : Doc) : Value :=
  match path with
  | [] => .map data
  | step :: path => replaced f (step :: path) (.map data)

/-- What the code does with the value under a key. -/
def behind : List String → Value → Value
  | [], v => if v = .nil then v else f v
  | next :: path, v =>
    if path ≠ [] ∧ next = ArrayKey then inMapSlice (Transform f path) v
    else if path ≠ [] ∧ next = MapKey then inEntries (Transform f path) v
    else inMap (Transform f (next :: path)) v

end Readings

section Conditions

/-- The path reaches no value but null. -/
def Misses : List String → Value → Prop
  | [], v => v = .nil
  | step :: path, v =>
    if step = ArrayKey then ∀ items m, v = .arr items → .map m ∈ items → Misses path (.map m)
    else if step = MapKey then
      ∀ m k sub, v = .map m → (k, .map sub) ∈ m → Misses path (.map sub)
    else ∀ m x, v = .map m → (step, x) ∈ m → Misses path x

/-- The code does nothing with the value under a key. -/
def Idle : List String → Value → Prop
  | [], v => v = .nil
  | [key], v => ∀ m x, v = .map m → (key, x) ∈ m → x = .nil
  | next :: key :: path, v =>
    if next = ArrayKey then
      ∀ items m x, v = .arr items → items.all isMap = true → .map m ∈ items → (key, x) ∈ m →
        Idle path x
    else if next = MapKey then
      ∀ m k sub x, v = .map m → (k, .map sub) ∈ m → (key, x) ∈ sub → Idle path x
    else ∀ m x, v = .map m → (next, x) ∈ m → Idle (key :: path) x

/-- Both readings of a path agree in an object. What they do below of it is given: whether they
agree there, and whether there is nothing to do. -/
def AgreeIn (agree misses idle : Value → Prop) (key : String) (m : Doc) : Prop :=
  if key = ArrayKey then ∀ x, (key, x) ∈ m → idle x
  else if key = MapKey then
    ∀ k x, (k, x) ∈ m →
      if k = key then (∀ sub, x = .map sub → agree x) ∧ ((∀ sub, x ≠ .map sub) → idle x)
      else ∀ sub, x = .map sub → misses x
  else ∀ x, (key, x) ∈ m → agree x

/-- Both readings of a path agree in the value under a key. -/
def AgreeBehind : List String → Value → Prop
  | [], _ => True
  | [_], _ => True
  | next :: key :: path, v =>
    if next = ArrayKey then
      ∀ items m, v = .arr items → .map m ∈ items →
        if items.all isMap = true then
          AgreeIn (AgreeBehind path) (Misses path) (Idle path) key m
        else Misses (key :: path) (.map m)
    else if next = MapKey then
      ∀ m k sub, v = .map m → (k, .map sub) ∈ m →
        AgreeIn (AgreeBehind path) (Misses path) (Idle path) key sub
    else ∀ m x, v = .map m → (next, x) ∈ m → AgreeBehind (key :: path) x

/-- Both readings of a path agree in an object. -/
def Agree (path : List String) (data : Doc) : Prop :=
  match path with
  | [] => True
  | key :: path => AgreeIn (AgreeBehind path) (Misses path) (Idle path) key data

/-- The path ends in a marker. -/
def EndsInMarker (path : List String) : Prop :=
  path.getLast? = some ArrayKey ∨ path.getLast? = some MapKey

end Conditions

section Steps

variable {f : Value → Value} {key next step : String} {path : List String} {data m : Doc}
  {v : Value} {items : List Value}

theorem replaced_array :
    replaced f (ArrayKey :: path) v = inItems (inObject (replaced f path)) v := by
  rw [replaced, if_pos rfl]

theorem replaced_entries : replaced f (MapKey :: path) v
    = inEach (fun e => (e.1, inObject (replaced f path) e.2)) v := by
  rw [replaced, if_neg (by decide), if_pos rfl]

theorem replaced_key (harr : step ≠ ArrayKey) (hmap : step ≠ MapKey) :
    replaced f (step :: path) v
      = inEach (fun e => if e.1 = step then (e.1, replaced f path e.2) else e) v := by
  rw [replaced, if_neg harr, if_neg hmap]

theorem behind_array :
    behind f (ArrayKey :: key :: path) v = inMapSlice (Transform f (key :: path)) v := by
  rw [behind, if_pos (by simp)]

theorem behind_entries :
    behind f (MapKey :: key :: path) v = inEntries (Transform f (key :: path)) v := by
  have hkeys : MapKey ≠ ArrayKey := by decide
  rw [behind, if_neg (by simp [hkeys]), if_pos (by simp)]

theorem behind_last : behind f [key] v = inMap (Transform f [key]) v := by
  rw [behind, if_neg (by simp), if_neg (by simp)]

theorem behind_key (harr : next ≠ ArrayKey) (hmap : next ≠ MapKey) :
    behind f (next :: path) v = inMap (Transform f (next :: path)) v := by
  rw [behind, if_neg (by simp [harr]), if_neg (by simp [hmap])]

theorem behind_nil : behind f path .nil = .nil := by
  cases path with
  | nil => rfl
  | cons next path =>
    rw [behind]
    split_ifs <;> rfl

theorem Transform_of_get (hget : Assoc.get key data = some v) (hv : v ≠ .nil) :
    Transform f (key :: path) data = Assoc.set key (behind f path v) data := by
  cases path with
  | nil =>
    rw [Transform, behind, hget, if_neg hv]
    cases v <;> first | rfl | exact absurd rfl hv
  | cons next path =>
    rw [Transform, behind, hget]
    cases v <;> first
      | exact absurd rfl hv
      | (simp only; split_ifs <;> rfl)

theorem Transform_of_null (hget : Assoc.get key data = none ∨ Assoc.get key data = some .nil) :
    Transform f (key :: path) data = data := by
  cases path with
  | nil =>
    rw [Transform]
    rcases hget with hget | hget <;> rw [hget]
  | cons next path =>
    rw [Transform]
    rcases hget with hget | hget <;> rw [hget]

/-- A path is followed in the value at its first key. -/
theorem Transform_cons (hs : Assoc.Sorted data) :
    Transform f (key :: path) data
      = data.map fun e => if e.1 = key then (e.1, behind f path e.2) else e := by
  have hsame : (∀ x, (key, x) ∈ data → x = .nil) → data
      = data.map fun e => if e.1 = key then (e.1, behind f path e.2) else e := by
    intro hnull
    refine (List.map_id data).symm.trans (List.map_congr_left ?_)
    rintro ⟨k, x⟩ hx
    by_cases hk : k = key
    · subst hk
      rw [hnull x hx, if_pos rfl, behind_nil]
      rfl
    · rw [if_neg hk]
      rfl
  rcases hget : Assoc.get key data with _ | v
  · rw [Transform_of_null (.inl hget)]
    refine hsame fun x hx => ?_
    rw [hs.mem_iff, hget] at hx
    cases hx
  · by_cases hv : v = .nil
    · subst hv
      rw [Transform_of_null (.inr hget)]
      refine hsame fun x hx => ?_
      rw [hs.mem_iff, hget] at hx
      exact (Option.some.inj hx).symm
    · rw [Transform_of_get hget hv, Assoc.set_eq_map hs hget]

end Steps

/-!
What is done with a value does not depend on the function that is applied: two readings agree with
every function if and only if they do below of each element or entry.
-/

section Everywhere

variable {ι : Type} {m : Doc} {v x : Value} {items : List Value} {g : ι → Doc → Doc}

theorem forall_inObject {g : ι → Value → Value} :
    (∀ f, inObject (g f) x = x) ↔ ∀ sub, x = .map sub → ∀ f, g f x = x := by
  cases x <;> simp [inObject]

theorem forall_inItems {g : ι → Value → Value} :
    (∀ f, inItems (inObject (g f)) v = v)
      ↔ ∀ items m, v = .arr items → .map m ∈ items → ∀ f, g f (.map m) = .map m := by
  cases v with
  | arr items =>
    have hid : ∀ f, inItems (inObject (g f)) (.arr items) = .arr items
        ↔ ∀ x ∈ items, inObject (g f) x = x := by
      intro f
      rw [inItems, Value.arr.injEq, ← List.map_inj_left, List.map_id']
    simp only [hid, Value.arr.injEq]
    constructor
    · rintro h _ m rfl hm f
      exact h f _ hm
    · exact fun h f x hx => forall_inObject.2 (by rintro sub rfl; exact h items sub rfl hx) f
  | _ => simp [inItems]

theorem forall_map_eq {g h : ι → String × Value → String × Value} :
    (∀ f, m.map (g f) = m.map (h f)) ↔ ∀ k x, (k, x) ∈ m → ∀ f, g f (k, x) = h f (k, x) := by
  simp only [List.map_inj_left, Prod.forall]
  exact ⟨fun hall k x hx f => hall f k x hx, fun hall f k x hx => hall k x hx f⟩

theorem forall_map_id {g : ι → String × Value → String × Value} :
    (∀ f, m.map (g f) = m) ↔ ∀ k x, (k, x) ∈ m → ∀ f, g f (k, x) = (k, x) := by
  have hid : (∀ f, m.map (g f) = m) ↔ ∀ f, m.map (g f) = m.map id := by
    rw [List.map_id]
  rw [hid]
  exact forall_map_eq

theorem forall_inEach {g : ι → String × Value → String × Value} :
    (∀ f, inEach (g f) v = v) ↔
      ∀ m k x, v = .map m → (k, x) ∈ m → ∀ f, g f (k, x) = (k, x) := by
  cases v with
  | map m =>
    simp only [inEach, Value.map.injEq]
    rw [forall_map_id]
    constructor
    · rintro h _ k x rfl hx
      exact h k x hx
    · exact fun h k x hx => h m k x rfl hx
  | _ => simp [inEach]

/-- One entry is changed, or it is not. -/
theorem forall_entry {g : ι → Value → Value} {key : String} {k : String} :
    (∀ f, (if k = key then (k, g f x) else (k, x)) = (k, x)) ↔ (k = key → ∀ f, g f x = x) := by
  by_cases hk : k = key <;> simp [hk]

theorem forall_inMap : (∀ f, inMap (g f) x = x) ↔ ∀ sub, x = .map sub → ∀ f, g f sub = sub := by
  cases x <;> simp [inMap]

theorem inMap_eq_inObject_iff {change : Doc → Doc} {change' : Value → Value} :
    inMap change x = inObject change' x
      ↔ ∀ sub, x = .map sub → .map (change sub) = change' (.map sub) := by
  cases x <;> simp [inMap, inObject]

theorem forall_inMapSlice_iff {h : ι → Value → Value} :
    (∀ f, inMapSlice (g f) v = inItems (inObject (h f)) v) ↔
      ∀ items m, v = .arr items → .map m ∈ items →
        if items.all isMap = true then ∀ f, .map (g f m) = h f (.map m)
        else ∀ f, h f (.map m) = .map m := by
  cases v with
  | arr items =>
    by_cases hall : items.all isMap = true
    · simp only [inMapSlice, inItems, if_pos hall, Value.arr.injEq, List.map_inj_left,
        inMap_eq_inObject_iff]
      constructor
      · rintro heq _ m rfl hm
        rw [if_pos hall]
        exact fun f => heq f _ hm m rfl
      · rintro heq f _ hm m rfl
        have hitem := heq items m rfl hm
        rw [if_pos hall] at hitem
        exact hitem f
    · have hsame : ∀ f, inMapSlice (g f) (.arr items) = .arr items := by
        intro f
        rw [inMapSlice, if_neg hall]
      simp only [hsame]
      rw [forall_congr' fun f => eq_comm, forall_inItems]
      refine forall_congr' fun items' => forall_congr' fun m => forall_congr' fun hv => ?_
      cases hv
      rw [if_neg hall]
  | _ => simp [inMapSlice, inItems]

theorem forall_inEntries_iff {h : ι → Value → Value} :
    (∀ f, inEntries (g f) v = inEach (fun e => (e.1, inObject (h f) e.2)) v) ↔
      ∀ m k sub, v = .map m → (k, .map sub) ∈ m → ∀ f, .map (g f sub) = h f (.map sub) := by
  cases v with
  | map m =>
    simp only [inEntries, inEach, Value.map.injEq]
    rw [forall_map_eq]
    simp only [Prod.mk.injEq, true_and, inMap_eq_inObject_iff]
    constructor
    · rintro heq _ k sub rfl hsub f
      exact heq k _ hsub f sub rfl
    · rintro heq k _ hx f sub rfl
      exact heq m k sub rfl hx f
  | _ => simp [inEntries, inEach]

theorem inObject_id : inObject id = id := by
  funext x
  cases x <;> rfl

theorem forall_inMapSlice :
    (∀ f, inMapSlice (g f) v = v) ↔ ∀ items m, v = .arr items → items.all isMap = true →
      .map m ∈ items → ∀ f, g f m = m := by
  have hsame : inItems (inObject id) v = v := by
    cases v <;> simp [inItems, inObject_id]
  have hiff := forall_inMapSlice_iff (g := g) (h := fun _ => id) (v := v)
  rw [hsame] at hiff
  rw [hiff]
  constructor
  · intro h items m hv hall hm f
    have hitem := h items m hv hm
    rw [if_pos hall] at hitem
    exact Value.map.inj (hitem f)
  · intro h items m hv hm
    split_ifs with hall
    · exact fun f => congrArg Value.map (h items m hv hall hm f)
    · exact fun _ => rfl

theorem forall_inEntries : (∀ f, inEntries (g f) v = v) ↔
      ∀ m k sub, v = .map m → (k, .map sub) ∈ m → ∀ f, g f sub = sub := by
  have hsame : inEach (fun e => (e.1, inObject id e.2)) v = v := by
    cases v <;> simp [inEach, inObject_id]
  have hiff := forall_inEntries_iff (g := g) (h := fun _ => id) (v := v)
  rw [hsame] at hiff
  simpa only [id, Value.map.injEq] using hiff

end Everywhere

section Nothing

variable {key : String} {path : List String} {data m : Doc} {v x : Value}

theorem forall_end_iff :
    (∀ f : Value → Value, (if v = .nil then v else f v) = v) ↔ v = .nil := by
  constructor
  · intro h
    by_contra hv
    have hnil := h fun _ => .nil
    rw [if_neg hv] at hnil
    exact hv hnil.symm
  · intro hv f
    rw [if_pos hv]

/-- Where the path reaches nothing, nothing is replaced. -/
theorem forall_replaced_iff : ∀ {path : List String} {v : Value},
    (∀ f, replaced f path v = v) ↔ Misses path v
  | [], v => forall_end_iff
  | step :: path, v => by
    have ih : ∀ {x : Value}, (∀ f, replaced f path x = x) ↔ Misses path x := forall_replaced_iff
    rw [Misses]
    by_cases harr : step = ArrayKey
    · subst harr
      simp only [replaced_array, if_true]
      rw [forall_inItems]
      simp only [ih]
    · rw [if_neg harr]
      by_cases hmap : step = MapKey
      · subst hmap
        simp only [replaced_entries, if_true]
        rw [forall_inEach]
        simp only [Prod.mk.injEq, true_and, forall_inObject, ih]
        constructor
        · exact fun h m k sub hv hsub => h m k _ hv hsub sub rfl
        · rintro h m k x hv hx sub rfl
          exact h m k sub hv hx
      · simp only [replaced_key harr hmap, if_neg hmap]
        rw [forall_inEach]
        simp only [forall_entry, ih]
        constructor
        · exact fun h m x hv hx => h m step x hv hx rfl
        · rintro h m _ x hv hx rfl
          exact h m x hv hx

theorem forall_transform_iff (hs : Assoc.Sorted m) :
    (∀ f, Transform f (key :: path) m = m)
      ↔ ∀ x, (key, x) ∈ m → ∀ f, behind f path x = x := by
  simp only [Transform_cons hs]
  rw [forall_map_id]
  simp only [forall_entry]
  constructor
  · exact fun h x hx => h key x hx rfl
  · rintro h _ x hx rfl
    exact h x hx

/-- Where the code finds nothing, it does nothing. -/
theorem forall_behind_iff : ∀ {path : List String} {v : Value}, Canonical v →
    ((∀ f, behind f path v = v) ↔ Idle path v)
  | [], v, _ => forall_end_iff
  | [key], v, hv => by
    simp only [Idle, behind_last, forall_inMap]
    constructor
    · rintro h m x rfl hx
      exact forall_end_iff.1 ((forall_transform_iff hv.sorted).1 (h m rfl) x hx)
    · rintro h m rfl
      exact (forall_transform_iff hv.sorted).2 fun x hx => forall_end_iff.2 (h m x rfl hx)
  | next :: key :: path, v, hv => by
    have ih : ∀ {x : Value}, Canonical x → ((∀ f, behind f path x = x) ↔ Idle path x) :=
      forall_behind_iff
    have hbelow : ∀ {m : Doc}, Canonical (.map m) →
        ((∀ f, Transform f (key :: path) m = m) ↔ ∀ x, (key, x) ∈ m → Idle path x) := by
      intro m hm
      rw [forall_transform_iff hm.sorted]
      exact forall_congr' fun x => forall_congr' fun hx => ih (hm.entry hx)
    rw [Idle]
    by_cases harr : next = ArrayKey
    · subst harr
      simp only [behind_array, if_true]
      rw [forall_inMapSlice]
      constructor
      · rintro h items m x rfl hall hm hx
        exact (hbelow (hv.item hm)).1 (h items m rfl hall hm) x hx
      · rintro h items m rfl hall hm
        exact (hbelow (hv.item hm)).2 fun x hx => h items m x rfl hall hm hx
    · rw [if_neg harr]
      by_cases hmap : next = MapKey
      · subst hmap
        simp only [behind_entries, if_true]
        rw [forall_inEntries]
        constructor
        · rintro h m k sub x rfl hsub hx
          exact (hbelow (hv.entry hsub)).1 (h m k sub rfl hsub) x hx
        · rintro h m k sub rfl hsub
          exact (hbelow (hv.entry hsub)).2 fun x hx => h m k sub x rfl hsub hx
      · simp only [behind_key harr hmap, if_neg hmap]
        rw [forall_inMap]
        constructor
        · rintro h m x rfl hx
          exact (forall_behind_iff (hv.entry hx)).1
            ((forall_transform_iff hv.sorted).1 (h m rfl) x hx)
        · rintro h m rfl
          exact (forall_transform_iff hv.sorted).2 fun x hx =>
            (forall_behind_iff (hv.entry hx)).2 (h m x rfl hx)

end Nothing

section Agreement

variable {key : String} {path : List String} {data m : Doc} {v x : Value}

/-- Both readings in an object, given what they do below of it. -/
theorem forall_agreeIn_iff (hm : Canonical (.map m))
    (hbelow : ∀ {x : Value}, Canonical x →
      ((∀ f, behind f path x = replaced f path x) ↔ AgreeBehind path x)) :
    (∀ f, Value.map (Transform f (key :: path) m) = replaced f (key :: path) (.map m))
      ↔ AgreeIn (AgreeBehind path) (Misses path) (Idle path) key m := by
  rw [AgreeIn]
  by_cases harr : key = ArrayKey
  · subst harr
    simp only [replaced_array, inItems, Value.map.injEq, if_true]
    rw [forall_transform_iff hm.sorted]
    exact forall_congr' fun x => forall_congr' fun hx => forall_behind_iff (hm.entry hx)
  · rw [if_neg harr]
    by_cases hmap : key = MapKey
    · subst hmap
      simp only [replaced_entries, inEach, Value.map.injEq, Transform_cons hm.sorted, if_true]
      rw [forall_map_eq]
      refine forall_congr' fun k => forall_congr' fun x => forall_congr' fun hx => ?_
      by_cases hk : k = MapKey
      · simp only [hk, if_true, Prod.mk.injEq, true_and]
        by_cases hobject : ∃ sub, x = .map sub
        · obtain ⟨sub, rfl⟩ := hobject
          simpa [inObject] using hbelow (hm.entry hx)
        · have hobject : ∀ sub, x ≠ .map sub := fun sub h => hobject ⟨sub, h⟩
          have hsame : ∀ f, inObject (replaced f path) x = x := by
            intro f
            cases x <;> first | rfl | exact absurd rfl (hobject _)
          simp only [hsame]
          rw [forall_behind_iff (hm.entry hx)]
          exact ⟨fun h => ⟨fun sub hsub => absurd hsub (hobject sub), fun _ => h⟩,
            fun h => h.2 hobject⟩
      · simp only [hk, if_false, Prod.mk.injEq, true_and]
        have hmisses : (∀ f, inObject (replaced f path) x = x)
            ↔ ∀ sub, x = .map sub → Misses path x := by
          rw [forall_inObject]
          exact forall_congr' fun sub => forall_congr' fun _ => forall_replaced_iff
        rw [← hmisses]
        exact forall_congr' fun f => eq_comm
    · simp only [replaced_key harr hmap, inEach, Value.map.injEq, Transform_cons hm.sorted,
        if_neg hmap]
      rw [forall_map_eq]
      constructor
      · intro h x hx
        exact (hbelow (hm.entry hx)).1 fun f => by simpa using h key x hx f
      · intro h k x hx f
        simp only
        split_ifs with hk
        · rw [(hbelow (hm.entry hx)).2 (h x (hk ▸ hx)) f]
        · rfl

theorem not_marker (h : ¬ EndsInMarker [key]) : key ≠ ArrayKey ∧ key ≠ MapKey :=
  ⟨fun hk => h (.inl (by rw [hk]; rfl)), fun hk => h (.inr (by rw [hk]; rfl))⟩

theorem not_endsInMarker_tail {next : String} (h : ¬ EndsInMarker (next :: key :: path)) :
    ¬ EndsInMarker (key :: path) := by
  unfold EndsInMarker at h ⊢
  rwa [List.getLast?_cons_cons] at h

/-- Both readings in the value under a key. -/
theorem forall_agreeBehind_iff : ∀ {path : List String} {v : Value}, ¬ EndsInMarker path →
    Canonical v → ((∀ f, behind f path v = replaced f path v) ↔ AgreeBehind path v)
  | [], v, _, _ => by simp [behind, replaced, AgreeBehind]
  | [key], v, hend, hv => by
    obtain ⟨harr, hmap⟩ := not_marker hend
    simp only [AgreeBehind, iff_true]
    intro f
    rw [behind_last, replaced_key harr hmap]
    cases v with
    | map m =>
      rw [inMap, inEach, Transform_cons hv.sorted]
      rfl
    | _ => rfl
  | next :: key :: path, v, hend, hv => by
    have hkey : ¬ EndsInMarker (key :: path) := not_endsInMarker_tail hend
    have hpath : ¬ EndsInMarker path := by
      cases path with
      | nil => simp [EndsInMarker]
      | cons k path => exact not_endsInMarker_tail hkey
    have hin : ∀ {m : Doc}, Canonical (.map m) →
        ((∀ f, Value.map (Transform f (key :: path) m) = replaced f (key :: path) (.map m))
          ↔ AgreeIn (AgreeBehind path) (Misses path) (Idle path) key m) :=
      fun hm => forall_agreeIn_iff hm fun hx => forall_agreeBehind_iff hpath hx
    rw [AgreeBehind]
    by_cases harr : next = ArrayKey
    · subst harr
      simp only [behind_array, replaced_array, if_true]
      rw [forall_inMapSlice_iff]
      constructor
      · rintro h items m rfl hm
        have hitem := h items m rfl hm
        split_ifs at hitem ⊢
        · exact (hin (hv.item hm)).1 hitem
        · exact forall_replaced_iff.1 hitem
      · rintro h items m rfl hm
        have hitem := h items m rfl hm
        split_ifs at hitem ⊢
        · exact (hin (hv.item hm)).2 hitem
        · exact forall_replaced_iff.2 hitem
    · rw [if_neg harr]
      by_cases hmap : next = MapKey
      · subst hmap
        simp only [behind_entries, replaced_entries, if_true]
        rw [forall_inEntries_iff]
        constructor
        · rintro h m k sub rfl hsub
          exact (hin (hv.entry hsub)).1 (h m k sub rfl hsub)
        · rintro h m k sub rfl hsub
          exact (hin (hv.entry hsub)).2 (h m k sub rfl hsub)
      · rw [if_neg hmap]
        by_cases hobject : ∃ m, v = .map m
        · obtain ⟨m, rfl⟩ := hobject
          simp only [behind_key harr hmap, inMap]
          rw [forall_agreeIn_iff hv fun hx => forall_agreeBehind_iff hkey hx, AgreeIn,
            if_neg harr, if_neg hmap]
          constructor
          · rintro h m x hm hx
            cases hm
            exact h x hx
          · exact fun h x hx => h m x rfl hx
        · have hobject : ∀ m, v ≠ .map m := fun m h => hobject ⟨m, h⟩
          refine ⟨fun _ m x hm => absurd hm (hobject m), fun _ f => ?_⟩
          rw [behind_key harr hmap, replaced_key harr hmap]
          cases v <;> first | rfl | exact absurd rfl (hobject _)

/-- A path that does not end in a marker changes what it reaches, and nothing else, if and only if
both readings of the path agree. -/
theorem transform_correct_iff (hdata : Canonical (.map data)) (hpath : ¬ EndsInMarker path) :
    (∀ transformer, Value.map (Transform transformer path data)
        = replacedIn transformer path data) ↔ Agree path data := by
  cases path with
  | nil => simp [Transform, replacedIn, Agree]
  | cons key path =>
    simp only [replacedIn, Agree]
    refine forall_agreeIn_iff hdata fun hx => forall_agreeBehind_iff ?_ hx
    cases path with
    | nil => simp [EndsInMarker]
    | cons next path => exact not_endsInMarker_tail hpath

end Agreement

section Secrets

/-- Some objects with a secret, and some other values. -/
def listing (others : List Value) : Doc :=
  [("list", .arr (.map [("name", .str "a"), ("secret", .str "s")] :: others))]

def hidden : Value → Value := fun _ => .str "***"

theorem canonical_listing {others : List Value} (h : ∀ x ∈ others, Canonical x) :
    Canonical (.map (listing others)) := by
  have hobject : Canonical (.map [("name", .str "a"), ("secret", .str "s")]) := by
    refine .map (by decide) fun e he => ?_
    rcases List.mem_pair.1 he with rfl | rfl
    · exact .str
    · exact .str
  refine .map (List.pairwise_singleton _ _) fun e he => ?_
  rw [List.mem_singleton.1 he]
  refine .arr fun x hx => ?_
  rcases List.mem_cons.1 hx with rfl | hx
  · exact hobject
  · exact h x hx

/-- Where all elements are objects, the secrets of all of them are transformed. -/
theorem secrets_transformed : Agree ["list", ArrayKey, "secret"] (listing [.map []])
    ∧ ∀ transformer, Value.map (Transform transformer ["list", ArrayKey, "secret"]
        (listing [.map []])) = replacedIn transformer ["list", ArrayKey, "secret"]
          (listing [.map []]) := by
  have hagree : Agree ["list", ArrayKey, "secret"] (listing [.map []]) := by
    have hlist : "list" ≠ ArrayKey ∧ "list" ≠ MapKey := by decide
    have hsecret : "secret" ≠ ArrayKey ∧ "secret" ≠ MapKey := by decide
    have hall : [Value.map [("name", .str "a"), ("secret", .str "s")], .map []].all isMap = true :=
      rfl
    simp only [Agree, AgreeIn, AgreeBehind, hlist, hsecret, if_false, if_true, listing,
      List.mem_singleton, Prod.mk.injEq, true_and]
    rintro _ rfl items m hitems -
    cases hitems
    rw [if_pos hall]
    exact fun _ _ => trivial
  have hdata : Canonical (.map (listing [.map []])) := by
    refine canonical_listing fun x hx => ?_
    rw [List.mem_singleton.1 hx]
    exact .map Assoc.Sorted.nil (by simp)
  have hpath : ¬ EndsInMarker ["list", ArrayKey, "secret"] := by
    unfold EndsInMarker
    decide
  exact ⟨hagree, (transform_correct_iff hdata hpath).2 hagree⟩

/-- One element that is no object keeps the secrets of the others from being transformed, and a
marker in front is taken for a key. -/
theorem secret_missed :
    Transform hidden ["list", ArrayKey, "secret"] (listing [.str "b"]) = listing [.str "b"]
      ∧ replacedIn hidden ["list", ArrayKey, "secret"] (listing [.str "b"])
        = .map [("list", .arr [.map [("name", .str "a"), ("secret", .str "***")], .str "b"])]
      ∧ Transform hidden [MapKey, "secret"] [("db", .map [("secret", .str "s")])]
        = [("db", .map [("secret", .str "s")])]
      ∧ replacedIn hidden [MapKey, "secret"] [("db", .map [("secret", .str "s")])]
        = .map [("db", .map [("secret", .str "***")])] := by
  decide +kernel

end Secrets

end Convert

end Norman
