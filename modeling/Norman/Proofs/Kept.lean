import Norman.Merge
import Norman.Proofs.WriteProtect

/-!
# What a merged object keeps

A value is looked at by its paths. If an update holds, at every path that was shown, what is stored
there, then the object into which it is merged does, too: whether a field is merged or replaced.
-/

namespace Norman

section Paths

/-- A step into a value: a key of a map, or an index of a list. -/
inductive Step where
  | key (k : String)
  | index (i : ℕ)

namespace Value

def child : Value → Step → Option Value
  | .map m, .key k => Assoc.get k m
  | .arr xs, .index i => xs[i]?
  | _, _ => none

/-- The value at a path. -/
def find (v : Value) : List Step → Option Value
  | [] => some v
  | s :: p => (v.child s).bind fun w => w.find p

/-- The same value; lists and maps are compared by what is in them, and lists by their length. -/
def Holds : Value → Value → Prop
  | .arr xs, w => ∃ ys, w = .arr ys ∧ ys.length = xs.length
  | .map _, w => ∃ m, w = .map m
  | v, w => w = v

theorem Holds.refl (v : Value) : Holds v v := by
  cases v with
  | arr xs => exact ⟨xs, rfl, rfl⟩
  | map m => exact ⟨m, rfl⟩
  | _ => rfl

/-- At every path at which the first holds a value and that the second shows, the third holds it. -/
def Kept (v shown w : Value) : Prop :=
  ∀ p a, v.find p = some a → (shown.find p).isSome = true → ∃ c, w.find p = some c ∧ Holds a c

namespace Kept

theorem refl (v shown : Value) : Kept v shown v := fun _ a ha _ => ⟨a, ha, Holds.refl a⟩

theorem holds {v shown w : Value} (h : Kept v shown w) : Holds v w := by
  obtain ⟨c, hc, hold⟩ := h [] v rfl rfl
  cases hc
  exact hold

/-- It is enough to look at each step. -/
theorem of_child {v shown w : Value} (hold : Holds v w)
    (h : ∀ s a y, v.child s = some a → shown.child s = some y →
      ∃ c, w.child s = some c ∧ Kept a y c) : Kept v shown w := by
  rintro (_ | ⟨s, p⟩) a ha hshown
  · cases ha
    exact ⟨w, rfl, hold⟩
  · obtain ⟨a', hs, hp⟩ := Option.bind_eq_some_iff.1 ha
    rcases hy : shown.child s with _ | y
    · simp [find, hy] at hshown
    · rw [find, hy, Option.bind_some] at hshown
      obtain ⟨c, hc, hkept⟩ := h s a' y hs hy
      obtain ⟨d, hd, hold⟩ := hkept p a hp hshown
      exact ⟨d, by rw [find, hc, Option.bind_some, hd], hold⟩

theorem child {v shown w a y : Value} {s : Step} (h : Kept v shown w) (ha : v.child s = some a)
    (hy : shown.child s = some y) : ∃ c, w.child s = some c ∧ Kept a y c := by
  have hfind : ∀ (x : Value) p, x.find (s :: p) = (x.child s).bind fun z => z.find p := fun _ _ => rfl
  rcases hw : w.child s with _ | c
  · obtain ⟨c, hc, -⟩ := h [s] a (by rw [hfind, ha]; rfl) (by rw [hfind, hy]; rfl)
    rw [hfind, hw] at hc
    cases hc
  · refine ⟨c, rfl, fun p a' ha' hshown => ?_⟩
    obtain ⟨d, hd, hold⟩ := h (s :: p) a' (by rw [hfind, ha]; exact ha') (by rw [hfind, hy]; exact hshown)
    rw [hfind, hw] at hd
    exact ⟨d, hd, hold⟩

theorem map {m n w : Doc} (h : ∀ k x y, Assoc.get k m = some x → Assoc.get k n = some y →
    ∃ z, Assoc.get k w = some z ∧ Kept x y z) : Kept (.map m) (.map n) (.map w) := by
  refine of_child ⟨w, rfl⟩ fun s a y ha hy => ?_
  cases s with
  | key k => exact h k a y ha hy
  | index i => cases ha

theorem arr {xs ys zs : List Value} (hlen : zs.length = xs.length)
    (h : ∀ (i : ℕ) x y z, xs[i]? = some x → ys[i]? = some y → zs[i]? = some z → Kept x y z) :
    Kept (.arr xs) (.arr ys) (.arr zs) := by
  refine of_child ⟨zs, rfl, hlen⟩ fun s a y ha hy => ?_
  cases s with
  | key k => cases ha
  | index i =>
    have hi : i < zs.length := by
      rw [hlen]
      exact (List.getElem?_eq_some_iff.1 ha).1
    exact ⟨zs[i], List.getElem?_eq_getElem hi, h i a y _ ha hy (List.getElem?_eq_getElem hi)⟩

end Kept

end Value

end Paths

section Json

open Parse

/-- A JSON document: each key of a map is there once, and there are no slices or maps of Go's own.
-/
inductive Json : Value → Prop where
  | arr {xs : List Value} : (∀ x ∈ xs, Json x) → Json (.arr xs)
  | map {m : Doc} : Keyed m → (∀ e ∈ m, Json e.2) → Json (.map m)
  | nil : Json .nil
  | bool {b : Bool} : Json (.bool b)
  | int {n : Int} : Json (.int n)
  | float {x : UInt64} : Json (.float x)
  | number {s : String} : Json (.number s)
  | str {s : String} : Json (.str s)

end Json

namespace Merge

open Norman.Types Value

variable {env : Env} {internal : Schema → Option Schema} {schemas : Schemas}

theorem get_mergeMaps {replace : Bool} {fieldType : String} {parentSchema schema : Option Schema}
    {dest : Doc} (k : String) : ∀ src : Doc,
    Assoc.get k (mergeMaps env internal schemas replace fieldType parentSchema schema dest src)
      = match Assoc.get k src with
        | some v => some (merge env internal schemas replace k fieldType parentSchema schema
            ((Assoc.get k dest).getD .nil) v)
        | none => Assoc.get k (copyMapReplace replace schema dest)
  | [] => rfl
  | (j, v) :: src => by
    rw [mergeMaps, Assoc.get_set, get_mergeMaps k src, Assoc.get]
    split
    · rename_i hj
      rw [hj]
    · rfl

theorem get_mergeMaps_both {replace : Bool} {fieldType k : String} {parentSchema schema : Option Schema}
    {dest src : Doc} {a v : Value} (ha : Assoc.get k dest = some a) (hv : Assoc.get k src = some v) :
    Assoc.get k (mergeMaps env internal schemas replace fieldType parentSchema schema dest src)
      = some (merge env internal schemas replace k fieldType parentSchema schema a v) := by
  rw [get_mergeMaps, hv, ha, Option.getD_some]

/-- What an update keeps is kept when it is merged. -/
theorem kept_merge {x y w : Value} {field fieldType : String} {parentSchema schema : Option Schema}
    (hx : Json x) (h : Kept x y w) :
    Kept x y (merge env internal schemas false field fieldType parentSchema schema x w) := by
  induction hx generalizing y w field fieldType parentSchema schema with
  | map _ _ ih =>
    obtain ⟨sm, rfl⟩ := h.holds
    rw [merge]
    split
    · exact h
    · refine Kept.of_child ⟨_, rfl⟩ fun s a y' ha hy => ?_
      obtain ⟨c, hc, hkept⟩ := h.child ha hy
      cases s with
      | index i => cases ha
      | key k =>
        exact ⟨_, get_mergeMaps_both ha hc, ih _ (Assoc.mem_of_get ha) hkept⟩
  | arr _ _ =>
    obtain ⟨ys, rfl, -⟩ := h.holds
    exact h
  | _ =>
    obtain rfl := h.holds
    exact h

theorem kept_updateMerge {schema : Option Schema} {d r u : Doc} (hd : Json (.map d))
    (h : Kept (.map d) (.map r) (.map u)) :
    Kept (.map d) (.map r) (.map (UpdateMerge env internal schemas false schema d u)) := by
  refine Kept.map fun k x y hx hy => ?_
  obtain ⟨c, hc, hkept⟩ := h.child (s := .key k) hx hy
  have hsrc : Assoc.get k u = some c := hc
  cases hd with
  | map _ hxs =>
    exact ⟨_, get_mergeMaps_both hx hsrc, kept_merge (hxs _ (Assoc.mem_of_get hx)) hkept⟩

end Merge

end Norman
