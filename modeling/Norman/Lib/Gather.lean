import Mathlib.Data.List.Forall2
import Norman.Lib.SortedMap

/-!
# Loops that may fail

Two computations are alike if they succeed with the same results, whatever the errors are they fail
with (`SameOk`). A loop over the entries of a map that writes at most one value for each entry, at
the key of the entry, gives the same result in whatever order it takes the entries
(`SameOk.gather`). A computation may be another one that was given up, if it may (`Below`), and may
be free of an error (`Avoids`).
-/

namespace Gather

variable {κ α β γ ε : Type}

/-- The two succeed with the same results. -/
def SameOk (x y : Except ε α) : Prop := ∀ r, x = .ok r ↔ y = .ok r

theorem bind_eq_ok {x : Except ε α} {f : α → Except ε β} {r : β} :
    x >>= f = .ok r ↔ ∃ a, x = .ok a ∧ f a = .ok r := by
  cases x with
  | error e => simp [bind, Except.bind]
  | ok a => simp [bind, Except.bind]

theorem map_eq_ok {x : Except ε α} {f : α → β} {r : β} :
    x.map f = .ok r ↔ ∃ a, x = .ok a ∧ f a = r := by
  cases x with
  | error e => simp [Except.map]
  | ok a => simp [Except.map]

namespace SameOk

theorem refl (x : Except ε α) : SameOk x x := fun _ => Iff.rfl

theorem symm {x y : Except ε α} (h : SameOk x y) : SameOk y x := fun r => (h r).symm

theorem bind {x y : Except ε α} {f g : α → Except ε β} (h : SameOk x y)
    (hf : ∀ a, SameOk (f a) (g a)) : SameOk (x >>= f) (y >>= g) := fun r => by
  rw [bind_eq_ok, bind_eq_ok]
  exact exists_congr fun a => and_congr (h a) (hf a r)

theorem map {x y : Except ε α} (f : α → β) (h : SameOk x y) : SameOk (x.map f) (y.map f) :=
  h.bind fun a => refl (.ok (f a))

theorem mapM {f : α → Except ε γ} {g : β → Except ε γ} {xs : List α} {ys : List β}
    (h : List.Forall₂ (fun x y => SameOk (f x) (g y)) xs ys) :
    SameOk (xs.mapM f) (ys.mapM g) := by
  induction h with
  | nil => exact refl _
  | cons hx _ ih =>
    rw [List.mapM_cons, List.mapM_cons]
    exact hx.bind fun a => ih.bind fun as => refl _

end SameOk

section Foldl

variable {f : γ → α → Except ε γ} {R : α → β → Prop}

theorem foldlM_congr {g : γ → β → Except ε γ} {xs : List α} {ys : List β}
    (h : List.Forall₂ (fun x y => ∀ acc, f acc x = g acc y) xs ys) (acc : γ) :
    xs.foldlM f acc = ys.foldlM g acc := by
  induction h generalizing acc with
  | nil => rfl
  | cons hx _ ih =>
    rw [List.foldlM_cons, List.foldlM_cons, hx]
    exact bind_congr ih

theorem mapM_eq_ok {f : α → Except ε β} : ∀ {xs : List α} {ys : List β}, xs.mapM f = .ok ys →
    List.Forall₂ (fun x y => f x = .ok y) xs ys
  | [], ys, h => by
    cases h
    exact .nil
  | x :: xs, ys, h => by
    rw [List.mapM_cons] at h
    obtain ⟨y, hy, h⟩ := bind_eq_ok.1 h
    obtain ⟨ys', hys, h⟩ := bind_eq_ok.1 h
    cases h
    exact .cons hy (mapM_eq_ok hys)

theorem forall₂_getElem? : ∀ {xs : List α} {ys : List β}, List.Forall₂ R xs ys →
    ∀ {i : ℕ} {x : α} {y : β}, xs[i]? = some x → ys[i]? = some y → R x y
  | _, _, .cons hxy _, 0, _, _, hx, hy => by
    cases hx
    cases hy
    exact hxy
  | _, _, .cons _ h, i + 1, _, _, hx, hy => forall₂_getElem? h hx hy

theorem forall₂_mem : ∀ {xs : List α} {ys : List β}, List.Forall₂ R xs ys →
    ∀ {x : α}, x ∈ xs → ∃ y ∈ ys, R x y
  | _, _, .cons hxy h, x, hx => by
    rcases List.mem_cons.1 hx with rfl | hx
    · exact ⟨_, List.mem_cons_self, hxy⟩
    · obtain ⟨y, hy, hR⟩ := forall₂_mem h hx
      exact ⟨y, List.mem_cons_of_mem _ hy, hR⟩

theorem forall_mem_iff {P : α → Prop} {Q : β → Prop} :
    ∀ {xs : List α} {ys : List β}, List.Forall₂ R xs ys →
      (∀ x ∈ xs, ∀ y, R x y → (P x ↔ Q y)) → ((∀ x ∈ xs, P x) ↔ ∀ y ∈ ys, Q y)
  | _, _, .nil, _ => by simp
  | _, _, .cons hxy h, hPQ => by
    rw [List.forall_mem_cons, List.forall_mem_cons, hPQ _ List.mem_cons_self _ hxy,
      forall_mem_iff h fun x hx => hPQ x (List.mem_cons_of_mem _ hx)]

theorem forall₂_trans {S : β → γ → Prop} {Q : α → γ → Prop} :
    ∀ {l : List α} {l' : List β} {l'' : List γ},
      (∀ a ∈ l, ∀ b c, R a b → S b c → Q a c) → List.Forall₂ R l l' → List.Forall₂ S l' l'' →
      List.Forall₂ Q l l''
  | _, _, _, _, .nil, .nil => .nil
  | a :: _, _, _, h, .cons hab hl, .cons hbc hl' =>
    .cons (h a List.mem_cons_self _ _ hab hbc)
      (forall₂_trans (fun a ha => h a (List.mem_cons_of_mem _ ha)) hl hl')

theorem forall₂_comp {S : β → γ → Prop} {xs : List α} {ys : List β}
    {zs : List γ} (hR : List.Forall₂ R xs ys) (hS : List.Forall₂ S ys zs) :
    List.Forall₂ (fun x z => ∃ y, R x y ∧ S y z) xs zs :=
  forall₂_trans (fun _ _ y _ hxy hyz => ⟨y, hxy, hyz⟩) hR hS

theorem forall_zip_iff {P : α → Prop} {Q : α → β → Prop} :
    ∀ {xs : List α} {ys : List β}, List.Forall₂ R xs ys →
      (∀ x ∈ xs, ∀ y, R x y → (Q x y ↔ P x)) →
      ((∀ x y, (x, y) ∈ xs.zip ys → Q x y) ↔ ∀ x ∈ xs, P x)
  | _, _, .nil, _ => by simp
  | x :: xs, y :: ys, .cons hxy h, hPQ => by
    rw [List.forall_mem_cons, ← hPQ _ List.mem_cons_self _ hxy,
      ← forall_zip_iff h fun x hx => hPQ x (List.mem_cons_of_mem _ hx)]
    simp only [List.zip_cons_cons, List.mem_cons, Prod.mk.injEq]
    constructor
    · intro hall
      exact ⟨hall x y (.inl ⟨rfl, rfl⟩), fun u v huv => hall u v (.inr huv)⟩
    · rintro ⟨hhead, htail⟩ u v (⟨rfl, rfl⟩ | huv)
      · exact hhead
      · exact htail u v huv

theorem mapM_congr {f : α → Except ε γ} {g : β → Except ε γ} {xs : List α} {ys : List β}
    (h : List.Forall₂ (fun x y => f x = g y) xs ys) : xs.mapM f = ys.mapM g := by
  induction h with
  | nil => rfl
  | cons hx _ ih => rw [List.mapM_cons, List.mapM_cons, hx, ih]

/-- What does nothing may be left out. -/
theorem foldlM_filter {p : α → Bool} (h : ∀ acc x, p x = false → f acc x = .ok acc) :
    ∀ (xs : List α) (acc : γ), (xs.filter p).foldlM f acc = xs.foldlM f acc
  | [], _ => rfl
  | x :: xs, acc => by
    rw [List.filter_cons, List.foldlM_cons]
    cases hp : p x with
    | false =>
      rw [h acc x hp]
      exact foldlM_filter h xs acc
    | true =>
      rw [if_pos rfl, List.foldlM_cons]
      exact bind_congr (foldlM_filter h xs)

/-- If the loop succeeds, then every round did. -/
theorem foldlM_round : ∀ {xs : List α} {acc r : γ},
    xs.foldlM f acc = .ok r → ∀ {x : α}, x ∈ xs → ∃ acc r, f acc x = .ok r
  | y :: xs, acc, r, h, x, hx => by
    obtain ⟨acc', hy, h⟩ := bind_eq_ok.1 h
    rcases List.mem_cons.1 hx with rfl | hx
    · exact ⟨acc, acc', hy⟩
    · exact foldlM_round h hx

/-- What each round keeps, the loop keeps. -/
theorem foldlM_invariant {P : γ → Prop} :
    ∀ {xs : List α} {acc r : γ}, (∀ x ∈ xs, ∀ acc r, P acc → f acc x = .ok r → P r) → P acc →
      xs.foldlM f acc = .ok r → P r
  | [], _, _, _, hacc, h => by
    cases h
    exact hacc
  | x :: xs, acc, r, hstep, hacc, h => by
    obtain ⟨acc', hx, h⟩ := bind_eq_ok.1 h
    exact foldlM_invariant (fun y hy => hstep y (List.mem_cons_of_mem _ hy))
      (hstep x List.mem_cons_self acc acc' hacc hx) h

end Foldl

section Below

variable {e : ε} {p : Prop}

/-- It does not fail with `e`. -/
def Avoids (e : ε) (x : Except ε α) : Prop := x ≠ .error e

theorem Avoids.ok (a : α) : Avoids e (.ok a) := nofun

theorem Avoids.map {x : Except ε α} (f : α → β) (h : Avoids e x) : Avoids e (x.map f) := by
  cases x with
  | error e' => exact fun he => h (by cases he; rfl)
  | ok a => exact .ok _

/-- The first fails with `e`, if it may, or it is the second one, and does not. -/
def Below (p : Prop) (e : ε) (x y : Except ε α) : Prop := p ∧ x = .error e ∨ x = y ∧ Avoids e x

namespace Below

theorem of_avoids {x : Except ε α} (h : Avoids e x) : Below p e x x := .inr ⟨rfl, h⟩

theorem ok (a : α) : Below p e (.ok a) (.ok a) := .of_avoids (.ok a)

theorem avoids {x y : Except ε α} (h : Below False e x y) : Avoids e x :=
  (h.resolve_left And.left).2

theorem bind {x y : Except ε α} {f g : α → Except ε β} (h : Below p e x y)
    (hf : ∀ a, Below p e (f a) (g a)) : Below p e (x >>= f) (y >>= g) := by
  rcases h with ⟨hp, rfl⟩ | ⟨rfl, h⟩
  · exact .inl ⟨hp, rfl⟩
  · cases x with
    | error e' => exact .of_avoids fun he => h (by cases he; rfl)
    | ok a => exact hf a

theorem map {x y : Except ε α} (f : α → β) (h : Below p e x y) : Below p e (x.map f) (y.map f) :=
  h.bind fun a => .ok (f a)

theorem mapM {f g : α → Except ε β} :
    ∀ {xs : List α}, (∀ a ∈ xs, Below p e (f a) (g a)) → Below p e (xs.mapM f) (xs.mapM g)
  | [], _ => .ok []
  | x :: xs, h => by
    rw [List.mapM_cons, List.mapM_cons]
    exact (h x List.mem_cons_self).bind fun _ =>
      (mapM fun a ha => h a (List.mem_cons_of_mem _ ha)).bind fun _ => .ok _

theorem foldlM {f g : β → α → Except ε β} : ∀ {xs : List α} (acc : β),
    (∀ a ∈ xs, ∀ acc, Below p e (f acc a) (g acc a)) → Below p e (xs.foldlM f acc) (xs.foldlM g acc)
  | [], acc, _ => .ok acc
  | x :: xs, acc, h => by
    rw [List.foldlM_cons, List.foldlM_cons]
    exact (h x List.mem_cons_self acc).bind fun acc =>
      foldlM acc fun a ha => h a (List.mem_cons_of_mem _ ha)

end Below

end Below

section Gather

variable [LinearOrder κ]

/-- Put at the key of each entry what `f` gives for the entry, if anything. -/
def gather (f : κ → α → Except ε (Option β)) :
    List (κ × α) → List (κ × β) → Except ε (List (κ × β))
  | [], acc => .ok acc
  | (k, v) :: l, acc =>
    match f k v with
    | .error e => .error e
    | .ok none => gather f l acc
    | .ok (some w) => gather f l (Assoc.set k w acc)

/-- What `f` gives for a key; where there is no entry, nothing. -/
def given (f : κ → α → Except ε (Option β)) (k : κ) : Option α → Except ε (Option β)
  | none => .ok none
  | some v => f k v

variable {f : κ → α → Except ε (Option β)} {acc : List (κ × β)} {l : List (κ × α)}
  {round : List (κ × β) → κ × α → Except ε (List (κ × β))}

/-- Put a value, if there is one. -/
def put (k : κ) (w : Option β) (acc : List (κ × β)) : List (κ × β) :=
  match w with
  | none => acc
  | some w => Assoc.set k w acc

theorem sorted_put {k : κ} {w : Option β} (h : Assoc.Sorted acc) : Assoc.Sorted (put k w acc) := by
  cases w with
  | none => exact h
  | some w => exact h.set

theorem get_put (k j : κ) (w : Option β) (acc : List (κ × β)) :
    Assoc.get j (put k w acc) = if j = k then w.or (Assoc.get j acc) else Assoc.get j acc := by
  cases w with
  | none => simp [put]
  | some w => simp [put, Assoc.get_set]

theorem gather_cons {k : κ} {v : α} :
    gather f ((k, v) :: l) acc = f k v >>= fun w => gather f l (put k w acc) := by
  simp only [gather]
  rcases f k v with e | _ | w <;> rfl

/-- A loop whose rounds each put what `f` gives. -/
theorem foldlM_eq_gather (h : ∀ acc k v, round acc (k, v) = f k v >>= fun w => pure (put k w acc)) :
    ∀ (l : List (κ × α)) (acc : List (κ × β)), l.foldlM round acc = gather f l acc
  | [], acc => rfl
  | (k, v) :: l, acc => by
    rw [List.foldlM_cons, h, gather_cons, bind_assoc]
    refine bind_congr fun w => ?_
    rw [pure_bind, foldlM_eq_gather h l]

theorem get_eq_none_of_nodup {k : κ} {v : α}
    (hn : (((k, v) :: l).map Prod.fst).Nodup) : Assoc.get k l = none := by
  rw [List.map_cons, List.nodup_cons] at hn
  exact Assoc.get_eq_none.2 fun e he heq => hn.1 (List.mem_map.2 ⟨e, he, heq⟩)

/-- A loop whose rounds each change the value at the key of their entry. -/
theorem foldlM_pointwise {g : κ → α → Option β → Option β}
    (h : ∀ k v acc r, Assoc.Sorted acc → round acc (k, v) = .ok r → Assoc.Sorted r
      ∧ ∀ j, Assoc.get j r = if j = k then g k v (Assoc.get k acc) else Assoc.get j acc) :
    ∀ {l : List (κ × α)} {acc r : List (κ × β)}, (l.map Prod.fst).Nodup → Assoc.Sorted acc →
      l.foldlM round acc = .ok r → Assoc.Sorted r ∧ ∀ j, Assoc.get j r
        = (Assoc.get j l).elim (Assoc.get j acc) fun v => g j v (Assoc.get j acc)
  | [], acc, r, _, hs, hr => by
    cases hr
    exact ⟨hs, fun j => rfl⟩
  | (k, v) :: l, acc, r, hn, hs, hr => by
    obtain ⟨r', hr', hr⟩ := bind_eq_ok.1 hr
    obtain ⟨hs', hget'⟩ := h k v acc r' hs hr'
    obtain ⟨hsr, hget⟩ := foldlM_pointwise h hn.of_cons hs' hr
    refine ⟨hsr, fun j => ?_⟩
    rw [hget j, hget' j]
    by_cases hj : j = k
    · subst hj
      rw [get_eq_none_of_nodup hn]
      simp [Assoc.get]
    · simp [Assoc.get, hj]

/-- If the loop succeeds, then every entry did, and the result has what they gave. -/
theorem gather_spec : ∀ {l : List (κ × α)} {acc r : List (κ × β)}, (l.map Prod.fst).Nodup →
    Assoc.Sorted acc → gather f l acc = .ok r →
    Assoc.Sorted r ∧ ∀ j, ∃ w, given f j (Assoc.get j l) = .ok w
      ∧ Assoc.get j r = w.or (Assoc.get j acc)
  | [], acc, r, _, hs, h => by
    cases h
    exact ⟨hs, fun j => ⟨none, rfl, rfl⟩⟩
  | (k, v) :: l, acc, r, hn, hs, h => by
    obtain ⟨w, hw, h⟩ := bind_eq_ok.1 (gather_cons.symm.trans h)
    obtain ⟨hr, hget⟩ := gather_spec hn.of_cons (sorted_put hs) h
    refine ⟨hr, fun j => ?_⟩
    obtain ⟨u, hu, hj⟩ := hget j
    rw [get_put] at hj
    by_cases hjk : j = k
    · -- the key of the first entry does not come again
      subst hjk
      rw [get_eq_none_of_nodup hn] at hu
      cases hu
      exact ⟨w, by simpa [Assoc.get, given] using hw, by simpa using hj⟩
    · exact ⟨u, by simpa [Assoc.get, hjk] using hu, by simpa [hjk] using hj⟩

/-- If the loop succeeds, then every entry did, also one whose key comes again. -/
theorem gather_entry : ∀ {l : List (κ × α)} {acc r : List (κ × β)}, gather f l acc = .ok r →
    ∀ {k : κ} {v : α}, (k, v) ∈ l → ∃ w, f k v = .ok w
  | (k, v) :: l, acc, r, h, k', v', hmem => by
    obtain ⟨w, hw, h⟩ := bind_eq_ok.1 (gather_cons.symm.trans h)
    rcases List.mem_cons.1 hmem with heq | hmem
    · cases heq
      exact ⟨w, hw⟩
    · exact gather_entry h hmem

theorem gather_total : ∀ {l : List (κ × α)} (acc : List (κ × β)), (l.map Prod.fst).Nodup →
    (∀ j, ∃ w, given f j (Assoc.get j l) = .ok w) → ∃ r, gather f l acc = .ok r
  | [], acc, _, _ => ⟨acc, rfl⟩
  | (k, v) :: l, acc, hn, h => by
    obtain ⟨w, hw⟩ := h k
    have hl : ∀ j, ∃ w, given f j (Assoc.get j l) = .ok w := fun j => by
      by_cases hjk : j = k
      · subst hjk
        rw [get_eq_none_of_nodup hn]
        exact ⟨none, rfl⟩
      · simpa [Assoc.get, hjk] using h j
    obtain ⟨r, hr⟩ := gather_total (put k w acc) hn.of_cons hl
    refine ⟨r, gather_cons.trans (bind_eq_ok.2 ⟨w, ?_, hr⟩)⟩
    simpa [Assoc.get, given] using hw

/-- A loop that puts something for every entry. -/
theorem gather_map_spec {g : κ → α → Except ε β} {r : List (κ × β)}
    (hn : (l.map Prod.fst).Nodup) (h : gather (fun k v => (g k v).map some) l [] = .ok r) :
    Assoc.Sorted r ∧ ∀ k, (Assoc.get k l = none ∧ Assoc.get k r = none)
      ∨ ∃ v w, Assoc.get k l = some v ∧ Assoc.get k r = some w ∧ g k v = .ok w := by
  obtain ⟨hs, hget⟩ := gather_spec hn .nil h
  refine ⟨hs, fun k => ?_⟩
  obtain ⟨w, hw, hr⟩ := hget k
  rw [Assoc.get_nil, Option.or_none] at hr
  rcases hv : Assoc.get k l with _ | v
  · rw [hv] at hw
    cases hw
    exact .inl ⟨rfl, hr⟩
  · rw [hv] at hw
    obtain ⟨u, hu, rfl⟩ := map_eq_ok.1 hw
    exact .inr ⟨v, u, rfl, hr, hu⟩

/-- Loops over two maps that give the same at every key. -/
theorem SameOk.gather {g : κ → α → Except ε (Option β)} {l' : List (κ × α)}
    (hn : (l.map Prod.fst).Nodup) (hn' : (l'.map Prod.fst).Nodup)
    (hs : Assoc.Sorted acc)
    (h : ∀ j, SameOk (given f j (Assoc.get j l)) (given g j (Assoc.get j l'))) :
    SameOk (gather f l acc) (gather g l' acc) := by
  have key : ∀ {f g : κ → α → Except ε (Option β)} {l l' : List (κ × α)} {r : List (κ × β)},
      (l.map Prod.fst).Nodup → (l'.map Prod.fst).Nodup →
      (∀ j, SameOk (given f j (Assoc.get j l)) (given g j (Assoc.get j l'))) →
      Gather.gather f l acc = .ok r → Gather.gather g l' acc = .ok r := by
    intro f g l l' r hn hn' h hr
    obtain ⟨hrs, hget⟩ := gather_spec hn hs hr
    obtain ⟨r', hr'⟩ := gather_total acc hn' fun j =>
      (hget j).imp fun w hw => (h j w).1 hw.1
    obtain ⟨hrs', hget'⟩ := gather_spec hn' hs hr'
    rw [hr', Assoc.ext hrs' hrs fun j => ?_]
    obtain ⟨w, hw, hj⟩ := hget j
    obtain ⟨w', hw', hj'⟩ := hget' j
    rw [(h j w).1 hw] at hw'
    cases hw'
    rw [hj, hj']
  exact fun r => ⟨key hn hn' h, key hn' hn fun j => (h j).symm⟩

end Gather

end Gather
