import Mathlib.Data.Finset.Card
import Mathlib.Logic.Relation

/-!
# Depth-first search

A search goes from a node to the nodes next to it, and to each of them only once; a node is put out
after those found from it. It keeps the nodes put out, in order, and those it has seen. It takes
fuel, one unit for each level, and as many units as there are nodes are enough (`search_total`).
What is put out is all that can be reached, and each node once (`search_spec`), whatever the order
of the nodes. A program that keeps more than the nodes is compared with the search round by round
(`foldlM_sim`).
-/

namespace DepthFirst

variable {κ : Type*} [DecidableEq κ]

/-- The nodes put out, and the nodes seen. -/
structure State (κ : Type*) where
  out : List κ
  seen : List κ

/-- Go to a node that was not seen yet. -/
def visit (add : κ → State κ → Option (State κ)) (st : State κ) (k : κ) : Option (State κ) :=
  if k ∈ st.seen then some st else add k st

variable (next : κ → List κ)

/-- Put out a node after what is found from it. -/
def add : ℕ → κ → State κ → Option (State κ)
  | 0, _, _ => none
  | fuel + 1, k, st =>
    ((next k).foldlM (visit (add fuel)) { st with seen := k :: st.seen }).map
      fun st => { st with out := st.out ++ [k] }

/-- Start from the nodes of a list one after another. -/
def search (fuel : ℕ) (roots : List κ) : Option (State κ) :=
  roots.foldlM (visit (add next fuel)) ⟨[], []⟩

/-- One node can be reached from another. -/
def Reach : κ → κ → Prop := Relation.ReflTransGen fun x y => y ∈ next x

section Spec

/-- What a search from the nodes `ks` adds: the nodes `l`, which were not seen before. -/
structure Finds (ks : List κ) (st st' : State κ) (l : List κ) : Prop where
  out : st'.out = st.out ++ l
  nodup : l.Nodup
  fresh : ∀ x ∈ l, x ∉ st.seen
  seen : ∀ x, x ∈ st'.seen ↔ x ∈ st.seen ∨ x ∈ l
  reached : ∀ x ∈ l, ∃ r ∈ ks, Reach next r x
  closed : ∀ x ∈ l, ∀ y ∈ next x, y ∈ st'.seen
  roots : ∀ r ∈ ks, r ∈ st'.seen

variable {next} {st st' st'' : State κ} {k : κ} {ks : List κ} {fuel : ℕ}

omit [DecidableEq κ] in
theorem Finds.nil : Finds next [] st st [] := by
  constructor <;> simp

omit [DecidableEq κ] in
theorem Finds.append {ks' l l' : List κ} (h : Finds next ks st st' l)
    (h' : Finds next ks' st' st'' l') :
    Finds next (ks ++ ks') st st'' (l ++ l') where
  out := by rw [h'.out, h.out, List.append_assoc]
  nodup := by
    refine List.nodup_append.2 ⟨h.nodup, h'.nodup, ?_⟩
    rintro x hx _ hx' rfl
    exact h'.fresh x hx' ((h.seen x).2 (.inr hx))
  fresh x hx := by
    rcases List.mem_append.1 hx with hx | hx
    · exact h.fresh x hx
    · exact fun hseen => h'.fresh x hx ((h.seen x).2 (.inl hseen))
  seen x := by rw [h'.seen, h.seen, List.mem_append, or_assoc]
  reached x hx := by
    rcases List.mem_append.1 hx with hx | hx
    · obtain ⟨r, hr, hreach⟩ := h.reached x hx
      exact ⟨r, List.mem_append_left _ hr, hreach⟩
    · obtain ⟨r, hr, hreach⟩ := h'.reached x hx
      exact ⟨r, List.mem_append_right _ hr, hreach⟩
  closed x hx y hy := by
    rcases List.mem_append.1 hx with hx | hx
    · exact (h'.seen y).2 (.inl (h.closed x hx y hy))
    · exact h'.closed x hx y hy
  roots r hr := by
    rcases List.mem_append.1 hr with hr | hr
    · exact (h'.seen r).2 (.inl (h.roots r hr))
    · exact h'.roots r hr

omit [DecidableEq κ] in
/-- A node that was not seen, after what is next to it. -/
theorem Finds.cons {l : List κ} (hk : k ∉ st.seen)
    (h : Finds next (next k) { st with seen := k :: st.seen } st' l) :
    Finds next [k] st { st' with out := st'.out ++ [k] } (l ++ [k]) where
  out := by rw [h.out, List.append_assoc]
  nodup := by
    refine List.nodup_append.2 ⟨h.nodup, by simp, ?_⟩
    rintro x hx _ hx' rfl
    rw [List.mem_singleton] at hx'
    exact h.fresh x hx (hx' ▸ List.mem_cons_self)
  fresh x hx := by
    rcases List.mem_append.1 hx with hx | hx
    · exact fun hseen => h.fresh x hx (List.mem_cons_of_mem _ hseen)
    · rwa [List.mem_singleton.1 hx]
  seen x := by
    rw [h.seen, List.mem_cons, List.mem_append, List.mem_singleton]
    tauto
  reached x hx := by
    rcases List.mem_append.1 hx with hx | hx
    · obtain ⟨r, hr, hreach⟩ := h.reached x hx
      exact ⟨k, by simp, .head hr hreach⟩
    · exact ⟨k, by simp, by rw [List.mem_singleton.1 hx]; exact .refl⟩
  closed x hx y hy := by
    rcases List.mem_append.1 hx with hx | hx
    · exact h.closed x hx y hy
    · rw [List.mem_singleton.1 hx] at hy
      exact h.roots y hy
  roots r hr := by
    rw [List.mem_singleton.1 hr]
    exact (h.seen k).2 (.inl List.mem_cons_self)

/-- What is known of going to a node, with a way to put it out. -/
def AddFinds (next : κ → List κ) (add : κ → State κ → Option (State κ)) : Prop :=
  ∀ {k st st'}, k ∉ st.seen → add k st = some st' → ∃ l, Finds next [k] st st' l

theorem visits_find {add : κ → State κ → Option (State κ)} (hadd : AddFinds next add) :
    ∀ (ks : List κ) {st st' : State κ}, ks.foldlM (visit add) st = some st' →
      ∃ l, Finds next ks st st' l
  | [], st, st', h => by
    obtain rfl : st = st' := by simpa using h
    exact ⟨[], .nil⟩
  | k :: ks, st, st', h => by
    rw [List.foldlM_cons, Option.bind_eq_bind, Option.bind_eq_some_iff] at h
    obtain ⟨st₁, h₁, h₂⟩ := h
    obtain ⟨l', hl'⟩ := visits_find hadd ks h₂
    have hone : ∃ l, Finds next [k] st st₁ l := by
      unfold visit at h₁
      split_ifs at h₁ with hk
      · cases h₁
        exact ⟨[], by constructor <;> simp [hk]⟩
      · exact hadd hk h₁
    obtain ⟨l, hl⟩ := hone
    exact ⟨l ++ l', hl.append hl'⟩

theorem add_finds : ∀ fuel, AddFinds next (add next fuel)
  | 0, _, _, _, _, h => by cases h
  | fuel + 1, k, st, st', hk, h => by
    rw [add, Option.map_eq_some_iff] at h
    obtain ⟨st₁, h₁, rfl⟩ := h
    obtain ⟨l, hl⟩ := visits_find (add_finds fuel) (next k) h₁
    exact ⟨l ++ [k], hl.cons hk⟩

/-- The search puts out what can be reached, and each node once. -/
theorem search_spec {roots : List κ} (h : search next fuel roots = some st) :
    st.out.Nodup ∧ ∀ x, x ∈ st.out ↔ ∃ r ∈ roots, Reach next r x := by
  obtain ⟨l, hl⟩ := visits_find (add_finds fuel) roots h
  have hout : st.out = l := by simpa using hl.out
  have hseen : ∀ x, x ∈ st.seen ↔ x ∈ l := by simpa using hl.seen
  refine ⟨hout ▸ hl.nodup, fun x => ⟨fun hx => hl.reached x (hout ▸ hx), ?_⟩⟩
  rintro ⟨r, hr, hreach⟩
  rw [hout]
  -- the nodes put out are closed under what is next
  induction hreach with
  | refl => exact (hseen r).1 (hl.roots r hr)
  | tail _ hy ih => exact (hseen _).1 (hl.closed _ ih _ hy)

end Spec

section Total

variable {next} {all : Finset κ} {fuel : ℕ}

/-- With a unit of fuel for each node that was not seen, going to a node returns. -/
def AddReturns (next : κ → List κ) (all : Finset κ) (fuel : ℕ) : Prop :=
  ∀ {k st}, k ∈ all → k ∉ st.seen → (all.filter (· ∉ st.seen)).card ≤ fuel →
    ∃ st', add next fuel k st = some st'

theorem visits_return (hadd : AddReturns next all fuel) :
    ∀ (ks : List κ) (st : State κ), (∀ k ∈ ks, k ∈ all) →
      (all.filter (· ∉ st.seen)).card ≤ fuel →
      ∃ st', ks.foldlM (visit (add next fuel)) st = some st'
  | [], st, _, _ => ⟨st, rfl⟩
  | k :: ks, st, hks, hcard => by
    have hone : ∃ st₁, visit (add next fuel) st k = some st₁ := by
      unfold visit
      split_ifs with hk
      · exact ⟨st, rfl⟩
      · exact hadd (hks k List.mem_cons_self) hk hcard
    obtain ⟨st₁, h₁⟩ := hone
    have hfold : [k].foldlM (visit (add next fuel)) st = some st₁ := by simpa using h₁
    obtain ⟨l, hl⟩ := visits_find (add_finds fuel) [k] hfold
    have hmono : (all.filter (· ∉ st₁.seen)).card ≤ fuel := by
      refine (Finset.card_le_card fun x hx => ?_).trans hcard
      rw [Finset.mem_filter] at hx ⊢
      exact ⟨hx.1, fun hseen => hx.2 ((hl.seen x).2 (.inl hseen))⟩
    obtain ⟨st', h'⟩ :=
      visits_return hadd ks st₁ (fun k hk => hks k (List.mem_cons_of_mem _ hk)) hmono
    exact ⟨st', by rw [List.foldlM_cons, h₁]; exact h'⟩

theorem add_returns (hall : ∀ x ∈ all, ∀ y ∈ next x, y ∈ all) : ∀ fuel, AddReturns next all fuel
  | 0, k, st, hk, hseen, hcard => by
    have hmem : k ∈ all.filter (· ∉ st.seen) := Finset.mem_filter.2 ⟨hk, hseen⟩
    rw [Nat.le_zero, Finset.card_eq_zero] at hcard
    rw [hcard] at hmem
    simp at hmem
  | fuel + 1, k, st, hk, hseen, hcard => by
    -- the node itself is one less to be seen
    have hless : (all.filter (· ∉ k :: st.seen)).card ≤ fuel := by
      have hsub : all.filter (· ∉ k :: st.seen) = (all.filter (· ∉ st.seen)).erase k := by
        ext x
        simp only [Finset.mem_filter, List.mem_cons, not_or, Finset.mem_erase]
        tauto
      rw [hsub, Finset.card_erase_of_mem (Finset.mem_filter.2 ⟨hk, hseen⟩)]
      omega
    obtain ⟨st', h⟩ := visits_return (add_returns hall fuel) (next k)
      { st with seen := k :: st.seen } (hall k hk) hless
    exact ⟨_, by rw [add, h, Option.map_some]⟩

/-- A unit of fuel for each node is enough. -/
theorem search_total (hall : ∀ x ∈ all, ∀ y ∈ next x, y ∈ all) {roots : List κ}
    (hroots : ∀ r ∈ roots, r ∈ all) (hfuel : all.card ≤ fuel) :
    ∃ st, search next fuel roots = some st :=
  visits_return (add_returns hall fuel) roots ⟨[], []⟩ hroots (by simpa using hfuel)

end Total

section Rounds

variable {α σ τ : Type}

/-- Rounds that pass over some elements are rounds over the others. -/
theorem foldlM_filter (f : σ → α → Option σ) (p : α → Bool) : ∀ (l : List α) (st : σ),
    l.foldlM (fun st a => if p a then f st a else some st) st = (l.filter p).foldlM f st
  | [], st => rfl
  | a :: l, st => by
    rw [List.foldlM_cons, List.filter_cons]
    split_ifs
    · rw [List.foldlM_cons]
      exact congrArg _ (funext (foldlM_filter f p l))
    · exact foldlM_filter f p l st

/-- Rounds over two states that go together. -/
theorem foldlM_sim {f : σ → α → Option σ} {g : τ → α → Option τ} {h : τ → σ} :
    ∀ (l : List α) (st : τ), (∀ a ∈ l, ∀ st, f (h st) a = (g st a).map h) →
      l.foldlM f (h st) = (l.foldlM g st).map h
  | [], st, _ => rfl
  | a :: l, st, hstep => by
    rw [List.foldlM_cons, List.foldlM_cons, hstep a List.mem_cons_self st]
    rcases g st a with _ | st'
    · rfl
    · exact foldlM_sim l st' fun a ha => hstep a (List.mem_cons_of_mem _ ha)

theorem foldlM_flatMap (f : σ → τ → Option σ) (ts : α → List τ) : ∀ (l : List α) (st : σ),
    l.foldlM (fun st a => (ts a).foldlM f st) st = (l.flatMap ts).foldlM f st
  | [], st => rfl
  | a :: l, st => by
    rw [List.foldlM_cons, List.flatMap_cons, List.foldlM_append]
    exact congrArg _ (funext (foldlM_flatMap f ts l))

end Rounds

end DepthFirst
