import Norman.Query

/-!
# Going through the pages of a list

The page that starts at an index, and what is written down of it, are known (`On`). With the id of
an item as the marker a page starts at the item, as the ids are different; so a client that follows
`next` goes on where the last page ended, and with `previous` goes back by one page.
-/

namespace Norman.Handler

open Norman.Types

/-- A slice of maps: each of them is a pointer of eight bytes, and there are no more of them than
the address space has room for. -/
structure Slice where
  items : List Doc
  length_le : items.length ≤ 2 ^ 61

section Page

/-- The id of the item at an index. -/
def idAt (data : List Doc) (i : ℕ) : String := (data[i]?.map itemID).getD ""

/-- The page that starts at an index, with what is written down of it. -/
structure On (data : List Doc) (limit s : ℕ) (page : List Doc) (p : Pagination) : Prop where
  page : page = (data.drop s).take limit
  total : p.total = some (data.length : Int)
  isPartial : p.isPartial = true ↔ 0 < s ∨ s + limit < data.length
  previous : p.previous = if 0 < s then idAt data (s - limit) else ""
  next : p.next = if s + limit < data.length then idAt data (s + limit) else ""

variable {data : List Doc} {p : Pagination} {limit s : ℕ}

theorem bmod_int64 {a : Int} (hlow : -9223372036854775808 ≤ a) (hhigh : a < 9223372036854775808) :
    a.bmod (2 ^ 64) = a := by
  rw [Int.bmod_eq_of_le] <;> omega

theorem addInt64_eq (h : s + limit < 2 ^ 63) : addInt64 s limit = (s + limit : ℕ) := by
  unfold addInt64
  rw [bmod_int64] <;> omega

theorem nextIndex_eq (h : s + limit < 2 ^ 63) :
    nextIndex limit s data = (min (s + limit) data.length : ℕ) := by
  unfold nextIndex
  rw [addInt64_eq h]
  omega

/-- `ApplyPagination` gives the page that starts at the marker. -/
theorem applyPagination_on (hl : p.limit = some (limit : Int)) (hpos : 0 < limit)
    (hs : startIndex p.marker data = s) (hlt : s < data.length) (hsum : s + limit < 2 ^ 63) :
    ∃ page p', ApplyPagination (some p) data = some (page, some p') ∧ On data limit s page p' := by
  have hne : data ≠ [] := List.ne_nil_of_length_pos (by omega)
  have hmax : max (limit : Int) 0 = limit := by omega
  have hnext : nextIndex limit s data = (min (s + limit) data.length : ℕ) := nextIndex_eq hsum
  refine ⟨(data.take (min (s + limit) data.length)).drop s, describe p limit s data, ?_,
    ?_, rfl, ?_, ?_, ?_⟩
  · simp only [ApplyPagination, hl]
    rw [if_neg hne, hmax, hs, hnext, if_neg (by omega), Int.toNat_natCast]
  · rw [List.drop_take, List.take_eq_take_iff, List.length_drop]
    omega
  · simp only [describe, hnext, decide_eq_true_eq]
    omega
  · have hprevious : (max ((s : Int) - limit) 0).toNat = s - limit := by omega
    have hback : max ((s : Int) - limit) 0 < s ↔ 0 < s := by omega
    simp only [describe, hprevious, hback, idAt]
  · simp only [describe, hnext, Int.toNat_natCast, idAt]
    by_cases hmore : s + limit < data.length
    · rw [if_pos hmore, if_pos (by omega), min_eq_left hmore.le]
    · rw [if_neg hmore, if_neg (by omega)]

/-- With the id of an item as the marker, the page starts at the item. -/
theorem startIndex_idAt (hids : (data.map itemID).Nodup) (hne : ∀ item ∈ data, itemID item ≠ "")
    (hlt : s < data.length) : startIndex (idAt data s) data = s := by
  have hid : idAt data s = itemID data[s] := by simp [idAt, hlt]
  unfold startIndex
  rw [hid, if_neg (hne _ (List.getElem_mem hlt))]
  have hfirst : data.findIdx? (fun item => itemID item = itemID data[s]) = some s := by
    refine List.findIdx?_eq_some_iff_getElem.2 ⟨hlt, by simp, fun j hj => ?_⟩
    have hdiff := List.pairwise_iff_getElem.1 (List.pairwise_map.1 hids) j s (by omega) hlt hj
    simpa using hdiff
  rw [hfirst, Option.getD_some]

theorem On.isPartial_iff {page : List Doc} {p' : Pagination} (h : On data limit s page p')
    (hlt : s < data.length) : p'.isPartial = true ↔ page ≠ data := by
  rw [h.isPartial, h.page]
  constructor
  · intro hpart heq
    have hlen := congrArg List.length heq
    rw [List.length_take, List.length_drop] at hlen
    omega
  · intro hne
    by_contra hn
    obtain ⟨rfl, hle⟩ : s = 0 ∧ data.length ≤ limit := by omega
    exact hne (by rw [List.drop_zero, List.take_of_length_le hle])

end Page

section Visits

/-- What a client gets that starts with a marker and takes `next` for the marker of its next
request, until there is none. -/
def visits (p : Pagination) (data : List Doc) : ℕ → String → Option (List (List Doc × Pagination))
  | 0, _ => none
  | fuel + 1, marker =>
    match ApplyPagination (some { p with marker }) data with
    | some (page, some p') =>
      if p'.next = "" then some [(page, p')]
      else (visits p data fuel p'.next).map ((page, p') :: ·)
    | _ => none

/-- The pages are the whole list, and each of them is described as it is; from each but the first,
`previous` leads back to the one before. -/
structure Complete (p : Pagination) (data : List Doc) (limit : ℕ)
    (pages : List (List Doc × Pagination)) : Prop where
  whole : (pages.map Prod.fst).flatten = data
  short : ∀ v ∈ pages, v.1.length ≤ limit
  total : ∀ v ∈ pages, v.2.total = some (data.length : Int)
  isPartial : ∀ v ∈ pages, v.2.isPartial = true ↔ v.1 ≠ data
  back : pages.IsChain fun v w => ∃ p',
    ApplyPagination (some { p with marker := w.2.previous }) data = some (v.1, some p')

/-- What a client gets from an index on. -/
structure From (p : Pagination) (data : List Doc) (limit s : ℕ)
    (pages : List (List Doc × Pagination)) : Prop where
  head : ∃ v vs, pages = v :: vs ∧ On data limit s v.1 v.2
  whole : (pages.map Prod.fst).flatten = data.drop s
  each : ∀ v ∈ pages, ∃ s < data.length, On data limit s v.1 v.2
  back : pages.IsChain fun v w => ∃ p',
    ApplyPagination (some { p with marker := w.2.previous }) data = some (v.1, some p')

variable {data : List Doc} {p : Pagination} {limit : ℕ}

theorem From.complete {pages : List (List Doc × Pagination)} (h : From p data limit 0 pages) :
    Complete p data limit pages where
  whole := by simpa using h.whole
  short v hv := by
    obtain ⟨s, -, hon⟩ := h.each v hv
    rw [hon.page]
    exact List.length_take_le _ _
  total v hv := by
    obtain ⟨s, -, hon⟩ := h.each v hv
    exact hon.total
  isPartial v hv := by
    obtain ⟨s, hlt, hon⟩ := h.each v hv
    exact hon.isPartial_iff hlt
  back := h.back

section Walk

variable (hl : p.limit = some (limit : Int)) (hpos : 0 < limit) (hmax : limit < 2 ^ 63)
  (hlen : data.length ≤ 2 ^ 61) (hids : (data.map itemID).Nodup)
  (hne : ∀ item ∈ data, itemID item ≠ "")
include hl hpos hmax hlen hids hne

theorem visits_from : ∀ (fuel s : ℕ) (marker : String), data.length - s < fuel →
    s < data.length → s = 0 ∨ limit < data.length → startIndex marker data = s →
    ∃ pages, visits p data fuel marker = some pages ∧ From p data limit s pages
  | 0, s, marker, hfuel, _, _, _ => by omega
  | fuel + 1, s, marker, hfuel, hlt, hfirst, hs => by
    obtain ⟨page, p', happly, hon⟩ := applyPagination_on (p := { p with marker }) hl hpos hs hlt
      (by omega)
    have hstep : visits p data (fuel + 1) marker
        = if p'.next = "" then some [(page, p')]
          else (visits p data fuel p'.next).map ((page, p') :: ·) := by
      simp only [visits, happly]
    rw [hstep, hon.next]
    by_cases hmore : s + limit < data.length
    · have hnext : idAt data (s + limit) ≠ "" := by
        simpa [idAt, hmore] using hne _ (List.getElem_mem hmore)
      obtain ⟨pages, hpages, hfrom⟩ := visits_from fuel (s + limit) (idAt data (s + limit))
        (by omega) hmore (.inr (by omega)) (startIndex_idAt hids hne hmore)
      rw [if_pos hmore, if_neg hnext, hpages, Option.map_some]
      refine ⟨_, rfl, ⟨_, _, rfl, hon⟩, ?_, ?_, ?_⟩
      · rw [List.map_cons, List.flatten_cons, hfrom.whole, hon.page, ← List.drop_drop,
          List.take_append_drop]
      · intro v hv
        rcases List.mem_cons.1 hv with rfl | hv
        · exact ⟨s, hlt, hon⟩
        · exact hfrom.each v hv
      · -- The next page has the id of the first item of this one for its `previous`.
        obtain ⟨w, ws, rfl, hw⟩ := hfrom.head
        refine List.isChain_cons_cons.2 ⟨?_, hfrom.back⟩
        have hprevious : w.2.previous = idAt data s := by
          rw [hw.previous, if_pos (by omega), Nat.add_sub_cancel]
        rw [hprevious]
        obtain ⟨page', p'', happly', hon'⟩ := applyPagination_on
          (p := { p with marker := idAt data s }) hl hpos (startIndex_idAt hids hne hlt) hlt
          (by omega)
        exact ⟨p'', by rw [happly', hon'.page, hon.page]⟩
    · rw [if_neg hmore, if_pos rfl]
      refine ⟨_, rfl, ⟨_, _, rfl, hon⟩, ?_, ?_, .singleton _⟩
      · rw [List.map_singleton, List.flatten_singleton, hon.page, List.take_of_length_le]
        rw [List.length_drop]
        omega
      · intro v hv
        obtain rfl := List.mem_singleton.1 hv
        exact ⟨s, hlt, hon⟩

end Walk

/-- A client that follows `next` through a list of resources with different ids comes to an end, and
gets the whole list, page by page. -/
theorem visits_complete (data : Slice) (p : Pagination)
    (hl : p.limit = some (limit : Int)) (hpos : 1 ≤ limit) (hmax : limit < 2 ^ 63)
    (hids : (data.items.map itemID).Nodup) (hne : ∀ item ∈ data.items, itemID item ≠ "") :
    ∃ pages, visits p data.items (data.items.length + 1) "" = some pages
      ∧ Complete p data.items limit pages := by
  rcases Nat.eq_zero_or_pos data.items.length with hzero | hlt
  · rw [List.length_eq_zero_iff.1 hzero]
    obtain ⟨p', happly, hnext, htotal, hpart⟩ : ∃ p' : Pagination,
        ApplyPagination (some { p with marker := "" }) [] = some ([], some p')
          ∧ p'.next = "" ∧ p'.total = some 0 ∧ p'.isPartial = false := by
      simp only [ApplyPagination, hl, if_true]
      exact ⟨_, rfl, rfl, rfl, rfl⟩
    have hvisits : visits p [] (List.length ([] : List Doc) + 1) "" = some [([], p')] := by
      simp only [visits, happly, hnext, if_true]
    refine ⟨[([], p')], hvisits, rfl, ?_, ?_, ?_, .singleton _⟩
    · simp
    · simpa using htotal
    · simp [hpart]
  · obtain ⟨pages, hpages, hfrom⟩ := visits_from hl hpos hmax data.length_le hids hne
      (data.items.length + 1) 0 "" (by omega) hlt (.inl rfl) rfl
    exact ⟨pages, hpages, hfrom.complete⟩

/-- Five resources. -/
def fiveItems : Slice where
  items := ["a", "b", "c", "d", "e"].map fun id => [("id", .str id)]
  length_le := by decide

theorem fiveItems_complete :
    ∃ pages, visits { limit := some 2 } fiveItems.items 6 "" = some pages
      ∧ Complete { limit := some 2 } fiveItems.items 2 pages :=
  visits_complete fiveItems { limit := some 2 } rfl (by decide) (by decide) (by decide)
    (by decide)

end Visits

end Norman.Handler
