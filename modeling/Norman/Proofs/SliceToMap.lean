import Norman.Mappers

/-!
# Lists as maps

`SliceToMap` makes a list of objects a map of objects by the string that each of them has under a
key, which is taken out of the object; and back. An object without the key, together with the
string, is the object (`item_strip`, `strip_item`), so nothing is lost in either direction, whatever
the order in which the map is gone through.
-/

namespace Norman.FieldMapper.SliceToMap

variable {s : SliceToMap} {data : Doc} {xs : List Value} {x : Value}

section Items

/-- The string that an object has under a key. -/
def nameOf (key : String) : Value → String
  | .map m =>
    match Assoc.get key m with
    | some (.str name) => name
    | _ => ""
  | _ => ""

/-- An object that has a string under the key. -/
def Named (key : String) (x : Value) : Prop :=
  ∃ m name, x = .map m ∧ Assoc.Sorted m ∧ Assoc.get key m = some (.str name)

/-- An object that does not have the key. -/
def Nameless (key : String) (x : Value) : Prop :=
  ∃ m, x = .map m ∧ Assoc.Sorted m ∧ Assoc.get key m = none

/-- The name of an object, and the object without it. -/
def strip (key : String) : Value → String × Value
  | .map m => (nameOf key (.map m), .map (Assoc.erase key m))
  | x => ("", x)

theorem item_strip (h : Named s.Key x) : s.item (strip s.Key x) = some x := by
  obtain ⟨m, name, rfl, hm, hname⟩ := h
  have hback : Assoc.set s.Key (.str name) (Assoc.erase s.Key m) = m := by
    refine Assoc.ext (hm.erase.set) hm fun k => ?_
    rw [Assoc.get_set, Assoc.get_erase]
    split_ifs with hk
    · rw [hk, hname]
    · rfl
  simp only [strip, item, nameOf, hname, hback]

theorem collect_strip (h : Named s.Key x) (result : SortedMap String Value) :
    s.collect result x = result.set (strip s.Key x).1 (strip s.Key x).2 := by
  obtain ⟨m, name, rfl, -, -⟩ := h
  rfl

theorem foldl_collect : ∀ {xs : List Value} {result : SortedMap String Value},
    (∀ x ∈ xs, Named s.Key x) →
      xs.foldl s.collect result = (xs.map (strip s.Key)).foldl (fun r e => r.set e.1 e.2) result
  | [], _, _ => rfl
  | x :: xs, result, h => by
    rw [List.foldl_cons, List.map_cons, List.foldl_cons, collect_strip (h x List.mem_cons_self),
      foldl_collect fun y hy => h y (List.mem_cons_of_mem x hy)]

theorem filterMap_item_strip : ∀ {xs : List Value}, (∀ x ∈ xs, Named s.Key x) →
    (xs.map (strip s.Key)).filterMap s.item = xs
  | [], _ => rfl
  | x :: xs, h => by
    rw [List.map_cons, List.filterMap_cons_some (item_strip (h x List.mem_cons_self)),
      filterMap_item_strip fun y hy => h y (List.mem_cons_of_mem x hy)]

/-- An object gets its name, and loses it again. -/
theorem strip_item {e : String × Value} (h : Nameless s.Key e.2) :
    ∃ x, s.item e = some x ∧ Named s.Key x ∧ strip s.Key x = e := by
  obtain ⟨name, v⟩ := e
  obtain ⟨m, rfl, hm, hnone⟩ := h
  have hname : Assoc.get s.Key (Assoc.set s.Key (.str name) m) = some (.str name) := by
    rw [Assoc.get_set, if_pos rfl]
  have hback : Assoc.erase s.Key (Assoc.set s.Key (.str name) m) = m := by
    refine Assoc.ext (hm.set.erase) hm fun k => ?_
    rw [Assoc.get_erase, Assoc.get_set]
    split_ifs with hk
    · rw [hk, hnone]
    · rfl
  refine ⟨_, rfl, ⟨_, name, rfl, hm.set, hname⟩, ?_⟩
  simp only [strip, nameOf, hname, hback]

theorem exists_items : ∀ {l : List (String × Value)}, (∀ e ∈ l, Nameless s.Key e.2) →
    ∃ xs, l.filterMap s.item = xs ∧ (∀ x ∈ xs, Named s.Key x) ∧ xs.map (strip s.Key) = l
  | [], _ => ⟨[], rfl, by simp, rfl⟩
  | e :: l, h => by
    obtain ⟨x, hitem, hnamed, hstrip⟩ := strip_item (h e List.mem_cons_self)
    obtain ⟨xs, hxs, hall, hmap⟩ := exists_items fun e' he' => h e' (List.mem_cons_of_mem e he')
    refine ⟨x :: xs, ?_, ?_, ?_⟩
    · rw [List.filterMap_cons_some hitem, hxs]
    · intro y hy
      rcases List.mem_cons.1 hy with rfl | hy
      · exact hnamed
      · exact hall y hy
    · rw [List.map_cons, hstrip, hmap]

end Items

section RoundTrips

variable {order : MapOrder} {o : Doc}

theorem map_fst_strip {key : String} (h : ∀ x ∈ xs, Named key x) :
    (xs.map (strip key)).map Prod.fst = xs.map (nameOf key) := by
  rw [List.map_map]
  refine List.map_congr_left fun x hx => ?_
  obtain ⟨m, name, rfl, -, -⟩ := h x hx
  rfl

theorem list_round_trip (hxs : Assoc.get s.Field data = some (.arr xs)) (hne : xs ≠ [])
    (hnamed : ∀ x ∈ xs, Named s.Key x) (hdistinct : (xs.map (nameOf s.Key)).Nodup) :
    ∃ ys : List Value, ys.Perm xs ∧ ∀ k, Assoc.get k (s.ToInternal (s.FromInternal data) order)
      = if k = s.Field then some (.arr ys) else Assoc.get k data := by
  have hperm : (xs.foldl s.collect ∅).entries.Perm (xs.map (strip s.Key)) := by
    rw [foldl_collect hnamed]
    exact SortedMap.perm_foldl_set (by rw [map_fst_strip hnamed]; exact hdistinct)
  generalize hentries : (xs.foldl s.collect ∅).entries = entries at hperm
  have hfrom : s.FromInternal data = Assoc.set s.Field (.map entries) data := by
    simp only [FromInternal, hxs, hentries]
    refine if_neg fun hnil => hne ?_
    rw [hnil, List.nil_perm, List.map_eq_nil_iff] at hperm
    exact hperm
  have hback : ((order.list entries).filterMap s.item).Perm xs := by
    have := ((order.perm entries).trans hperm).filterMap s.item
    rwa [filterMap_item_strip hnamed] at this
  refine ⟨_, hback, fun k => ?_⟩
  have hresult : (order.list entries).filterMap s.item ≠ [] := by
    intro hnil
    rw [hnil, List.nil_perm] at hback
    exact hne hback
  rw [hfrom, ToInternal, Assoc.get_set, if_pos rfl]
  simp only [if_neg hresult]
  rw [Assoc.get_set, Assoc.get_set]
  split_ifs <;> rfl

theorem map_round_trip (ho : Assoc.get s.Field data = some (.map o)) (hsorted : Assoc.Sorted o)
    (hne : o ≠ []) (hnameless : ∀ e ∈ o, Nameless s.Key e.2) (k : String) :
    Assoc.get k (s.FromInternal (s.ToInternal data order)) = Assoc.get k data := by
  have hperm := order.perm o
  obtain ⟨xs, hxs, hnamed, hstrip⟩ :=
    exists_items fun e he => hnameless e (hperm.mem_iff.1 he)
  have hnil : xs ≠ [] := by
    rintro rfl
    rw [← hstrip, List.map_nil, List.nil_perm] at hperm
    exact hne hperm
  have hto : s.ToInternal data order = Assoc.set s.Field (.arr xs) data := by
    simp only [ToInternal, ho, hxs, if_neg hnil]
  have hcollect : (xs.foldl s.collect ∅).entries = o := by
    rw [foldl_collect hnamed, hstrip]
    have hmap := SortedMap.foldl_set_eq_map id ⟨o, hsorted⟩ hperm
    simp only [id] at hmap
    rw [hmap]
    exact List.map_id o
  rw [hto, FromInternal, Assoc.get_set, if_pos rfl]
  simp only [hcollect, if_neg hne]
  rw [Assoc.get_set, Assoc.get_set]
  split_ifs with hk
  · rw [hk, ho]
  · rfl

def byName : SliceToMap := ⟨"disks", "name"⟩

def backwards : MapOrder := ⟨List.reverse, List.reverse_perm⟩

def disks : List Value :=
  [.map [("name", .str "root"), ("size", .str "10Gi")],
    .map [("name", .str "data"), ("size", .str "2Ti")]]

def sizes : Doc :=
  [("data", .map [("size", .str "2Ti")]), ("root", .map [("size", .str "10Gi")])]

/-- A list of objects with distinct strings under the key is the same list after both directions, in
some order, and a map of objects without the key is the same map; everything else stays as it is. -/
theorem sliceToMap_lossless (s : SliceToMap) (order : MapOrder) :
    (∀ (data : Doc) (xs : List Value), Assoc.get s.Field data = some (.arr xs) → xs ≠ [] →
        (∀ x ∈ xs, Named s.Key x) → (xs.map (nameOf s.Key)).Nodup →
        ∃ ys : List Value, ys.Perm xs ∧ ∀ k, Assoc.get k (s.ToInternal (s.FromInternal data) order)
          = if k = s.Field then some (.arr ys) else Assoc.get k data)
      ∧ ∀ (data o : Doc), Assoc.get s.Field data = some (.map o) → Assoc.Sorted o → o ≠ [] →
        (∀ e ∈ o, Nameless s.Key e.2) →
        ∀ k, Assoc.get k (s.FromInternal (s.ToInternal data order)) = Assoc.get k data :=
  ⟨fun _ _ hxs hne hnamed hdistinct => list_round_trip hxs hne hnamed hdistinct,
    fun _ _ ho hsorted hne hnameless => map_round_trip ho hsorted hne hnameless⟩

/-- Two disks by their name, with a map gone through backwards. -/
theorem disks_lossless :
    (∃ ys : List Value, ys.Perm disks ∧ ∀ k,
        Assoc.get k (byName.ToInternal (byName.FromInternal [("disks", .arr disks)]) backwards)
          = if k = "disks" then some (.arr ys) else Assoc.get k [("disks", .arr disks)])
      ∧ ∀ k, Assoc.get k (byName.FromInternal (byName.ToInternal [("disks", .map sizes)] backwards))
          = Assoc.get k [("disks", .map sizes)] :=
  ⟨(sliceToMap_lossless byName backwards).1 _ disks rfl (by decide)
      (by
        intro x hx
        rcases List.mem_pair.1 hx with rfl | rfl
        · exact ⟨_, "root", rfl, by decide, rfl⟩
        · exact ⟨_, "data", rfl, by decide, rfl⟩)
      (by decide),
    (sliceToMap_lossless byName backwards).2 _ sizes rfl (by decide) (by decide)
      (by
        intro e he
        rcases List.mem_pair.1 he with rfl | rfl
        · exact ⟨_, rfl, by decide, rfl⟩
        · exact ⟨_, rfl, by decide, rfl⟩)⟩

end RoundTrips

end Norman.FieldMapper.SliceToMap
