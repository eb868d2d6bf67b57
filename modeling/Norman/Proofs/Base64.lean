import Norman.Base64

/-!
# White space at the ends of encoded values

The text in base64 has no white space, but what it encodes may begin or end with some, which is
trimmed before it is encoded again. So the round trip changes such values, and no others.
-/

namespace Norman.Bytes

open Nested

section Trim

variable {s space : List UInt8} {f : List UInt8 → List UInt8}

/-- There is no white space at the start or at the end. -/
def Trimmed (s : List UInt8) : Prop := ∀ space ∈ spaces, ¬ space <+: s ∧ ¬ space <:+ s

instance (s : List UInt8) : Decidable (Trimmed s) :=
  inferInstanceAs (Decidable (∀ space ∈ spaces, ¬ space <+: s ∧ ¬ space <:+ s))

theorem spaces_pos : ∀ space ∈ spaces, 0 < space.length := by decide

theorem dropStart_cases (s : List UInt8) :
    ((∀ space ∈ spaces, ¬ space <+: s) ∧ dropStart s = s)
      ∨ (dropStart s).length < s.length := by
  rcases hfind : spaces.find? (fun space => space.isPrefixOf s) with _ | space
  · refine .inl ⟨fun space hspace => ?_, by rw [dropStart, hfind]⟩
    simpa using List.find?_eq_none.1 hfind space hspace
  · have hpos := spaces_pos space (List.mem_of_find?_eq_some hfind)
    have hpre : space <+: s := by simpa using List.find?_some hfind
    have hle := hpre.length_le
    refine .inr ?_
    simp only [dropStart, hfind, List.length_drop]
    omega

theorem dropEnd_cases (s : List UInt8) :
    ((∀ space ∈ spaces, ¬ space <:+ s) ∧ dropEnd s = s) ∨ (dropEnd s).length < s.length := by
  rcases hfind : spaces.find? (fun space => space.isSuffixOf s) with _ | space
  · refine .inl ⟨fun space hspace => ?_, by rw [dropEnd, hfind]⟩
    simpa using List.find?_eq_none.1 hfind space hspace
  · have hpos := spaces_pos space (List.mem_of_find?_eq_some hfind)
    have hsuf : space <:+ s := by simpa using List.find?_some hfind
    have hle := hsuf.length_le
    refine .inr ?_
    simp only [dropEnd, hfind, List.length_take]
    omega

/-- A step that changes nothing or makes the text shorter, again and again. -/
theorem length_iterate (hf : ∀ s, f s = s ∨ (f s).length < s.length) :
    ∀ (n : ℕ) (s : List UInt8), (f^[n] s).length ≤ s.length
  | 0, s => le_rfl
  | n + 1, s => by
    rw [Function.iterate_succ_apply]
    have hle := length_iterate hf n (f s)
    rcases hf s with heq | hlt
    · rwa [heq] at hle ⊢
    · exact hle.trans hlt.le

/-- After as many rounds as there are bytes, only a text that the step leaves as it is has all its
bytes. -/
theorem iterate_length_eq (hf : ∀ s, f s = s ∨ (f s).length < s.length)
    (h : (f^[s.length] s).length = s.length) : f s = s := by
  rcases hf s with heq | hlt
  · exact heq
  · obtain ⟨n, hn⟩ : ∃ n, s.length = n + 1 := ⟨s.length - 1, by omega⟩
    rw [hn, Function.iterate_succ_apply] at h
    have hle := length_iterate hf n (f s)
    omega

theorem trimSpace_eq_iff : trimSpace s = s ↔ Trimmed s := by
  have hstart : ∀ s, dropStart s = s ∨ (dropStart s).length < s.length :=
    fun s => (dropStart_cases s).imp_left fun h => h.2
  have hend : ∀ s, dropEnd s = s ∨ (dropEnd s).length < s.length :=
    fun s => (dropEnd_cases s).imp_left fun h => h.2
  have hfixed : ∀ s, dropStart s = s → trimSpace s = dropEnd^[s.length] s := by
    intro s hs
    simp only [trimSpace, Function.iterate_fixed hs]
  constructor
  · intro h
    have hlen : (trimSpace s).length = s.length := by rw [h]
    have hs : dropStart s = s := by
      have hle : (trimSpace s).length ≤ (dropStart^[s.length] s).length := length_iterate hend _ _
      exact iterate_length_eq hstart (le_antisymm (length_iterate hstart _ s) (hlen ▸ hle))
    rw [hfixed s hs] at hlen
    have hs' : dropEnd s = s := iterate_length_eq hend hlen
    intro space hspace
    refine ⟨((dropStart_cases s).resolve_right ?_).1 space hspace,
      ((dropEnd_cases s).resolve_right ?_).1 space hspace⟩
    · rw [hs]
      exact lt_irrefl _
    · rw [hs']
      exact lt_irrefl _
  · intro h
    have hs : dropStart s = s := by
      rw [dropStart, List.find?_eq_none.2 fun space hspace => by simpa using (h space hspace).1]
    have hs' : dropEnd s = s := by
      rw [dropEnd, List.find?_eq_none.2 fun space hspace => by simpa using (h space hspace).2]
    rw [hfixed s hs, Function.iterate_fixed hs']

/-- A text in base64 has no white space. -/
theorem trimmed_encode (b : List UInt8) : Trimmed (Base64Codec.encode b) := by
  have hnone : ∀ space ∈ spaces, ∃ c ∈ space, c ∉ Base64Codec.pad :: Base64Codec.alphabet := by
    decide +kernel
  intro space hspace
  obtain ⟨c, hc, hno⟩ := hnone space hspace
  exact ⟨fun h => hno (Base64Codec.mem_encode (h.subset hc)),
    fun h => hno (Base64Codec.mem_encode (h.subset hc))⟩

end Trim

namespace Base64

variable {m : Base64} (env : Env) {data data' : List (String × Datum)} {b s : List UInt8}
  {f : List UInt8 → List UInt8}

theorem ToString_str (s : List UInt8) : ToString env (.str s) = trimSpace s := by
  simp only [ToString, ToStringNoTrim, Singular, env.sprint_str]

/-- A string at the path is changed where it stands. -/
theorem convert_str (hpath : m.path ≠ [])
    (hv : look m.path (Datum.map data) = some (.str s)) (hne : trimSpace s ≠ []) :
    ∃ data', m.convert env f data = some data'
      ∧ look m.path (Datum.map data') = some (.str (f (trimSpace s)))
      ∧ ∀ p, ¬ m.path <+: p → heldAt p (Datum.map data') = heldAt p (Datum.map data) := by
  obtain ⟨data', hput, hlook, hheld⟩ := heldAt_replace (Datum.str (f (trimSpace s))) hpath hv
  refine ⟨data', ?_, hlook, hheld⟩
  have hfst : (remove m.path data).1 = some (.str s) := (remove_fst hpath).trans hv
  rw [convert, ← Prod.mk.eta (p := remove m.path data), hfst]
  simp only [ToString_str, hne, if_false]
  exact hput

/-- A string that is only white space is left out. -/
theorem convert_blank (hpath : m.path ≠ [])
    (hv : look m.path (Datum.map data) = some (.str s)) (hblank : trimSpace s = [])
    (h : m.convert env f data = some data') : look m.path (Datum.map data') = none := by
  have hfst : (remove m.path data).1 = some (.str s) := (remove_fst hpath).trans hv
  rw [convert, ← Prod.mk.eta (p := remove m.path data), hfst] at h
  simp only [ToString_str, hblank, if_true, Option.some.injEq] at h
  rw [← h, ← heldAt_eq_nothing]
  exact (heldAt_remove m.path hpath).trans (if_pos List.prefix_rfl)

/-- The text is there again after both directions, and everything else is as it was. -/
def Preserves (m : Base64) (env : Env) (data : List (String × Datum)) (text : List UInt8) : Prop :=
  ∃ data' data'', m.FromInternal env data = some data' ∧ m.ToInternal env data' = some data''
    ∧ look m.path (Datum.map data'') = some (.str text)
    ∧ ∀ p, heldAt p (Datum.map data'') = heldAt p (Datum.map data)

/-- The round trip of bytes stored in base64: it preserves them if and only if there is no white
space at their ends. -/
theorem preserves_iff (hb : b ≠ [])
    (hv : look m.path (Datum.map data) = some (.str (Base64Codec.encode b))) :
    m.Preserves env data (Base64Codec.encode b) ↔ Trimmed b := by
  have hpath : m.path ≠ [] := by
    intro h
    rw [h] at hv
    cases hv
  have htrim : trimSpace (Base64Codec.encode b) = Base64Codec.encode b :=
    trimSpace_eq_iff.2 (trimmed_encode b)
  have hne : trimSpace (Base64Codec.encode b) ≠ [] := by
    rw [htrim]
    exact fun h => hb (Base64Codec.encode_injective (h.trans Base64Codec.encode_nil.symm))
  obtain ⟨data', hfrom, hlook, hheld⟩ := convert_str env
    (f := fun str => (Base64Codec.decode str).1) hpath hv hne
  rw [htrim, Base64Codec.decode_encode] at hlook
  rw [← trimSpace_eq_iff]
  constructor
  · rintro ⟨data₁, data₂, hfrom₁, hto, htext, -⟩
    rw [FromInternal, hfrom, Option.some.injEq] at hfrom₁
    subst hfrom₁
    by_cases hblank : trimSpace b = []
    · rw [convert_blank env hpath hlook hblank hto] at htext
      cases htext
    · obtain ⟨data'', hto', hlook', -⟩ := convert_str env (f := Base64Codec.encode) hpath
        hlook hblank
      rw [ToInternal, hto', Option.some.injEq] at hto
      subst hto
      rw [hlook', Option.some.injEq, Datum.str.injEq] at htext
      exact Base64Codec.encode_injective htext
  · intro hb'
    obtain ⟨data'', hto, hlook', hheld'⟩ := convert_str env (f := Base64Codec.encode) hpath
      hlook (by rwa [hb'])
    rw [hb'] at hlook'
    refine ⟨data', data'', hfrom, hto, hlook', fun p => ?_⟩
    by_cases hp : m.path <+: p
    · exact heldAt_of_look (hlook'.trans hv.symm) hp
    · rw [hheld' p hp, hheld p hp]

section Secret

/-- A password in the data of a secret. -/
def password : Base64 := ⟨"data/password", ""⟩

/-- Strings only. -/
def stringEnv : Env where
  sprint
    | .str s => s
    | _ => []
  sprint_str _ := rfl

def secret (text : String) : List (String × Datum) :=
  [("data", .map [("password", .str (text.toList.map fun c => UInt8.ofNat c.toNat))])]

theorem password_path : password.path = ["data", "password"] := by decide +kernel

theorem look_password (text : String) : look password.path (Datum.map (secret text))
    = some (.str (text.toList.map fun c => UInt8.ofNat c.toNat)) := by
  rw [password_path]
  rfl

/-- `hello` is kept. -/
theorem hello_preserved : password.Preserves stringEnv (secret "aGVsbG8=")
    (Base64Codec.encode [104, 101, 108, 108, 111]) := by
  refine (preserves_iff stringEnv (by simp) ?_).2 (by decide +kernel)
  rw [look_password, Option.some.injEq, Datum.str.injEq]
  decide +kernel

/-- The text of the password. -/
def textOf (data : List (String × Datum)) : Option (List UInt8) :=
  match look password.path (Datum.map data) with
  | some (.str s) => some s
  | _ => none

/-- `hello` with a line break at its end comes back without it, as another text. -/
theorem line_break_lost :
    textOf (secret "aGVsbG8K") = some (Base64Codec.encode [104, 101, 108, 108, 111, 10])
      ∧ ((password.FromInternal stringEnv (secret "aGVsbG8K")).bind
          (password.ToInternal stringEnv)).bind textOf
        = some (Base64Codec.encode [104, 101, 108, 108, 111])
      ∧ Base64Codec.encode [104, 101, 108, 108, 111]
        ≠ Base64Codec.encode [104, 101, 108, 108, 111, 10] := by
  decide +kernel

end Secret


end Base64

end Norman.Bytes
