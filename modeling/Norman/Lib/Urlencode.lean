import Mathlib.Data.List.TakeWhile
import Mathlib.Data.String.Basic
import Norman.Lib.SortedMap

/-!
# Query strings

`QueryEscape` writes the bytes of a text so that it can stand in the query of a URL, and
`QueryUnescape` reads them again; `ParseQuery` reads the settings `key=value` of a query, as those
functions of Go's `net/url` do. What was written as the only setting is read as that setting
(`ParseQuery_setting`), and what `Encode` wrote of many is read as they were (`ParseQuery_Encode`).
-/

namespace Urlencode

section Escape

/-- A byte that stands for itself. -/
def unreserved (n : ℕ) : Bool :=
  (48 ≤ n && n ≤ 57) || (65 ≤ n && n ≤ 90) || (97 ≤ n && n ≤ 122) || n ∈ [45, 46, 95, 126]

def hexDigit (n : ℕ) : Char := Char.ofNat (if n < 10 then 48 + n else 55 + n)

def escapeByte (b : UInt8) : List Char :=
  if unreserved b.toNat then [Char.ofNat b.toNat]
  else if b.toNat = 32 then ['+']
  else ['%', hexDigit (b.toNat / 16), hexDigit (b.toNat % 16)]

def QueryEscape (s : String) : String := String.ofList (s.toUTF8.data.toList.flatMap escapeByte)

def unhex (c : Char) : Option ℕ :=
  if '0' ≤ c ∧ c ≤ '9' then some (c.toNat - 48)
  else if 'a' ≤ c ∧ c ≤ 'f' then some (c.toNat - 87)
  else if 'A' ≤ c ∧ c ≤ 'F' then some (c.toNat - 55)
  else none

def unescape : List Char → Option (List UInt8)
  | [] => some []
  | c :: l =>
    if c = '%' then
      match l with
      | a :: b :: l =>
        match unhex a, unhex b with
        | some x, some y => (unescape l).map (UInt8.ofNat (16 * x + y) :: ·)
        | _, _ => none
      | _ => none
    else if c = '+' then (unescape l).map (UInt8.ofNat 32 :: ·)
    else (unescape l).map (String.utf8EncodeChar c ++ ·)

/-- `QueryUnescape`, of a text that stands for one in UTF-8. -/
def QueryUnescape (s : List Char) : Option String :=
  (unescape s).bind fun bytes => String.fromUTF8? ⟨bytes.toArray⟩

end Escape

section Parse

/-- The settings of a query. -/
abbrev Values := SortedMap String (List String)

/-- What stands before the first separator, and what behind it. -/
def cut (sep : Char) (l : List Char) : List Char × List Char :=
  (l.takeWhile (· ≠ sep), (l.dropWhile (· ≠ sep)).tail)

/-- One setting is added to those that came before. -/
def addSetting (values : Values) (setting : List Char) :
    Values :=
  if setting = [] ∨ ';' ∈ setting then values
  else
    match QueryUnescape (cut '=' setting).1, QueryUnescape (cut '=' setting).2 with
    | some key, some value => values.set key ((values.get key).getD [] ++ [value])
    | _, _ => values

def ParseQuery (query : String) : Values :=
  (query.toList.splitOn '&').foldl addSetting ∅

def setting (key value : String) : List Char :=
  (QueryEscape key).toList ++ '=' :: (QueryEscape value).toList

/-- `Values.Encode`: the settings by the order of their keys. -/
def Encode (values : Values) : String :=
  String.ofList (['&'].intercalate (values.entries.flatMap fun e => e.2.map (setting e.1)))

end Parse

section RoundTrip

variable {c : Char}

/-- The marks that set off the parts of a URL and of a query. -/
def marks : List Char := ['&', ';', '=', '?', '#']

/-- What there is to know about the bytes, each for itself. -/
theorem bytes_checked : (List.range 256).all (fun n =>
    (!unreserved n || (Char.ofNat n != '%' && Char.ofNat n != '+'
      && String.utf8EncodeChar (Char.ofNat n) == [UInt8.ofNat n]))
    && (escapeByte (UInt8.ofNat n)).all fun c => !marks.contains c) = true := by
  decide +kernel

theorem hexDigits_checked :
    (List.range 16).all (fun n => unhex (hexDigit n) == some n) = true := by
  decide

theorem unhex_hexDigit {n : ℕ} (h : n < 16) : unhex (hexDigit n) = some n := by
  simpa using List.all_eq_true.1 hexDigits_checked n (List.mem_range.2 h)

theorem byte_checked (b : UInt8) :
    (unreserved b.toNat = true → Char.ofNat b.toNat ≠ '%' ∧ Char.ofNat b.toNat ≠ '+'
      ∧ String.utf8EncodeChar (Char.ofNat b.toNat) = [b])
    ∧ ∀ c ∈ escapeByte b, c ∉ marks := by
  have h := List.all_eq_true.1 bytes_checked b.toNat (List.mem_range.2 b.toNat_lt)
  simp only [UInt8.ofNat_toNat, Bool.and_eq_true, Bool.or_eq_true, Bool.not_eq_true',
    bne_iff_ne, beq_iff_eq, List.all_eq_true] at h
  refine ⟨fun hb => ?_, fun c hc => by simpa using h.2 c hc⟩
  rcases h.1 with hn | ⟨⟨h1, h2⟩, h3⟩
  · rw [hb] at hn
    cases hn
  · exact ⟨h1, h2, h3⟩

theorem unescape_plain (hpercent : c ≠ '%') (hplus : c ≠ '+') (l : List Char) :
    unescape (c :: l) = (unescape l).map (String.utf8EncodeChar c ++ ·) := by
  rw [unescape.eq_def]
  simp only [hpercent, hplus, if_false]

theorem unescape_plus (l : List Char) :
    unescape ('+' :: l) = (unescape l).map (UInt8.ofNat 32 :: ·) := by
  have hne : '+' ≠ '%' := by decide
  rw [unescape.eq_def]
  simp only [hne, if_false, if_true]

theorem unescape_percent {a b : Char} {x y : ℕ} (ha : unhex a = some x) (hb : unhex b = some y)
    (l : List Char) :
    unescape ('%' :: a :: b :: l) = (unescape l).map (UInt8.ofNat (16 * x + y) :: ·) := by
  rw [unescape.eq_def]
  simp only [if_true, ha, hb]

theorem unescape_escapeByte (b : UInt8) (l : List Char) :
    unescape (escapeByte b ++ l) = (unescape l).map (b :: ·) := by
  unfold escapeByte
  split_ifs with hplain hblank
  · obtain ⟨h1, h2, h3⟩ := (byte_checked b).1 hplain
    rw [List.singleton_append, unescape_plain h1 h2, h3]
    rfl
  · rw [List.singleton_append, unescape_plus, ← hblank, UInt8.ofNat_toNat]
  · have hlt := b.toNat_lt
    have hsum : 16 * (b.toNat / 16) + b.toNat % 16 = b.toNat := by omega
    rw [List.cons_append, List.cons_append, List.cons_append, List.nil_append,
      unescape_percent (unhex_hexDigit (by omega)) (unhex_hexDigit (by omega)), hsum,
      UInt8.ofNat_toNat]

theorem unescape_flatMap : ∀ bytes : List UInt8, unescape (bytes.flatMap escapeByte) = some bytes
  | [] => rfl
  | b :: bytes => by
    rw [List.flatMap_cons, unescape_escapeByte, unescape_flatMap bytes]
    rfl

theorem QueryUnescape_QueryEscape (s : String) :
    QueryUnescape (QueryEscape s).toList = some s := by
  rw [QueryUnescape, QueryEscape, String.toList_ofList, unescape_flatMap]
  simp only [Option.bind_some, String.fromUTF8?, Option.dite_none_right_eq_some]
  exact ⟨s.isValidUTF8, rfl⟩

theorem not_mem_QueryEscape (s : String) (hc : c ∈ marks) : c ∉ (QueryEscape s).toList := by
  intro h
  rw [QueryEscape, String.toList_ofList] at h
  obtain ⟨b, -, hb⟩ := List.mem_flatMap.1 h
  exact (byte_checked b).2 c hb hc

theorem cut_append {sep : Char} {k v : List Char} (h : sep ∉ k) :
    cut sep (k ++ sep :: v) = (k, v) := by
  have hk : ∀ c ∈ k, decide (c ≠ sep) = true := by
    intro c hc
    simpa using ne_of_mem_of_not_mem hc h
  unfold cut
  rw [List.takeWhile_append_of_pos hk, List.dropWhile_append_of_pos hk]
  simp

theorem cut_of_not_mem {sep : Char} {l : List Char} (h : sep ∉ l) : cut sep l = (l, []) := by
  have hl : ∀ c ∈ l, decide (c ≠ sep) = true := by
    intro c hc
    simpa using ne_of_mem_of_not_mem hc h
  unfold cut
  rw [List.takeWhile_eq_self_iff.2 hl, List.dropWhile_eq_nil_iff.2 hl, List.tail_nil]

theorem not_mem_setting (key value : String) (hc : c ∈ marks) (hne : c ≠ '=') :
    c ∉ setting key value := by
  simp only [setting, List.mem_append, List.mem_cons, not_or]
  exact ⟨not_mem_QueryEscape key hc, hne, not_mem_QueryEscape value hc⟩

theorem addSetting_setting (values : Values) (key value : String) :
    addSetting values (setting key value)
      = values.set key ((values.get key).getD [] ++ [value]) := by
  unfold addSetting
  rw [if_neg, setting, cut_append (not_mem_QueryEscape key (by decide))]
  · simp only [QueryUnescape_QueryEscape]
  · rintro (hnil | hc)
    · simp [setting] at hnil
    · exact not_mem_setting key value (by decide) (by decide) hc

/-- A query with one setting has that setting. -/
theorem ParseQuery_setting (key value : String) :
    ParseQuery (QueryEscape key ++ "=" ++ QueryEscape value)
      = (∅ : Values).set key [value] := by
  have htext : (QueryEscape key ++ "=" ++ QueryEscape value).toList = setting key value := by
    simp [setting]
  rw [ParseQuery, htext,
    List.splitOn_eq_singleton (not_mem_setting key value (by decide) (by decide))]
  exact addSetting_setting _ _ _

/-- The settings of one key, where it has none yet. -/
theorem foldl_addSetting (key : String) : ∀ (vs : List String)
    (values : Values), vs ≠ [] →
    (vs.map (setting key)).foldl addSetting values
      = values.set key ((values.get key).getD [] ++ vs)
  | [], _, h => absurd rfl h
  | [v], values, _ => addSetting_setting values key v
  | v :: w :: vs, values, _ => by
    rw [List.map_cons, List.foldl_cons, addSetting_setting,
      foldl_addSetting key (w :: vs) _ (List.cons_ne_nil _ _)]
    ext k
    by_cases hk : k = key <;> simp [SortedMap.get_set, hk]

theorem foldl_settings : ∀ {l : List (String × List String)}
    {values : Values}, (l.map Prod.fst).Nodup →
    (∀ e ∈ l, values.get e.1 = none ∧ e.2 ≠ []) →
    (l.flatMap fun e => e.2.map (setting e.1)).foldl addSetting values
      = l.foldl (fun r e => r.set e.1 e.2) values
  | [], _, _, _ => rfl
  | e :: l, values, hn, h => by
    rw [List.map_cons, List.nodup_cons] at hn
    obtain ⟨hnone, hne⟩ := h e List.mem_cons_self
    rw [List.flatMap_cons, List.foldl_append, foldl_addSetting _ _ _ hne, hnone,
      foldl_settings hn.2, List.foldl_cons]
    · rfl
    · intro e' he'
      have hdiff : e'.1 ≠ e.1 := fun heq => hn.1 (heq ▸ List.mem_map_of_mem he')
      rw [SortedMap.get_set, if_neg hdiff]
      exact h e' (List.mem_cons_of_mem _ he')

/-- Nothing at all is a setting that is passed over. -/
theorem foldl_splitOn {settings : List (List Char)} (h : ∀ l ∈ settings, '&' ∉ l) :
    ((['&'].intercalate settings).splitOn '&').foldl addSetting ∅
      = settings.foldl addSetting ∅ := by
  by_cases hnil : settings = []
  · subst hnil
    rfl
  · rw [List.splitOn_intercalate '&' h hnil]

/-- Whatever is no separator of settings and in none of them is not in their list. -/
theorem not_mem_intercalate (hc : c ≠ '&') : ∀ {settings : List (List Char)},
    (∀ l ∈ settings, c ∉ l) → c ∉ ['&'].intercalate settings
  | [], _ => by simp
  | [l], h => by simpa using h
  | l :: l' :: rest, h => by
    rw [List.intercalate_cons_cons]
    simp only [List.mem_append, List.mem_singleton, not_or]
    exact ⟨⟨h l List.mem_cons_self, hc⟩,
      not_mem_intercalate hc fun x hx => h x (List.mem_cons_of_mem _ hx)⟩

theorem not_mem_Encode (values : Values) (hc : c ∈ marks)
    (hne : c ≠ '=') (hne' : c ≠ '&') : c ∉ (Encode values).toList := by
  rw [Encode, String.toList_ofList]
  refine not_mem_intercalate hne' fun l hl => ?_
  obtain ⟨e, -, hl⟩ := List.mem_flatMap.1 hl
  obtain ⟨v, -, rfl⟩ := List.mem_map.1 hl
  exact not_mem_setting _ _ hc hne

/-- What was encoded is read as it was, if each key has a value. -/
theorem ParseQuery_Encode {values : Values}
    (h : ∀ key, values.get key ≠ some []) : ParseQuery (Encode values) = values := by
  have hplain : ∀ l ∈ values.entries.flatMap fun e => e.2.map (setting e.1), '&' ∉ l := by
    intro l hl
    obtain ⟨e, -, hl⟩ := List.mem_flatMap.1 hl
    obtain ⟨v, -, rfl⟩ := List.mem_map.1 hl
    exact not_mem_setting _ _ (by decide) (by decide)
  rw [ParseQuery, Encode, String.toList_ofList, foldl_splitOn hplain,
    foldl_settings values.nodup_keys]
  · ext1 key
    rw [SortedMap.get_foldl_set, SortedMap.get_empty, Option.or_none]
  · exact fun e he => ⟨rfl, fun hnil => h e.1 (hnil ▸ SortedMap.mem_entries.1 he)⟩

end RoundTrip

end Urlencode
