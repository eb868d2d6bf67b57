import Norman.Convert

/-!
# The spelling of keys

`types/convert/convert.go`: a key of a JSON document is made a key of a YAML document, where an
upper case letter is an underscore and the lower case letter, and back. What is known of characters
beyond ASCII is up to Go's `unicode`.
-/

namespace Norman.Convert

/-- Go's `unicode`, and the separators of words in `strings`. -/
structure Unicode where
  isUpper : Char → Bool
  toLower : Char → Char
  toTitle : Char → Char
  isSeparator : Char → Bool
  isUpper_ascii : ∀ c, c.toNat < 128 → isUpper c = c.isUpper
  toLower_ascii : ∀ c, c.toNat < 128 → toLower c = c.toLower
  toTitle_ascii : ∀ c, c.toNat < 128 → toTitle c = c.toUpper
  isSeparator_ascii : ∀ c, c.toNat < 128 → isSeparator c = !(c.isAlphanum || c = '_')

variable (u : Unicode)

/-- The loop of `strings.Title`. -/
def titleFrom (prev : Char) : List Char → List Char
  | [] => []
  | r :: rs => (if u.isSeparator prev then u.toTitle r else r) :: titleFrom r rs

/-- `strings.Title`. -/
def title (s : List Char) : List Char := titleFrom u ' ' s

/-- `strings.Join(parts, "")`, of parts of which all but the first get a title. -/
def joinTitled : List (List Char) → List Char
  | [] => []
  | part :: parts => part ++ (parts.map (title u)).flatten

def ToJSONKey (str : String) : String := String.ofList (joinTitled u (str.toList.splitOn '_'))

/-- The loop of `ToYAMLKey` behind the first character. -/
def yamlFrom (cap : Bool) : List Char → List Char
  | [] => []
  | r :: rs =>
    if u.isUpper r then
      if cap then u.toLower r :: yamlFrom cap rs else '_' :: u.toLower r :: yamlFrom cap rs
    else r :: yamlFrom false rs

def ToYAMLKey (str : String) : String :=
  match str.toList with
  | [] => ""
  | r :: rs => String.ofList (u.toLower r :: yamlFrom u (u.isUpper r) rs)

end Norman.Convert
