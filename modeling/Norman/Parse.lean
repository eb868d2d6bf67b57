import Norman.Urlbuilder
import Mathlib.Data.List.Sort

/-!
# Parsing a request

`parse/parse.go`, `parse/validate.go` and `parse/browser.go`: the path of a request begins with the
path of an API version, of which the longest counts, and goes on with the type, the id and the link.
Under a version that is a sub-context the first part after the version is the sub-context, such as a
project; `/v3/project` is found under `/v3/projects`, too.

A slice out of its bounds is a panic, and there is no result then.
-/

namespace Norman.Parse

open Norman.Types Httperror

/-- What is called besides the registry: `strings.ToLower`, `url.PathUnescape` and `url.Parse`. -/
structure Net extends Types.Env where
  toLower : String → String
  pathUnescape : String → Option String
  pathUnescape_plain : ∀ s, '%' ∉ s.toList → pathUnescape s = some s
  parseURL : String → Except String (String × String)

section Path

/-- `multiSlashRegexp.ReplaceAllString(path, "/")`. -/
def collapse : List Char → List Char
  | [] => []
  | [c] => [c]
  | c :: d :: cs => if c = '/' ∧ d = '/' then collapse (d :: cs) else c :: collapse (d :: cs)

variable (net : Net) (schemas : Schemas)

/-- The version of this path may be meant: `/v3/cluster` by `/v3/clusters`, but not by
`/v3/clusterstuff`. -/
def matchesVersion (path : String) (version : APIVersion) : Bool :=
  let afterPath := path.toList.drop version.path.toList.length
  hasPrefix path version.path && (afterPath.length < 3 || '/' ∈ afterPath.take 3)

/-- `versionsForPath`: the longest path first. -/
def versionsForPath (path : String) : List APIVersion :=
  (schemas.versions.filter (matchesVersion path)).insertionSort
    fun a b => b.path.toList.length ≤ a.path.toList.length

/-- What `parseVersionAndSubContext` finds. -/
structure Found where
  schemasVersion : Option APIVersion
  version : APIVersion
  prefixed : String
  parts : List String
  subContext : SortedMap String String
  deriving DecidableEq

/-- The first version that has the schema, and its place. -/
def versionOf (versions : List APIVersion) (name : String) : Option (ℕ × APIVersion) :=
  (versions.zipIdx.find? fun v => (schemas.doSchema net.toEnv (some v.1) name).isSome).map Prod.swap

/-- `url.PathUnescape` of each part; one that is not escaped properly stays. -/
def pathParts (escapedPath : String) : List String :=
  let escapedPath :=
    if hasSuffix escapedPath "/" then upTo escapedPath (escapedPath.toList.length - 1)
    else escapedPath
  (split '/' escapedPath).map fun p => (net.pathUnescape p).getD p

/-- The case of a version that is a sub-context, with the next one under it. -/
def parseSubContext (version next : APIVersion) (versions : List APIVersion)
    (parts versionParts : List String) : Found :=
  match parts.drop versionParts.length with
  | [] => ⟨some version, next, "", parts.drop (versionParts.length - 1), ∅⟩
  | [p] =>
    if p = "schema" ∨ p = "schemas" then ⟨none, version, "", [p], ∅⟩
    else ⟨some { version with path := version.path ++ "/" ++ p }, next, "",
      parts.drop (versionParts.length - 1), ∅⟩
  | p :: q :: rest =>
    if p = "schema" ∨ p = "schemas" then ⟨none, version, "", p :: q :: rest, ∅⟩
    else
      let attrs := (∅ : SortedMap String String).set version.subContextSchema p
      match versionOf net schemas versions q with
      | some (_ + 1, v) => ⟨none, v, "", q :: rest, attrs⟩
      | _ => ⟨none, version, "/" ++ p, q :: rest, attrs⟩

/-- `parseVersionAndSubContext`: a panic is the outer `none`, and the inner one that no version
matches. -/
def parseVersionAndSubContext (escapedPath : String) : Option (Option Found) :=
  match versionsForPath schemas escapedPath with
  | [] => some none
  | version :: versions =>
    let versionParts := split '/' version.path
    let parts := pathParts net escapedPath
    if parts.length < versionParts.length then none
    else some <| some <|
      match version.subContext, versions with
      | true, next :: _ =>
        parseSubContext net schemas version next (version :: versions) parts versionParts
      | _, _ => ⟨none, version, "", parts.drop versionParts.length, ∅⟩

/-!
### Index by index

The same functions with every index and every bound of a slice written out, as the source has them;
`Proofs/Segments.lean` says that these do the same.
-/

namespace Indexed

/-- `s[low:]`. -/
def sliceFrom {α : Type} (s : List α) (low : ℤ) : Option (List α) :=
  if 0 ≤ low ∧ low ≤ s.length then some (s.drop low.toNat) else none

/-- `s[:high]`. -/
def sliceTo {α : Type} (s : List α) (high : ℤ) : Option (List α) :=
  if 0 ≤ high ∧ high ≤ s.length then some (s.take high.toNat) else none

/-- The condition of the loop in `versionsForPath`. -/
def near (afterPath : List Char) : Option Bool :=
  if afterPath.length < 3 then some true
  else (sliceTo afterPath 3).map fun first => decide ('/' ∈ first)

/-- One round of the loop. -/
def collect (path : String) (matchedVersion : List APIVersion) (version : APIVersion) :
    Option (List APIVersion) :=
  if hasPrefix path version.path then do
    let afterPath ← sliceFrom path.toList version.path.toList.length
    let near ← near afterPath
    some (if near then matchedVersion ++ [version] else matchedVersion)
  else some matchedVersion

def versionsForPath (schemas : Schemas) (path : String) : Option (List APIVersion) := do
  let matchedVersion ← schemas.versions.foldlM (collect path) []
  some (matchedVersion.insertionSort fun a b => b.path.toList.length ≤ a.path.toList.length)

/-- The path without the slash at its end. -/
def withoutSlash (escapedPath : String) : Option String :=
  if hasSuffix escapedPath "/" then
    (sliceTo escapedPath.toList (escapedPath.toList.length - 1)).map String.ofList
  else some escapedPath

/-- `len(paths) >= 1 && (paths[0] == "schema" || paths[0] == "schemas")`. -/
def forSchemas (paths : List String) : Option Bool :=
  if 1 ≤ paths.length then paths[0]?.map fun p => decide (p = "schema" ∨ p = "schemas")
  else some false

/-- `newVersion`, whose path has the name of the object if there is one. -/
def newVersion (version : APIVersion) (paths : List String) : Option APIVersion :=
  if 0 < paths.length then
    paths[0]?.map fun p => { version with path := version.path ++ "/" ++ p }
  else some version

variable (net : Net) (schemas : Schemas)

/-- What follows the special case of the schemas. -/
def inContext (versions : List APIVersion) (version : APIVersion)
    (pathParts versionParts paths : List String) : Option Found :=
  if paths.length < 2 then do
    let newVersion ← newVersion version paths
    let next ← versions[1]?
    let parts ← sliceFrom pathParts (versionParts.length - 1)
    some ⟨some newVersion, next, "", parts, ∅⟩
  else do
    let name ← paths[0]?
    let attrs := (∅ : SortedMap String String).set version.subContextSchema name
    let typeName ← paths[1]?
    let parts ← sliceFrom paths 1
    some <| match versionOf net schemas versions typeName with
    | some (_ + 1, v) => ⟨none, v, "", parts, attrs⟩
    | _ => ⟨none, version, "/" ++ name, parts, attrs⟩

def parseVersionAndSubContext (escapedPath : String) : Option (Option Found) := do
  let versions ← versionsForPath schemas escapedPath
  if versions.length = 0 then some none
  else do
    let version ← versions[0]?
    let escapedPath ← withoutSlash escapedPath
    let versionParts := split '/' version.path
    let pathParts := (split '/' escapedPath).map fun p => (net.pathUnescape p).getD p
    let paths ← sliceFrom pathParts versionParts.length
    if !version.subContext || versions.length < 2 then some (some ⟨none, version, "", paths, ∅⟩)
    else do
      let forSchemas ← forSchemas paths
      if forSchemas then some (some ⟨none, version, "", paths, ∅⟩)
      else (inContext net schemas versions version pathParts versionParts paths).map some

end Indexed

end Path

section URL

structure ParsedURL where
  version : Option APIVersion := none
  schemasVersion : Option APIVersion := none
  type : String := ""
  id : String := ""
  link : String := ""
  method : String := ""
  action : String := ""
  subContext : SortedMap String String := ∅
  subContextPrefix : String := ""
  query : SortedMap String (List String) := ∅

def safeIndex (slice : List String) (index : ℕ) : String := slice.getD index ""

/-- `safeIndex`, with the index. -/
def Indexed.safeIndex (slice : List String) (index : ℕ) : Option String :=
  if slice.length ≤ index then some "" else slice[index]?

def parseAction (query : SortedMap String (List String)) : String × String :=
  let action := queryGet query "action"
  if action = "remove" then ("", "DELETE") else (action, "")

variable (net : Net) (schemas : Schemas)

/-- `DefaultURLParser`, which has no errors. -/
def DefaultURLParser (escapedPath : String) (query : SortedMap String (List String)) :
    Option ParsedURL :=
  (parseVersionAndSubContext net schemas (String.ofList (collapse escapedPath.toList))).map
    fun found => match found with
    | none => {}
    | some found =>
      { version := some found.version
        schemasVersion := found.schemasVersion
        subContext := found.subContext
        subContextPrefix := found.prefixed
        action := (parseAction query).1
        method := (parseAction query).2
        query := query
        type := safeIndex found.parts 0
        id := safeIndex found.parts 1
        link := safeIndex found.parts 2 }

/-- `DefaultURLParser`, index by index. -/
def Indexed.DefaultURLParser (escapedPath : String) (query : SortedMap String (List String)) :
    Option ParsedURL := do
  let found ←
    Indexed.parseVersionAndSubContext net schemas (String.ofList (collapse escapedPath.toList))
  match found with
  | none => some {}
  | some found => do
    let type ← Indexed.safeIndex found.parts 0
    let id ← Indexed.safeIndex found.parts 1
    let link ← Indexed.safeIndex found.parts 2
    some
      { version := some found.version
        schemasVersion := found.schemasVersion
        subContext := found.subContext
        subContextPrefix := found.prefixed
        action := (parseAction query).1
        method := (parseAction query).2
        query := query
        type := type
        id := id
        link := link }

end URL

section Context

/-- `types.APIContext`, as far as parsing sets it and the server reads it. `Lookup` of a
`ReferenceValidator` gives the names of the actions of a resource. -/
structure APIContext where
  action : String := ""
  id : String := ""
  type : String := ""
  link : String := ""
  method : String := ""
  schema : Option Schema := none
  version : Option APIVersion := none
  schemasVersion : Option APIVersion := none
  query : SortedMap String (List String) := ∅
  responseFormat : String := ""
  referenceValidator : Option (String → String → Option (List String)) := none
  subContext : SortedMap String String := ∅
  urlBuilder : Option UrlBuilder := none
  request : Request

variable (net : Net) (schemas : Schemas)

/-- `builtin.Version`. -/
def builtinVersion : APIVersion := { group := "meta.cattle.io", version := "v1", path := "/meta" }

/-- `DefaultResolver`. -/
def DefaultResolver (typeName : String) (apiContext : APIContext) : APIContext :=
  if typeName = "" then apiContext
  else
    let schema := schemas.doSchema net.toEnv apiContext.version typeName
    let schema :=
      if schema = none ∧ (typeName = "schema" ∨ typeName = "schemas") then
        schemas.doSchema net.toEnv (some builtinVersion) typeName
      else schema
    match schema with
    | none => apiContext
    | some schema => { apiContext with schema := some schema }

def ValidateMethod (request : APIContext) : Option Err :=
  let notSupported := some
    (NewAPIError MethodNotAllowed ("Method " ++ request.method ++ " not supported"))
  if request.action ≠ "" ∧ request.method = "POST" then none
  else if request.method ∉ ["POST", "GET", "PUT", "DELETE"] then notSupported
  else if request.type = "" ∨ request.link ≠ "" then none
  else
    match request.schema with
    | none => none
    | some schema =>
      let allowed := if request.id = "" then schema.collectionMethods else schema.resourceMethods
      if request.method ∈ allowed then none else notSupported

def IsBrowser (req : Request) (checkAccepts : Bool) : Bool :=
  let accepts := net.toLower (req.headerGet "Accept")
  let userAgent := net.toLower (req.headerGet "User-Agent")
  let accepts := if accepts = "" || !checkAccepts then "*/*" else accepts
  contains userAgent "mozilla" && contains accepts "*/*"

def parseResponseFormat (req : Request) : String :=
  let format := queryGet req.query "_format"
  let format := if format ≠ "" then Convert.trimSpace (net.toLower format) else format
  if format ∈ ["html", "json", "yaml"] then format
  else if IsBrowser net req true then "html"
  else if contains (req.headerGet "Accept") "application/yaml" then "yaml"
  else "json"

def parseMethod (req : Request) : String :=
  let method := queryGet req.query "_method"
  if method = "" then req.method else method

set_option linter.dupNamespace false in
/-- `Parse`, with `DefaultURLParser` and `DefaultResolver`. -/
def Parse (req : Request) : Option (APIContext × Option Err) :=
  (DefaultURLParser net schemas req.escapedPath req.query).map fun parsedURL =>
    let apiRoot := schemas.doSchema net.toEnv (some builtinVersion) "apiRoot"
    let result : APIContext :=
      { request := req
        responseFormat := parseResponseFormat net req
        subContext := parsedURL.subContext
        type := parsedURL.type
        id := parsedURL.id
        link := parsedURL.link
        action := parsedURL.action
        query := parsedURL.query
        method := if parsedURL.method ≠ "" then parsedURL.method else parseMethod req
        version := parsedURL.version
        schemasVersion := parsedURL.schemasVersion }
    let New := UrlBuilder.New net.parseURL req
    match parsedURL.version with
    | none =>
      ({ result with
          method := "GET"
          urlBuilder := (New { version := "", path := "" }).toOption
          type := "apiRoot"
          schema := apiRoot }, none)
    | some version =>
      match New version with
      | .error err => (result, some (.std err))
      | .ok urlBuilder =>
        let urlBuilder :=
          if parsedURL.subContextPrefix ≠ "" then
            urlBuilder.SetSubContext parsedURL.subContextPrefix
          else urlBuilder
        let result := DefaultResolver net schemas result.type
          { result with urlBuilder := some urlBuilder }
        match result.schema with
        | none =>
          ({ result with
              method := "GET"
              type := "apiRoot"
              schema := apiRoot
              id := version.path },
            if result.type ≠ "" then
              some (NewAPIError NotFound ("failed to find schema " ++ result.type))
            else none)
        | some schema =>
          let result := { result with type := schema.id }
          (result, ValidateMethod result)

end Context

end Norman.Parse
