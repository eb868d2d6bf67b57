import Norman.Convert
import Norman.Lib.Urlencode
import Norman.Schemas

/-!
# The URL builder

`urlbuilder/url.go`: the links in a response. A link starts with the base, which is what stands
before the path in the URL of the request as the client saw it; then come the path of the version,
the sub-context of the request, and the parts.

A path is what `EscapedPath` gives, and has ASCII characters only.
-/

namespace Norman

open Norman.Types

section Request

/-- What is read of `http.Request`. `urlPath` is `URL.Path`, and `escapedPath` is
`URL.EscapedPath()`. -/
structure Request where
  method : String := "GET"
  tls : Bool := false
  host : String := ""
  urlPath : String
  escapedPath : String
  query : SortedMap String (List String) := ∅
  header : SortedMap String String := ∅
  cookies : SortedMap String String := ∅

/-- `url.Values.Get`. -/
def queryGet (query : SortedMap String (List String)) (key : String) : String :=
  ((query.get key).bind List.head?).getD ""

/-- `http.Header.Get`. -/
def Request.headerGet (r : Request) (key : String) : String := (r.header.get key).getD ""

end Request

namespace Urlbuilder

section Base

variable (r : Request)

def getOverrideHeader (header defaultValue : String) : String :=
  let value := r.headerGet header
  if value ≠ "" then Convert.trimSpace ((split ',' value).headD "") else defaultValue

def getURLFromStandardHeaders : String :=
  let xForwardedProto := getOverrideHeader r "X-Forwarded-Proto" ""
  if xForwardedProto = "" then ""
  else
    let host := getOverrideHeader r "X-Forwarded-Host" ""
    let host := if host = "" then r.host else host
    if host = "" then ""
    else
      let port := getOverrideHeader r "X-Forwarded-Port" ""
      let port := if port = "443" ∨ port = "80" then "" else port
      let host :=
        if port ≠ "" && contains host ":"
            && ((hasPrefix host "[" && contains host "]:") || !hasPrefix host "[") then
          upTo host ((lastIndex host ":").getD 0)
        else host
      let port := if port ≠ "" then ":" ++ port else port
      xForwardedProto ++ "://" ++ host ++ port ++ r.headerGet "X-API-URL-Prefix" ++ r.urlPath

def parseRequestURL : String :=
  let requestURL := getURLFromStandardHeaders r
  if requestURL ≠ "" then requestURL
  else
    let scheme := if r.tls then "https" else "http"
    scheme ++ "://" ++ r.host ++ r.headerGet "X-API-URL-Prefix" ++ r.urlPath

/-- The path stands at the end of the URL. -/
theorem requestURL_ends : ∃ base, parseRequestURL r = base ++ r.urlPath := by
  unfold parseRequestURL
  dsimp only
  split
  · rename_i h
    unfold getURLFromStandardHeaders at h ⊢
    dsimp only at h ⊢
    split_ifs at h ⊢
    · exact absurd rfl h
    · exact absurd rfl h
    all_goals exact ⟨_, rfl⟩
  · exact ⟨_, rfl⟩

/-- `parseResponseURLBase`; `parse` is `url.Parse`, and gives the scheme and the host. -/
def parseResponseURLBase (parse : String → Except String (String × String)) (requestURL : String) :
    Except String String :=
  match lastIndex requestURL r.urlPath with
  | none =>
    match parse requestURL with
    | .error err => .error err
    | .ok (scheme, host) => .ok (scheme ++ "://" ++ host)
  | some index => .ok (upTo requestURL index)

end Base

end Urlbuilder

/-- `urlBuilder`, less what no link of a resource uses. -/
structure UrlBuilder where
  responseURLBase : String
  apiVersion : APIVersion
  subContext : String
  deriving DecidableEq

/-- `types.RawResource`, as a link needs it. -/
structure RawResource where
  id : String
  schema : Schema
  links : SortedMap String String

namespace UrlBuilder

/-- `urlbuilder.New`. -/
def New (parse : String → Except String (String × String)) (r : Request) (version : APIVersion) :
    Except String UrlBuilder :=
  match Urlbuilder.parseResponseURLBase r parse (Urlbuilder.parseRequestURL r) with
  | .error err => .error err
  | .ok responseURLBase => .ok { responseURLBase, apiVersion := version, subContext := "" }

variable (u : UrlBuilder)

def SetSubContext (subContext : String) : UrlBuilder := { u with subContext }

/-- What `constructBasicURL` writes after the base. -/
def constructPath (version : APIVersion) (parts : List String) : String :=
  parts.foldl (fun buffer part => buffer ++ "/" ++ part)
    ((if version.path = "" then u.apiVersion.path else version.path) ++ u.subContext)

def constructBasicURL (version : APIVersion) (parts : List String) : String :=
  if "" ∈ parts then "" else u.responseURLBase ++ u.constructPath version parts

def ResourceLinkByID (schema : Schema) (id : String) : String :=
  u.constructBasicURL schema.version [schema.pluralName, id]

def ResourceLink (resource : RawResource) : String :=
  if resource.id = "" then ""
  else u.constructBasicURL resource.schema.version [resource.schema.pluralName, resource.id]

/-- `Link`; `toLower` is `strings.ToLower`. -/
def Link (toLower : String → String) (linkName : String) (resource : RawResource) : String :=
  if resource.id = "" ∨ linkName = "" then ""
  else match resource.links.get "self" with
    | some self => self ++ "/" ++ toLower linkName
    | none => u.constructBasicURL resource.schema.version
        [resource.schema.pluralName, resource.id, toLower linkName]

/-- `FilterLink`, to the resources that have this value in a field. -/
def FilterLink (schema : Schema) (fieldName value : String) : String :=
  u.constructBasicURL schema.version [schema.pluralName] ++ "?"
    ++ (Urlencode.QueryEscape fieldName ++ "=" ++ Urlencode.QueryEscape value)

end UrlBuilder

end Norman
