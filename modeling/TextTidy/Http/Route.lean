import TextTidy.Http.Path

/-!
# Routes

What the interface has at which path. The paths of the routes and the method of each are the
interface's own. It is assumed of the framework that it finds a route by its exact path, in the same
letter case and without a slash more; that it adds a place for files under `/static/`; that a route
which can be read can be asked for its headers alone, and every one for its methods; and that a path
which leads somewhere only with its slashes merged leads there by a detour.
-/

namespace TextTidy.Http

/-- The routes of the interface. -/
inductive Route where
  | health
  | minifyCss
  | validateCss
  | formatJson
  | validateJson
deriving DecidableEq, Repr

namespace Route

/-- All routes. -/
def all : List Route := [health, minifyCss, validateCss, formatJson, validateJson]

/-- The path of a route. -/
def path : Route → String
  | health => "/api/health"
  | minifyCss => "/api/css/minify"
  | validateCss => "/api/css/validate"
  | formatJson => "/api/json/format"
  | validateJson => "/api/json/validate"

end Route

/-- What can be asked for: a route, or one of the files that may lie beside the interface. -/
inductive Resource where
  | route (route : Route)
  | file
deriving DecidableEq, Repr

namespace Resource

/-- The methods that a resource allows, in alphabetical order. What can be read can be asked for its
    headers alone. -/
def allowed : Resource → List String
  | .route .health => ["GET", "HEAD", "OPTIONS"]
  | .file => ["GET", "HEAD", "OPTIONS"]
  | _ => ["OPTIONS", "POST"]

/-- The directory of the files. -/
def fileDirectory : Bytes := Utf8.encodeString "/static/"

/-- Whether bytes name a file: they do not begin with a slash, and only their first may end a
    line. -/
def isFileName : Bytes → Bool
  | [] => false
  | first :: others => first != slash && !others.contains lineFeed

/-- Whether a path leads to a place for a file. -/
def isFilePath (path : Bytes) : Bool :=
  fileDirectory.isPrefixOf path && isFileName (path.drop fileDirectory.length)

/-- The resource of a path. -/
def at? (path : Bytes) : Option Resource :=
  match Route.all.find? (Utf8.encodeString ·.path == path) with
  | some found => some (.route found)
  | none => if isFilePath path then some .file else none

end Resource

/-- Where a path leads. -/
inductive Lookup where
  | here (resource : Resource)
  | detour (resource : Resource)
  | nowhere
deriving DecidableEq, Repr

/-- Where a path leads, by itself or with its slashes merged. -/
def Lookup.ofPath (path : Bytes) : Lookup :=
  match Resource.at? (rooted path) with
  | some resource => here resource
  | none =>
    match Resource.at? (mergeSlashes (rooted path)) with
    | some resource => detour resource
    | none => nowhere

end TextTidy.Http
