import TextTidy.Css.Tidy
import TextTidy.Http.Envelope
import TextTidy.Http.Route
import TextTidy.Json.Report
import TextTidy.Settings
import TextTidy.Version

/-!
# The HTTP interface

The answer to each request, as a function of the server, the settings and the request. There are
five routes; each answers one method, and tells other origins that they may use it. Beside them
there is a place for files, but no file in it.

The views are the interface's own. What surrounds them, `serve`, `serveFile`, `permit` and
`respond`, is assumed of the framework:

* a path that leads nowhere is answered 404, and one that leads somewhere with its slashes merged is
  answered 308;
* a method that a resource does not allow is answered 405 with the allowed ones, and a request for a
  web socket 400, before any view is asked;
* a question for the methods is answered by the framework itself, and a request for the headers
  alone by the view, whose body is left out;
* a view that fails is answered 500, and every answer on behalf of a route, this one too, gets the
  headers for other origins.
-/

namespace TextTidy.Http

open Json (Value)

/-- An answer. -/
structure Response where
  /-- The status code. -/
  status : Nat
  /-- The JSON body, if there is one. -/
  body : Option Value
  /-- Whether the headers for other origins are set. -/
  shared : Bool
  /-- The methods that are allowed, if the answer tells them. -/
  allow : Option (List String)

/-- The headers that let other origins use the interface. -/
def sharingHeaders : List (String × String) :=
  [("Access-Control-Allow-Origin", "*"), ("Access-Control-Allow-Headers", "Content-Type"),
    ("Access-Control-Allow-Methods", "GET, POST, OPTIONS")]

/-! ## Bodies -/

/-- A JSON string. -/
def string (s : String) : Value := .str (Text.ofString s)

/-- A JSON array of strings. -/
def strings (items : List String) : Value := .list (items.map string)

/-- A JSON object with the given names. -/
def record (members : List (String × Value)) : Value :=
  .obj (members.map fun (name, value) => (Text.ofString name, value))

/-- A view's answer of a status with a body. -/
def reply (status : Nat) (body : Value) : Response := ⟨status, some body, true, none⟩

/-- The answer to a request that lacks something. -/
def refuse (message : String) : Response := reply 400 (record [("error", string message)])

/-- What an outcome looks like in an answer. -/
def outcomeBody (o : Css.Outcome) : Value :=
  record [("kind", string o.kind.name), ("output", .str o.output), ("status", string o.status),
    ("level", string o.level.name), ("fix_log", strings o.fixLog), ("warnings", strings o.warnings),
    ("errors", strings o.errors)]

/-- What a verdict looks like in an answer. -/
def verdictBody (v : Css.Validation) : Value :=
  record [("is_valid", .bool v.isValid), ("errors", strings v.errors),
    ("warnings", strings v.warnings)]

/-- What a report looks like in an answer. -/
def reportBody (r : Json.Report) : Value :=
  record <| [("ok", .bool r.ok), ("message", string r.message), ("output", .str r.output)] ++
    match r.place with
    | none => []
    | some place => [("line", .int place.line), ("column", .int place.column)]

/-- The answer with a report. -/
def replyReport (r : Json.Report) : Response := reply (if r.ok then 200 else 422) (reportBody r)

/-! ## Views -/

/-- The permitted indent that a value is. Only integers are indents here, not even truth values. -/
def indentOf? : Value → Option Indent
  | .int n => Indent.ofInt? n
  | _ => none

/-- The indent that an envelope asks for, or the usual one when it asks for none. The usual one is
    looked at no less closely. -/
def indentField (usual : Value) (value : Option Value) : Option Indent :=
  indentOf? ((value.bind (Json.Value.member? (Text.ofString "indent"))).getD usual)

/-- The view of a route. It fails only where reading JSON exceeds a bound. -/
def view (server : Server) (settings : Settings) (request : Request) :
    Route → Except Json.Limit Response
  | .health => .ok (reply 200 (record [("status", string "ok"), ("version", string version)]))
  | .minifyCss => do
    match textField "css" (← envelope server request) with
    | none => return refuse "css (string) required"
    | some css => return reply 200 (outcomeBody (Css.tidy css))
  | .validateCss => do
    match textField "css" (← envelope server request) with
    | none => return refuse "css (string) required"
    | some css => return reply 200 (verdictBody (Css.validate (Css.stripComments css)))
  | .formatJson => do
    let value ← envelope server request
    match textField "text" value with
    | none => return refuse "text (string) required"
    | some text =>
      match indentField settings.indent value with
      | none => return refuse ("indent must be an integer from 0 to " ++ toString maxIndent)
      | some indent => return replyReport (← Json.format server.levels indent.val text)
  | .validateJson => do
    match textField "text" (← envelope server request) with
    | none => return refuse "text (string) required"
    | some text => return replyReport (← Json.validate server.levels text)

/-! ## Dispatch -/

/-- An answer that is a status alone. -/
def bare (status : Nat) : Response := ⟨status, none, false, none⟩

/-- The answer of a route to a method that it allows. Only a request whose method is `HEAD` as it is
    written gets no body. -/
def serve (server : Server) (settings : Settings) (request : Request) (route : Route) : Response :=
  if Text.upper request.method = "OPTIONS" then
    ⟨200, none, true, some (Resource.route route).allowed⟩
  else
    match view server settings request route with
    | .error _ => ⟨500, none, true, none⟩
    | .ok response => if request.method = "HEAD" then { response with body := none } else response

/-- The answer of the place for files to a method that it allows. -/
def serveFile (request : Request) : Response :=
  if Text.upper request.method = "OPTIONS" then ⟨200, none, false, some Resource.file.allowed⟩
  else bare 404

/-- The answer to a request for a resource, when its method is allowed there and it asks for no web
    socket; other requests are refused. -/
def permit (request : Request) (resource : Resource) (answer : Response) : Response :=
  if Text.upper request.method ∉ resource.allowed then ⟨405, none, false, some resource.allowed⟩
  else if request.socket then bare 400
  else answer

/-- The answer to a request. -/
def respond (server : Server) (settings : Settings) (request : Request) : Response :=
  match Lookup.ofPath request.path with
  | .nowhere => bare 404
  | .detour resource => permit request resource (bare 308)
  | .here (.route route) => permit request (.route route) (serve server settings request route)
  | .here .file => permit request .file (serveFile request)

end TextTidy.Http
