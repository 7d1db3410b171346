import TextTidy.Http.Request
import TextTidy.Json.Reader
import TextTidy.Text.Encoding

/-!
# Request envelopes

A request carries its arguments as a JSON object. It is read leniently, in any Unicode encoding, and
only when the content type says that it is JSON.

Which content types do is not for the interface to say, but for the framework that serves it, and
how deep JSON may nest depends on the stack that the framework has left. Both are parameters, and
what is proved of answers holds whatever they are. `Server.standard` has the rule that the framework
is assumed to follow: a content type says that a body is JSON if its media type, which is what
stands before the first semicolon without the spaces and tabs around it, is `application/json` or
begins with `application/` and ends in `+json`, in any letter case. Other white space belongs to the
media type: a form feed beside the name makes it the name of another type.
-/

namespace TextTidy.Http

/-- What the interface runs on, as far as answers depend on it. -/
structure Server where
  /-- How many arrays and objects may stand inside each other in JSON that is read. -/
  levels : Nat
  /-- Whether a body is JSON, by the content type that the request states, if it states one. -/
  takesJson : Option String → Bool

/-! ## Media types -/

/-- Whether a character may surround a media type. -/
def isHeaderBlank (c : Char) : Bool := c == ' ' || c == '\t'

/-- The media type of a content type, with the capital letters of ASCII written small; no other
    letter can make it one of JSON. -/
def mediaType (contentType : String) : List Char :=
  let stated := (contentType.toList.takeWhile (· != ';')).dropWhile isHeaderBlank
  ((stated.reverse.dropWhile isHeaderBlank).reverse).map Char.toLower

/-- Whether a media type is one of JSON. -/
def isJsonType (type : List Char) : Bool :=
  type == "application/json".toList ||
    ("application/".toList.isPrefixOf type && "+json".toList.isSuffixOf type)

/-- A server that tells JSON by the media type. No content type says nothing about a body. -/
def Server.standard (levels : Nat) : Server :=
  ⟨levels, fun contentType => isJsonType (mediaType (contentType.getD ""))⟩

/-! ## Arguments -/

/-- The JSON value that a request carries, if it carries one that can be read. Only a value that is
    nested too deeply makes the request fail. -/
def envelope (server : Server) (request : Request) : Except Json.Limit (Option Json.Value) :=
  if server.takesJson request.contentType then
    match Encoding.decodeAny request.body with
    | none => .ok none
    | some text =>
      match Json.document .lenient server.levels text with
      | .ok value => .ok (some value)
      | .error (.beyond .nesting) => .error .nesting
      | .error _ => .ok none
  else .ok none

/-- The text under a name in an envelope. -/
def textField (name : String) (value : Option Json.Value) : Option Text :=
  (value.bind (Json.Value.member? (Text.ofString name))).bind Json.Value.text?

end TextTidy.Http
