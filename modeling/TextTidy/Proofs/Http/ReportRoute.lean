import TextTidy.Http.Api
import TextTidy.Proofs.Json.Limit

/-!
# Routes that answer with a report on JSON

What a posted text makes of the answer. A text that exceeds a bound of the reader makes the request
fail, and no other text does.
-/

namespace TextTidy.Http

open Json (Overstrains parse)
open Json.Grammar (Character Document)

/-- A request that posts a text to a route for JSON, with an indent that is allowed if the route
    wants one. -/
structure Posts (server : Server) (settings : Settings) (request : Request) (route : Route)
    (s : Text) : Prop where
  method : Text.upper request.method = "POST"
  plain : request.socket = false
  place : Lookup.ofPath request.path = .here (.route route)
  report : route = .formatJson ∨ route = .validateJson
  carries : ∃ value, envelope server request = .ok value ∧ textField "text" value = some s ∧
    (route = .formatJson → indentField settings.indent value ≠ none)

variable {server : Server} {settings : Settings} {request : Request} {route : Route} {s : Text}

/-- An allowed method other than a question for the methods is answered by the view of the route. -/
theorem respond_post (hmethod : Text.upper request.method = "POST")
    (hplain : request.socket = false)
    (hplace : Lookup.ofPath request.path = .here (.route route))
    (hallowed : "POST" ∈ (Resource.route route).allowed) :
    respond server settings request =
      match view server settings request route with
      | .error _ => ⟨500, none, true, none⟩
      | .ok response => response := by
  have hhead : request.method ≠ "HEAD" := by
    intro heq
    rw [heq] at hmethod
    revert hmethod
    decide
  have hquestion : Text.upper request.method ≠ "OPTIONS" := by
    rw [hmethod]
    decide
  rw [← hmethod] at hallowed
  simp only [respond, hplace, permit, hallowed, not_true_eq_false, if_false, hplain,
    Bool.false_eq_true, serve, hquestion]
  cases view server settings request route with
  | error limit => rfl
  | ok response => simp only [hhead, if_false]

/-- The answer to a text posted for a verdict is the verdict on it. -/
theorem Posts.respond_validate (h : Posts server settings request .validateJson s) :
    respond server settings request =
      match Json.validate server.levels s with
      | .error _ => ⟨500, none, true, none⟩
      | .ok report => replyReport report := by
  obtain ⟨value, henvelope, htext, -⟩ := h.carries
  have hview : view server settings request .validateJson =
      (Json.validate server.levels s).map replyReport := by
    simp only [view, henvelope, htext, bind, Except.bind]
    cases Json.validate server.levels s <;> rfl
  rw [respond_post h.method h.plain h.place (by decide), hview]
  cases Json.validate server.levels s <;> rfl

/-- The answer to a posted text is the report on it, as `accept` writes it. -/
theorem Posts.respond_eq (h : Posts server settings request route s) :
    ∃ accept : Json.Value → Json.Report, (∀ v, (accept v).ok = true) ∧
      respond server settings request =
        match Json.reportWith server.levels accept s with
        | .error _ => ⟨500, none, true, none⟩
        | .ok report => replyReport report := by
  rcases h.report with rfl | rfl
  · obtain ⟨value, henvelope, htext, hindent⟩ := h.carries
    obtain ⟨indent, hindent⟩ := Option.ne_none_iff_exists'.mp (hindent rfl)
    have hview : view server settings request .formatJson =
        (Json.format server.levels indent.val s).map replyReport := by
      simp only [view, henvelope, htext, hindent, bind, Except.bind]
      cases Json.format server.levels indent.val s <;> rfl
    refine ⟨fun v => ⟨true, "JSON formatted successfully.", Json.layOut indent.val v, none⟩,
      fun v => rfl, ?_⟩
    rw [respond_post h.method h.plain h.place (by decide), hview, Json.format]
    cases Json.reportWith _ _ s <;> rfl
  · exact ⟨fun v => ⟨true, "JSON is valid.", [], none⟩, fun v => rfl, h.respond_validate⟩

/-- The status says what reading the text came to. -/
theorem Posts.status_eq (h : Posts server settings request route s) :
    (respond server settings request).status =
      match parse server.levels s with
      | .ok _ => 200
      | .error (.refused _) => 422
      | .error (.beyond _) => 500 := by
  obtain ⟨accept, haccept, hrespond⟩ := h.respond_eq
  rw [hrespond, Json.reportWith]
  cases parse server.levels s with
  | ok v => simp [replyReport, reply, haccept]
  | error e =>
    cases e with
    | refused reason => cases reason <;> rfl
    | beyond limit => rfl

/-- Reading gives up exactly on the texts that exceed a bound of the reader. Every other text has a
    value or is refused, is reported on, and is answered with a status for one or the other. -/
theorem fails_only_beyond_limits (server : Server) (s : Text) :
    (∀ limit, parse server.levels s = .error (.beyond limit) ↔
      Overstrains server.levels s limit) ∧
    (((∃ v, parse server.levels s = .ok v) ∨
        ∃ reason, parse server.levels s = .error (.refused reason)) ↔
      ∀ limit, ¬ Overstrains server.levels s limit) ∧
    (∀ indent, (∃ report, Json.format server.levels indent s = .ok report) ↔
      ∀ limit, ¬ Overstrains server.levels s limit) ∧
    ((∃ report, Json.validate server.levels s = .ok report) ↔
      ∀ limit, ¬ Overstrains server.levels s limit) ∧
    ∀ (settings : Settings) (request : Request) (route : Route),
      Posts server settings request route s →
      ((respond server settings request).status = 200 ↔ ∃ v, parse server.levels s = .ok v) ∧
      ((respond server settings request).status = 422 ↔
        ∃ reason, parse server.levels s = .error (.refused reason)) ∧
      ((respond server settings request).status = 500 ↔
        ∃ limit, Overstrains server.levels s limit) := by
  refine ⟨fun limit => Json.parse_eq_beyond_iff, Json.read_or_refused_iff,
    fun indent => Json.reportWith_ok_iff _, Json.reportWith_ok_iff _, ?_⟩
  intro settings request route h
  rw [h.status_eq]
  simp only [← Json.parse_eq_beyond_iff]
  cases parse server.levels s with
  | ok v => simp
  | error e => cases e <;> simp

/-- A request for the verdict on the number one. -/
theorem fails_only_beyond_limits_number :
    let request : Request := ⟨"POST", false, Utf8.encodeString "/api/json/validate",
      some "application/json", Utf8.encodeString "\x7b\"text\":\"1\"\x7d"⟩
    Posts (Server.standard 950) Settings.standard request .validateJson (Text.ofString "1") ∧
      (respond (Server.standard 950) Settings.standard request).status = 200 := by
  intro request
  let t : Character := .plain (.char 't') (by decide) (by decide) (by decide)
  let e : Character := .plain (.char 'e') (by decide) (by decide) (by decide)
  let x : Character := .plain (.char 'x') (by decide) (by decide) (by decide)
  let one : Character := .plain (.char '1') (by decide) (by decide) (by decide)
  let body : Document :=
    ⟨[], .object (.last [] [t, e, x, t] [] [] (.string [one]) []), []⟩
  have hbody : Json.document .lenient 950 (Text.ofString "\x7b\"text\":\"1\"\x7d") =
      .ok body.value :=
    Json.document_text .lenient (Json.fits_of_length (d := body) (by decide) (by decide))
  have henvelope : envelope (Server.standard 950) request = .ok (some body.value) := by
    have htakes : (Server.standard 950).takesJson request.contentType = true := by decide
    have hlevels : (Server.standard 950).levels = 950 := rfl
    have hdecode : Encoding.decodeAny request.body =
        some (Text.ofString "\x7b\"text\":\"1\"\x7d") := by decide
    simp only [envelope, htakes, if_true, hdecode, hlevels, hbody]
  have hposts : Posts (Server.standard 950) Settings.standard request .validateJson
      (Text.ofString "1") :=
    ⟨by decide, rfl, by decide, Or.inr rfl, some body.value, henvelope, rfl, fun h => by cases h⟩
  have hparse : parse 950 (Text.ofString "1") = .ok (.int 1) := by
    let number : Document := ⟨[], .number ⟨false, .other ⟨'1', rfl⟩ (by decide) [], none, none⟩, []⟩
    exact Json.parse_eq_ok_iff.mpr ⟨number, rfl, rfl,
      Json.fits_of_length (by decide) (by decide)⟩
  have hanswer :=
    (fails_only_beyond_limits (Server.standard 950) (Text.ofString "1")).2.2.2.2 _ _ _ hposts
  exact ⟨hposts, hanswer.1.mpr ⟨.int 1, hparse⟩⟩

/-- An integer of one digit more than the reader takes is neither read nor refused. -/
theorem long_integer_neither_read_nor_refused :
    ¬ ((∃ v, parse 950 (List.replicate 4301 (.char '1')) = .ok v) ∨
      ∃ reason, parse 950 (List.replicate 4301 (.char '1')) = .error (.refused reason)) := by
  intro h
  have hlimit : Text.maxIntegerDigits < 4301 := by decide
  exact Json.read_or_refused_iff.mp h _ (Json.overstrains_ones hlimit)

end TextTidy.Http
