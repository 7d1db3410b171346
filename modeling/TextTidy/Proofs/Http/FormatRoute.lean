import TextTidy.Proofs.Http.Envelope
import TextTidy.Proofs.Http.ReportRoute
import TextTidy.Proofs.Json.Dialect

/-!
# The route that lays JSON out

A request for a layout asks for a text, and for an indent if it states one. The route refuses
exactly the requests whose envelope does not ask for a text with an integer within the bounds, which
is the usual indent when they state none. Settings exist only with a usual indent within the bounds,
but it need not be an integer. With a truth value or a floating-point number the route refuses every
request that does not state an indent of its own.
-/

namespace TextTidy

theorem Indent.ofInt?_eq_some_iff {n : ℤ} {i : Indent} :
    Indent.ofInt? n = some i ↔ (i.val : ℤ) = n := by
  have hbound := i.isLt
  unfold Indent.ofInt?
  split
  · rename_i hpermitted
    rw [Option.some.injEq, Fin.ext_iff]
    simp only
    omega
  · simp only [reduceCtorEq, false_iff]
    omega

/-! ## Settings -/

/-- An indent can be set if it is a truth value or a number within the bounds. -/
theorem indentError?_eq_none_iff {v : Json.Value} :
    indentError? v = none ↔
      (∃ b, v = .bool b) ∨ (∃ n : ℤ, v = .int n ∧ 0 ≤ n ∧ n ≤ maxIndent) ∨
        ∃ x : Binary64, v = .float x ∧ x.isWithin maxIndent = true := by
  cases v <;> simp [indentError?]

namespace Settings

variable {indent : Json.Value} {tcpPort : ℤ} {host levelName : String}

/-- There are settings of an indent that can be set and the name of a log level. -/
theorem exists_make_iff :
    (∃ settings, make indent host tcpPort levelName = .ok settings) ↔
      indentError? indent = none ∧ (LogLevel.ofAnyCase? levelName).isSome = true := by
  unfold make
  split
  · rename_i e he
    simp [he]
  · rename_i he
    split <;> simp [*]

/-- Settings keep the indent that they are made with. -/
theorem indent_eq_of_make {settings : Settings}
    (h : make indent host tcpPort levelName = .ok settings) : settings.indent = indent := by
  unfold make at h
  split at h
  · cases h
  · split at h
    · cases h
      rfl
    · cases h

/-- An indent that is no integer is a truth value or a floating-point number. -/
theorem indent_ne_int_iff (settings : Settings) :
    (¬ ∃ n, settings.indent = .int n) ↔
      (∃ b, settings.indent = .bool b) ∨ ∃ x, settings.indent = .float x := by
  rcases indentError?_eq_none_iff.mp settings.indent_within with ⟨b, hb⟩ | ⟨n, hn, -⟩ | ⟨x, hx, -⟩
  · simp [hb]
  · simp [hn]
  · simp [hx]

end Settings

namespace Http

open Json (Value)
open Json.Grammar (Spells spacing)

variable {server : Server} {settings : Settings} {request : Request}
  {members : List (Text × Value)} {usual : Value} {s : Text} {n : ℤ}

/-! ## Envelopes -/

/-- A request that encloses a value: its content type is taken for one of JSON, and its bytes hold a
    text that spells the value, with spacing around it. -/
def Encloses (server : Server) (request : Request) (v : Value) : Prop :=
  server.takesJson request.contentType = true ∧
    ∃ before body behind,
      Encoding.decodeAny request.body = some (spacing before ++ body ++ spacing behind) ∧
        Spells .lenient server.levels body v

theorem envelope_eq_some_iff {v : Value} :
    envelope server request = .ok (some v) ↔ Encloses server request v := by
  have hencloses : Encloses server request v ↔
      server.takesJson request.contentType = true ∧
        ∃ s, Encoding.decodeAny request.body = some s ∧
          Json.document .lenient server.levels s = .ok v := by
    simp only [Encloses, Json.document_eq_ok_iff]
    grind
  rw [hencloses]
  unfold envelope
  cases server.takesJson request.contentType with
  | false => simp
  | true =>
    cases Encoding.decodeAny request.body with
    | none => simp
    | some s =>
      -- a bound that is exceeded makes the request fail, any other fault leaves it without a value
      rcases hread : Json.document .lenient server.levels s with (_ | _ | (_ | _)) | _ <;>
        simp [hread]

/-- A request encloses one value. -/
theorem Encloses.eq {v w : Value} (hv : Encloses server request v)
    (hw : Encloses server request w) : v = w := by
  have hv := envelope_eq_some_iff.mpr hv
  rw [envelope_eq_some_iff.mpr hw] at hv
  exact (Option.some.inj (Except.ok.inj hv)).symm

theorem Encloses.nodup (h : Encloses server request (.obj members)) :
    (members.map Prod.fst).Nodup := by
  obtain ⟨-, before, body, behind, -, hbody⟩ := h
  exact hbody.nodup

/-! ## What an envelope asks for -/

/-- What the members of an envelope ask for: a text, and an integer within the bounds to lay it out
    with, which is the usual indent, if that is an integer, when they state none. -/
inductive Asks (usual : Value) (members : List (Text × Value)) : Text → ℤ → Prop
  | usual {s : Text} {n : ℤ} (text : (Text.ofString "text", .str s) ∈ members)
      (indent : ∀ v, (Text.ofString "indent", v) ∉ members) (integer : usual = .int n) :
      Asks usual members s n
  | stated {s : Text} {n : ℤ} (text : (Text.ofString "text", .str s) ∈ members)
      (indent : (Text.ofString "indent", .int n) ∈ members) (bounds : 0 ≤ n ∧ n ≤ maxIndent) :
      Asks usual members s n

/-- Every indent that is asked for is permitted, if the usual one is within the bounds. -/
theorem Asks.bounds (h : Asks usual members s n) (hwithin : indentError? usual = none) :
    0 ≤ n ∧ n ≤ maxIndent := by
  cases h with
  | usual text indent integer =>
    rw [integer] at hwithin
    exact indentError?_int_eq_none_iff.mp hwithin
  | stated text indent bounds => exact bounds

theorem textField_obj (hnodup : (members.map Prod.fst).Nodup) (name : String) :
    textField name (some (.obj members)) = some s ↔ (Text.ofString name, .str s) ∈ members := by
  rw [← Json.lookup_eq_some_iff_mem hnodup, textField, Option.bind_some, Value.member?]
  cases members.lookup (Text.ofString name) with
  | none => simp
  | some v => cases v <;> simp [Value.text?]

theorem indentOf?_eq_some_iff {v : Value} {i : Indent} :
    indentOf? v = some i ↔ v = .int i.val := by
  -- no value but an integer is an indent, not even one that equals an integer
  cases v with
  | int n => rw [indentOf?, Indent.ofInt?_eq_some_iff, Value.int.injEq, eq_comm]
  | _ => simp [indentOf?]

theorem indentField_obj (hnodup : (members.map Prod.fst).Nodup) {i : Indent} :
    indentField usual (some (.obj members)) = some i ↔
      ((∀ v, (Text.ofString "indent", v) ∉ members) ∧ usual = .int i.val) ∨
        (Text.ofString "indent", .int i.val) ∈ members := by
  simp only [← Json.lookup_eq_some_iff_mem hnodup, indentField, indentOf?_eq_some_iff,
    Option.bind_some, Value.member?]
  cases members.lookup (Text.ofString "indent") <;> simp

theorem asks_iff (hnodup : (members.map Prod.fst).Nodup) (hwithin : indentError? usual = none) :
    Asks usual members s n ↔
      textField "text" (some (.obj members)) = some s ∧
        ∃ i : Indent, indentField usual (some (.obj members)) = some i ∧ (i.val : ℤ) = n := by
  simp only [textField_obj hnodup, indentField_obj hnodup]
  constructor
  · intro hasks
    obtain ⟨hlow, hhigh⟩ := hasks.bounds hwithin
    obtain ⟨i, rfl⟩ : ∃ i : Indent, (i.val : ℤ) = n :=
      ⟨⟨n.toNat, by omega⟩, Int.toNat_of_nonneg hlow⟩
    cases hasks with
    | usual text indent integer => exact ⟨text, i, Or.inl ⟨indent, integer⟩, rfl⟩
    | stated text indent bounds => exact ⟨text, i, Or.inr indent, rfl⟩
  · rintro ⟨text, i, ⟨indent, integer⟩ | indent, rfl⟩
    · exact .usual text indent integer
    · exact .stated text indent (by omega)

/-- An envelope asks for something permitted if it is an object that does. -/
theorem exists_asks_iff {value : Option Value} (henvelope : envelope server request = .ok value)
    (hwithin : indentError? usual = none) :
    (∃ members, Encloses server request (.obj members) ∧ Asks usual members s n) ↔
      textField "text" value = some s ∧
        ∃ i : Indent, indentField usual value = some i ∧ (i.val : ℤ) = n := by
  constructor
  · rintro ⟨members, hencloses, hasks⟩
    obtain rfl : value = some (.obj members) :=
      Except.ok.inj (henvelope.symm.trans (envelope_eq_some_iff.mpr hencloses))
    exact (asks_iff hencloses.nodup hwithin).mp hasks
  · rintro ⟨htext, hindent⟩
    obtain ⟨members, rfl⟩ : ∃ members, value = some (.obj members) := by
      cases value with
      | none => cases htext
      | some v =>
        cases v with
        | obj members => exact ⟨members, rfl⟩
        | _ => cases htext
    have hencloses := envelope_eq_some_iff.mp henvelope
    exact ⟨members, hencloses, (asks_iff hencloses.nodup hwithin).mpr ⟨htext, hindent⟩⟩

/-! ## Answers -/

/-- A request that is posted to a route. -/
structure PostsTo (request : Request) (route : Route) : Prop where
  method : Text.upper request.method = "POST"
  plain : request.socket = false
  place : Lookup.ofPath request.path = .here (.route route)

theorem PostsTo.respond_of_error (h : PostsTo request .formatJson) {limit : Json.Limit}
    (henvelope : envelope server request = .error limit) :
    respond server settings request = ⟨500, none, true, none⟩ := by
  have hview : view server settings request .formatJson = .error limit := by
    simp only [view, henvelope, bind, Except.bind]
  rw [respond_post h.method h.plain h.place (by decide), hview]

theorem PostsTo.respond_of_ok (h : PostsTo request .formatJson) {value : Option Value}
    (henvelope : envelope server request = .ok value) :
    respond server settings request =
      match textField "text" value, indentField settings.indent value with
      | none, _ => refuse "text (string) required"
      | some _, none => refuse ("indent must be an integer from 0 to " ++ toString maxIndent)
      | some s, some i =>
        match Json.format server.levels i.val s with
        | .ok report => replyReport report
        | .error _ => ⟨500, none, true, none⟩ := by
  rw [respond_post h.method h.plain h.place (by decide)]
  simp only [view, henvelope, bind, Except.bind]
  cases textField "text" value with
  | none => rfl
  | some s =>
    cases indentField settings.indent value with
    | none => rfl
    | some i =>
      simp only
      cases Json.format server.levels i.val s <;> rfl

/-- What is asked for is done, and nothing else is refused. -/
theorem PostsTo.status_eq_400_iff (h : PostsTo request .formatJson) {value : Option Value}
    (henvelope : envelope server request = .ok value) :
    (respond server settings request).status = 400 ↔
      ¬ ∃ members s n, Encloses server request (.obj members) ∧
        Asks settings.indent members s n := by
  have hasked : (∃ members s n, Encloses server request (.obj members) ∧
      Asks settings.indent members s n) ↔
        ∃ s i, textField "text" value = some s ∧ indentField settings.indent value = some i := by
    constructor
    · rintro ⟨members, s, n, hasks⟩
      obtain ⟨htext, i, hindent, -⟩ :=
        (exists_asks_iff henvelope settings.indent_within).mp ⟨members, hasks⟩
      exact ⟨s, i, htext, hindent⟩
    · rintro ⟨s, i, htext, hindent⟩
      obtain ⟨members, hasks⟩ :=
        (exists_asks_iff henvelope settings.indent_within).mpr ⟨htext, i, hindent, rfl⟩
      exact ⟨members, s, i.val, hasks⟩
  rw [hasked, h.respond_of_ok henvelope]
  cases textField "text" value with
  | none => simp [refuse, reply]
  | some s =>
    cases indentField settings.indent value with
    | none => simp [refuse, reply]
    | some i =>
      simp only
      cases Json.format server.levels i.val s with
      | error limit => simp
      | ok report => cases hok : report.ok <;> simp [replyReport, reply, hok]

theorem PostsTo.respond_of_asks (h : PostsTo request .formatJson)
    (hencloses : Encloses server request (.obj members))
    (hasks : Asks settings.indent members s n) :
    respond server settings request =
      match Json.format server.levels n s with
      | .ok report => replyReport report
      | .error _ => ⟨500, none, true, none⟩ := by
  obtain ⟨htext, i, hindent, rfl⟩ :=
    (asks_iff hencloses.nodup settings.indent_within).mp hasks
  rw [h.respond_of_ok (envelope_eq_some_iff.mpr hencloses), htext, hindent]

/-- A request that states no indent asks for something if it has a text and the usual indent is an
    integer. -/
theorem Encloses.exists_asks_iff_of_unstated (hencloses : Encloses server request (.obj members))
    (hindent : ∀ v, (Text.ofString "indent", v) ∉ members) :
    (∃ members s n, Encloses server request (.obj members) ∧ Asks usual members s n) ↔
      (∃ s, (Text.ofString "text", .str s) ∈ members) ∧ ∃ n, usual = .int n := by
  constructor
  · rintro ⟨members', s, n, hencloses', hasks⟩
    cases hencloses'.eq hencloses
    cases hasks with
    | usual text indent integer => exact ⟨⟨s, text⟩, n, integer⟩
    | stated text indent bounds => exact absurd indent (hindent _)
  · rintro ⟨⟨s, text⟩, n, integer⟩
    exact ⟨members, s, n, hencloses, .usual text hindent integer⟩

/-- The route that lays JSON out refuses the requests that do not ask for a text with an integer
within the bounds, and no other ones. What is asked for is laid out with the indent of the request,
or with the usual one if it states none. A request that states none is refused for want of a text,
and also when the usual indent, which is within the bounds, is a truth value or a floating-point
number. A bound of the reader that is exceeded makes the request fail instead. -/
theorem formatting_admits_legal_requests {server : Server} {indent : Value} {tcpPort : ℤ}
    {host levelName : String} {settings : Settings}
    (hmake : Settings.make indent host tcpPort levelName = .ok settings)
    {request : Request} (hpost : PostsTo request .formatJson) :
    ((respond server settings request).status = 400 ↔
      (∀ limit, envelope server request ≠ .error limit) ∧
        ¬ ∃ members s n, Encloses server request (.obj members) ∧ Asks indent members s n) ∧
    (∀ members s n, Encloses server request (.obj members) → Asks indent members s n →
      0 ≤ n ∧ n ≤ 16 ∧
      match Json.format server.levels n s with
      | .ok report =>
        respond server settings request = replyReport report ∧
          (respond server settings request).status = if report.ok then 200 else 422
      | .error _ => (respond server settings request).status = 500) ∧
    (∀ members, Encloses server request (.obj members) →
      (∀ v, (Text.ofString "indent", v) ∉ members) →
      ((respond server settings request).status = 400 ↔
        (∀ s, (Text.ofString "text", .str s) ∉ members) ∨
          (∃ b, indent = .bool b) ∨ ∃ x, indent = .float x)) := by
  obtain rfl := Settings.indent_eq_of_make hmake
  refine ⟨?_, ?_, ?_⟩
  · cases henvelope : envelope server request with
    | error limit =>
      rw [hpost.respond_of_error henvelope]
      simp
    | ok value =>
      rw [hpost.status_eq_400_iff henvelope]
      simp
  · intro members s n hencloses hasks
    obtain ⟨hlow, hhigh⟩ := hasks.bounds settings.indent_within
    refine ⟨hlow, hhigh, ?_⟩
    rw [hpost.respond_of_asks hencloses hasks]
    cases Json.format server.levels n s with
    | ok report => exact ⟨rfl, rfl⟩
    | error limit => rfl
  · intro members hencloses hindent
    rw [hpost.status_eq_400_iff (envelope_eq_some_iff.mpr hencloses),
      hencloses.exists_asks_iff_of_unstated hindent, not_and_or, not_exists,
      settings.indent_ne_int_iff]

/-- An indent that is stated twice counts as it is stated last, and what it was first, here a value
that is no number, does not matter. -/
theorem formatting_admits_legal_requests_repeated_indent :
    let request : Request := ⟨"POST", false, Utf8.encodeString "/api/json/format",
      some "application/vnd.api+json\t; charset=utf-8",
      Utf8.encodeString "\x7b\"indent\":null,\"text\":\"[1]\",\"indent\":4\x7d"⟩
    PostsTo request .formatJson ∧
    ∃ settings, Settings.make (.int 1) "127.0.0.1" 5000 "warning" = .ok settings ∧
      respond (Server.standard 950) settings request = replyReport
        ⟨true, "JSON formatted successfully.", Text.ofString "[\n    1\n]", none⟩ ∧
      (respond (Server.standard 950) settings request).status = 200 := by
  intro request
  have hpost : PostsTo request .formatJson := ⟨by decide, rfl, by decide⟩
  have hread : (envelope (Server.standard 950) request).toOption.map
      (fun value => (textField "text" value, indentField (.int 1) value)) =
        some (some (Text.ofString "[1]"), some 4) := by
    decide +kernel
  have hformat : Json.format 950 4 (Text.ofString "[1]") =
      .ok ⟨true, "JSON formatted successfully.", Text.ofString "[\n    1\n]", none⟩ := by
    decide +kernel
  have hmade : ∃ settings, Settings.make (.int 1) "127.0.0.1" 5000 "warning" = .ok settings :=
    Settings.exists_make_iff.mpr ⟨rfl, by decide⟩
  obtain ⟨settings, hmake⟩ := hmade
  refine ⟨hpost, settings, hmake, ?_⟩
  cases henvelope : envelope (Server.standard 950) request with
  | error limit =>
    rw [henvelope] at hread
    cases hread
  | ok value =>
    rw [henvelope] at hread
    obtain ⟨htext, hindent⟩ := Prod.mk.inj (Option.some.inj hread)
    obtain ⟨members, hencloses, hasks⟩ :=
      (exists_asks_iff henvelope rfl).mpr ⟨htext, 4, hindent, rfl⟩
    have hlegal := (formatting_admits_legal_requests hmake hpost).2.1 members _ 4 hencloses hasks
    have hlevels : (Server.standard 950).levels = 950 := rfl
    rw [hlevels, hformat] at hlegal
    exact hlegal.2.2

/-- A truth value can be set as the indent, and a request that states none is refused for it. -/
theorem truth_value_indent_refuses_request :
    let request := posting (Utf8.encodeString "/api/json/format") "text" (Text.ofString "[1]")
    PostsTo request .formatJson ∧
    Encloses (Server.standard 950) request
      (.obj [(Text.ofString "text", .str (Text.ofString "[1]"))]) ∧
    ∃ settings, Settings.make (.bool true) "127.0.0.1" 5000 "WARNING" = .ok settings ∧
      respond (Server.standard 950) settings request =
        refuse "indent must be an integer from 0 to 16" ∧
      (respond (Server.standard 950) settings request).status = 400 := by
  intro request
  have hpost : PostsTo request .formatJson := ⟨by decide, rfl, by decide⟩
  have henvelope : envelope (Server.standard 950) request =
      .ok (some (enclosed "text" (Text.ofString "[1]"))) :=
    envelope_posting (by decide) (by decide) _ _ _
  have hmade : ∃ settings, Settings.make (.bool true) "127.0.0.1" 5000 "WARNING" = .ok settings :=
    Settings.exists_make_iff.mpr ⟨rfl, by decide⟩
  obtain ⟨settings, hmake⟩ := hmade
  have hrespond : respond (Server.standard 950) settings request =
      refuse "indent must be an integer from 0 to 16" := by
    have hindent : indentField (.bool true) (some (enclosed "text" (Text.ofString "[1]"))) = none :=
      by decide
    rw [hpost.respond_of_ok henvelope, textField_enclosed, Settings.indent_eq_of_make hmake,
      hindent]
    rfl
  exact ⟨hpost, envelope_eq_some_iff.mp henvelope, settings, hmake, hrespond, by rw [hrespond]; rfl⟩

end Http

end TextTidy
