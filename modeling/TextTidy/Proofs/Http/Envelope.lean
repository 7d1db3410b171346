import TextTidy.Http.Api
import TextTidy.Proofs.Json.Reformat
import TextTidy.Proofs.Utf8

/-!
# Envelopes that are written and read

A text under a name, laid out as JSON, is an envelope from which the same text is read again. So
every text can be posted, also one with lone surrogates.
-/

namespace TextTidy.Http

open Json (Value)

/-- The envelope with a text under a name. -/
def enclosed (name : String) (s : Text) : Value := .obj [(Text.ofString name, .str s)]

theorem textField_enclosed (name : String) (s : Text) :
    textField name (some (enclosed name s)) = some s := by
  simp [textField, enclosed, Value.member?, Value.text?]

/-- A request that posts a text under a name to a place. -/
def posting (path : Bytes) (name : String) (s : Text) : Request :=
  ⟨"POST", false, path, some "application/json", Utf8.encode (Json.layOut 0 (enclosed name s))⟩

theorem envelope_posting {server : Server} (hlevels : 0 < server.levels)
    (htakes : server.takesJson (some "application/json") = true) (path : Bytes) (name : String)
    (s : Text) : envelope server (posting path name s) = .ok (some (enclosed name s)) := by
  have hregular : ∀ w, Json.Part w (enclosed name s) → w.Regular :=
    Json.part_obj (List.nodup_singleton _) fun m hm => by
      obtain rfl := List.mem_singleton.mp hm
      exact Json.part_scalar trivial (by simp) (by simp)
  have hfinite : (enclosed name s).Finite := Json.finite_obj fun m hm => by
    obtain rfl := List.mem_singleton.mp hm
    exact Json.finite_scalar (by simp) (by simp) (by simp)
  have hdepth : (enclosed name s).depth ≤ server.levels := hlevels
  have hdocument := Json.document_layOut .lenient hregular hfinite hdepth 0
  -- the body begins with three characters of ASCII, so it is taken for UTF-8
  have hdecode : Encoding.decodeAny (Utf8.encode (Json.layOut 0 (enclosed name s))) =
      some (Json.layOut 0 (enclosed name s)) := by
    have hstart : ∃ rest, Utf8.encode (Json.layOut 0 (enclosed name s)) =
        0x7B :: 0x0A :: 0x22 :: rest := ⟨_, rfl⟩
    have hutf8 : ∀ rest, Encoding.decodeAny (0x7B :: 0x0A :: 0x22 :: rest) =
        Utf8.decode (0x7B :: 0x0A :: 0x22 :: rest) := by
      rintro (_ | ⟨d, rest⟩) <;> rfl
    obtain ⟨rest, hrest⟩ := hstart
    rw [hrest, hutf8, ← hrest, Utf8.decode_encode]
  simp only [envelope, posting, htakes, if_true, hdecode, hdocument]

end TextTidy.Http
