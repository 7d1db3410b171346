import TextTidy.CommandLine.Run
import TextTidy.Proofs.Delivery

/-!
# How a run begins and ends

A command goes on with the text of an input that can be read. What it makes of the text is delivered
at its end: a blank result nowhere, and any other to an output that can be written, unless the
result has no bytes.
-/

namespace TextTidy.CommandLine

open Text (Encodable)

variable {around : Surroundings} {level : LogLevel} {input name : String}
  {destination : Option String} {messages status label : String} {text result : Text}

theorem run_command {arguments : List String} {command : Command}
    (h : readArguments arguments = .ok ⟨level, .command command⟩) :
    run around arguments = command.run around level := by
  rw [run, h]

/-! ## Inputs -/

/-- An input that can be read, with its text. -/
structure Supplies (around : Surroundings) (input : String) (text : Text) : Prop where
  /-- The name can be one of a file. -/
  named : holdsNul input = false
  /-- There are bytes, and they are those of the text but for its line ends. -/
  read : ∃ bytes, inputBytes around input = .ok bytes ∧ inputText? bytes = some text

theorem Supplies.withInput_eq (h : Supplies around input text) (act : Text → Run) :
    withInput around input act = act text := by
  obtain ⟨bytes, hbytes, htext⟩ := h.read
  simp only [withInput, h.named, hbytes, htext, Bool.false_eq_true, if_false]

/-- A text that was read has no lone surrogates. -/
theorem Supplies.encodable (h : Supplies around input text) : Encodable text := by
  obtain ⟨bytes, -, htext⟩ := h.read
  obtain ⟨s, -, rfl⟩ := Option.map_eq_some_iff.mp htext
  exact (Text.encodable_ofString s).unifyLineEnds

/-- Without carriage returns a text is read as it was written. -/
theorem inputText?_encodeString {s : String} (h : '\r' ∉ s.toList) :
    inputText? (Utf8.encodeString s) = some (Text.ofString s) := by
  have hreturn : CodePoint.char '\r' ∉ Text.ofString s := by
    intro hmem
    obtain ⟨c, hc, heq⟩ := List.mem_map.mp hmem
    exact h (CodePoint.char.inj heq ▸ hc)
  rw [inputText?, Utf8.decodeStrict_encodeString, Option.map_some,
    Text.unifyLineEnds_of_not_mem hreturn]

/-! ## Outputs -/

/-- An output that can be written: standard output, or a name by which a file can be written. -/
def Receives (files : FileStore) (destination : Option String) : Prop :=
  ∀ name ∈ destination, holdsNul name = false ∧ ∃ place, files.writable name = .ok place

theorem Receives.withOutput_eq (h : Receives around.files destination) (act : Run) :
    withOutput around destination act = act := by
  cases destination with
  | none => rfl
  | some name =>
    obtain ⟨hnul, place, hplace⟩ := h name rfl
    simp only [withOutput, hnul, FileStore.not_isDirectory_of_writable hplace, Bool.false_eq_true,
      if_false]

/-! ## Results -/

theorem finish_blank (h : Text.isBlank result = true) :
    (finish around level messages status label destination result).ending = .exit 1 ∧
      (finish around level messages status label destination result).files = around.files := by
  cases destination <;> simp [finish, deliver, h]

/-- Standard output has the result without its control sequences, and a line feed. -/
theorem finish_stream (hresult : Encodable result) (h : Text.isBlank result = false) :
    (finish around level messages status label none result).ending = .exit 0 ∧
      Text.ofString (finish around level messages status label none result).output =
        Text.dropEscapes result ++ [.char '\n'] := by
  obtain ⟨held, hwrite⟩ := exists_stream_write "stdout" hresult ""
  have hheld := stream_write_done_iff.mp hwrite
  have hfinish : (finish around level messages status label none result).ending = .exit 0 ∧
      (finish around level messages status label none result).output = held := by
    simp [finish, deliver, h, hwrite]
  exact ⟨hfinish.1, by rw [hfinish.2, hheld]; rfl⟩

/-- A file has the bytes of a result that is not blank, and of a line feed. A result without bytes
leaves the file empty and breaks the run off. -/
theorem finish_file {place : List String} (hnul : holdsNul name = false)
    (hplace : around.files.writable name = .ok place) (h : Text.isBlank result = false) :
    (Encodable result ∧
      (finish around level messages status label (some name) result).ending = .exit 0 ∧
      (finish around level messages status label (some name) result).files =
        around.files.setEntry place (.file (Utf8.encode (result ++ [.char '\n'])))) ∨
    (¬ Encodable result ∧
      (finish around level messages status label (some name) result).ending =
        .crash (.unwritable .unencodable) ∧
      (finish around level messages status label (some name) result).files =
        around.files.setEntry place (.file [])) := by
  have hnormal := FileStore.writable_normalName hplace
  by_cases hresult : Encodable result
  · have hwrite := file_write_done_iff.mpr ⟨hnul, hresult, place, hnormal, rfl⟩
    exact Or.inl ⟨hresult, by simp [finish, deliver, h, hwrite]⟩
  · have hs := Text.toString?_eq_none_iff.mpr hresult
    exact Or.inr ⟨hresult, by simp [finish, deliver, Sink.file, h, hnul, hnormal, hs]⟩

/-- Where the result of a command can arrive, the exit code tells whether there was one. -/
theorem finish_ending (hreceives : Receives around.files destination) (h : Encodable result) :
    (finish around level messages status label destination result).ending =
      .exit (if Text.isBlank result then 1 else 0) := by
  cases hblank : Text.isBlank result with
  | true => exact (finish_blank hblank).1
  | false =>
    cases destination with
    | none => exact (finish_stream h hblank).1
    | some name =>
      obtain ⟨hnul, place, hplace⟩ := hreceives name rfl
      rcases finish_file hnul hplace hblank with ⟨-, hending, -⟩ | ⟨hnot, -⟩
      · exact hending
      · exact absurd h hnot

end TextTidy.CommandLine
