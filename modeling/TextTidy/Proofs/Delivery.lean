import TextTidy.Delivery
import TextTidy.Proofs.FileStore
import TextTidy.Proofs.TerminalEscape

/-!
# What a sink holds after many deliveries

Every text that arrives at a stream is added to those before it, and a file holds the last one
alone. The two differ in what they do with a text: a stream loses its control sequences, also when
nothing but blanks is left of it then, and a file keeps them. Who is told that a delivery failed
finds the sink as it was.
-/

namespace TextTidy

open Text (isBlank dropEscapes)

variable {σ : Type} {sink : Sink σ} {name path label : String} {text : Text}

/-! ## One write -/

/-- A stream that was written holds one line more, which has no control sequences. -/
theorem stream_write_done_iff {held held' : String} :
    (Sink.stream name).write text held = .done held' ↔
      Text.ofString held' = Text.ofString held ++ (dropEscapes text ++ [.char '\n']) := by
  cases hs : (dropEscapes text).toString? with
  | some s =>
    have hline : Text.ofString (held ++ s ++ "\n") =
        Text.ofString held ++ (dropEscapes text ++ [.char '\n']) := by
      rw [Text.toString?_eq_some_iff.mp hs, Text.ofString_append, Text.ofString_append,
        List.append_assoc]
      rfl
    simp only [Sink.stream, hs, Written.done.injEq]
    rw [← hline, Text.ofString_inj, eq_comm]
  | none =>
    simp only [Sink.stream, hs, reduceCtorEq, false_iff]
    intro h
    have hencodable := Text.encodable_ofString held'
    rw [h, Text.encodable_append, Text.encodable_append] at hencodable
    exact Text.toString?_eq_none_iff.mp hs hencodable.2.1

theorem stream_write_ne_failed {held reason : String} :
    (Sink.stream name).write text held ≠ .failed reason := by
  simp only [Sink.stream]
  split <;> simp

theorem exists_stream_write (name : String) (h : Text.Encodable text) (held : String) :
    ∃ held', (Sink.stream name).write text held = .done held' := by
  obtain ⟨s, -, hs⟩ := (Text.encodable_dropEscapes h).exists_string
  refine ⟨held ++ (s ++ "\n"), stream_write_done_iff.mpr ?_⟩
  rw [Text.ofString_append, Text.ofString_append, hs]
  rfl

/-- A file that was written holds the text with its control sequences, as its only line. -/
theorem file_write_done_iff {files files' : FileStore} :
    (Sink.file path).write text files = .done files' ↔
      holdsNul path = false ∧ Text.Encodable text ∧
        ∃ place, files.writable (normalName path) = .ok place ∧
          files' = files.setEntry place (.file (Utf8.encode (text ++ [.char '\n']))) := by
  cases hnul : holdsNul path with
  | true => simp [Sink.file, hnul]
  | false =>
    cases hplace : files.writable (normalName path) with
    | error e => simp [Sink.file, hnul, hplace]
    | ok place =>
      cases hs : text.toString? with
      | none => simp [Sink.file, hnul, hplace, hs, Text.toString?_eq_none_iff.mp hs]
      | some s =>
        obtain rfl := Text.toString?_eq_some_iff.mp hs
        simp [Sink.file, hnul, hplace, hs, Utf8.encodeString_line, eq_comm]

theorem file_write_failed_iff {files : FileStore} {reason : String} :
    (Sink.file path).write text files = .failed reason ↔
      holdsNul path = false ∧ ∃ e, files.writable (normalName path) = .error e ∧
        reason = e.message (normalName path) := by
  cases hnul : holdsNul path with
  | true => simp [Sink.file, hnul]
  | false =>
    cases hplace : files.writable (normalName path) with
    | error e => simp [Sink.file, hnul, hplace, eq_comm]
    | ok place =>
      cases hs : text.toString? <;> simp [Sink.file, hnul, hplace, hs]

/-! ## One delivery -/

/-- A delivery that ends has written text that is not blank, or has left the sink as it was found:
the text was blank, or the write failed. -/
theorem deliver_eq_ok {found : σ} {d : Delivered σ} (h : deliver sink label text found = .ok d) :
    (d.delivery.ok = true ∧ isBlank text = false ∧ sink.write text found = .done d.state) ∨
      (d.delivery.ok = false ∧ d.state = found ∧
        (isBlank text = true ∨ ∃ reason, sink.write text found = .failed reason)) := by
  rw [deliver] at h
  split at h
  · rename_i hblank
    cases h
    exact Or.inr ⟨rfl, rfl, Or.inl hblank⟩
  · rename_i hblank
    split at h
    · rename_i hwrite
      cases h
      exact Or.inl ⟨rfl, eq_false_of_ne_true hblank, hwrite⟩
    · rename_i reason hwrite
      cases h
      exact Or.inr ⟨rfl, rfl, Or.inr ⟨reason, hwrite⟩⟩
    · cases h

theorem deliver_state_of_not_ok {found : σ} {d : Delivered σ}
    (h : deliver sink label text found = .ok d) (hok : d.delivery.ok = false) :
    d.state = found := by
  rcases deliver_eq_ok h with ⟨hdone, -⟩ | ⟨-, hstate, -⟩
  · rw [hok] at hdone
    cases hdone
  · exact hstate

/-- A stream takes every text that has bytes and is not blank. -/
theorem deliver_stream (name label : String) (h : Text.Encodable text) (held : String) :
    ∃ d, deliver (Sink.stream name) label text held = .ok d ∧
      (d.delivery.ok = true ↔ isBlank text = false) := by
  obtain ⟨held', hwrite⟩ := exists_stream_write name h held
  cases hblank : isBlank text with
  | true => exact ⟨_, by rw [deliver, if_pos hblank], by simp⟩
  | false => exact ⟨_, by rw [deliver, if_neg (by simp [hblank]), hwrite], by simp⟩

/-- A file takes them while it can be opened. -/
theorem deliver_file (label : String) (hnul : holdsNul path = false) (h : Text.Encodable text)
    (files : FileStore) :
    ∃ d, deliver (Sink.file path) label text files = .ok d ∧
      (d.delivery.ok = true ↔
        isBlank text = false ∧ ∃ place, files.writable (normalName path) = .ok place) := by
  cases hblank : isBlank text with
  | true => exact ⟨_, by rw [deliver, if_pos hblank], by simp⟩
  | false =>
    cases hplace : files.writable (normalName path) with
    | ok place =>
      have hwrite := file_write_done_iff.mpr ⟨hnul, h, place, hplace, rfl⟩
      exact ⟨_, by rw [deliver, if_neg (by simp [hblank]), hwrite], by simp⟩
    | error e =>
      have hwrite : (Sink.file path).write text files = .failed (e.message (normalName path)) :=
        file_write_failed_iff.mpr ⟨hnul, e, hplace, rfl⟩
      exact ⟨_, by rw [deliver, if_neg (by simp [hblank]), hwrite], by simp⟩

/-! ## Many deliveries -/

/-- A delivery that ended, as its caller knows it. -/
structure Attempt where
  /-- What the text was called. -/
  label : String
  /-- The text. -/
  text : Text
  /-- What the caller was told. -/
  told : Delivery

/-- One delivery after another to a sink, and what it holds then. Between two of them others may
change that, as far as the relation allows. -/
inductive Course (sink : Sink σ) (Drift : σ → σ → Prop) (start : σ) : List Attempt → σ → Prop
  | start : Course sink Drift start [] start
  | deliver {history : List Attempt} {held found : σ} {label : String} {text : Text}
      {d : Delivered σ} :
      Course sink Drift start history held → Drift held found →
      TextTidy.deliver sink label text found = .ok d →
      Course sink Drift start (history ++ [⟨label, text, d.delivery⟩]) d.state

/-- The lines of all texts that are not blank, without control sequences. -/
def linesOf (history : List Attempt) : Text :=
  (history.filter (!isBlank ·.text)).flatMap fun a => dropEscapes a.text ++ [.char '\n']

/-- The last text that is not blank and arrived. -/
def lastArrived? (history : List Attempt) : Option Text :=
  (history.filter fun a => !isBlank a.text && a.told.ok).getLast?.map (·.text)

/-- Whether a file that is opened by a path is the one at a place. -/
def LeadsTo (path : String) (place : List String) (files : FileStore) : Prop :=
  ∀ other, files.writable (normalName path) = .ok other → other = place

/-- What others may do to a tree: anything that leaves the contents of the file at a place alone and
turns the path to it to no other place. They may cut the path off and mend it again. -/
structure LeftAlone (path : String) (place : List String) (before after : FileStore) : Prop where
  contents : after.fileAt? place = before.fileAt? place
  leads : LeadsTo path place before → LeadsTo path place after

theorem LeftAlone.refl (path : String) (place : List String) (files : FileStore) :
    LeftAlone path place files files :=
  ⟨rfl, id⟩

theorem Course.ofString_eq {start held : String} {history : List Attempt}
    (h : Course (Sink.stream name) Eq start history held) :
    Text.ofString held = Text.ofString start ++ linesOf history := by
  induction h with
  | start => simp [linesOf]
  | deliver _ hsame hdeliver ih =>
    subst hsame
    rcases deliver_eq_ok hdeliver with ⟨-, hblank, hwrite⟩ | ⟨-, hstate, hblank | ⟨reason, hwrite⟩⟩
    · rw [stream_write_done_iff.mp hwrite, ih]
      simp [linesOf, hblank]
    · rw [hstate, ih]
      simp [linesOf, hblank]
    · exact absurd hwrite stream_write_ne_failed

theorem Course.fileAt?_eq {place : List String} {start held : FileStore} {history : List Attempt}
    (h : Course (Sink.file path) (LeftAlone path place) start history held)
    (hstart : LeadsTo path place start) :
    LeadsTo path place held ∧
      held.fileAt? place =
        ((lastArrived? history).map fun text => Utf8.encode (text ++ [.char '\n'])).or
          (start.fileAt? place) := by
  induction h with
  | start => exact ⟨hstart, by simp [lastArrived?]⟩
  | deliver _ halone hdeliver ih =>
    obtain ⟨hheld, hcontents⟩ := ih
    have hfound := halone.leads hheld
    rcases deliver_eq_ok hdeliver with ⟨hok, hblank, hwrite⟩ | ⟨hfailed, hstate, -⟩
    · obtain ⟨-, -, other, hother, hwritten⟩ := file_write_done_iff.mp hwrite
      obtain rfl := hfound other hother
      refine ⟨fun other' hother' => ?_, ?_⟩
      · rw [hwritten, FileStore.writable_setEntry hother] at hother'
        exact (Except.ok.inj hother').symm
      · rw [hwritten, FileStore.fileAt?_setEntry hother]
        simp [lastArrived?, hblank, hok]
    · rw [hstate]
      refine ⟨hfound, ?_⟩
      rw [halone.contents, hcontents]
      simp [lastArrived?, hfailed]

/-- After any deliveries a stream holds a line for each text that was not blank, without its control
sequences. The file that a path leads to holds the last such text that arrived, as it is, and what
it held at the start if there is none; meanwhile others may cut the path off and mend it. A delivery
that fails leaves everything as it was found. Texts that have bytes are always delivered to an end:
a blank one fails, and a file takes no text while it cannot be opened. -/
theorem deliveries_accumulate_or_replace :
    (∀ name start history held, Course (Sink.stream name) Eq start history held →
      Text.ofString held = Text.ofString start ++ linesOf history) ∧
    (∀ path place start history held, LeadsTo path place start →
      Course (Sink.file path) (LeftAlone path place) start history held →
      held.fileAt? place =
          ((lastArrived? history).map fun text => Utf8.encode (text ++ [.char '\n'])).or
            (start.fileAt? place) ∧
        ∀ other, held.writable (normalName path) = .ok other →
          held.contents? (normalName path) = held.fileAt? place) ∧
    (∀ {σ : Type} (sink : Sink σ) label text found d, deliver sink label text found = .ok d →
      d.delivery.ok = false → d.state = found) ∧
    (∀ name label text held, Text.Encodable text →
      ∃ d, deliver (Sink.stream name) label text held = .ok d ∧
        (d.delivery.ok = true ↔ isBlank text = false)) ∧
    (∀ path label text files, holdsNul path = false → Text.Encodable text →
      ∃ d, deliver (Sink.file path) label text files = .ok d ∧
        (d.delivery.ok = true ↔
          isBlank text = false ∧ ∃ place, files.writable (normalName path) = .ok place)) := by
  refine ⟨?_, ?_, ?_, ?_, ?_⟩
  · intro name start history held h
    exact h.ofString_eq
  · intro path place start history held hstart h
    obtain ⟨hleads, hcontents⟩ := h.fileAt?_eq hstart
    refine ⟨hcontents, fun other hother => ?_⟩
    obtain rfl := hleads other hother
    exact FileStore.contents?_eq_fileAt? hother
  · intro σ sink label text found d h
    exact deliver_state_of_not_ok h
  · intro name label text held h
    exact deliver_stream name label h held
  · intro path label text files hnul h
    exact deliver_file label hnul h files

/-- A control sequence before a blank is a line of one blank on a stream. A file keeps it, and holds
it still when a later text does not arrive because the path is cut off, or is blank. -/
theorem deliveries_accumulate_or_replace_escapes :
    let coloured := Text.ofString "\x1b[m "
    let made : FileStore := ⟨[(["d"], .directory)], []⟩
    (∃ history held, Course (Sink.stream "stdout") Eq "" history held ∧
      history.map (·.text) = [Text.ofString "a", coloured, Text.ofString " "] ∧
      held = "a\n \n") ∧
    (∃ history held,
      Course (Sink.file "d/../a.css") (LeftAlone "d/../a.css" ["a.css"]) made history held ∧
      history.map (fun a => (a.text, a.told.ok)) =
        [(coloured, true), (Text.ofString "b", false), (Text.ofString " ", false)] ∧
      held.fileAt? ["a.css"] = some (Utf8.encodeString "\x1b[m \n")) := by
  intro coloured made
  obtain ⟨hstream, hfile, -, hends, hfileEnds⟩ := deliveries_accumulate_or_replace
  have hencodable : ∀ s, Text.Encodable (Text.ofString s) := Text.encodable_ofString
  constructor
  · obtain ⟨d₁, h₁, -⟩ := hends "stdout" "minified" _ "" (hencodable "a")
    obtain ⟨d₂, h₂, -⟩ := hends "stdout" "minified" _ d₁.state (hencodable "\x1b[m ")
    obtain ⟨d₃, h₃, -⟩ := hends "stdout" "minified" _ d₂.state (hencodable " ")
    have hstart : Course (Sink.stream "stdout") Eq "" [] "" := .start
    have hcourse := ((hstart.deliver rfl h₁).deliver rfl h₂).deliver rfl h₃
    refine ⟨_, _, hcourse, rfl, Text.ofString_inj.mp ?_⟩
    rw [hstream _ _ _ _ hcourse]
    rfl
  · have hnul : holdsNul "d/../a.css" = false := by decide
    let cut : FileStore := ⟨[(["a.css"], .file (Utf8.encodeString "\x1b[m \n"))], []⟩
    have hopen : made.writable (normalName "d/../a.css") = .ok ["a.css"] := by decide +kernel
    have hcut : cut.writable (normalName "d/../a.css") = .error .noEntry := by decide +kernel
    obtain ⟨d₁, h₁, hok₁⟩ := hfileEnds _ "minified" _ made hnul (hencodable "\x1b[m ")
    obtain ⟨d₂, h₂, hok₂⟩ := hfileEnds _ "minified" _ cut hnul (hencodable "b")
    obtain ⟨d₃, h₃, hok₃⟩ := hfileEnds _ "minified" _ d₂.state hnul (hencodable " ")
    have harrived₁ : d₁.delivery.ok = true := hok₁.mpr ⟨by decide, _, hopen⟩
    have hfailed₂ : d₂.delivery.ok = false := by
      rw [← Bool.not_eq_true, hok₂, hcut]
      simp
    have hfailed₃ : d₃.delivery.ok = false := by
      rw [← Bool.not_eq_true, hok₃]
      exact fun h => absurd h.1 (by decide)
    have hwritten : d₁.state =
        made.setEntry ["a.css"] (.file (Utf8.encode (coloured ++ [.char '\n']))) := by
      rcases deliver_eq_ok h₁ with ⟨-, -, hwrite⟩ | ⟨hfailed, -⟩
      · obtain ⟨-, -, place, hplace, hstate⟩ := file_write_done_iff.mp hwrite
        obtain rfl := Except.ok.inj (hopen.symm.trans hplace)
        exact hstate
      · rw [harrived₁] at hfailed
        cases hfailed
    have hcutOff : LeftAlone "d/../a.css" ["a.css"] d₁.state cut := by
      rw [hwritten]
      refine ⟨by decide +kernel, fun _ other hother => ?_⟩
      rw [hcut] at hother
      cases hother
    have hleads : LeadsTo "d/../a.css" ["a.css"] made := by
      intro other hother
      exact Except.ok.inj (hother.symm.trans hopen)
    have hstart : Course (Sink.file "d/../a.css") (LeftAlone "d/../a.css" ["a.css"]) made [] made :=
      .start
    have hcourse :=
      ((hstart.deliver (.refl _ _ _) h₁).deliver hcutOff h₂).deliver (.refl _ _ _) h₃
    refine ⟨_, _, hcourse, by simp [harrived₁, hfailed₂, hfailed₃, coloured], ?_⟩
    rw [(hfile _ _ _ _ _ hleads hcourse).1]
    simp only [lastArrived?, List.nil_append, List.cons_append, List.filter_cons, harrived₁,
      hfailed₂, hfailed₃]
    rfl

end TextTidy
