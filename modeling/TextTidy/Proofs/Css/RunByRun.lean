import TextTidy.Proofs.Css.Head
import TextTidy.Proofs.Css.Unclosed

/-!
# The semicolon pass, run by run

The search for unterminated declarations comes to this: the text is cut into runs, the head colon of
each run is looked up, and from it and the delimiter behind the run follows the one place where the
run gets a semicolon, if it gets any. Places are counted from the start of the run.
-/

namespace TextTidy.Css

/-! ## Runs and their places -/

/-- A run of a text, with the delimiter behind it; the last run has none. -/
structure Run where
  /-- The run. -/
  text : Text
  /-- The delimiter behind it. -/
  next : Option CodePoint
deriving DecidableEq, Repr

/-- The part of the text that a run stands for. -/
def Run.source (r : Run) : Text := r.text ++ r.next.toList

/-- The run with a character in front of it. -/
def Run.put (c : CodePoint) (r : Run) : Run := { r with text := c :: r.text }

/-- The runs of a text, from left to right. -/
def runs : Text → List Run
  | [] => [⟨[], none⟩]
  | c :: rest =>
    if isDelimiter c then ⟨[], some c⟩ :: runs rest else (runs rest).modifyHead (.put c)

/-- Whether a colon stands at a place and, blanks aside, a character of a name before it. -/
def colonAt (run : Text) (p : Nat) : Bool :=
  run[p]? == some (.char ':') && (Text.trimEnd (run.take p)).getLast?.any isNameChar

/-- The place of the head colon of a run, which is the first such colon. -/
def headColon? (run : Text) : Option Nat := (List.range run.length).find? (colonAt run)

/-- Whether a blank stands at a place and a property name with its colon right behind it. -/
def propertyAt (run : Text) (q : Nat) : Bool :=
  run[q]?.any CodePoint.isBlank && propertyFollows (run.drop (q + 1))

/-- The last place before `n` where a condition holds. -/
def lastPlace? (n : Nat) (holds : Nat → Bool) : Option Nat :=
  (List.range n).reverse.find? holds

/-- The place where a run gets a semicolon. Before a closing brace that is its end, unless the head
colon is there already. Otherwise it is the last blank before a property, one character at least
behind the head colon. -/
def Run.place? (r : Run) : Option Nat :=
  match headColon? r.text with
  | none => none
  | some p =>
    if r.next = some (.char '}') then
      if p + 1 < r.text.length then some r.text.length else none
    else lastPlace? r.text.length fun q => p + 2 ≤ q && propertyAt r.text q

/-- The part of the text that a run stands for, with the semicolon that the run gets. -/
def Run.completed (r : Run) : Text :=
  match r.place? with
  | some q => r.text.take q ++ .char ';' :: (r.text.drop q ++ r.next.toList)
  | none => r.source

/-! ## Cutting a text into runs -/

theorem runs_append_of_isRun {run : Text} (hrun : IsRun run) {rest : Text} {r : Run}
    {more : List Run} (hrest : runs rest = r :: more) :
    runs (run ++ rest) = ⟨run ++ r.text, r.next⟩ :: more := by
  induction run with
  | nil => exact hrest
  | cons c run ih =>
    obtain ⟨hc, hrun⟩ := isRun_cons.mp hrun
    rw [List.cons_append, runs, hc, if_neg Bool.false_ne_true, ih hrun]
    rfl

theorem runs_of_isRun {run : Text} (hrun : IsRun run) : runs run = [⟨run, none⟩] := by
  have hnil : runs [] = [⟨[], none⟩] := rfl
  have h := runs_append_of_isRun hrun hnil
  simpa using h

theorem runs_append_delimiter {run : Text} (hrun : IsRun run) {d : CodePoint}
    (hd : isDelimiter d = true) (rest : Text) :
    runs (run ++ d :: rest) = ⟨run, some d⟩ :: runs rest := by
  have hrest : runs (d :: rest) = ⟨[], some d⟩ :: runs rest := by rw [runs, hd, if_pos rfl]
  have h := runs_append_of_isRun hrun hrest
  simpa using h

theorem filter_isDelimiter_of_isRun {run : Text} (hrun : IsRun run) :
    run.filter isDelimiter = [] := by
  rw [List.filter_eq_nil_iff]
  exact fun c hc => Bool.eq_false_iff.mp (hrun c hc)

/-- The runs are the text, each of them without a delimiter; behind them are the delimiters of the
text, and none behind the last. -/
theorem runs_cut (s : Text) :
    (runs s).flatMap Run.source = s ∧ (∀ r ∈ runs s, IsRun r.text) ∧
      (runs s).map Run.next = (s.filter isDelimiter).map some ++ [none] := by
  induction s using run_induction with
  | last run hrun =>
    rw [runs_of_isRun hrun, filter_isDelimiter_of_isRun hrun]
    simp [Run.source, hrun]
  | more run d rest hrun hd ih =>
    obtain ⟨hsource, hruns, hnext⟩ := ih
    rw [runs_append_delimiter hrun hd, List.flatMap_cons, hsource, List.map_cons, hnext]
    refine ⟨by simp [Run.source], ?_, by simp [filter_isDelimiter_of_isRun hrun, hd]⟩
    rw [List.forall_mem_cons]
    exact ⟨hrun, hruns⟩

/-! ## The last place -/

theorem lastPlace?_eq_none {n : Nat} {holds : Nat → Bool} :
    lastPlace? n holds = none ↔ ∀ q < n, holds q = false := by
  simp [lastPlace?]

theorem lastPlace?_eq_some {n q : Nat} {holds : Nat → Bool} (hq : q < n) (h : holds q = true)
    (hlast : ∀ j < n, q < j → holds j = false) : lastPlace? n holds = some q := by
  induction n with
  | zero => exact absurd hq (Nat.not_lt_zero q)
  | succ n ih =>
    rw [lastPlace?, List.range_succ, List.reverse_append, List.reverse_singleton,
      List.singleton_append, List.find?_cons]
    rcases Nat.lt_succ_iff_lt_or_eq.mp hq with hlt | rfl
    · rw [hlast n (Nat.lt_succ_self n) hlt]
      exact ih hlt fun j hj => hlast j (Nat.lt_succ_of_lt hj)
    · rw [h]

/-! ## The head colon -/

theorem colonAt_iff {run : Text} {p : Nat} :
    colonAt run p = true ↔
      ∃ pre c gap value, run = pre ++ c :: (gap ++ .char ':' :: value) ∧
        isNameChar c = true ∧ Text.isBlank gap = true ∧ pre.length + gap.length + 1 = p := by
  constructor
  · intro h
    obtain ⟨hcolon, hname⟩ := Bool.and_eq_true_iff.mp h
    obtain ⟨hp, hcolon⟩ := List.getElem?_eq_some_iff.mp (eq_of_beq hcolon)
    obtain ⟨c, hlast, hc⟩ := (Option.any_eq_true _ _).mp hname
    obtain ⟨gap, hfront, hgap⟩ := exists_trimEnd (run.take p)
    obtain ⟨pre, hpre⟩ := List.getLast?_eq_some_iff.mp hlast
    rw [hpre] at hfront
    have hlen := congrArg List.length hfront
    have hsplit := (List.take_append_drop p run).symm
    rw [List.drop_eq_getElem_cons hp, hcolon, hfront] at hsplit
    refine ⟨pre, c, gap, run.drop (p + 1), by simpa using hsplit, hc, hgap, ?_⟩
    simp only [List.length_take, List.length_append, List.length_cons, List.length_nil] at hlen
    omega
  · rintro ⟨pre, c, gap, value, rfl, hc, hgap, rfl⟩
    have hsplit : pre ++ c :: (gap ++ .char ':' :: value) =
        (pre ++ [c] ++ gap) ++ .char ':' :: value := by simp
    have hlen : pre.length + gap.length + 1 = (pre ++ [c] ++ gap).length := by simp; omega
    rw [colonAt, hsplit, hlen, List.getElem?_append_right (Nat.le_refl _), Nat.sub_self,
      List.take_left, Text.trimEnd_append hgap, Text.trimEnd_concat (not_isBlank_of_isNameChar hc)]
    simp [hc]

/-- A run that is cut at its head has its head colon at the end of the front part. -/
theorem headColon?_of_head {front value : Text} (hrun : IsRun (front ++ value))
    (hhead : headValue? front = some []) :
    ∃ p, headColon? (front ++ value) = some p ∧ p + 1 = front.length := by
  have hwhole := headValue?_append hhead value
  obtain ⟨pre, c, gap, rfl, hc, hgap, -⟩ := headValue?_eq_some hhead
  refine ⟨pre.length + gap.length + 1, ?_, by simp; omega⟩
  rw [headColon?, List.find?_range_eq_some]
  refine ⟨colonAt_iff.mpr ⟨pre, c, gap, value, by simp, hc, hgap, rfl⟩, by simp; omega, ?_⟩
  intro q hq
  rw [Bool.not_eq_true', ← Bool.not_eq_true, colonAt_iff]
  rintro ⟨pre', c', gap', value', hsplit, hc', hgap', rfl⟩
  -- the value behind an earlier colon would be longer than the one behind the head
  have hpre' : IsRun pre' := by
    rw [hsplit] at hrun
    exact (isRun_append.mp hrun).1
  obtain ⟨more, hmore⟩ := headValue?_of_name hpre' hc' hgap' value'
  rw [← hsplit, hwhole] at hmore
  have hvalue := congrArg List.length (Option.some.inj hmore)
  have hlen := congrArg List.length hsplit
  simp only [List.length_append, List.length_cons, List.length_nil] at hvalue hlen
  omega

theorem headColon?_of_headless {run : Text} (hrun : IsRun run) (h : headValue? run = none) :
    headColon? run = none := by
  rw [headColon?, List.find?_eq_none]
  intro p _ hcolon
  obtain ⟨pre, c, gap, value, rfl, hc, hgap, -⟩ := colonAt_iff.mp hcolon
  obtain ⟨more, hmore⟩ := headValue?_of_name (isRun_append.mp hrun).1 hc hgap value
  rw [h] at hmore
  cases hmore

/-! ## Open values and places -/

theorem propertyAt_iff {run : Text} {q : Nat} :
    propertyAt run q = true ↔
      ∃ front b more, run = front ++ b :: more ∧ b.isBlank = true ∧
        propertyFollows more = true ∧ front.length = q := by
  constructor
  · intro h
    obtain ⟨hblank, hnext⟩ := Bool.and_eq_true_iff.mp h
    obtain ⟨b, hb, hblank⟩ := (Option.any_eq_true _ _).mp hblank
    obtain ⟨hq, rfl⟩ := List.getElem?_eq_some_iff.mp hb
    refine ⟨run.take q, run[q], run.drop (q + 1), ?_, hblank, hnext, by simp; omega⟩
    rw [← List.drop_eq_getElem_cons hq, List.take_append_drop]
  · rintro ⟨front, b, more, rfl, hb, hnext, rfl⟩
    have hbehind : (front ++ b :: more).drop (front.length + 1) = more := by
      rw [List.drop_length_add_append, List.drop_succ_cons, List.drop_zero]
    rw [propertyAt, hbehind, hnext, List.getElem?_append_right (Nat.le_refl _), Nat.sub_self]
    simp [hb]

theorem endsDeclaration_blank {b : CodePoint} (hb : b.isBlank = true) {more : Text}
    (hmore : propertyFollows more = true) : endsDeclaration (b :: more) = true := by
  obtain ⟨name, gap, rest, rfl, hne, hchars, hgap⟩ := propertyFollows_iff.mp hmore
  have hnext : nextProperty ([b] ++ (name ++ (gap ++ .char ':' :: rest))) = true :=
    nextProperty_iff.mpr ⟨[b], name, gap, rest, rfl, List.cons_ne_nil b [],
      Text.isBlank_cons.mpr ⟨hb, rfl⟩, hne, hchars, hgap⟩
  rw [endsDeclaration_eq]
  exact Bool.or_eq_true_iff.mpr (Or.inl hnext)

/-- The longest open value of a run ends before the last blank in front of a property. -/
theorem exists_blank {rest : Text} (hrun : IsRun rest) (hends : endsDeclaration rest = true)
    (hnone : openValue? rest = none) :
    ∃ b more, rest = b :: more ∧ b.isBlank = true ∧ propertyFollows more = true := by
  have hcloses : closes rest = false := by
    rw [← Bool.not_eq_true, closes_iff]
    rintro ⟨gap, behind, rfl, -⟩
    exact absurd (hrun (.char '}') (by simp)) (by decide)
  rw [endsDeclaration_eq, hcloses, Bool.or_false] at hends
  obtain ⟨gap, name, gap', behind, rfl, hgapne, hgap, hne, hchars, hgap'⟩ :=
    nextProperty_iff.mp hends
  obtain ⟨front, b, rfl, -, hb⟩ := Text.exists_last_blank hgap hgapne
  have hnext : propertyFollows (name ++ (gap' ++ .char ':' :: behind)) = true :=
    propertyFollows_iff.mpr ⟨name, gap', behind, rfl, hne, hchars, hgap'⟩
  cases front with
  | nil => exact ⟨b, _, rfl, hb, hnext⟩
  | cons x front =>
    -- the value would take all blanks but the last
    rw [List.append_assoc, List.singleton_append] at hrun hnone
    have := openValue?_isSome (List.cons_ne_nil x front) (isRun_append.mp hrun).1
      (endsDeclaration_blank hb hnext)
    rw [hnone] at this
    cases this

/-- Every place before a property, one character at least behind a colon, ends an open value. -/
theorem exists_open_of_propertyAt {front value : Text} {q : Nat} (hq : front.length < q)
    (h : propertyAt (front ++ value) q = true) :
    ∃ part rest, value = part ++ rest ∧ part ≠ [] ∧ front.length + part.length = q ∧
      endsDeclaration rest = true := by
  obtain ⟨before, b, more, hsplit, hb, hnext, rfl⟩ := propertyAt_iff.mp h
  rcases List.append_eq_append_iff.mp hsplit with ⟨part, rfl, rfl⟩ | ⟨part, rfl, -⟩
  · rw [List.length_append] at hq
    exact ⟨part, b :: more, rfl, List.ne_nil_of_length_pos (by omega), List.length_append.symm,
      endsDeclaration_blank hb hnext⟩
  · rw [List.length_append] at hq
    omega

/-- The longest open value behind a colon ends at the last place before a property. -/
theorem lastPlace?_propertyAt {value : Text} (hvalue : IsRun value) (front : Text) :
    lastPlace? (front ++ value).length
        (fun q => front.length + 1 ≤ q && propertyAt (front ++ value) q) =
      (openValue? value).map fun n => front.length + n := by
  cases hopen : openValue? value with
  | none =>
    rw [Option.map_none, lastPlace?_eq_none]
    intro q _
    rw [← Bool.not_eq_true, Bool.and_eq_true, decide_eq_true_iff]
    rintro ⟨hq, hplace⟩
    obtain ⟨part, rest, rfl, hne, -, hends⟩ := exists_open_of_propertyAt hq hplace
    have := openValue?_isSome hne (isRun_append.mp hvalue).1 hends
    rw [hopen] at this
    cases this
  | some n =>
    obtain ⟨part, rest, rfl, rfl, hne, -, hends, hnone⟩ := openValue?_eq_some hopen
    have hrest := (isRun_append.mp hvalue).2
    have hpos := List.length_pos_iff.mpr hne
    obtain ⟨b, more, rfl, hb, hnext⟩ := exists_blank hrest hends hnone
    rw [Option.map_some]
    refine lastPlace?_eq_some (by simp) ?_ fun j _ hj => ?_
    · rw [Bool.and_eq_true, decide_eq_true_iff, propertyAt_iff]
      exact ⟨by omega, front ++ part, b, more, by simp, hb, hnext, by simp⟩
    · rw [← Bool.not_eq_true, Bool.and_eq_true, decide_eq_true_iff, ← List.append_assoc]
      rintro ⟨-, hplace⟩
      -- a later place would be in the rest, where no value is open
      obtain ⟨between, behind, hsplit, hne', -, hends'⟩ :=
        exists_open_of_propertyAt (by rwa [List.length_append]) hplace
      rw [hsplit] at hrest hnone
      have := openValue?_isSome hne' (isRun_append.mp hrest).1 hends'
      rw [hnone] at this
      cases this

/-! ## The semicolon of a run -/

section Place

variable {front value : Text} (hrun : IsRun (front ++ value)) (hhead : headValue? front = some [])

include hrun hhead

/-- Before a closing brace the semicolon of a run stands at its end. -/
theorem place?_closing :
    Run.place? ⟨front ++ value, some (.char '}')⟩ =
      if value = [] then none else some (front ++ value).length := by
  obtain ⟨p, hp, hlen⟩ := headColon?_of_head hrun hhead
  rw [Run.place?, hp]
  cases value with
  | nil => simp [hlen]
  | cons c value => simp [hlen]

/-- Before anything else it stands where the longest open value behind the head ends. -/
theorem place?_of_ne_closing {next : Option CodePoint} (hne : next ≠ some (.char '}')) :
    Run.place? ⟨front ++ value, next⟩ = (openValue? value).map fun n => front.length + n := by
  obtain ⟨p, hp, hlen⟩ := headColon?_of_head hrun hhead
  rw [← lastPlace?_propertyAt (isRun_append.mp hrun).2, Run.place?, hp, ← hlen]
  simp only [hne, if_false]

end Place

theorem place?_of_headless {run : Text} (hrun : IsRun run) (h : headValue? run = none)
    (next : Option CodePoint) : Run.place? ⟨run, next⟩ = none := by
  rw [Run.place?, headColon?_of_headless hrun h]

theorem completed_of_place? {r : Run} {q : Nat} (h : r.place? = some q) :
    r.completed = r.text.take q ++ .char ';' :: (r.text.drop q ++ r.next.toList) := by
  rw [Run.completed, h]

theorem completed_of_no_place {r : Run} (h : r.place? = none) : r.completed = r.source := by
  rw [Run.completed, h]

/-- A run with a head ends in a declaration unless it ends at the head. -/
theorem endsInDeclaration_iff_of_head {front value : Text} (hrun : IsRun (front ++ value))
    (hhead : headValue? front = some []) :
    endsInDeclaration (front ++ value) = true ↔ value ≠ [] := by
  rw [endsInDeclaration_iff]
  constructor
  · rintro ⟨pre, decl, hsplit, hdecl⟩ rfl
    rw [List.append_nil] at hsplit hrun
    rw [hsplit] at hrun
    obtain ⟨front', declared, hfront, hhead', hne⟩ := exists_head_of_declaration hrun hdecl
    rw [hsplit, hfront, headValue?_append hhead'] at hhead
    exact hne (Option.some.inj hhead)
  · intro hne
    obtain ⟨pre, c, gap, rfl, hc, hgap, -⟩ := headValue?_eq_some hhead
    refine ⟨pre, [c] ++ (gap ++ .char ':' :: value), by simp, ?_⟩
    exact .mk (List.cons_ne_nil c []) (by simpa using hc) hgap hne (isRun_append.mp hrun).2

/-- The semicolon pass does to a run what its place says. -/
theorem insertSemicolons_source {r : Run} (hrun : IsRun r.text)
    (hnext : ∀ d ∈ r.next, isDelimiter d = true) : insertSemicolons r.source = r.completed := by
  obtain ⟨run, next⟩ := r
  have htail : RunEnd next.toList := by
    cases next with
    | none => exact .text
    | some d => exact .delimiter (hnext d rfl)
  cases hvalue : headValue? run with
  | none =>
    rw [completed_of_no_place (place?_of_headless hrun hvalue next)]
    exact insertSemicolons_headless hrun htail hvalue
  | some value =>
    obtain ⟨front, rfl, hhead⟩ := exists_head hvalue
    by_cases hclosing : next = some (.char '}')
    · subst hclosing
      have hplace := place?_closing hrun hhead
      rcases insertSemicolons_run_closing hrun with ⟨hends, hsame⟩ | ⟨hends, -, hended⟩
      · have hnil : value = [] := by
          by_contra hne
          rw [(endsInDeclaration_iff_of_head hrun hhead).mpr hne] at hends
          cases hends
        rw [if_pos hnil] at hplace
        rw [completed_of_no_place hplace]
        exact hsame
      · rw [if_neg ((endsInDeclaration_iff_of_head hrun hhead).mp hends)] at hplace
        rw [completed_of_place? hplace, List.take_length, List.drop_length]
        exact hended
    · have hplace := place?_of_ne_closing hrun hhead hclosing
      have hopen : openValue? (value ++ next.toList) = openValue? value := by
        cases next with
        | none => rw [Option.toList_none, List.append_nil]
        | some d =>
          exact openValue?_concat (hnext d rfl) (fun hd => hclosing (congrArg some hd)) value
      have hpass := insertSemicolons_head hrun htail hhead (List.append_assoc front value _)
      rw [endValue, hopen] at hpass
      cases hn : openValue? value with
      | none =>
        rw [hn] at hplace hpass
        rw [completed_of_no_place hplace]
        exact hpass.trans (List.append_assoc front value _).symm
      | some n =>
        obtain ⟨part, rest, rfl, rfl, -⟩ := openValue?_eq_some hn
        rw [hn] at hplace hpass
        rw [completed_of_place? hplace]
        refine hpass.trans ?_
        simp [List.take_append, List.drop_append, List.take_of_length_le, List.drop_eq_nil_of_le]

theorem lacksSemicolon_source_iff {r : Run} (hrun : IsRun r.text)
    (hnext : ∀ d ∈ r.next, isDelimiter d = true) :
    lacksSemicolon r.source = true ↔ r.place?.isSome = true := by
  rw [← Bool.not_eq_false, ← insertSemicolons_eq_self_iff, insertSemicolons_source hrun hnext]
  cases hplace : r.place? with
  | none => simp [completed_of_no_place hplace]
  | some q =>
    have hlonger : r.completed ≠ r.source := by
      intro hsame
      have hlen := congrArg List.length hsame
      rw [completed_of_place? hplace, Run.source] at hlen
      simp at hlen
      omega
    simp [hlonger]

/-! ## The pass on a whole text -/

theorem insertSemicolons_eq_completed (s : Text) :
    insertSemicolons s = (runs s).flatMap Run.completed := by
  induction s using run_induction with
  | last run hrun =>
    have hpass := insertSemicolons_source (r := ⟨run, none⟩) hrun (by simp)
    rw [runs_of_isRun hrun, List.flatMap_singleton, ← hpass]
    simp [Run.source]
  | more run d rest hrun hd ih =>
    have hpass := insertSemicolons_source (r := ⟨run, some d⟩) hrun (by simpa using hd)
    rw [runs_append_delimiter hrun hd, List.flatMap_cons, ← hpass, insertSemicolons_append hd, ih]
    rfl

theorem lacksSemicolon_iff_place (s : Text) :
    lacksSemicolon s = true ↔ ∃ r ∈ runs s, r.place?.isSome = true := by
  induction s using run_induction with
  | last run hrun =>
    have hlacks := lacksSemicolon_source_iff (r := ⟨run, none⟩) hrun (by simp)
    rw [runs_of_isRun hrun]
    simpa [Run.source] using hlacks
  | more run d rest hrun hd ih =>
    have hlacks := lacksSemicolon_source_iff (r := ⟨run, some d⟩) hrun (by simpa using hd)
    rw [runs_append_delimiter hrun hd, lacksSemicolon_append hd, Bool.or_eq_true, ih]
    simp only [List.mem_cons, exists_eq_or_imp, ← hlacks]
    rfl

/-- The semicolon pass rewrites a text run by run: each run keeps its characters and gets one
semicolon at most, at the place that its head colon and the delimiter behind it determine. The
rule that semicolons are held to reports an error exactly if some run gets one. -/
theorem insertSemicolons_run_by_run (s : Text) :
    ((runs s).flatMap Run.source = s ∧ (∀ r ∈ runs s, IsRun r.text) ∧
      (runs s).map Run.next = (s.filter isDelimiter).map some ++ [none]) ∧
    insertSemicolons s = (runs s).flatMap Run.completed ∧
    ((Rule.missingSemicolon.check s).any Diagnostic.isError = true ↔
      ∃ r ∈ runs s, r.place?.isSome = true) := by
  refine ⟨runs_cut s, insertSemicolons_eq_completed s, ?_⟩
  rw [← lacksSemicolon_iff_place]
  cases hlacks : lacksSemicolon s <;>
    simp [Rule.missingSemicolon, Rule.reporting, hlacks, Diagnostic.isError]

-- One blank behind a head colon is all of the value, and no semicolon may come before it.
example : (runs (Text.ofString "a: b:c;a:  b:c;a:b c: d e \x7d")).map Run.place? =
    [none, some 3, some 11, none] := by
  decide

end TextTidy.Css
