import TextTidy.Proofs.Json.Position
import TextTidy.Text.Newline

/-!
# Line ends in JSON

A text may end its lines with a carriage return and a line feed, or with a line feed alone. Both
ways to write it are read alike: they have the same value, or the same problem at the same line and
column. Only the offsets differ.
-/

namespace TextTidy.Json

open Text (Place)

/-! ## The same lines -/

/-- Each carriage return of a text is directly followed by a line feed. -/
def ReturnsPaired (s : Text) : Prop :=
  ∀ front rest, s = front ++ .char '\r' :: rest → rest.head? = some (.char '\n')

/-- The text with a line feed for each carriage return with a line feed behind it. -/
def joinLineEnds : Text → Text
  | [] => []
  | .char '\r' :: .char '\n' :: rest => .char '\n' :: joinLineEnds rest
  | c :: rest => c :: joinLineEnds rest

/-- Two texts of the same lines, of which the first one may end its lines with a carriage return and
    a line feed where the second one has a line feed. -/
inductive LineEnds : Text → Text → Prop
  | nil : LineEnds [] []
  | char {c : CodePoint} {s t : Text} (hc : c ≠ .char '\r') (h : LineEnds s t) :
      LineEnds (c :: s) (c :: t)
  | pair {s t : Text} (h : LineEnds s t) :
      LineEnds (.char '\r' :: .char '\n' :: s) (.char '\n' :: t)

theorem ReturnsPaired.tail {c : CodePoint} {s : Text} (h : ReturnsPaired (c :: s)) :
    ReturnsPaired s :=
  fun front rest hs => h (c :: front) rest (by rw [hs]; rfl)

/-- A text whose carriage returns are paired can be written with line feeds alone. -/
theorem ReturnsPaired.exists_lineEnds {s : Text} (h : ReturnsPaired s) : ∃ t, LineEnds s t := by
  induction s using joinLineEnds.induct with
  | case1 => exact ⟨[], .nil⟩
  | case2 rest ih =>
    obtain ⟨t, ht⟩ := ih h.tail.tail
    exact ⟨_, .pair ht⟩
  | case3 c rest hpair ih =>
    have hc : c ≠ .char '\r' := by
      rintro rfl
      obtain ⟨behind, hrest⟩ := List.head?_eq_some_iff.mp (h [] rest rfl)
      exact hpair behind rfl hrest
    obtain ⟨t, ht⟩ := ih h.tail
    exact ⟨_, .char hc ht⟩

namespace LineEnds

variable {s t : Text}

theorem joinLineEnds_eq (h : LineEnds s t) : joinLineEnds s = t := by
  induction h with
  | nil => rfl
  | char hc _ ih =>
    rw [joinLineEnds, ih]
    exact fun _ heq => absurd heq hc
  | pair _ ih => rw [joinLineEnds, ih]

/-- Where each carriage return has a line feed behind it, no other line ends are unified. -/
theorem unifyLineEnds_eq (h : LineEnds s t) : s.unifyLineEnds = t := by
  induction h with
  | nil => rfl
  | char hc _ ih =>
    rw [Text.unifyLineEnds, ih]
    · exact fun _ heq => absurd heq hc
    · exact hc
  | pair _ ih => rw [Text.unifyLineEnds, ih]

/-- Only the carriage returns of pairs can be written as line feeds. -/
theorem returnsPaired (h : LineEnds s t) : ReturnsPaired s := by
  induction h with
  | nil => exact fun front rest hs => by simp at hs
  | char hc _ ih =>
    rintro (_ | ⟨c, front⟩) rest hs
    · exact absurd (List.cons.inj hs).1 hc
    · exact ih front rest (List.cons.inj hs).2
  | pair _ ih =>
    rintro (_ | ⟨c, _ | ⟨d, front⟩⟩) rest hs
    · rw [← (List.cons.inj hs).2]
      rfl
    · exact absurd (List.cons.inj (List.cons.inj hs).2).1 (by decide)
    · exact ih front rest (List.cons.inj (List.cons.inj hs).2).2

theorem not_mem (h : LineEnds s t) : .char '\r' ∉ t := by
  induction h with
  | nil => simp
  | char hc _ ih => simpa using And.intro hc.symm ih
  | pair _ ih => simpa using ih

theorem append {s' t' : Text} (h : LineEnds s t) (h' : LineEnds s' t') :
    LineEnds (s ++ s') (t ++ t') := by
  induction h with
  | nil => exact h'
  | char hc _ ih => exact .char hc ih
  | pair _ ih => exact .pair ih

/-- Behind the same lines the place is the same: a carriage return goes on by a column, and the line
feed behind it leaves that column. -/
theorem after_eq (h : LineEnds s t) (p : Place) : p.after s = p.after t := by
  induction h generalizing p with
  | nil => rfl
  | char _ _ ih => exact ih _
  | pair _ ih =>
    rw [Place.after_cons, Place.after_cons, Place.after_cons, Place.behind_newline,
      Place.behind_newline, Place.behind_other p (by decide)]
    exact ih _

theorem isBlank_eq (h : LineEnds s t) : s.isBlank = t.isBlank := by
  induction h with
  | nil => rfl
  | char _ _ ih =>
    rw [Text.isBlank, Text.isBlank, List.all_cons, List.all_cons]
    exact congrArg _ ih
  | pair _ ih => exact ih

theorem skipSpacing (h : LineEnds s t) : ∃ gap gap', LineEnds gap gap' ∧
    s = gap ++ Json.skipSpacing s ∧ t = gap' ++ Json.skipSpacing t ∧
      LineEnds (Json.skipSpacing s) (Json.skipSpacing t) := by
  induction h with
  | nil => exact ⟨[], [], .nil, rfl, rfl, .nil⟩
  | @char c s t hc h ih =>
    cases hspacing : isSpacing c with
    | false =>
      have hskip : ∀ u, Json.skipSpacing (c :: u) = c :: u := fun u =>
        List.dropWhile_cons_of_neg (by simp [hspacing])
      rw [hskip, hskip]
      exact ⟨[], [], .nil, rfl, rfl, .char hc h⟩
    | true =>
      have hskip : ∀ u, Json.skipSpacing (c :: u) = Json.skipSpacing u := fun u =>
        List.dropWhile_cons_of_pos hspacing
      obtain ⟨gap, gap', hgap, hs, ht, hbehind⟩ := ih
      rw [hskip, hskip]
      exact ⟨c :: gap, c :: gap', .char hc hgap, congrArg _ hs, congrArg _ ht, hbehind⟩
  | pair _ ih =>
    obtain ⟨gap, gap', hgap, hs, ht, hbehind⟩ := ih
    exact ⟨_, _, .pair hgap, congrArg _ (congrArg _ hs), congrArg _ ht, hbehind⟩

end LineEnds

theorem lineEnds_of_not_mem {s : Text} (h : .char '\r' ∉ joinLineEnds s) :
    LineEnds s (joinLineEnds s) := by
  induction s using joinLineEnds.induct with
  | case1 => exact .nil
  | case2 rest ih =>
    rw [joinLineEnds] at h ⊢
    exact .pair (ih (List.not_mem_of_not_mem_cons h))
  | case3 c rest hpair ih =>
    have hjoin : joinLineEnds (c :: rest) = c :: joinLineEnds rest := by
      rw [joinLineEnds]
      exact hpair
    rw [hjoin] at h ⊢
    exact .char (Ne.symm (List.ne_of_not_mem_cons h)) (ih (List.not_mem_of_not_mem_cons h))

theorem returnsPaired_iff {s : Text} : ReturnsPaired s ↔ .char '\r' ∉ joinLineEnds s := by
  constructor
  · intro h
    obtain ⟨t, ht⟩ := h.exists_lineEnds
    rw [ht.joinLineEnds_eq]
    exact ht.not_mem
  · exact fun h => (lineEnds_of_not_mem h).returnsPaired

instance (s : Text) : Decidable (ReturnsPaired s) := decidable_of_iff _ returnsPaired_iff.symm

/-! ## Readers of the same lines -/

/-- What two readers have left of two texts when both have passed the same lines and the same lines
    are to come. -/
def Level (s t left left' : Text) : Prop :=
  LineEnds left left' ∧ ∃ front front',
    LineEnds front front' ∧ s = front ++ left ∧ t = front' ++ left'

variable {levels : Nat} {s t left left' : Text}

theorem Level.pass (front front' : Text) (h : Level s t (front ++ left) (front' ++ left'))
    (hfront : LineEnds front front') (hleft : LineEnds left left') : Level s t left left' := by
  obtain ⟨-, passed, passed', hpassed, rfl, rfl⟩ := h
  exact ⟨hleft, passed ++ front, passed' ++ front', hpassed.append hfront, by simp, by simp⟩

/-- Such readers keep in step: where one meets a carriage return, both are at the end of a line. -/
theorem lockstep_lineEnds (s t : Text) : Lockstep (Level s t) where
  nil_left h := by
    cases h.1
    rfl
  nil_right h := by
    cases h.1
    rfl
  step := by
    intro c d left left' h
    cases h.1 with
    | char hc hleft =>
      exact Or.inl ⟨rfl, h.pass [c] [c] (.char hc .nil) hleft⟩
    | pair hleft =>
      obtain ⟨gap, gap', hgap, hs, ht, hbehind⟩ := hleft.skipSpacing
      refine Or.inr ⟨rfl, rfl, ?_⟩
      rw [hs, ht] at h
      exact h.pass (_ :: _ :: gap) (_ :: gap') (.pair hgap) hbehind

theorem LineEnds.level_withoutMark (h : LineEnds s t) :
    Level s t (withoutMark s) (withoutMark t) := by
  have hstart : Level s t s t := ⟨h, [], [], .nil, rfl, rfl⟩
  cases h with
  | nil => exact hstart
  | pair _ => exact hstart
  | @char c s t hc h =>
    by_cases hmark : c = byteOrderMark
    · rw [withoutMark, withoutMark, if_pos hmark, if_pos hmark]
      exact hstart.pass [c] [c] (.char hc .nil) h
    · rw [withoutMark, withoutMark, if_neg hmark, if_neg hmark]
      exact hstart

/-! ## Results -/

/-- Why a text has no value, without the offset. -/
def ReadError.withoutOffset : ReadError → ReadError
  | .refused .empty => .refused .empty
  | .refused (.malformed m) => .refused (.malformed { m with position := 0 })
  | .beyond limit => .beyond limit

/-- Problems that show at places that belong together are reported alike. -/
theorem parse_of_sites {fault fault' : Fault} {problem : Problem}
    (hblank : (withoutMark s).isBlank = false) (hblank' : (withoutMark t).isBlank = false)
    (h : document .strict levels (withoutMark s) = .error fault)
    (h' : document .strict levels (withoutMark t) = .error fault')
    (hsite : fault.site? = some (problem, left)) (hsite' : fault'.site? = some (problem, left'))
    (hlevel : Level s t left left') :
    (parse levels s).mapError ReadError.withoutOffset =
      (parse levels t).mapError ReadError.withoutOffset := by
  obtain ⟨front, hs, hparse⟩ := parse_of_site hblank h hsite
  obtain ⟨front', ht, hparse'⟩ := parse_of_site hblank' h' hsite'
  obtain ⟨-, passed, passed', hpassed, hs', ht'⟩ := hlevel
  obtain rfl := List.append_cancel_right (hs'.symm.trans hs)
  obtain rfl := List.append_cancel_right (ht'.symm.trans ht)
  have hplace : s.placeOf passed.length = t.placeOf passed'.length := by
    rw [hs, ht, Text.placeOf_append, Text.placeOf_append, hpassed.after_eq]
  rw [hparse, hparse', refusedAt, refusedAt, hplace]
  rfl

/-- Texts of the same lines are read alike. -/
theorem LineEnds.parse_agree (h : LineEnds s t) :
    (parse levels s).mapError ReadError.withoutOffset =
      (parse levels t).mapError ReadError.withoutOffset := by
  have hlevel := h.level_withoutMark
  have hblanks := hlevel.1.isBlank_eq
  cases hblank : (withoutMark s).isBlank with
  | true => simp only [parse, ← hblanks, hblank, if_true]
  | false =>
    have hblank' := hblanks.symm.trans hblank
    have hagree := (lockstep_lineEnds s t).document_agree .strict levels hlevel
    generalize hs : document .strict levels (withoutMark s) = found at hagree
    generalize ht : document .strict levels (withoutMark t) = found' at hagree
    cases hagree with
    | @ok v w hvalue =>
      subst hvalue
      rw [parse_eq levels s hblank, parse_eq levels t hblank', hs, ht]
    | error hfault =>
      cases hfault with
      | malformed flaw hleft => exact parse_of_sites hblank hblank' hs ht rfl rfl hleft
      | constant word hleft => exact parse_of_sites hblank hblank' hs ht rfl rfl hleft
      | beyond limit => rw [parse_eq levels s hblank, parse_eq levels t hblank', hs, ht]

/-- A report tells nothing about the offset. -/
theorem reportWith_eq (levels : Nat) (accept : Value → Report) (s : Text) :
    reportWith levels accept s =
      match (parse levels s).mapError ReadError.withoutOffset with
      | .ok value => .ok (accept value)
      | .error (.refused reason) => .ok reason.report
      | .error (.beyond limit) => .error limit := by
  rw [reportWith]
  rcases parse levels s with ((_ | m) | limit) | v <;> rfl

theorem LineEnds.reportWith_agree (h : LineEnds s t) (accept : Value → Report) :
    reportWith levels accept s = reportWith levels accept t := by
  rw [reportWith_eq, reportWith_eq, h.parse_agree]

end TextTidy.Json
