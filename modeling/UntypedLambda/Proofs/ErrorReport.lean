import UntypedLambda.Proofs.PrimedNames
import UntypedLambda.Proofs.Refusal

/-!
# Error reports among what is printed

The report of an error shows "error: " in red, behind the lines that are being worked on and the
mark of an internal error, as far as there are any. Settling a fault that can be dealt with prints
exactly one such report; the span below it is none. Neither are warnings and results: the names in a
result are identifiers with primes, so a result holds no colour, and no colon.
-/

namespace UntypedLambda

/-- What the report of an error starts with. -/
def Text.reportStarts : List String :=
  ["Traceback:\n", Text.Colour.red.bold "[internal] ", Text.Colour.red.bold "error: "]

/-- Whether a text is the report of an error. -/
def Text.isErrorReport (text : String) : Bool :=
  (Text.reportStarts.any fun start => start.toList.isPrefixOf text.toList) &&
    (Text.cut? (Text.Colour.red.bold "error: ") text).isSome

/-- Whether an output is the report of an error. -/
def Output.isErrorReport : Output → Bool
  | .line text => Text.isErrorReport text
  | .prompt _ => false

/-- Whether between two states of a reporter so many error reports have been printed, and nothing
has been taken back. -/
def Reporter.Printed (count : Nat) (before after : Reporter) : Prop :=
  ∃ outputs, after.printed = before.printed ++ outputs ∧
    outputs.countP Output.isErrorReport = count

namespace Text

/-- A text with another start is no error report. -/
theorem isErrorReport_of_starts {text : String}
    (h : ∀ start ∈ reportStarts, ¬ start.toList <+: text.toList) : isErrorReport text = false := by
  unfold isErrorReport
  rw [List.any_eq_false.mpr fun start hstart => mt List.isPrefixOf_iff_prefix.mp (h start hstart)]
  rfl

/-- A text that starts with another character than error reports do is none. -/
theorem isErrorReport_of_head {text : String}
    (h : ∀ c ∈ text.toList.head?, c ≠ 'T' ∧ c ≠ '\x1b') : isErrorReport text = false := by
  refine isErrorReport_of_starts fun start hstart hinitial => ?_
  have hheads : ∀ start ∈ reportStarts,
      start.toList.head? = some 'T' ∨ start.toList.head? = some '\x1b' := by decide
  obtain ⟨rest, hrest⟩ := hinitial
  have hhead {c : Char} (hc : start.toList.head? = some c) : text.toList.head? = some c := by
    rw [← hrest, List.head?_append, hc, Option.some_or]
  rcases hheads start hstart with htraceback | hcolour
  · exact (h _ (hhead htraceback)).1 rfl
  · exact (h _ (hhead hcolour)).2 rfl

/-- A text without colours and colons is no error report. -/
theorem isErrorReport_of_forall {text : String}
    (h : ∀ c ∈ text.toList, c ≠ ':' ∧ c ≠ '\x1b') : isErrorReport text = false := by
  refine isErrorReport_of_starts fun start hstart hinitial => ?_
  have hmarked : ∀ start ∈ reportStarts, ':' ∈ start.toList ∨ '\x1b' ∈ start.toList := by decide
  rcases hmarked start hstart with hcolon | hcolour
  · exact (h _ (hinitial.subset hcolon)).1 rfl
  · exact (h _ (hinitial.subset hcolour)).2 rfl

end Text

namespace Reporter

variable {r s t : Reporter} {text : String} {texts : List String} {count : Nat}

/-- The lines that are being worked on are introduced by a word, if there are any. -/
theorem tracebackText_cases (r : Reporter) :
    r.tracebackText = "" ∨ ∃ rest, r.tracebackText = "Traceback:\n" ++ rest := by
  unfold tracebackText
  dsimp only
  split
  · exact .inl rfl
  · exact .inr ⟨_, rfl⟩

/-- A message behind the heading of an error is the report of an error. -/
theorem isErrorReport_errorHeading (r : Reporter) (internal : Bool) (message : String) :
    Text.isErrorReport (r.errorHeading internal ++ message) = true := by
  have hmarked : (Text.cut? (Text.Colour.red.bold "error: ")
      (r.errorHeading internal ++ message)).isSome = true := by
    rw [Option.isSome_iff_ne_none, Ne, Text.cut?_eq_none_iff, not_not]
    unfold errorHeading
    refine ⟨(r.tracebackText ++
      if internal then Text.Colour.red.bold "[internal] " else "").toList, message.toList, ?_⟩
    simp only [String.toList_append, List.append_assoc]
  have hstarts : ∃ start ∈ Text.reportStarts,
      start.toList <+: (r.errorHeading internal ++ message).toList := by
    unfold errorHeading
    rcases r.tracebackText_cases with hnone | ⟨rest, hsome⟩
    · rw [hnone]
      cases internal with
      | true => exact ⟨_, .tail _ (.head _), by simp [String.toList_append]⟩
      | false => exact ⟨_, .tail _ (.tail _ (.head _)), by simp [String.toList_append]⟩
    · rw [hsome]
      exact ⟨_, .head _, by simp [String.toList_append]⟩
  obtain ⟨start, hstart, hinitial⟩ := hstarts
  unfold Text.isErrorReport
  rw [hmarked, Bool.and_true, List.any_eq_true]
  exact ⟨start, hstart, List.isPrefixOf_iff_prefix.mpr hinitial⟩

/-- The span below the message of a report is indented, so it is no error report itself. -/
theorem isErrorReport_spans {report : Report} {colour : Text.Colour} :
    ∀ span ∈ report.spans colour, Text.isErrorReport span = false := by
  intro span hspan
  have hdiagnosed : report.diagnose colour = .ok span := by
    unfold Report.spans at hspan
    split at hspan
    · cases hdiagnose : report.diagnose colour with
      | error fault =>
        rw [hdiagnose] at hspan
        nomatch hspan
      | ok shown =>
        rw [hdiagnose] at hspan
        exact congrArg Except.ok (List.mem_singleton.mp hspan).symm
    · nomatch hspan
  have hindented : span.toList.head? = some ' ' := by
    unfold Report.diagnose at hdiagnosed
    obtain ⟨margin, -, hmargin⟩ := except_bind_eq_ok.mp hdiagnosed
    obtain ⟨tail, -, htail⟩ := except_bind_eq_ok.mp hmargin
    obtain rfl := Except.ok.inj htail
    simp [String.toList_append]
  exact Text.isErrorReport_of_head (by simp [hindented])

/-- A result is shown without colours and colons. -/
theorem isErrorReport_display {t : Term} (h : t.Primed) : Text.isErrorReport t.display = false := by
  have hword {c : Char} (hc : c.isAlphanum = true) : c ≠ ':' ∧ c ≠ '\x1b' := by
    constructor <;>
    · rintro rfl
      exact absurd hc (by decide)
  have hlayout : ':' ∉ ['\'', '(', 'λ', '.', ' ', ')'] ∧ '\x1b' ∉ ['\'', '(', 'λ', '.', ' ', ')'] :=
    by decide
  have hrender : ∀ c ∈ t.render.toList, c ≠ ':' ∧ c ≠ '\x1b' := fun c hc => by
    rcases h.mem_render hc with halphanum | hmem
    · exact hword halphanum
    · exact ⟨ne_of_mem_of_not_mem hmem hlayout.1, ne_of_mem_of_not_mem hmem hlayout.2⟩
  have hequals : ':' ∉ " = ".toList ∧ '\x1b' ∉ " = ".toList := by decide
  refine Text.isErrorReport_of_forall fun c hc => ?_
  unfold Term.display at hc
  split at hc
  · exact hrender c hc
  · next n _ =>
    simp only [String.toList_append, List.mem_append] at hc
    rcases hc with (hc | hc) | hc
    · exact hrender c hc
    · exact ⟨ne_of_mem_of_not_mem hc hequals.1, ne_of_mem_of_not_mem hc hequals.2⟩
    · have hdigit : c.isDigit = true :=
        Nat.isDigit_of_mem_toDigits (by decide) (by decide) (Nat.toList_repr ▸ hc)
      exact hword (by rw [Char.isAlphanum, hdigit, Bool.or_true])

/-- A warning about a name of the prelude is no error report. -/
theorem isErrorReport_shadowing (name : String) :
    ∀ text ∈ Session.shadowing name, Text.isErrorReport text = false := by
  intro text htext
  unfold Session.shadowing at htext
  split at htext
  · obtain rfl := List.mem_singleton.mp htext
    -- The colours differ within the first characters, and so does the word for a traceback.
    have hdiffer : ∀ start ∈ Text.reportStarts, 9 ≤ start.toList.length ∧ start.toList.take 9 ≠
        (Text.Colour.magenta.bold "warning: ").toList.take 9 := by decide
    refine Text.isErrorReport_of_starts fun start hstart hinitial => ?_
    obtain ⟨hlong, hne⟩ := hdiffer start hstart
    obtain ⟨rest, hrest⟩ := hinitial
    refine hne ?_
    rw [← List.take_append_of_le_length hlong, hrest, String.toList_append]
    exact List.take_append_of_le_length (by decide)
  · nomatch htext

/-- Nothing is printed. -/
theorem printed_of_eq (h : s.printed = r.printed) : Printed 0 r s :=
  ⟨[], h.trans (List.append_nil _).symm, rfl⟩

/-- Nothing is done. -/
theorem Printed.refl (r : Reporter) : Printed 0 r r := printed_of_eq rfl

/-- What is printed first and what is printed then are counted together. -/
theorem Printed.trans {later : Nat} (h : Printed count r s) (h' : Printed later s t) :
    Printed (count + later) r t := by
  obtain ⟨outputs, hprinted, rfl⟩ := h
  obtain ⟨others, hothers, rfl⟩ := h'
  refine ⟨outputs ++ others, ?_, List.countP_append⟩
  rw [hothers, hprinted, List.append_assoc]

/-- The error reports among printed lines are those among their texts. -/
theorem printed_of_lines {after : Reporter} (h : after.printed = r.printed ++ texts.map .line) :
    Printed (texts.countP Text.isErrorReport) r after :=
  ⟨_, h, List.countP_map⟩

/-- Texts that are no error reports are printed. -/
theorem printed_of_quiet {after : Reporter} (h : after.printed = r.printed ++ texts.map .line)
    (hquiet : ∀ text ∈ texts, Text.isErrorReport text = false) : Printed 0 r after := by
  have hnone : texts.countP Text.isErrorReport = 0 :=
    List.countP_eq_zero.mpr fun text htext => Bool.eq_false_iff.mp (hquiet text htext)
  exact hnone ▸ printed_of_lines h

/-- An error report is printed, and then texts that are none. -/
theorem printed_of_heading {after : Reporter} {internal : Bool} {message : String}
    (h : after.printed =
      r.printed ++ ((s.errorHeading internal ++ message) :: texts).map .line)
    (hquiet : ∀ text ∈ texts, Text.isErrorReport text = false) : Printed 1 r after := by
  have hone : ((s.errorHeading internal ++ message) :: texts).countP Text.isErrorReport = 1 := by
    rw [List.countP_cons_of_pos (isErrorReport_errorHeading s internal message),
      List.countP_eq_zero.mpr fun text htext => Bool.eq_false_iff.mp (hquiet text htext)]
  exact hone ▸ printed_of_lines h

/-- Settling what is wrong with the input prints one error report. -/
theorem settle_of_refuses {fault : Fault} (h : fault.Refuses) (hfatal : r.fatal = false) :
    ∃ after, settle fault r = .ok () after ∧ Printed 1 r after := by
  cases fault with
  | report report =>
    obtain ⟨message, hmessage⟩ := report.exists_highlighted
    have hsettle := throwReport_eq_ok hmessage (Report.Showable.exists_diagnose h .red) hfatal
    exact ⟨_, hsettle, printed_of_heading rfl isErrorReport_spans⟩
  | _ => exact h.elim

/-- Settling a defect with a plain class and text prints one error report and passes it on. -/
theorem settle_of_plain {defect : Defect} (hkind : Template.Plain defect.kind)
    (hmessage : Template.Plain defect.message) (hfatal : r.fatal = false) :
    ∃ after, settle (.defect defect) r = .error (.defect defect) after ∧ Printed 1 r after :=
  ⟨_, settle_defect hkind hmessage hfatal, printed_of_heading rfl fun _ hnone => nomatch hnone⟩

end Reporter

end UntypedLambda
