import UntypedLambda.Proofs.Report

/-!
# Faults that are settled

A reporter that is not fatal prints an error and forgets the lines that were worked on, provided
that the error can be shown: the offending span has to lie near its text. Everything that is found
wrong with an input is of this kind, because its span is a token, a character or the whole text. A
defect is shown as internal, which its class and text must not get in the way of, and is passed on.
-/

namespace UntypedLambda

/-- Whether the span of a notice lies near a text: it starts in the text or at its end, and has at
most one character more than the text. -/
structure Notice.Fits (notice : Notice) (length : Nat) : Prop where
  /-- The span does not start before the text. -/
  start_nonneg : 0 ≤ notice.start
  /-- The span does not start behind the text. -/
  start_le : notice.start ≤ length
  /-- The span is not much longer than the text. -/
  stop_le : notice.stop ≤ notice.start + length + 1

/-- The span of a notice that has none lies near every text. -/
theorem Notice.fits_whole {notice : Notice} (hstart : notice.start = 0) (hstop : notice.stop = -1)
    (length : Nat) : notice.Fits length :=
  ⟨by omega, by omega, by omega⟩

/-- Whether a report can be shown: its span lies near its text, if it is shown at all. -/
def Report.Showable (report : Report) : Prop :=
  report.problem.notice.diagnosis = true → report.problem.notice.Fits report.expr.length

/-- Whether a reporter can deal with a fault. -/
def Fault.Presentable : Fault → Prop
  | .report r => r.Showable
  | .defect d => Template.Plain d.kind ∧ Template.Plain d.message
  | .leave _ => False
  | .interrupted _ => True
  | .tooDeep _ => True

namespace Template

section Segments

variable {texts : List String} {numbering : Numbering} {rest : List Segment} {filled : List Char}

/-- A character is written in front of what the segments behind it are filled with. -/
theorem fillSegments_literal_eq_ok {c : Char} :
    fillSegments texts numbering (.literal c :: rest) = .ok filled ↔
      ∃ others, fillSegments texts numbering rest = .ok others ∧ c :: others = filled := by
  rw [fillSegments]
  cases fillSegments texts numbering rest <;> simp

/-- The text that a field stands for is written in front of what the segments behind it are filled
with. -/
theorem fillSegments_field_eq_ok {field : Field} :
    fillSegments texts numbering (.field field :: rest) = .ok filled ↔
      ∃ index numbering' text others, numbering.locate field = .ok (index, numbering') ∧
        texts[index]? = some text ∧ fillSegments texts numbering' rest = .ok others ∧
          text.toList ++ others = filled := by
  rw [fillSegments]
  cases numbering.locate field with
  | error fault => simp
  | ok located =>
    obtain ⟨index, numbering'⟩ := located
    cases htext : texts[index]? with
    | none => simp [htext]
    | some text => cases hrest : fillSegments texts numbering' rest <;> grind

end Segments

/-- Texts in another style fill the same segments. -/
theorem exists_fillSegments_map {texts : List String} {numbering : Numbering}
    {segments : List Segment} {filled : List Char}
    (h : fillSegments texts numbering segments = .ok filled) (style : String → String) :
    ∃ styled, fillSegments (texts.map style) numbering segments = .ok styled := by
  induction segments generalizing numbering filled with
  | nil => exact ⟨[], rfl⟩
  | cons segment rest ih =>
    cases segment with
    | literal c =>
      obtain ⟨others, hrest, -⟩ := fillSegments_literal_eq_ok.mp h
      obtain ⟨styled, hstyled⟩ := ih hrest
      exact ⟨_, fillSegments_literal_eq_ok.mpr ⟨styled, hstyled, rfl⟩⟩
    | broken fault => nomatch h
    | field field =>
      obtain ⟨index, numbering', text, others, hlocate, htext, hrest, -⟩ :=
        fillSegments_field_eq_ok.mp h
      obtain ⟨styled, hstyled⟩ := ih hrest
      have hindex : (texts.map style)[index]? = some (style text) := by
        rw [List.getElem?_map, htext, Option.map_some]
      exact ⟨_, fillSegments_field_eq_ok.mpr
        ⟨index, numbering', style text, styled, hlocate, hindex, hstyled, rfl⟩⟩

/-- Texts in another style fill the same template. -/
theorem exists_fill_map {template message : String} {texts : List String}
    (h : fill template texts = .ok message) (style : String → String) :
    ∃ styled, fill template (texts.map style) = .ok styled := by
  unfold fill at h ⊢
  cases hfilled : fillSegments texts .undecided (segments template) with
  | error fault =>
    rw [hfilled] at h
    nomatch h
  | ok filled =>
    obtain ⟨styled, hstyled⟩ := exists_fillSegments_map hfilled style
    exact ⟨String.ofList styled, by rw [hstyled]⟩

end Template

namespace Report

variable {report : Report} {colour : Text.Colour}

/-- The message of a report can be shown in bold. -/
theorem exists_highlighted (report : Report) : ∃ message, report.highlighted = .ok message :=
  Template.exists_fill_map report.filled Text.bold

/-- Whether the row below the offending text can be written: the margin in front of the caret and
the tildes behind it. -/
structure Drawable (report : Report) : Prop where
  /-- The start of the span is no less than an index can be. -/
  least_le_start : Index.least ≤ report.problem.notice.start
  /-- There is room for the margin. -/
  start_le : report.problem.notice.start ≤ (max Text.room report.expr.length : Nat)
  /-- There is room for the tildes. -/
  width_le :
    report.stop - report.problem.notice.start - 1 ≤ (max Text.room report.expr.length : Nat)

/-- The offending text can be shown with its span exactly if the row below it can be written. -/
theorem exists_diagnose_iff : (∃ span, report.diagnose colour = .ok span) ↔ report.Drawable := by
  have hleast : Index.least ≤ 0 := by decide
  have hlength : report.expr.toList.length = report.expr.length := String.length_toList
  unfold diagnose
  dsimp only
  constructor
  · rintro ⟨span, hspan⟩
    obtain ⟨margin, hmargin, htail⟩ := except_bind_eq_ok.mp hspan
    obtain ⟨tail, htail, -⟩ := except_bind_eq_ok.mp htail
    obtain ⟨hstart, hroom⟩ := Text.exists_repeated_iff.mp ⟨margin, hmargin⟩
    obtain ⟨-, hwidth⟩ := Text.exists_repeated_iff.mp ⟨tail, htail⟩
    rw [hlength] at hroom hwidth
    exact ⟨hstart, hroom, by omega⟩
  · rintro ⟨hstart, hroom, hwidth⟩
    rw [← hlength] at hroom hwidth
    obtain ⟨margin, hmargin⟩ := Text.exists_repeated_iff.mpr ⟨hstart, hroom⟩
    obtain ⟨tail, htail⟩ : ∃ row, Text.repeated '~'
        (max report.stop (report.problem.notice.start + 1) - report.problem.notice.start - 1)
        report.expr.toList.length = .ok row :=
      Text.exists_repeated_iff.mpr ⟨by omega, by omega⟩
    rw [hmargin, htail]
    exact ⟨_, rfl⟩

/-- The row below a text can be written if the span lies near the text. -/
theorem drawable_of_fits (h : report.problem.notice.Fits report.expr.length) : report.Drawable := by
  obtain ⟨hnonneg, hstart, hstop⟩ := h
  have hleast : Index.least ≤ 0 := by decide
  have hend : report.stop ≤ report.problem.notice.start + report.expr.length + 1 := by
    unfold Report.stop
    split <;> omega
  exact ⟨by omega, by omega, by omega⟩

/-- The span of a report that can be shown is shown in every colour. -/
theorem Showable.exists_diagnose (h : report.Showable) (colour : Text.Colour)
    (hshows : report.showsSpan = true) : ∃ span, report.diagnose colour = .ok span := by
  unfold showsSpan at hshows
  exact exists_diagnose_iff.mpr (drawable_of_fits (h (Bool.and_eq_true_iff.mp hshows).2))

/-- What is printed below the message of a report: its span, if there is one to show. -/
def spans (report : Report) (colour : Text.Colour) : List String :=
  if report.showsSpan then (report.diagnose colour).toOption.toList else []

end Report

namespace Reporter

variable {report : Report} {notice : Notice} {message : String} {r : Reporter}

/-- What stands in front of the message of an error. -/
def errorHeading (r : Reporter) (internal : Bool) : String :=
  r.tracebackText ++ (if internal then Text.Colour.red.bold "[internal] " else "") ++
    Text.Colour.red.bold "error: "

/-- A text is printed on a line. -/
theorem print_eq_ok (text : String) (r : Reporter) : print text r = .ok () (r.printLines [text]) :=
  rfl

/-- A report whose span can be shown is printed: its message behind the heading, then the span. -/
theorem printReport_eq_ok (hmessage : report.highlighted = .ok message) {colour : Text.Colour}
    (hspan : report.showsSpan = true → ∃ span, report.diagnose colour = .ok span)
    (heading : String) (r : Reporter) :
    printReport report colour heading r =
      .ok () (r.printLines ((heading ++ message) :: report.spans colour)) := by
  have hhighlighted : highlighted report r = .ok message r := by
    unfold highlighted
    rw [hmessage]
    rfl
  unfold printReport Report.spans
  rw [Action.bind_of_ok hhighlighted, Action.bind_of_ok (print_eq_ok _ r)]
  by_cases hshows : report.showsSpan = true
  · obtain ⟨span, hshown⟩ := hspan hshows
    have hdiagnosed : diagnosed report colour (r.printLines [heading ++ message]) =
        .ok span (r.printLines [heading ++ message]) := by
      unfold diagnosed
      rw [hshown]
      rfl
    rw [if_pos hshows, if_pos hshows, Action.bind_of_ok hdiagnosed, hshown]
    exact congrArg _ (printLines_printLines _ _ r)
  · rw [if_neg hshows, if_neg hshows]
    rfl

/-- A report whose span can be shown is printed as an error. After it, a fatal reporter asks to
leave, and any other forgets all lines. -/
theorem throwReport_eq (hmessage : report.highlighted = .ok message)
    (hspan : report.showsSpan = true → ∃ span, report.diagnose .red = .ok span) :
    throwReport report r =
      let printed := r.printLines
        ((r.errorHeading report.problem.notice.internal ++ message) :: report.spans .red)
      if r.fatal then .error (.leave "1") printed else .ok () printed.forgetLines := by
  unfold throwReport
  rw [Action.bind_of_ok (Action.get_eq_ok.mpr ⟨rfl, rfl⟩)]
  dsimp only
  rw [Action.bind_of_ok (printReport_eq_ok hmessage hspan _ r)]
  cases r.fatal <;> rfl

/-- A reporter that is not fatal prints a report and forgets all lines. -/
theorem throwReport_eq_ok (hmessage : report.highlighted = .ok message)
    (hspan : report.showsSpan = true → ∃ span, report.diagnose .red = .ok span)
    (hfatal : r.fatal = false) :
    throwReport report r = .ok () (r.printLines
      ((r.errorHeading report.problem.notice.internal ++ message) ::
        report.spans .red)).forgetLines := by
  rw [throwReport_eq hmessage hspan, hfatal]
  rfl

/-- A reporter that is not fatal prints a notice without a text and forgets all lines. -/
theorem throwNotice_eq_ok {filled : String} (htexts : notice.texts = [""])
    (hfill : Template.fill notice.template notice.texts = .ok filled)
    (hmessage : Template.fill notice.template (notice.texts.map Text.bold) = .ok message)
    (hfatal : r.fatal = false) :
    throwNotice notice r =
      .ok () (r.printLines [r.errorHeading notice.internal ++ message]).forgetLines := by
  have hname : (Problem.general notice).isNameless = false := rfl
  have hnonempty : notice.texts ≠ [] := by
    rw [htexts]
    exact List.cons_ne_nil _ _
  obtain ⟨report, hreport, hproblem⟩ := Problem.exists_report hname hfill hnonempty
  have hnotice : report.problem.notice = notice := congrArg Problem.notice hproblem
  have hok : reportOf (.general notice) r = .ok report r := by
    unfold reportOf
    rw [hreport]
    rfl
  have hhighlighted : report.highlighted = .ok message := by
    unfold Report.highlighted
    rw [hnotice, hmessage]
  have hempty : report.expr = "" := by
    have hsame := report.texts_eq
    rw [hnotice, htexts] at hsame
    exact (List.cons.inj hsame).1.symm
  have hshows : report.showsSpan = false := by
    unfold Report.showsSpan
    rw [hempty, Bool.and_assoc]
    exact Bool.and_false _
  have hspans : report.spans .red = [] := if_neg (by rw [hshows]; decide)
  unfold throwNotice
  rw [Action.bind_of_ok hok,
    throwReport_eq_ok hhighlighted (fun h => nomatch hshows.symm.trans h) hfatal, hnotice, hspans]

/-- A reporter that is not fatal prints a notice whose template has no fields as it is. -/
theorem throwNotice_of_plain (htexts : notice.texts = [""])
    (hplain : Template.Plain notice.template) (hfatal : r.fatal = false) :
    throwNotice notice r =
      .ok () (r.printLines [r.errorHeading notice.internal ++ notice.template]).forgetLines :=
  throwNotice_eq_ok htexts (Template.fill_plain hplain _) (Template.fill_plain hplain _) hfatal

/-- The template of a defect is its class and text in quotes. -/
theorem plain_unknownError {defect : Defect} (hkind : Template.Plain defect.kind)
    (hmessage : Template.Plain defect.message) :
    Template.Plain (unknownError defect).template := by
  have hbefore : Template.Plain "unknown error: '" := by decide +kernel
  have hcolon : Template.Plain ": " := by decide +kernel
  have hafter : Template.Plain "'" := by decide +kernel
  exact (((hbefore.append hkind).append hcolon).append hmessage).append hafter

/-- A defect whose class and text hold no braces is printed as internal and passed on. -/
theorem settle_defect {defect : Defect} (hkind : Template.Plain defect.kind)
    (hmessage : Template.Plain defect.message) (hfatal : r.fatal = false) :
    settle (.defect defect) r = .error (.defect defect) (r.printLines
      [r.errorHeading true ++ (unknownError defect).template]).forgetLines :=
  Action.bind_of_ok (throwNotice_of_plain rfl (plain_unknownError hkind hmessage) hfatal)

/-- After it has dealt with a fault, a reporter that is not fatal has printed something and knows no
lines. -/
theorem state_settle {fault : Fault} (h : fault.Presentable) (hfatal : r.fatal = false) :
    ∃ texts, Action.state (settle fault r) = (r.printLines texts).forgetLines := by
  cases fault with
  | report report =>
    obtain ⟨message, hmessage⟩ := report.exists_highlighted
    exact ⟨_, congrArg Action.state (throwReport_eq_ok hmessage (h.exists_diagnose .red) hfatal)⟩
  | interrupted text =>
    have hplain : Template.Plain interruption.template := by decide +kernel
    exact ⟨_, congrArg Action.state (throwNotice_of_plain rfl hplain hfatal)⟩
  | tooDeep text =>
    have hplain : Template.Plain depthExceeded.template := by decide +kernel
    exact ⟨_, congrArg Action.state (throwNotice_of_plain rfl hplain hfatal)⟩
  | leave status => exact h.elim
  | defect defect => exact ⟨_, congrArg Action.state (settle_defect h.1 h.2 hfatal)⟩

end Reporter

end UntypedLambda
