import UntypedLambda.Reporter

/-!
# Problems that can always be reported

A template without braces has no fields, so it is filled with itself. The texts of integers hold no
braces either; hence a problem whose template is made of such texts ends an operation with a report
of itself, and never with a defect in making the report. A template with one field takes any text,
so a warning with such a template is printed.
-/

namespace UntypedLambda

/-- Whether a text holds no braces. -/
def Template.Plain (text : String) : Prop := ∀ c ∈ text.toList, c ≠ '\x7b' ∧ c ≠ '\x7d'

/-- Whether a fault is the report of a problem. -/
def Fault.Reports (fault : Fault) (problem : Problem) : Prop :=
  ∃ report : Report, fault = .report report ∧ report.problem = problem

/-- A fault reports one problem. -/
theorem Fault.Reports.unique {fault : Fault} {problem other : Problem} (h : fault.Reports problem)
    (hother : fault.Reports other) : problem = other := by
  obtain ⟨report, rfl, rfl⟩ := h
  obtain ⟨_, hsame, rfl⟩ := hother
  exact congrArg Report.problem (Fault.report.inj hsame)

namespace Template

instance (text : String) : Decidable (Plain text) :=
  List.decidableBAll (fun c => c ≠ '\x7b' ∧ c ≠ '\x7d') text.toList

/-- Texts without braces put together hold no braces. -/
theorem Plain.append {first second : String} (hfirst : Plain first) (hsecond : Plain second) :
    Plain (first ++ second) := by
  intro c hc
  rw [String.toList_append, List.mem_append] at hc
  exact hc.elim (hfirst c) (hsecond c)

/-- A digit is no brace. -/
theorem ne_brace_of_isDigit {c : Char} (h : c.isDigit = true) : c ≠ '\x7b' ∧ c ≠ '\x7d' := by
  constructor <;>
  · rintro rfl
    cases h

/-- The text of a natural number holds no braces. -/
theorem plain_natRepr (n : Nat) : Plain n.repr := by
  intro c hc
  rw [Nat.toList_repr] at hc
  exact ne_brace_of_isDigit (Nat.isDigit_of_mem_toDigits (by decide) (by decide) hc)

/-- The text of an integer holds no braces. -/
theorem plain_toString (n : Int) : Plain (toString n) := by
  cases n with
  | ofNat n => exact plain_natRepr n
  | negSucc n =>
    have hsign : Plain "-" := by decide +kernel
    exact hsign.append (plain_natRepr (n + 1))

/-- Characters without braces are cut off one by one. -/
theorem segmentsFrom_append {text : List Char} (h : ∀ c ∈ text, c ≠ '\x7b' ∧ c ≠ '\x7d')
    (others : List Char) : segmentsFrom .outside (text ++ others) =
      text.map Segment.literal ++ segmentsFrom .outside others := by
  induction text with
  | nil => rfl
  | cons c rest ih =>
    obtain ⟨hopening, hclosing⟩ := h c List.mem_cons_self
    have hrest := ih fun d hd => h d (List.mem_cons_of_mem c hd)
    rw [List.cons_append, segmentsFrom, hrest, List.map_cons, List.cons_append] <;> simp_all

/-- A template without braces is cut into its characters. -/
theorem segmentsFrom_plain {text : List Char} (h : ∀ c ∈ text, c ≠ '\x7b' ∧ c ≠ '\x7d') :
    segmentsFrom .outside text = text.map Segment.literal := by
  have happend := segmentsFrom_append h []
  rwa [List.append_nil, segmentsFrom, List.append_nil] at happend

/-- Characters that stand for themselves are filled with themselves. -/
theorem fillSegments_literals (texts : List String) (numbering : Numbering) (text : List Char) :
    fillSegments texts numbering (text.map Segment.literal) = .ok text := by
  induction text with
  | nil => rfl
  | cons c rest ih => rw [List.map_cons, fillSegments, ih]

/-- A template without braces is its own message. -/
theorem fill_plain {template : String} (h : Plain template) (texts : List String) :
    fill template texts = .ok template := by
  unfold fill segments
  rw [segmentsFrom_plain h, fillSegments_literals]
  exact congrArg Except.ok String.ofList_toList

/-- The text that a field asks for stands in place of the field, if it is the only one. -/
theorem fillSegments_field {texts : List String} {numbering numbering' : Numbering} {field : Field}
    {index : Nat} {text : String} (hlocate : numbering.locate field = .ok (index, numbering'))
    (htext : texts[index]? = some text) (before after : List Char) :
    fillSegments texts numbering
        (before.map Segment.literal ++ Segment.field field :: after.map Segment.literal) =
      .ok (before ++ text.toList ++ after) := by
  induction before with
  | nil =>
    simp only [List.map_nil, List.nil_append, fillSegments, hlocate, htext, fillSegments_literals]
  | cons c before ih =>
    rw [List.map_cons, List.cons_append, fillSegments, ih]
    rfl

/-- A template that is cut into characters around one field is filled with the text that the field
asks for. -/
theorem fill_field {template : String} {texts : List String} {numbering : Numbering} {field : Field}
    {index : Nat} {text : String} {before after : List Char}
    (h : segments template =
      before.map Segment.literal ++ Segment.field field :: after.map Segment.literal)
    (hlocate : Numbering.undecided.locate field = .ok (index, numbering))
    (htext : texts[index]? = some text) :
    fill template texts = .ok (String.ofList (before ++ text.toList ++ after)) := by
  unfold fill
  rw [h, fillSegments_field hlocate htext]

end Template

namespace Problem

/-- A problem whose template can be filled, with a text to show, has a report. -/
theorem exists_report {problem : Problem} (hname : problem.isNameless = false) {message : String}
    (hfill : Template.fill problem.notice.template problem.notice.texts = .ok message)
    (htexts : problem.notice.texts ≠ []) :
    ∃ report, problem.report = .ok report ∧ report.problem = problem := by
  unfold Problem.report
  rw [if_neg (by rw [hname]; decide)]
  split
  · next fault hfault =>
    rw [hfill] at hfault
    cases hfault
  · split
    · next hnone => exact absurd hnone htexts
    · exact ⟨_, rfl, rfl⟩

/-- A report is built of the problem that it is asked of. -/
theorem problem_of_report {problem : Problem} {report : Report}
    (h : problem.report = .ok report) : report.problem = problem := by
  unfold Problem.report at h
  split at h
  · nomatch h
  · split at h
    · nomatch h
    · split at h
      · nomatch h
      · exact congrArg Report.problem (Except.ok.inj h).symm

/-- A fault reports no other problem than its own. -/
theorem eq_of_fault_reports {problem other : Problem} (h : problem.fault.Reports other) :
    problem = other := by
  obtain ⟨report, hfault, rfl⟩ := h
  unfold Problem.fault at hfault
  split at hfault
  · next made hmade =>
    obtain rfl : made = report := Fault.report.inj hfault
    exact (problem_of_report hmade).symm
  · nomatch hfault

/-- A problem whose template can be filled, with a text to show, is reported. -/
theorem reports_of_fill {problem : Problem} (hname : problem.isNameless = false) {message : String}
    (hfill : Template.fill problem.notice.template problem.notice.texts = .ok message)
    (htexts : problem.notice.texts ≠ []) : problem.fault.Reports problem := by
  obtain ⟨report, hok, hproblem⟩ := exists_report hname hfill htexts
  refine ⟨report, ?_, hproblem⟩
  unfold Problem.fault
  rw [hok]

/-- A problem with a template without braces and with a text to show is reported. -/
theorem fault_reports {problem : Problem} (hname : problem.isNameless = false)
    (hplain : Template.Plain problem.notice.template) (htexts : problem.notice.texts ≠ []) :
    problem.fault.Reports problem :=
  reports_of_fill hname (Template.fill_plain hplain _) htexts

/-- The message of running out of steps has no fields, whatever the budget. -/
theorem plain_outOfSteps (budget : Int) : Template.Plain (outOfSteps budget).notice.template := by
  have hbefore : Template.Plain "evaluation exceeded maximum steps (" := by decide +kernel
  have hafter : Template.Plain "), possible non-terminating expression" := by decide +kernel
  exact (hbefore.append (Template.plain_toString budget)).append hafter

/-- Running out of steps is reported, whatever the budget. -/
theorem outOfSteps_reports (budget : Int) :
    (outOfSteps budget).fault.Reports (outOfSteps budget) :=
  fault_reports rfl (plain_outOfSteps budget) (List.cons_ne_nil _ _)

/-- A character that starts no token is reported, whatever it is. -/
theorem unexpectedChar_reports (char : String) (position : Int) (source : String) :
    (unexpectedChar char position source).fault.Reports
      (unexpectedChar char position source) := by
  have hbefore : Template.Plain "unexpected character '" := by decide +kernel
  have hafter : Template.Plain ("' at position " ++ toString position) := by
    have hat : Template.Plain "' at position " := by decide +kernel
    exact hat.append (Template.plain_toString position)
  have hcut : Template.segments ("unexpected character '\x7b1\x7d' at position " ++
      toString position) =
      "unexpected character '".toList.map Template.Segment.literal ++
        Template.Segment.field (.position 1) ::
          ("' at position " ++ toString position).toList.map Template.Segment.literal := by
    have hchars : ("unexpected character '\x7b1\x7d' at position " ++ toString position).toList =
        "unexpected character '".toList ++
          '\x7b' :: '1' :: '\x7d' :: ("' at position " ++ toString position).toList := by
      simp [String.toList_append]
    unfold Template.segments
    rw [hchars, Template.segmentsFrom_append hbefore, ← Template.segmentsFrom_plain hafter]
    rfl
  have htext : [source, char][1]? = some char := rfl
  exact reports_of_fill rfl (Template.fill_field hcut rfl htext) (List.cons_ne_nil _ _)

/-- A refused token that spells something is reported. -/
theorem unexpectedToken_reports {token : Token} {expected : String}
    (hname : token.isNameless = false) (hplain : Template.Plain expected) (source : String) :
    (unexpectedToken token expected source).fault.Reports
      (unexpectedToken token expected source) := by
  refine fault_reports hname ?_ (List.cons_ne_nil _ _)
  have hgot : Template.Plain ", got " := by decide +kernel
  have hkind : Template.Plain token.kind.display := by
    cases token.kind <;> decide +kernel
  have hat : Template.Plain " at position " := by decide +kernel
  exact (((hplain.append hgot).append hkind).append hat).append
    (Template.plain_toString token.position)

end Problem

namespace Reporter

/-- Nothing printed changes nothing. -/
theorem printLines_nil (r : Reporter) : r.printLines [] = r := by
  unfold printLines
  rw [List.map_nil, List.append_nil]

/-- Texts printed one after the other are printed together. -/
theorem printLines_printLines (first second : List String) (r : Reporter) :
    (r.printLines first).printLines second = r.printLines (first ++ second) := by
  unfold printLines
  rw [List.map_append, List.append_assoc]

/-- A warning that shows no span is printed if its template can be filled, with its texts as they
are and in bold. -/
theorem warn_eq_ok {notice : Notice} {message bold : String}
    (hfill : Template.fill notice.template notice.texts = .ok message)
    (hbold : Template.fill notice.template (notice.texts.map Text.bold) = .ok bold)
    (htexts : notice.texts ≠ []) (hspan : notice.diagnosis = false) (r : Reporter) :
    warn notice r = .ok () (r.printLines [Text.Colour.magenta.bold "warning: " ++ bold]) := by
  have hname : (Problem.general notice).isNameless = false := rfl
  obtain ⟨report, hreport, hproblem⟩ := Problem.exists_report hname hfill htexts
  have hnotice : report.problem.notice = notice := congrArg Problem.notice hproblem
  have hok : reportOf (.general notice) r = .ok report r := by
    unfold reportOf
    rw [hreport]
    rfl
  have hhighlighted : highlighted report r = .ok bold r := by
    unfold highlighted Report.highlighted
    rw [hnotice, hbold]
    rfl
  have hshows : report.showsSpan = false := by
    unfold Report.showsSpan
    rw [hnotice, hspan, Bool.and_false]
  unfold warn printReport
  rw [Action.bind_of_ok hok, Action.bind_of_ok hhighlighted, hshows]
  rfl

end Reporter

end UntypedLambda
