import UntypedLambda.Proofs.Evaluation
import UntypedLambda.Proofs.Lexemes
import UntypedLambda.Proofs.Literals
import UntypedLambda.Proofs.Reading
import UntypedLambda.Proofs.SessionWork
import UntypedLambda.Proofs.Settling
import UntypedLambda.Shell

/-!
# What is refused can be shown

Everything that a shell refuses is a fault that a reporter can deal with. A character or a token
that is out of place lies in the text that it is reported of. What is wrong with a name, a number or
a definition is reported of the whole text. A budget that is missing or below zero is a defect with
a plain text.
-/

namespace UntypedLambda

/-- Whether a fault says what is wrong with the input, in a report that can be shown. -/
def Fault.Refuses : Fault → Prop
  | .report r => r.Showable
  | _ => False

/-- What is wrong with the input can be dealt with. -/
theorem Fault.Refuses.presentable {fault : Fault} (h : fault.Refuses) : fault.Presentable := by
  cases fault with
  | report r => exact h
  | _ => exact h.elim

/-- A report of a problem can be shown if the offending span lies near the offending text, or is not
shown. -/
theorem Fault.Reports.refuses {fault : Fault} {problem : Problem} (h : fault.Reports problem)
    (hfits : problem.notice.diagnosis = true →
      ∀ expr ∈ problem.notice.texts.head?, problem.notice.Fits expr.length) :
    fault.Refuses := by
  obtain ⟨report, rfl, rfl⟩ := h
  intro hdiagnosis
  refine hfits hdiagnosis report.expr ?_
  rw [report.texts_eq]
  rfl

/-- An outcome whose fault, if it is one, is of some kind. -/
structure FaultsIn (kind : Fault → Prop) {α : Type} (outcome : Except Fault α) : Prop where
  /-- The fault is of the kind. -/
  isKind : ∀ fault, outcome = .error fault → kind fault

/-- An action whose faults are of some kind. -/
structure Action.FaultsIn (kind : Fault → Prop) {σ α : Type} (act : Action σ α) : Prop where
  /-- The faults are of the kind. -/
  isKind : ∀ s fault after, act s = .error fault after → kind fault

section FaultsIn

variable {α β σ τ : Type} {kind other : Fault → Prop}

/-- A value is no fault. -/
theorem FaultsIn.ok (a : α) : FaultsIn kind (.ok a : Except Fault α) :=
  ⟨fun _ hfault => nomatch hfault⟩

/-- A fault of the kind. -/
theorem FaultsIn.error {fault : Fault} (h : kind fault) :
    FaultsIn kind (.error fault : Except Fault α) := by
  refine ⟨fun found hfound => ?_⟩
  obtain rfl : fault = found := Except.error.inj hfound
  exact h

/-- Faults of a kind are of every wider kind. -/
theorem FaultsIn.mono {outcome : Except Fault α} (h : FaultsIn kind outcome)
    (hwider : ∀ {fault}, kind fault → other fault) : FaultsIn other outcome :=
  ⟨fun fault hfault => hwider (h.isKind fault hfault)⟩

/-- One outcome after another has such faults if both have. -/
theorem FaultsIn.bind {first : Except Fault α} {next : α → Except Fault β}
    (h : FaultsIn kind first) (hnext : ∀ a, FaultsIn kind (next a)) :
    FaultsIn kind (first >>= next) := by
  cases first with
  | ok a => exact hnext a
  | error fault => exact .error (h.isKind fault rfl)

/-- Another value is no fault either. -/
theorem FaultsIn.map {outcome : Except Fault α} (h : FaultsIn kind outcome) (f : α → β) :
    FaultsIn kind (outcome.map f) := by
  cases outcome with
  | ok a => exact .ok (f a)
  | error fault => exact .error (h.isKind fault rfl)

namespace Action

/-- What always succeeds has no faults. -/
theorem FaultsIn.of_ok {act : Action σ α} (h : ∀ s, ∃ a after, act s = .ok a after) :
    act.FaultsIn kind := by
  refine ⟨fun s fault after hfault => ?_⟩
  obtain ⟨a, done, hok⟩ := h s
  nomatch hok.symm.trans hfault

/-- Faults of a kind are of every wider kind. -/
theorem FaultsIn.mono {act : Action σ α} (h : act.FaultsIn kind)
    (hwider : ∀ {fault}, kind fault → other fault) : act.FaultsIn other :=
  ⟨fun s fault after hfault => hwider (h.isKind s fault after hfault)⟩

/-- One action after another. -/
theorem FaultsIn.bind {first : Action σ α} {next : α → Action σ β} (h : first.FaultsIn kind)
    (hnext : ∀ a, (next a).FaultsIn kind) : (first >>= next).FaultsIn kind := by
  refine ⟨fun s fault after hfault => ?_⟩
  rcases bind_eq_error.mp hfault with hfirst | ⟨a, t, -, hrest⟩
  · exact h.isKind s fault after hfirst
  · exact (hnext a).isKind t fault after hrest

/-- Giving a value. -/
theorem FaultsIn.pure (a : α) : (Pure.pure a : Action σ α).FaultsIn kind :=
  .of_ok fun s => ⟨a, s, rfl⟩

/-- Reading the state. -/
theorem FaultsIn.get : (MonadState.get : Action σ σ).FaultsIn kind :=
  .of_ok fun s => ⟨s, s, rfl⟩

/-- Changing the state. -/
theorem FaultsIn.modify (f : σ → σ) : (modify f : Action σ PUnit).FaultsIn kind :=
  .of_ok fun s => ⟨PUnit.unit, f s, rfl⟩

/-- Ending with a fault. -/
theorem FaultsIn.throw {fault : Fault} (h : kind fault) :
    (throw fault : Action σ α).FaultsIn kind := by
  refine ⟨fun s found after hfound => ?_⟩
  obtain ⟨rfl, -⟩ := EStateM.Result.error.inj hfound
  exact h

/-- Ending with an outcome. -/
theorem FaultsIn.ofExcept {outcome : Except Fault α} (h : UntypedLambda.FaultsIn kind outcome) :
    (ofExcept outcome : Action σ α).FaultsIn kind := by
  cases outcome with
  | ok a => exact .pure a
  | error fault => exact .throw (h.isKind fault rfl)

/-- Acting under a condition, and going on. -/
theorem FaultsIn.check {c : Prop} [Decidable c] {act : Action σ PUnit} {rest : Action σ α}
    (h : act.FaultsIn kind) (hrest : rest.FaultsIn kind) :
    (if c then act >>= fun _ => rest else rest).FaultsIn kind := by
  split
  · exact h.bind fun _ => hrest
  · exact hrest

/-- Acting on a part of the state. -/
theorem FaultsIn.onPart {get : σ → τ} {set : τ → σ → σ} {act : Action τ α}
    (h : act.FaultsIn kind) : (act.onPart get set).FaultsIn kind := by
  refine ⟨fun s fault after hfault => ?_⟩
  unfold Action.onPart at hfault
  cases hact : act (get s) with
  | ok a part =>
    rw [hact] at hfault
    nomatch hfault
  | error found part =>
    rw [hact] at hfault
    obtain ⟨rfl, -⟩ := EStateM.Result.error.inj hfault
    exact h.isKind (get s) found part hact

end Action

end FaultsIn

namespace Scanner

/-- A character that starts no token is reported where it stands. -/
theorem next_of_error {s after : Scanner} {problem : Problem}
    (h : s.next = (.error problem, after)) :
    ∃ (char : String) (position : Nat), problem = .unexpectedChar char position s.source ∧
      position ≤ s.text.length := by
  obtain ⟨_, c, _, -, -, -, -, -, -, rfl⟩ := exists_of_next_eq_error h
  have htext : after.text = s.text := by rw [← text_next s, h]
  exact ⟨String.singleton c, after.position, rfl, htext ▸ after.position_le⟩

/-- What is wrong with a text that cannot be tokenized is a character of it. -/
theorem unexpectedChar_of_tokenizeOnto {s after : Scanner} {read : List Token} {problem : Problem}
    (h : tokenizeOnto read s = (.error problem, after)) :
    ∃ (char : String) (position : Nat), problem = .unexpectedChar char position s.source ∧
      position ≤ s.text.length := by
  -- Every token but the end of input takes characters off the rest of the text.
  induction hlength : s.rest.length using Nat.strongRecOn generalizing s read with
  | _ length ih =>
    subst hlength
    cases hnext : s.next with
    | mk outcome between =>
      cases outcome with
      | error other =>
        rw [tokenizeOnto_of_error read hnext] at h
        obtain ⟨⟨rfl⟩, -⟩ := Prod.mk.injEq .. ▸ h
        exact next_of_error hnext
      | ok token =>
        by_cases ended : token.kind = .endOfInput
        · rw [tokenizeOnto_of_end read hnext ended] at h
          nomatch h
        · rw [tokenizeOnto_of_next read hnext ended] at h
          have htext : between.text = s.text := by
            rw [← text_next s, hnext]
          have hfound := ih _ (length_rest_next_lt hnext ended) h rfl
          rwa [htext, source, htext] at hfound

/-- The tokens of a text lie in the text. -/
theorem Lexes.position_add_length_le {start : Nat} {text : List Char} {tokens : List Token}
    (h : Lexes start text tokens) :
    ∀ token ∈ tokens, token.position + token.lexeme.length ≤ start + text.length := by
  induction h with
  | @ended start gap hgap =>
    have hlexeme : (⟨.endOfInput, none, (start + gap.length : Nat)⟩ : Token).lexeme.length = 0 :=
      rfl
    refine List.forall_mem_singleton.mpr ?_
    rw [hlexeme]
    dsimp only
    omega
  | @token start gap span rest token others hgap place written stop tail ih =>
    refine List.forall_mem_cons.mpr ⟨?_, fun other hother => ?_⟩
    · have hlength := written.length_eq
      simp only [List.length_append]
      omega
    · have hother := ih other hother
      simp only [List.length_append]
      omega

end Scanner

section Texts

/-- A character that is out of place can be shown. -/
theorem unexpectedChar_refuses (char : String) {position : Nat} {source : String}
    (h : position ≤ source.length) :
    (Problem.unexpectedChar char position source).fault.Refuses := by
  refine (Problem.unexpectedChar_reports char position source).refuses ?_
  intro _ expr hexpr
  obtain rfl : source = expr := Option.some.inj hexpr
  have hstop : (position : Int) + 1 ≤ position + source.length + 1 := by omega
  exact ⟨Int.natCast_nonneg position, Int.ofNat_le.mpr h, hstop⟩

/-- A text that cannot be tokenized can be shown. -/
theorem tokenize_refuses {text : String} {problem : Problem}
    (h : (Scanner.ofString text).tokenize.1 = .error problem) : problem.fault.Refuses := by
  have hpair : Scanner.tokenizeOnto [] (.ofString text) =
      (.error problem, (Scanner.ofString text).tokenize.2) := Prod.ext h rfl
  obtain ⟨char, position, rfl, hposition⟩ := Scanner.unexpectedChar_of_tokenizeOnto hpair
  refine unexpectedChar_refuses char ?_
  unfold Scanner.source
  rwa [String.length_ofList]

/-- A token that is out of place can be shown. -/
theorem unexpectedToken_refuses {fault : Fault} {token : Token} {expected source : String}
    (h : fault.Reports (.unexpectedToken token expected source)) (hstart : 0 ≤ token.position)
    (hstop : token.position + token.lexeme.length ≤ source.length) : fault.Refuses := by
  refine h.refuses ?_
  intro _ expr hexpr
  obtain rfl : source = expr := Option.some.inj hexpr
  have hstart_le : token.position ≤ source.length := by omega
  have hstop_le : token.position + (max token.lexeme.length 1 : Nat) ≤
      token.position + source.length + 1 := by omega
  exact ⟨hstart, hstart_le, hstop_le⟩

/-- A text that spells no term can be shown. -/
theorem parse_refuses (text : String) : FaultsIn Fault.Refuses (Term.parse text) := by
  refine ⟨fun fault hfault => ?_⟩
  unfold Term.parse at hfault
  dsimp only at hfault
  cases htokenize : (Scanner.ofString text).tokenize.1 with
  | error problem =>
    rw [htokenize] at hfault
    obtain rfl : problem.fault = fault := Except.error.inj hfault
    exact tokenize_refuses htokenize
  | ok row =>
    rw [htokenize] at hfault
    have hpair : (Scanner.ofString text).tokenize =
        (.ok row, (Scanner.ofString text).tokenize.2) := Prod.ext htokenize rfl
    obtain ⟨tokens, between, eof, hscans, -, heof, rfl⟩ := Scanner.tokenize_eq_ok_iff.mp hpair
    have hspelled : Spelled tokens := fun token hmem hname =>
      (hscans.isIdentifier token hmem hname).imp fun _ h => h.1
    obtain ⟨token, hmem, expected, hreports⟩ :=
      Parser.mem_of_readRow_eq_error hspelled heof hfault
    have hlexes := Scanner.tokenize_eq_ok_iff_lexes.mp htokenize
    refine unexpectedToken_refuses hreports (hlexes.le_position token hmem) ?_
    have hend := hlexes.position_add_length_le token hmem
    have hsource : (Scanner.ofString text).source.length = (Scanner.ofString text).rest.length :=
      String.length_ofList
    have hposition : (Scanner.ofString text).position = 0 := rfl
    omega

/-- A notice about a whole text can be shown if it can be filled in. -/
theorem general_refuses {notice : Notice} {message : String}
    (hfill : Template.fill notice.template notice.texts = .ok message) (htexts : notice.texts ≠ [])
    (hstart : notice.start = 0) (hstop : notice.stop = -1) :
    (Problem.general notice).fault.Refuses := by
  have hname : (Problem.general notice).isNameless = false := rfl
  have hreports := Problem.reports_of_fill hname hfill htexts
  exact hreports.refuses fun _ expr _ => Notice.fits_whole hstart hstop expr.length

/-- A value that is no number can be shown. -/
theorem notNatural_refuses (shown : String) : (Numeral.notNatural shown).Refuses := by
  have hcut : Template.segments "expected natural number, got '\x7b\x7d'" =
      "expected natural number, got '".toList.map Template.Segment.literal ++
        Template.Segment.field .next :: ['\''].map Template.Segment.literal := by decide +kernel
  have htext : [shown][0]? = some shown := rfl
  have hfill := Template.fill_field hcut rfl htext
  unfold Numeral.notNatural
  exact general_refuses hfill (List.cons_ne_nil _ _) rfl rfl

/-- A number that is not replaced can be shown. -/
theorem expandLiterals_refuses (text : String) :
    FaultsIn Fault.Refuses (Numeral.expandLiterals text) := by
  refine ⟨fun fault hfault => ?_⟩
  obtain ⟨shown, rfl⟩ := Numeral.exists_notNatural hfault
  exact notNatural_refuses shown

/-- A text with literals that spells no term can be shown. -/
theorem readLiterals_refuses (text : String) : FaultsIn Fault.Refuses (Session.readLiterals text) :=
  (expandLiterals_refuses text).bind parse_refuses

/-- A text that is no name can be shown if it cannot even be tokenized. -/
theorem isName_refuses (text : String) : FaultsIn Fault.Refuses (Session.isName text) := by
  unfold Session.isName
  split
  · next problem hproblem => exact .error (tokenize_refuses hproblem)
  · exact .ok _
  · exact .ok _

/-- A budget below zero can be shown. -/
theorem negativeBudget_presentable (budget : Int) :
    (Fault.defect (.negativeBudget budget)).Presentable := by
  have hkind : Template.Plain "ValueError" := by decide +kernel
  have hmessage : Template.Plain "max_steps must be a natural number, got " := by decide +kernel
  exact ⟨hkind, hmessage.append (Template.plain_toString budget)⟩

/-- A search that its budget does not allow can be shown. -/
theorem withinBudget_presented {α : Type} (search : Nat → Option α) (budget : Int) :
    FaultsIn Fault.Presentable (Term.withinBudget search budget) := by
  unfold Term.withinBudget
  split
  · exact .error (negativeBudget_presentable budget)
  · split
    · exact .ok _
    · exact .error ((Problem.outOfSteps_reports budget).refuses nofun).presentable

/-- A missing budget can be shown. -/
theorem budgetOr_presented (calculus : Calculus) (given : Option Int) :
    FaultsIn Fault.Presentable (calculus.budgetOr given) := by
  unfold Calculus.budgetOr
  split
  · exact .ok _
  · exact .ok _
  · have hkind : Template.Plain "TypeError" := by decide +kernel
    have hmessage : Template.Plain "'<' not supported between instances of 'list' and 'int'" := by
      decide +kernel
    exact .error ⟨hkind, hmessage⟩

end Texts

namespace Session

/-- A definition that is refused can be shown. -/
theorem define_refuses (name text : String) : (define name text).FaultsIn Fault.Refuses := by
  have hname (name : String) :
      (fail { template := "'\x7b\x7d' is not a valid variable name", texts := [name] } :
        Action Session PUnit).FaultsIn Fault.Refuses := by
    have hcut : Template.segments "'\x7b\x7d' is not a valid variable name" =
        ['\''].map Template.Segment.literal ++ Template.Segment.field .next ::
          "' is not a valid variable name".toList.map Template.Segment.literal := by decide +kernel
    have htext : [name][0]? = some name := rfl
    have hfill := Template.fill_field hcut rfl htext
    exact .throw (general_refuses hfill (List.cons_ne_nil _ _) rfl rfl)
  have hrecursive (text : String) :
      (fail { template := "recursive definitions not supported", texts := [text],
              diagnosis := false } : Action Session PUnit).FaultsIn Fault.Refuses := by
    have hplain : Template.Plain "recursive definitions not supported" := by decide +kernel
    exact .throw (general_refuses (Template.fill_plain hplain _) (List.cons_ne_nil _ _) rfl rfl)
  have hwarning (name : String) : (reporting (Reporter.warn
      { template := "'\x7b\x7d' shadows a prelude definition", texts := [name],
        diagnosis := false })).FaultsIn Fault.Refuses := by
    exact .onPart (.of_ok fun r => ⟨(), _, warn_shadowing name r⟩)
  unfold define
  refine .bind (.ofExcept (isName_refuses _)) fun valid => ?_
  refine .check (hname _) ?_
  refine .bind (.ofExcept (readLiterals_refuses text)) fun term => ?_
  refine .bind .get fun s => ?_
  refine .check (hrecursive _) ?_
  refine .check (hwarning _) ?_
  exact .bind (.modify _) fun _ => .pure _

/-- A line is noted without fail. -/
theorem enterLine_faultsIn (kind : Fault → Prop) (text : String) (number : Option Int) :
    (enterLine text number).FaultsIn kind :=
  .bind .get fun _ => .onPart (.modify _)

/-- A line is forgotten without fail. -/
theorem leaveLine_faultsIn (kind : Fault → Prop) : leaveLine.FaultsIn kind :=
  .bind .get fun _ => .onPart (.modify _)

/-- A text that is not read can be shown. -/
theorem read_refuses (s : Session) (text : String) : FaultsIn Fault.Refuses (s.read text) :=
  (readLiterals_refuses text).map _

/-- A statement that is refused can be shown. -/
theorem add_refuses (text : String) (number : Option Int) :
    (add text number).FaultsIn Fault.Refuses := by
  unfold add
  refine .bind (enterLine_faultsIn _ text number) fun _ => ?_
  split
  · exact .bind (define_refuses _ _) fun _ => leaveLine_faultsIn _
  · refine .bind ?_ fun _ => leaveLine_faultsIn _
    exact .bind .get fun s => .bind (.ofExcept (read_refuses s text)) fun _ => .modify _

/-- An evaluation that fails can be shown. -/
theorem evaluate_presented (term : Term) (traced : Bool) :
    (evaluate term traced).FaultsIn Fault.Presentable := by
  unfold evaluate
  refine .bind .get fun s => .bind (.ofExcept (budgetOr_presented _ _)) fun budget => ?_
  split
  · exact .bind (.ofExcept (withinBudget_presented _ budget)) fun _ => .modify _
  · exact .bind (.ofExcept (withinBudget_presented _ budget)) fun _ => .modify _

/-- A run of the queue that fails can be shown. -/
theorem runQueue_presented (traced : Bool) (items : List Queued) :
    (runQueue traced items).FaultsIn Fault.Presentable := by
  induction items with
  | nil => exact .pure ()
  | cons item items ih =>
    refine .bind (.modify _) fun _ => .bind (enterLine_faultsIn _ _ _) fun _ => ?_
    exact .bind (evaluate_presented _ _) fun _ => .bind (leaveLine_faultsIn _) fun _ => ih

/-- A result that is not there can be shown. -/
theorem pop_presented : pop.FaultsIn Fault.Presentable := by
  unfold pop
  refine .bind .get fun s => ?_
  split
  · have hkind : Template.Plain "IndexError" := by decide +kernel
    have hmessage : Template.Plain "pop from empty list" := by decide +kernel
    exact .throw ⟨hkind, hmessage⟩
  · exact .bind (.modify _) fun _ => .pure _

/-- Steps that cannot be told can be shown. -/
theorem steps_presented (s : Session) (text : String) : FaultsIn Fault.Presentable (s.steps text) :=
  ((read_refuses s text).mono Fault.Refuses.presentable).bind fun _ =>
    (budgetOr_presented _ _).bind fun budget =>
      FaultsIn.bind (withinBudget_presented _ budget) fun _ => .ok _

end Session

namespace Shell

/-- Printing does not fail. -/
theorem printLines_presented (texts : List String) :
    (printLines texts).FaultsIn Fault.Presentable :=
  .of_ok fun _ => ⟨(), _, rfl⟩

/-- Results that are not there can be shown. -/
theorem showResults_presented (count : Nat) : (showResults count).FaultsIn Fault.Presentable := by
  induction count with
  | zero => exact .pure ()
  | succ count ih =>
    exact .bind (.onPart Session.pop_presented) fun _ => .bind (printLines_presented _) fun _ => ih

/-- A line of a statement that fails can be shown. -/
theorem takeStatement_presented (line : String) :
    (takeStatement line).FaultsIn Fault.Presentable := by
  unfold takeStatement
  refine .bind (.modify _) fun _ => .bind .get fun shell => ?_
  dsimp only
  generalize hpending : (if shell.held.isEmpty then _ else _) = text
  split
  · exact .modify _
  · refine .bind (.modify _) fun _ => ?_
    split
    · refine .bind (.onPart ((Session.add_refuses _ _).mono Fault.Refuses.presentable)) fun _ => ?_
      refine .bind (.onPart (.bind .get fun _ => Session.runQueue_presented _ _)) fun _ => ?_
      exact .bind .get fun _ => showResults_presented _
    · exact .pure _

/-- What a shell cannot do can be shown. -/
theorem perform_presented (command : Command) : (perform command).FaultsIn Fault.Presentable := by
  cases command with
  | blank => exact .pure _
  | statement text => exact .bind (takeStatement_presented text) fun _ => .pure _
  | define text =>
    refine .bind ?_ fun _ => .pure _
    unfold takeDefinition
    dsimp only
    split
    · exact printLines_presented _
    · refine .bind (.onPart ((Session.define_refuses _ _).mono Fault.Refuses.presentable)) ?_
      exact fun _ => printLines_presented _
  | list => exact .bind .get fun _ => .bind (printLines_presented _) fun _ => .pure _
  | steps text =>
    refine .bind ?_ fun _ => .pure _
    unfold takeSteps
    split
    · exact printLines_presented _
    · refine .bind (printLines_presented _) fun _ => .bind .get fun shell => ?_
      exact .bind (.ofExcept (Session.steps_presented _ _)) fun _ => printLines_presented _
  | clear =>
    exact .bind (.onPart (.modify _)) fun _ => .bind (printLines_presented _) fun _ => .pure _
  | help => exact .bind (printLines_presented _) fun _ => .pure _
  | endOfInput => exact .bind (printLines_presented _) fun _ => .pure _
  | quit => exact .pure _
  | unknown line => exact .bind (printLines_presented _) fun _ => .pure _

end Shell

end UntypedLambda
