import UntypedLambda.Proofs.Parsing
import UntypedLambda.Proofs.Scanning
import UntypedLambda.Term.Reading

/-!
# Terms that are read from texts

Reading a text scans tokens up to the end of input and takes the term that they spell. The term has
no names but those that are among the tokens, so all of its names are identifiers.
-/

namespace UntypedLambda

/-- The names of variables and parameters, from left to right and as often as they occur. -/
def Term.names : Term → List String
  | .var name => [name]
  | .abs param body => param :: body.names
  | .app left right => left.names ++ right.names

/-- The names that are known before something is read. -/
def Sought.names : Sought → List String
  | .atom => []
  | .after none => []
  | .after (some read) => read.names

/-- An atom that is applied to adds its names. -/
theorem names_extend (read : Option Term) (atom : Term) :
    (Parser.extend read atom).names = (Sought.after read).names ++ atom.names := by
  cases read <;> rfl

/-- Every name of a term that is read is known before or spelled by a token. -/
theorem Reads.names {sought : Sought} {tokens follow : List Token} {tree : Term}
    (h : Reads sought tokens follow tree) : ∀ name ∈ tree.names,
      name ∈ sought.names ∨ ∃ token ∈ tokens, token.kind = .name ∧ token.value = some name := by
  induction h with
  | @var token text follow isName spells =>
    intro name hname
    obtain rfl := List.mem_singleton.mp hname
    exact .inr ⟨token, List.mem_singleton_self token, isName, spells⟩
  | @abstraction lambda param dot text body follow tree isLambda isName spells isDot ends _ ih =>
    intro name hname
    rcases List.mem_cons.mp hname with rfl | hbody
    · exact .inr ⟨param, by simp, isName, spells⟩
    · rcases ih name hbody with hknown | ⟨token, hmem, htoken⟩
      · nomatch hknown
      · exact .inr ⟨token, by simp [hmem], htoken⟩
  | @parentheses opening closing inside follow tree isOpening isClosing inner ih =>
    intro name hname
    rcases ih name hname with hknown | ⟨token, hmem, htoken⟩
    · nomatch hknown
    · exact .inr ⟨token, by simp [hmem], htoken⟩
  | done tree => exact fun name hname => .inl hname
  | @next read first others follow atom tree head tail ihh iht =>
    intro name hname
    rcases iht name hname with hknown | ⟨token, hmem, htoken⟩
    · rw [Sought.names, names_extend, List.mem_append] at hknown
      rcases hknown with hread | hatom
      · exact .inl hread
      · rcases ihh name hatom with hnone | ⟨token, hmem, htoken⟩
        · nomatch hnone
        · exact .inr ⟨token, List.mem_append_left others hmem, htoken⟩
    · exact .inr ⟨token, List.mem_append_right first hmem, htoken⟩

/-- A row with an end of input behind it is read as the terms that it spells. -/
theorem readRow_eq_ok_iff {tokens : List Token} {eof : Token} {tree : Term} (source : String)
    (hmore : ∀ token ∈ tokens, token.kind ≠ .endOfInput) (hspelled : Spelled tokens)
    (hend : eof.kind = .endOfInput) :
    Parser.readRow (tokens ++ [eof]) source = .ok tree ↔ Reads (.after none) tokens [] tree := by
  rcases Parser.readRow_cases source hmore hspelled hend with
    ⟨result, hok, honly⟩ | ⟨fault, _, _, herror, -, hnone⟩
  · rw [hok, honly tree, Except.ok.injEq]
  · rw [herror]
    exact iff_of_false nofun (hnone tree)

namespace Term

/-- A text is read as a term exactly if tokens that spell the term can be scanned up to the end of
input. -/
theorem parse_eq_ok_iff {text : String} {tree : Term} :
    Term.parse text = .ok tree ↔ ∃ tokens between eof after,
      Scanner.Scans (.ofString text) tokens between ∧ between.next = (.ok eof, after) ∧
        eof.kind = .endOfInput ∧ Reads (.after none) tokens [] tree := by
  have hspelled {tokens : List Token} {between : Scanner}
      (hscans : Scanner.Scans (.ofString text) tokens between) : Spelled tokens := by
    intro token hmem hname
    obtain ⟨name, hvalue, -⟩ := hscans.isIdentifier token hmem hname
    exact ⟨name, hvalue⟩
  unfold parse
  dsimp only
  constructor
  · intro h
    cases htokenize : (Scanner.ofString text).tokenize with
    | mk outcome after =>
      rw [htokenize] at h
      cases outcome with
      | error problem => nomatch h
      | ok row =>
        obtain ⟨tokens, between, eof, hscans, hlast, heof, rfl⟩ :=
          Scanner.tokenize_eq_ok_iff.mp htokenize
        have hreads := (readRow_eq_ok_iff _ hscans.kind_ne (hspelled hscans) heof).mp h
        exact ⟨tokens, between, eof, after, hscans, hlast, heof, hreads⟩
  · rintro ⟨tokens, between, eof, after, hscans, hlast, heof, hreads⟩
    rw [Scanner.tokenize_eq_ok_iff.mpr ⟨tokens, between, eof, hscans, hlast, heof, rfl⟩]
    exact (readRow_eq_ok_iff _ hscans.kind_ne (hspelled hscans) heof).mpr hreads

/-- The names of a term that is read are identifiers. -/
theorem isIdentifier_of_parse {text : String} {tree : Term} (h : Term.parse text = .ok tree) :
    ∀ name ∈ tree.names, isIdentifier name = true := by
  obtain ⟨tokens, between, eof, after, hscans, -, -, hreads⟩ := parse_eq_ok_iff.mp h
  intro name hname
  rcases hreads.names name hname with hknown | ⟨token, hmem, isName, hvalue⟩
  · nomatch hknown
  · obtain ⟨spelled, hspelled, hidentifier⟩ := hscans.isIdentifier token hmem isName
    obtain rfl := Option.some.inj (hvalue.symm.trans hspelled)
    exact hidentifier

end Term

end UntypedLambda
