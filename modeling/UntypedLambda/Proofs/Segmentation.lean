import UntypedLambda.Proofs.Balance
import UntypedLambda.Proofs.ReplacedPositions

/-!
# Lines of a file and their statements

Each statement of a file is made of consecutive lines, and each line that is not blank belongs to
one statement. A statement goes on as long as it opens more parentheses than it closes; blank lines
and comments inside it do not count. Between the statements there are only blank lines.

A range of lines is told by the number of lines before its first one and before its end, so a
statement has the number of the next line after the first of these.
-/

namespace UntypedLambda

namespace Text

/-- A space between two trimmed texts stays, with a text on both sides of it. -/
theorem trimmed_spaced {first second : String} (hfirst : trimmed first = first)
    (hsecond : trimmed second = second) (hne : first ≠ "") (hne' : second ≠ "") :
    trimmed (first ++ " " ++ second) = first ++ " " ++ second := by
  have hchars : first.toList ≠ [] := mt String.toList_eq_nil_iff.mp hne
  have hchars' : second.toList ≠ [] := mt String.toList_eq_nil_iff.mp hne'
  have htrim : trim first.toList = first.toList :=
    String.ofList_injective (hfirst.trans String.ofList_toList.symm)
  have htrim' : trim second.toList = second.toList :=
    String.ofList_injective (hsecond.trans String.ofList_toList.symm)
  have hstart := (Numeral.ends_of_trim first.toList).1
  have hend := (Numeral.ends_of_trim second.toList).2
  rw [htrim] at hstart
  rw [htrim'] at hend
  rw [trimmed, String.toList_append, String.toList_append, trim_eq_self]
  · rw [← String.toList_inj, String.toList_ofList, String.toList_append, String.toList_append]
  · rwa [List.append_assoc, List.head?_append_of_ne_nil _ hchars]
  · rwa [List.getLast?_append_of_ne_nil _ hchars']

/-- Trimmed texts that are joined by spaces make up a trimmed text. -/
theorem trimmed_intercalate {texts : List String}
    (h : ∀ text ∈ texts, trimmed text = text ∧ text ≠ "") :
    trimmed (" ".intercalate texts) = " ".intercalate texts ∧
      (texts ≠ [] → " ".intercalate texts ≠ "") := by
  induction texts with
  | nil => exact ⟨by rw [String.intercalate_nil]; rfl, fun hne => absurd rfl hne⟩
  | cons first rest ih =>
    obtain ⟨⟨hfirst, hne⟩, hrest⟩ := List.forall_mem_cons.mp h
    obtain ⟨htrimmed, hrestNe⟩ := ih hrest
    by_cases hnil : rest = []
    · rw [hnil, String.intercalate_singleton]
      exact ⟨hfirst, fun _ => hne⟩
    · rw [String.intercalate_cons_of_ne_nil hnil]
      refine ⟨trimmed_spaced hfirst htrimmed hne (hrestNe hnil), fun _ hempty => hne ?_⟩
      rw [String.append_assoc, String.append_eq_empty_iff] at hempty
      exact hempty.1

end Text

namespace Statement

/-- What is left of lines that are not blank, without their comments. -/
def codes (lines : List String) : List String := (lines.map clean).filter (· ≠ "")

/-- The text of lines: what is left of them, joined by single spaces. -/
def joined (lines : List String) : String := " ".intercalate (codes lines)

/-- A line is trimmed when its comment is removed. -/
theorem trimmed_clean (line : String) : Text.trimmed (clean line) = clean line := by
  unfold clean
  split <;> exact Text.trimmed_trimmed _

/-- A blank line behind others leaves nothing. -/
theorem codes_concat_blank {line : String} (h : clean line = "") (lines : List String) :
    codes (lines ++ [line]) = codes lines := by
  simp [codes, h]

/-- Another line behind others leaves its code. -/
theorem codes_concat {line : String} (h : clean line ≠ "") (lines : List String) :
    codes (lines ++ [line]) = codes lines ++ [clean line] := by
  simp [codes, h]

/-- The text of lines is trimmed. -/
theorem trimmed_joined (lines : List String) : Text.trimmed (joined lines) = joined lines := by
  refine (Text.trimmed_intercalate fun text htext => ?_).1
  obtain ⟨hcode, hne⟩ := List.mem_filter.mp htext
  obtain ⟨line, -, rfl⟩ := List.mem_map.mp hcode
  exact ⟨trimmed_clean line, of_decide_eq_true hne⟩

/-- A blank line adds nothing to a statement. -/
theorem join_empty (text : String) : join text "" = Text.trimmed text := by
  have hspace : " ".toList = [' '] := rfl
  rw [join, Text.trimmed, Text.trimmed, String.append_empty, String.toList_append, hspace,
    Text.trim_concat (by decide)]

/-- The text of lines goes on with the next line. -/
theorem join_joined {lines : List String} (h : joined lines ≠ "") (line : String) :
    join (joined lines) (clean line) = joined (lines ++ [line]) := by
  by_cases hblank : clean line = ""
  · rw [hblank, join_empty, trimmed_joined, joined, joined, codes_concat_blank hblank]
  · have hcodes : codes lines ≠ [] := by
      intro hnil
      rw [joined, hnil] at h
      exact h String.intercalate_nil
    have hlonger : joined (lines ++ [line]) = joined lines ++ " " ++ clean line := by
      rw [joined, codes_concat hblank, String.intercalate_append_of_ne_nil hcodes
        (List.cons_ne_nil _ _), String.intercalate_singleton, joined]
    rw [join, Text.trimmed_spaced (trimmed_joined lines) (trimmed_clean line) h hblank, hlonger]

end Statement

/-- Consecutive lines, told by how many lines stand before them. -/
structure LineRange where
  /-- The number of lines before the first one. -/
  start : Nat
  /-- The number of lines before the end. -/
  stop : Nat

namespace LineRange

open Statement

variable {lines : List String} {range : LineRange} {ranges : List LineRange} {offset start : Nat}

/-- The statement that a range of lines makes up. -/
def statement (range : LineRange) (lines : List String) : Statement :=
  ⟨range.start + 1, joined (lines.extract range.start range.stop)⟩

/-- Whether a statement goes on from the first line of a range to its last: the first line is not
blank, and fewer lines of the range leave more parentheses open than closed. -/
structure GoesOn (lines : List String) (range : LineRange) : Prop where
  /-- There is a line at least. -/
  lt : range.start < range.stop
  /-- The lines are there. -/
  le : range.stop ≤ lines.length
  /-- The first line is not blank. -/
  first : ∃ line, lines[range.start]? = some line ∧ clean line ≠ ""
  /-- Fewer lines make up a text that is open. -/
  isOpen : ∀ place, range.start < place → place < range.stop →
    isOpen (joined (lines.extract range.start place)) = true

/-- Whether ranges of lines hold the statements of all lines from an offset on. -/
inductive Segments (lines : List String) : Nat → List LineRange → Prop where
  /-- There are no more lines. -/
  | ended : Segments lines lines.length []
  /-- A blank line belongs to no statement. -/
  | blank {offset : Nat} {ranges : List LineRange} {line : String}
      (isLine : lines[offset]? = some line) (isBlank : clean line = "")
      (rest : Segments lines (offset + 1) ranges) : Segments lines offset ranges
  /-- A statement ends where it is no longer open, or else at the end of the lines. -/
  | statement {range : LineRange} {ranges : List LineRange} (goesOn : range.GoesOn lines)
      (isEnd : Statement.isOpen (range.statement lines).text = true → range.stop = lines.length)
      (rest : Segments lines range.stop ranges) : Segments lines range.start (range :: ranges)

/-- What is held at an offset, and where it starts: nothing, or a statement that is open. -/
inductive Held (lines : List String) : Nat → Option Statement → Nat → Prop where
  /-- No statement has been started. -/
  | nothing (offset : Nat) : Held lines offset none offset
  /-- A statement is continued. -/
  | statement {range : LineRange} (goesOn : range.GoesOn lines)
      (isOpen : Statement.isOpen (range.statement lines).text = true) :
      Held lines range.stop (some (range.statement lines)) range.start

/-- A range goes on with the next line. -/
theorem extract_succ {line : String} {start stop : Nat} (hle : start ≤ stop)
    (hline : lines[stop]? = some line) :
    lines.extract start (stop + 1) = lines.extract start stop ++ [line] := by
  have hlast : (lines.drop start)[stop - start]? = some line := by
    rw [List.getElem?_drop, Nat.add_sub_cancel' hle, hline]
  rw [List.extract_eq_take_drop, List.extract_eq_take_drop, Nat.sub_add_comm hle,
    List.take_add_one, hlast, Option.toList_some]

/-- A line that is not blank starts a statement. -/
theorem goesOn_single {line : String} (hline : lines[offset]? = some line)
    (hne : clean line ≠ "") : GoesOn lines ⟨offset, offset + 1⟩ where
  lt := Nat.lt_succ_self offset
  le := (List.getElem?_eq_some_iff.mp hline).1
  first := ⟨line, hline, hne⟩
  isOpen := fun _ hlt hlt' => absurd (Nat.le_of_lt_succ hlt') (Nat.not_le_of_lt hlt)

/-- A single line is a statement without its comment. -/
theorem statement_single {line : String} (hline : lines[offset]? = some line)
    (hne : clean line ≠ "") :
    statement ⟨offset, offset + 1⟩ lines = ⟨offset + 1, clean line⟩ := by
  have hcodes : codes [line] = [clean line] := codes_concat hne []
  rw [statement, extract_succ (Nat.le_refl offset) hline, List.extract_eq_take_drop, Nat.sub_self,
    List.take_zero, List.nil_append, joined, hcodes, String.intercalate_singleton]

/-- A statement that is open goes on with the next line. -/
theorem GoesOn.longer {line : String} (h : range.GoesOn lines)
    (hopen : Statement.isOpen (range.statement lines).text = true)
    (hline : lines[range.stop]? = some line) : GoesOn lines ⟨range.start, range.stop + 1⟩ where
  lt := Nat.lt_succ_of_lt h.lt
  le := (List.getElem?_eq_some_iff.mp hline).1
  first := h.first
  isOpen := fun place hlt hlt' => by
    rcases Nat.lt_succ_iff_lt_or_eq.mp hlt' with hinside | rfl
    · exact h.isOpen place hlt hinside
    · exact hopen

/-- The text of a statement that is open goes on with the next line. -/
theorem GoesOn.statement_longer {line : String} (h : range.GoesOn lines)
    (hopen : Statement.isOpen (range.statement lines).text = true)
    (hline : lines[range.stop]? = some line) :
    statement ⟨range.start, range.stop + 1⟩ lines =
      ⟨range.start + 1, join (range.statement lines).text (clean line)⟩ := by
  have hne : joined (lines.extract range.start range.stop) ≠ "" := by
    intro hempty
    have hclosed := isEmpty_of_isOpen hopen
    rw [statement, hempty] at hclosed
    nomatch hclosed
  rw [statement, statement, join_joined hne, extract_succ (Nat.le_of_lt h.lt) hline]

/-- A statement that goes on to an offset is held there if it is open, and is done with if it is
not. What follows is then in both cases told by the ranges that are found from there on. -/
theorem GoesOn.exists_segments {rest : List String} (h : range.GoesOn lines)
    (hrest : ∀ {held start}, Held lines range.stop held start →
      ∃ ranges, segmentFrom (range.stop + 1) held rest = ranges.map (·.statement lines) ∧
        Segments lines start ranges) :
    ∃ ranges,
      (if Statement.isOpen (range.statement lines).text then
        segmentFrom (range.stop + 1) (some (range.statement lines)) rest
      else range.statement lines :: segmentFrom (range.stop + 1) none rest) =
        ranges.map (·.statement lines) ∧ Segments lines range.start ranges := by
  by_cases hopen : Statement.isOpen (range.statement lines).text = true
  · rw [if_pos hopen]
    exact hrest (.statement h hopen)
  · obtain ⟨ranges, hranges, hsegments⟩ := hrest (.nothing range.stop)
    rw [if_neg hopen, hranges]
    exact ⟨range :: ranges, rfl, .statement h (fun hstill => absurd hstill hopen) hsegments⟩

/-- Cutting lines into statements, from what is held on, finds ranges that hold them all. -/
theorem Held.exists_segments {held : Option Statement} (h : Held lines offset held start)
    (hle : offset ≤ lines.length) {rest : List String} (hrest : lines.drop offset = rest) :
    ∃ ranges, segmentFrom (offset + 1) held rest = ranges.map (·.statement lines) ∧
      Segments lines start ranges := by
  -- What is held counts as the lines it comes from, so the next line makes that range longer.
  induction rest generalizing offset held start with
  | nil =>
    have hend : lines.length = offset := Nat.le_antisymm (List.drop_eq_nil_iff.mp hrest) hle
    cases h with
    | nothing _ => exact ⟨[], rfl, hend ▸ .ended⟩
    | @statement range hgoes _ =>
      have hsegments : Segments lines range.stop [] := hend ▸ .ended
      exact ⟨[range], rfl, .statement hgoes (fun _ => hend.symm) hsegments⟩
  | cons line rest ih =>
    have hline : lines[offset]? = some line := by
      rw [← List.head?_drop, hrest, List.head?_cons]
    have hbehind : lines.drop (offset + 1) = rest := by
      rw [← List.tail_drop, hrest, List.tail_cons]
    have hnext : offset + 1 ≤ lines.length := (List.getElem?_eq_some_iff.mp hline).1
    cases h with
    | nothing _ =>
      rw [segmentFrom]
      by_cases hblank : clean line = ""
      · obtain ⟨ranges, hranges, hsegments⟩ := ih (.nothing _) hnext hbehind
        rw [if_pos (String.isEmpty_iff.mpr hblank)]
        exact ⟨ranges, hranges, .blank hline hblank hsegments⟩
      · have hgoes := goesOn_single hline hblank
        have hstatement := statement_single hline hblank
        obtain ⟨ranges, hranges, hsegments⟩ :=
          hgoes.exists_segments fun hheld => ih hheld hnext hbehind
        rw [hstatement] at hranges
        rw [if_neg (mt String.isEmpty_iff.mp hblank)]
        exact ⟨ranges, hranges, hsegments⟩
    | statement hgoes hopen =>
      obtain ⟨ranges, hranges, hsegments⟩ :=
        (hgoes.longer hopen hline).exists_segments fun hheld => ih hheld hnext hbehind
      rw [hgoes.statement_longer hopen hline] at hranges
      rw [segmentFrom]
      exact ⟨ranges, hranges, hsegments⟩

namespace Segments

variable (h : Segments lines offset ranges)

include h

/-- No range starts before the offset. -/
theorem le_start : ∀ range ∈ ranges, offset ≤ range.start := by
  induction h with
  | ended => exact fun _ hnone => nomatch hnone
  | blank _ _ _ ih => exact fun range hrange => Nat.le_of_succ_le (ih range hrange)
  | statement hgoes _ _ ih =>
    refine List.forall_mem_cons.mpr ⟨Nat.le_refl _, fun range hrange => ?_⟩
    exact Nat.le_trans (Nat.le_of_lt hgoes.lt) (ih range hrange)

/-- Every range is one that a statement goes on in. -/
theorem goesOn : ∀ range ∈ ranges, range.GoesOn lines := by
  induction h with
  | ended => exact fun _ hnone => nomatch hnone
  | blank _ _ _ ih => exact ih
  | statement hgoes _ _ ih => exact List.forall_mem_cons.mpr ⟨hgoes, ih⟩

/-- A range ends before the next one starts. -/
theorem pairwise : ranges.Pairwise fun first second => first.stop ≤ second.start := by
  induction h with
  | ended => exact .nil
  | blank _ _ _ ih => exact ih
  | statement _ _ rest ih => exact .cons rest.le_start ih

/-- Behind the last line there are no ranges. -/
theorem eq_nil (hend : offset = lines.length) : ranges = [] := by
  refine List.eq_nil_iff_forall_not_mem.mpr fun range hrange => ?_
  have hgoes := h.goesOn range hrange
  have hstart := h.le_start range hrange
  have hlt := hgoes.lt
  have hle := hgoes.le
  omega

/-- Only the last statement may be open, and then it reaches to the end of the lines. -/
theorem getLast?_of_isOpen : ∀ range ∈ ranges,
    Statement.isOpen (range.statement lines).text = true →
      ranges.getLast? = some range ∧ range.stop = lines.length := by
  induction h with
  | ended => exact fun _ hnone => nomatch hnone
  | blank _ _ _ ih => exact ih
  | statement _ isEnd rest ih =>
    refine List.forall_mem_cons.mpr ⟨fun hopen => ?_, fun range hrange hopen => ?_⟩
    · rw [rest.eq_nil (isEnd hopen)]
      exact ⟨rfl, isEnd hopen⟩
    · obtain ⟨hlast, hstop⟩ := ih range hrange hopen
      rw [List.getLast?_cons, hlast]
      exact ⟨rfl, hstop⟩

/-- A line that is not blank stands in a range. -/
theorem exists_mem {place : Nat} {line : String} (hplace : offset ≤ place)
    (hline : lines[place]? = some line) (hne : clean line ≠ "") :
    ∃ range ∈ ranges, range.start ≤ place ∧ place < range.stop := by
  induction h with
  | ended =>
    obtain ⟨hlt, -⟩ := List.getElem?_eq_some_iff.mp hline
    exact absurd hplace (Nat.not_le_of_lt hlt)
  | blank isLine isBlank _ ih =>
    rcases Nat.eq_or_lt_of_le hplace with rfl | hlater
    · obtain rfl := Option.some.inj (isLine.symm.trans hline)
      exact absurd isBlank hne
    · exact ih hlater
  | @statement range ranges _ _ _ ih =>
    rcases Nat.lt_or_ge place range.stop with hinside | hlater
    · exact ⟨range, List.mem_cons_self, hplace, hinside⟩
    · obtain ⟨other, hother, hbetween⟩ := ih hlater
      exact ⟨other, List.mem_cons_of_mem range hother, hbetween⟩

/-- A line stands in one range at most. -/
theorem eq_of_mem {place : Nat} {first second : LineRange} (hfirst : first ∈ ranges)
    (hsecond : second ∈ ranges) (hin : first.start ≤ place ∧ place < first.stop)
    (hin' : second.start ≤ place ∧ place < second.stop) : first = second := by
  have hsymm : Std.Symm fun a b : LineRange => a.stop ≤ b.start ∨ b.stop ≤ a.start :=
    ⟨fun _ _ => Or.symm⟩
  have hapart : ranges.Pairwise fun a b => a.stop ≤ b.start ∨ b.stop ≤ a.start :=
    h.pairwise.imp .inl
  by_contra hne
  rcases hapart.forall hfirst hsecond hne with hle | hle
  · omega
  · omega

end Segments

end LineRange

namespace Statement

/-- Lines are cut into statements without loss. The start numbers of the statements increase, and
each one is made up by a range of lines, of which the first is not blank and has this number. Every
line that is not blank stands in exactly one range. In front of its last line a statement is open
everywhere; behind it, only the last statement may be open, and then there are no more lines. -/
theorem segment_loses_nothing (lines : List String) :
    ∃ ranges : List LineRange, segment lines = ranges.map (·.statement lines) ∧
      (segment lines).Pairwise (·.line < ·.line) ∧
      (∀ place line, lines[place]? = some line → clean line ≠ "" →
        ∃! range, range ∈ ranges ∧ range.start ≤ place ∧ place < range.stop) ∧
      ∀ range ∈ ranges, range.GoesOn lines ∧
        (isOpen (range.statement lines).text = true →
          ranges.getLast? = some range ∧ range.stop = lines.length) := by
  have hnothing : LineRange.Held lines 0 none 0 := .nothing 0
  obtain ⟨ranges, hranges, hsegments⟩ :=
    hnothing.exists_segments (Nat.zero_le _) List.drop_zero
  refine ⟨ranges, hranges, ?_, fun place line hline hne => ?_, fun range hrange => ?_⟩
  · change segment lines = _ at hranges
    rw [hranges, List.pairwise_map]
    refine hsegments.pairwise.imp_of_mem fun hfirst _ hle => ?_
    exact Nat.succ_lt_succ (Nat.lt_of_lt_of_le (hsegments.goesOn _ hfirst).lt hle)
  · obtain ⟨range, hrange, hin⟩ := hsegments.exists_mem (Nat.zero_le place) hline hne
    exact ⟨range, ⟨hrange, hin⟩, fun other hother =>
      hsegments.eq_of_mem hother.1 hrange hother.2 hin⟩
  · exact ⟨hsegments.goesOn range hrange, hsegments.getLast?_of_isOpen range hrange⟩

/-- A statement with a comment and a blank line in it, and one that is open at the end of the
lines. -/
theorem segment_loses_nothing_left_open :
    let lines := ["", "a (b ;; c)", "", "  d) e", ";; f", "g := (x", ""]
    lines[3]? = some "  d) e" ∧ clean "  d) e" ≠ "" ∧
      ∃ first second : LineRange, segment lines = [first.statement lines, second.statement lines] ∧
        first.statement lines = ⟨2, "a (b d) e"⟩ ∧ second.statement lines = ⟨6, "g := (x"⟩ ∧
        (∃! range, range ∈ [first, second] ∧ range.start ≤ 3 ∧ 3 < range.stop) ∧
        isOpen (second.statement lines).text = true ∧ second.stop = 7 := by
  intro lines
  have hsegment : segment lines = [⟨2, "a (b d) e"⟩, ⟨6, "g := (x"⟩] := by decide +kernel
  have hne : clean "  d) e" ≠ "" := by decide +kernel
  obtain ⟨ranges, hranges, -, hplaces, hall⟩ := segment_loses_nothing lines
  obtain ⟨first, others, rfl, hfirst, hothers⟩ :=
    List.map_eq_cons_iff.mp (hranges.symm.trans hsegment)
  obtain ⟨second, behind, rfl, hsecond, hnone⟩ := List.map_eq_cons_iff.mp hothers
  obtain rfl := List.map_eq_nil_iff.mp hnone
  have hopen : isOpen (second.statement lines).text = true := by
    rw [hsecond]
    decide
  obtain ⟨-, hend⟩ := hall second (List.mem_cons_of_mem first List.mem_cons_self)
  exact ⟨rfl, hne, first, second, hranges, hfirst, hsecond, hplaces 3 _ rfl hne, hopen,
    (hend hopen).2⟩

end Statement

end UntypedLambda
