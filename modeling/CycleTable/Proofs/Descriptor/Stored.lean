import CycleTable.Proofs.Descriptor.Loading
import CycleTable.Proofs.Descriptor.Printing
import CycleTable.Proofs.Statement

/-!
# Stored statements

A line is cut into a word and an operand when it is loaded, and the text that is stored of it is cut
once more when it is classified. The two cuts are made by different rules, with a single space put
between the parts in the meantime. They agree on every statement, also on one that spreads over
several lines of text or is no instruction at all.
-/

namespace CycleTable

open Text

namespace Statement

variable {s : Statement} {text : List Char}

def joined (s : Statement) : List Char :=
  s.word ++ if s.operand.isEmpty then [] else ' ' :: s.operand

theorem IsCutOf.joined (h : s.IsCutOf text) : s.IsCutOf s.joined := by
  refine ⟨?_, h.word, h.operand, h.empty⟩
  have hnone : ∀ c ∈ ([] : List Char), isBlank c = true := List.forall_mem_nil _
  by_cases hoperand : s.operand = []
  · exact ⟨[], [], [], by simp [Statement.joined, hoperand], hnone, hnone, hnone,
      fun _ => hoperand⟩
  · have hspace : ∀ c ∈ [' '], isBlank c = true := List.forall_mem_singleton.mpr rfl
    exact ⟨[], [' '], [], by simp [Statement.joined, hoperand], hnone, hspace, hnone,
      fun hgap => absurd hgap (List.cons_ne_nil _ _)⟩

theorem cut_joined (text : List Char) : cut (cut text).joined = cut text :=
  (isCutOf_cut text).joined.eq_cut.symm

theorem cut_eq_of_trimStart (text : List Char) :
    cut text = ⟨Text.word (trimStart text), trim (afterWord (trimStart text))⟩ := by
  have hword := word_append_afterWord (trimStart text)
  obtain ⟨between, behind, hafter, hbetween, hbehind⟩ :=
    exists_eq_append_trim (afterWord (trimStart text))
  symm
  apply IsCutOf.eq_cut
  constructor
  · refine ⟨text.takeWhile isBlank, between, behind, ?_, fun c => test_of_mem_takeWhile, hbetween,
      hbehind, ?_⟩
    · simp only [List.append_assoc] at hafter ⊢
      rw [← hafter, hword, takeWhile_append_trimStart]
    · -- Without a gap the operand starts where the word ends, so it would be part of the word.
      intro hgap
      have hstops : Stops (fun c => !isBlank c) (afterWord (trimStart text)) := stops_dropWhile _ _
      rw [hafter, hgap] at hstops
      exact (isTrimmed_trim _).eq_nil_of_stops hstops
  · intro c hc
    exact isBlank_eq_false_of_mem_word hc
  · exact isTrimmed_trim _
  · intro hnil
    have hempty : trimStart text = [] :=
      eq_nil_of_word_eq_nil (stops_dropWhile isBlank text) hnil
    rw [hempty]
    rfl

end Statement

theorem Instruction.ofText_congr {text other : String}
    (h : Statement.cut text.toList = Statement.cut other.toList) : ofText text = ofText other := by
  simp only [ofText, Statement.ofText?_eq, h]

namespace Descriptor

/-- Nothing, or a comment that stays on its line. -/
inductive IsRemark : List Char → Prop
  | none : IsRemark []
  | comment {remark : List Char} (hremark : '\n' ∉ remark) : IsRemark (';' :: remark)

/-- A line that gives an id a statement: any text without a semicolon that is not all blank. It may
have blanks around it, and line feeds in it. -/
inductive GivesStatement (id : Nat) (statement : List Char) : List Char → Prop
  | line {before spelled between remark : List Char} (hbefore : ∀ c ∈ before, isBlank c = true)
      (hid : SpellsId id spelled) (hbetween : ∀ c ∈ between, isBlank c = true)
      (hapart : between ≠ []) (hkept : ';' ∉ statement)
      (hsome : ∃ c ∈ statement, isBlank c = false) (hremark : IsRemark remark) :
      GivesStatement id statement (before ++ (spelled ++ (between ++ (statement ++ remark))))

variable {id lineNumber : Nat} {statement line remark : List Char} {lines : List (List Char)}
  {list : List Descriptor} {d : Descriptor}

theorem IsRemark.isComment_eq (h : IsRemark remark) : isComment remark = true := by
  cases h with
  | none => rfl
  | comment hremark => simpa [isComment] using hremark

theorem trimStart_ne_nil (hsome : ∃ c ∈ statement, isBlank c = false) :
    trimStart statement ≠ [] := by
  obtain ⟨c, hc, hkept⟩ := hsome
  intro hnil
  have hstart := takeWhile_append_trimStart statement
  rw [hnil, List.append_nil] at hstart
  rw [← hstart] at hc
  rw [test_of_mem_takeWhile hc] at hkept
  cases hkept

namespace GivesStatement

theorem exists_parts (h : GivesStatement id statement line) :
    ∃ parts : LineParts, parts.WellFormed ∧ parts.line = line ∧
      parts.statement = trimStart statement ∧
        parts.entry.id? = (some id).filter fun id => id < 0x10000 := by
  cases h with
  | @line before _ between remark hbefore hid hbetween hapart hkept hsome hremark =>
      cases hid with
      | @marked mark digits suffix hmark hsuffix hdigits =>
          rw [← base_eq] at hdigits
          have hnumber := hdigits.number?_eq (by split <;> decide) (by split <;> decide)
          refine ⟨⟨before, mark, digits, suffix, between ++ statement.takeWhile isBlank,
            trimStart statement, remark⟩, ?_, ?_, rfl, ?_⟩
          · exact {
              before := hbefore
              mark := hmark
              someDigits := hdigits.ne_nil
              digits := fun c hc => isHexDigit_of_number? hnumber hc
              suffix := hsuffix
              apart := fun hnil => hapart (List.append_eq_nil_iff.mp hnil).1
              between := List.forall_mem_append.mpr ⟨hbetween, fun c => test_of_mem_takeWhile⟩
              someStatement := trimStart_ne_nil hsome
              start := stops_dropWhile isBlank statement
              statement := fun hc => hkept ((List.dropWhile_sublist isBlank).subset hc)
              comment := hremark.isComment_eq }
          · simp only [LineParts.line, LineParts.behind, List.append_assoc]
            rw [← List.append_assoc (List.takeWhile isBlank statement), takeWhile_append_trimStart]
          · rw [EntryLine.id?, LineParts.entry, hnumber]

theorem ofLine_eq (h : GivesStatement id statement line) {found : Option Descriptor}
    (hread : ofLine lineNumber line = .ok found) :
    ∃ d : Descriptor, found = some d ∧ d.id = id ∧
      Statement.cut d.text.toList = Statement.cut statement := by
  obtain ⟨parts, hparts, rfl, hstatement, hid⟩ := h.exists_parts
  have htext : parts.entry.text.toList = (Statement.cut statement).joined := by
    rw [Statement.cut_eq_of_trimStart, ← hstatement]
    exact String.toList_ofList
  simp only [ofLine, LineParts.isSkipped_line hparts, LineParts.ofText?_line hparts, hid,
    Bool.false_eq_true, if_false, Option.filter_some] at hread
  by_cases hsmall : id < 0x10000
  · simp only [hsmall, decide_true, if_true, Except.ok.injEq] at hread
    exact ⟨_, hread.symm, rfl, by rw [htext, Statement.cut_joined]⟩
  · simp [hsmall] at hread

end GivesStatement

theorem exists_ofLine_of_readLines (h : readLines lineNumber lines = .ok list) {place : Nat}
    (hline : lines[place]? = some line) :
    ∃ found, ofLine (lineNumber + place) line = .ok found ∧ ∀ d, found = some d → d ∈ list := by
  induction lines generalizing lineNumber list place with
  | nil => cases hline
  | cons first rest ih =>
      simp only [readLines, bind_eq_ok_iff] at h
      obtain ⟨head, hhead, tail, htail, hlist⟩ := h
      cases hlist
      cases place with
      | zero =>
          cases hline
          refine ⟨head, hhead, ?_⟩
          intro d hd
          rw [hd]
          exact List.mem_append_left _ (List.mem_singleton_self d)
      | succ place =>
          obtain ⟨found, hfound, hmem⟩ := ih htail hline
          rw [Nat.add_right_comm] at hfound
          exact ⟨found, hfound, fun d hd => List.mem_append_right _ (hmem d hd)⟩

theorem getElem?_of_mem (hvalid : validate list = .ok ()) (hd : d ∈ list) :
    list[d.id]? = some d := by
  obtain ⟨place, hplace⟩ := List.mem_iff_getElem?.mp hd
  rw [(validate_eq_ok_iff.mp hvalid).2 place d hplace, hplace]

/--
The text that is stored of a line is classified as the statement of the line is: as the same
instruction, or with the same fault.
-/
theorem ofText_stored {lines : List (List Char)} {list : List Descriptor} {place id : Nat}
    {line statement : List Char} (hload : ofLines lines = .ok list)
    (hline : lines[place]? = some line) (hgives : GivesStatement id statement line) :
    ∃ d, ofLine (place + 1) line = .ok (some d) ∧ list[id]? = some d ∧ d.id = id ∧
      Statement.cut d.text.toList = Statement.cut statement ∧
        Instruction.ofText d.text = Instruction.ofText (String.ofList statement) := by
  obtain ⟨hread, hvalid⟩ := ofLines_eq_ok_iff.mp hload
  obtain ⟨found, hfound, hmem⟩ := exists_ofLine_of_readLines hread hline
  obtain ⟨d, rfl, rfl, hcut⟩ := hgives.ofLine_eq hfound
  rw [Nat.add_comm] at hfound
  refine ⟨d, hfound, getElem?_of_mem hvalid (hmem d rfl), rfl, hcut, ?_⟩
  apply Instruction.ofText_congr
  rw [hcut, String.toList_ofList]

/-- A name and an operand on two lines of text, with a carriage return in front of the comment. -/
def spreadLine : List Char :=
  ['\t'] ++ ("6Ch".toList ++ (['\u2003'] ++ ("Jmp\n( nnnn\t)\r".toList ++ ';' :: " go".toList)))

theorem givesStatement_spreadLine :
    GivesStatement 0x6C "Jmp\n( nnnn\t)\r".toList spreadLine := by
  have hid : SpellsId 0x6C ([] ++ ("6C".toList ++ ['h'])) :=
    SpellsId.marked (by decide) (by decide) ⟨0, by decide⟩
  exact GivesStatement.line (List.forall_mem_singleton.mpr rfl) hid
    (List.forall_mem_singleton.mpr rfl) (by decide) (by decide) ⟨'J', by decide, by decide⟩
    (IsRemark.comment (by decide))

/-- The operand of an indirect jump, behind a line feed. -/
theorem ofText_stored_spread :
    ∃ list d,
      ofLines ((List.range entryCount).map fun id =>
          if id = 0x6C then spreadLine else idleLine id) = .ok list ∧
        list[0x6C]? = some d ∧ Instruction.ofText d.text = .ok ⟨.jmp, .indirectAbsolute⟩ := by
  have hread : ∀ id ∈ List.range entryCount, ∀ lineNumber,
      ofLine lineNumber (if id = 0x6C then spreadLine else idleLine id) =
        .ok (some (if id = 0x6C then ⟨0x6C, "Jmp ( nnnn\t)"⟩ else ⟨id, "NOP"⟩)) := by
    intro id hid lineNumber
    split
    · rfl
    · exact ofLine_idleLine (List.mem_range.mp hid) lineNumber
  have hvalid : validate ((List.range entryCount).map fun id =>
      if id = 0x6C then ⟨0x6C, "Jmp ( nnnn\t)"⟩ else ⟨id, "NOP"⟩) = .ok () := by
    rw [← isComplete_iff_validate_eq_ok]
    apply isComplete_map_range
    intro id _
    split
    · next heq => exact heq.symm
    · rfl
  have hload := ofLines_eq_ok_iff.mpr ⟨readLines_map hread 1, hvalid⟩
  have hline : ((List.range entryCount).map fun id =>
      if id = 0x6C then spreadLine else idleLine id)[0x6C]? = some spreadLine := by
    rw [List.getElem?_map, List.getElem?_range (by decide)]
    rfl
  obtain ⟨d, _, hd, _, _, hsame⟩ := ofText_stored hload hline givesStatement_spreadLine
  have hjump : Instruction.ofText (String.ofList "Jmp\n( nnnn\t)\r".toList) =
      .ok ⟨.jmp, .indirectAbsolute⟩ := by rfl
  exact ⟨_, d, hload, hd, hsame.trans hjump⟩

end Descriptor

end CycleTable
