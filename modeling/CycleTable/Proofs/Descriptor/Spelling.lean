import CycleTable.Descriptor
import CycleTable.Proofs.Text.Blank
import CycleTable.Proofs.Text.Lines
import CycleTable.Proofs.Text.Numeral

/-!
# Lines that spell a descriptor

## Parts of a line

A line with the shape of an entry is an id between its marks, a statement behind blanks, and a
comment. It reads as its parts.
-/

namespace CycleTable.Descriptor

open Text

/-- The marks that may stand in front of the digits of an id. -/
def marks : List (List Char) :=
  [[], ['0', 'x'], ['0', 'X'], ['$']]

def suffixes : List (List Char) :=
  [[], ['h'], ['H']]

variable {mark digits suffix comment tail : List Char}

theorem isHexDigit_eq_false_of_isBlank {c : Char} (h : isBlank c = true) :
    isHexDigit c = false := by
  cases hdigit : isHexDigit c with
  | false => rfl
  | true =>
      rw [isBlank_of_isHexDigit hdigit] at h
      cases h

theorem exists_cons_of_digits (hmark : mark ∈ marks) (hne : digits ≠ [])
    (hdigits : ∀ c ∈ digits, isHexDigit c = true) (tail : List Char) :
    ∃ c rest, mark ++ (digits ++ tail) = c :: rest ∧ isBlank c = false ∧ c ≠ ';' := by
  simp only [marks, List.mem_cons, List.not_mem_nil, or_false] at hmark
  rcases hmark with rfl | rfl | rfl | rfl
  · cases digits with
    | nil => exact absurd rfl hne
    | cons d more =>
        have hd := hdigits d List.mem_cons_self
        exact ⟨d, more ++ tail, rfl, isBlank_of_isHexDigit hd, ne_of_test hd (by decide)⟩
  · exact ⟨'0', 'x' :: (digits ++ tail), rfl, by decide, by decide⟩
  · exact ⟨'0', 'X' :: (digits ++ tail), rfl, by decide, by decide⟩
  · exact ⟨'$', digits ++ tail, rfl, by decide, by decide⟩

theorem dropMark_append (hmark : mark ∈ marks) (hne : digits ≠ [])
    (hdigits : ∀ c ∈ digits, isHexDigit c = true)
    (htail : ∀ c, tail.head? = some c → c ≠ 'x' ∧ c ≠ 'X') :
    dropMark (mark ++ (digits ++ tail)) = (!mark.isEmpty, digits ++ tail) := by
  simp only [marks, List.mem_cons, List.not_mem_nil, or_false] at hmark
  rcases hmark with rfl | rfl | rfl | rfl
  · cases digits with
    | nil => exact absurd rfl hne
    | cons d more =>
        have hletter : ∀ c, (more ++ tail).head? = some c → c ≠ 'x' ∧ c ≠ 'X' := by
          intro c hc
          cases more with
          | nil => exact htail c hc
          | cons e more =>
              cases hc
              have he := hdigits c (List.mem_cons_of_mem d List.mem_cons_self)
              exact ⟨ne_of_test he (by decide), ne_of_test he (by decide)⟩
        have hdollar : d ≠ '$' :=
          ne_of_test (hdigits d List.mem_cons_self) (by decide)
        show dropMark (d :: (more ++ tail)) = (false, d :: (more ++ tail))
        generalize more ++ tail = rest at hletter ⊢
        unfold dropMark
        split
        · next hmark => exact absurd (List.cons.inj hmark).1 hdollar
        · next c rest' hzero =>
          rw [(List.cons.inj hzero).2] at hletter
          rw [if_neg (not_or.mpr (hletter c rfl)), hzero]
        · rfl
  · rfl
  · rfl
  · rfl

theorem dropSuffix_append (hsuffix : suffix ∈ suffixes)
    (htail : ∀ c, tail.head? = some c → isBlank c = true) :
    dropSuffix (suffix ++ tail) = (!suffix.isEmpty, tail) := by
  simp only [suffixes, List.mem_cons, List.not_mem_nil, or_false] at hsuffix
  rcases hsuffix with rfl | rfl | rfl
  · cases tail with
    | nil => rfl
    | cons c rest =>
        have hsmall : c ≠ 'h' := ne_of_test (htail c rfl) (by decide)
        have hcapital : c ≠ 'H' := ne_of_test (htail c rfl) (by decide)
        simp [dropSuffix, hsmall, hcapital]
  · rfl
  · rfl

theorem stops_suffix_append (hsuffix : suffix ∈ suffixes)
    (htail : ∀ c, tail.head? = some c → isBlank c = true) :
    Stops isHexDigit (suffix ++ tail) := by
  simp only [suffixes, List.mem_cons, List.not_mem_nil, or_false] at hsuffix
  rcases hsuffix with rfl | rfl | rfl
  · intro c hc
    exact isHexDigit_eq_false_of_isBlank (htail c hc)
  · exact stops_cons_iff.mpr (by decide)
  · exact stops_cons_iff.mpr (by decide)

theorem head?_suffix_append (hsuffix : suffix ∈ suffixes)
    (htail : ∀ c, tail.head? = some c → isBlank c = true) :
    ∀ c, (suffix ++ tail).head? = some c → c ≠ 'x' ∧ c ≠ 'X' := by
  intro c hc
  simp only [suffixes, List.mem_cons, List.not_mem_nil, or_false] at hsuffix
  rcases hsuffix with rfl | rfl | rfl
  · have hblank := htail c hc
    exact ⟨ne_of_test hblank (by decide), ne_of_test hblank (by decide)⟩
  · cases hc
    decide
  · cases hc
    decide

theorem stops_of_isComment (h : isComment comment = true) :
    Stops (fun c => c != ';') comment := by
  intro c hc
  cases comment with
  | nil => cases hc
  | cons first rest =>
      cases hc
      simp only [isComment, Bool.and_eq_true] at h
      simpa using h.1

/-- A line with the shape of an entry, in parts. -/
structure LineParts where
  before : List Char
  mark : List Char
  digits : List Char
  suffix : List Char
  between : List Char
  statement : List Char
  comment : List Char

namespace LineParts

def behind (parts : LineParts) : List Char :=
  (parts.between ++ parts.statement) ++ parts.comment

def line (parts : LineParts) : List Char :=
  parts.before ++ (parts.mark ++ (parts.digits ++ (parts.suffix ++ parts.behind)))

def entry (parts : LineParts) : EntryLine :=
  ⟨parts.digits, !parts.mark.isEmpty || !parts.suffix.isEmpty, Text.word parts.statement,
    trim (afterWord parts.statement)⟩

structure WellFormed (parts : LineParts) : Prop where
  before : ∀ c ∈ parts.before, isBlank c = true
  mark : parts.mark ∈ marks
  someDigits : parts.digits ≠ []
  digits : ∀ c ∈ parts.digits, isHexDigit c = true
  suffix : parts.suffix ∈ suffixes
  apart : parts.between ≠ []
  between : ∀ c ∈ parts.between, isBlank c = true
  someStatement : parts.statement ≠ []
  start : Stops isBlank parts.statement
  statement : ';' ∉ parts.statement
  comment : isComment parts.comment = true

variable {parts : LineParts}

theorem WellFormed.isBlank_of_head? (h : parts.WellFormed) :
    ∀ c, parts.behind.head? = some c → isBlank c = true := by
  intro c hc
  rcases List.exists_cons_of_ne_nil h.apart with ⟨first, more, hbetween⟩
  rw [behind, hbetween] at hc
  cases hc
  exact h.between c (by rw [hbetween]; exact List.mem_cons_self)

theorem WellFormed.trimStart_line (h : parts.WellFormed) :
    trimStart parts.line = parts.mark ++ (parts.digits ++ (parts.suffix ++ parts.behind)) := by
  apply trimStart_append h.before
  rcases exists_cons_of_digits h.mark h.someDigits h.digits (parts.suffix ++ parts.behind) with
    ⟨c, rest, hcons, hc, _⟩
  rw [hcons]
  exact stops_cons_iff.mpr hc

theorem isSkipped_line (h : parts.WellFormed) : isSkipped parts.line = false := by
  rcases exists_cons_of_digits h.mark h.someDigits h.digits (parts.suffix ++ parts.behind) with
    ⟨c, rest, hcons, _, hsemicolon⟩
  rw [isSkipped, h.trimStart_line, hcons, isComment]
  simp [hsemicolon]

/-- The id, the statement and the comment of a line are told apart: by the first character that is
no digit, by the blanks behind the id, and by the first semicolon. -/
theorem ofText?_line (h : parts.WellFormed) : EntryLine.ofText? parts.line = some parts.entry := by
  have hbody : ∀ c ∈ parts.between ++ parts.statement, (c != ';') = true := by
    intro c hc
    rcases List.mem_append.mp hc with hc | hc
    · simpa using ne_of_test (h.between c hc) (by decide)
    · simpa using ne_of_mem_of_not_mem hc h.statement
  have hstops := stops_of_isComment h.comment
  have hcut : (parts.behind.takeWhile fun c => c != ';') = parts.between ++ parts.statement :=
    takeWhile_append_of_stops hbody hstops
  have hrest : (parts.behind.dropWhile fun c => c != ';') = parts.comment :=
    dropWhile_append_of_stops hbody hstops
  have hends := stops_suffix_append h.suffix h.isBlank_of_head?
  have hapart : (parts.statement == parts.between ++ parts.statement) = false := by
    simpa using h.apart
  unfold EntryLine.ofText?
  simp only [h.trimStart_line,
    dropMark_append h.mark h.someDigits h.digits (head?_suffix_append h.suffix h.isBlank_of_head?),
    takeWhile_append_of_stops h.digits hends, dropWhile_append_of_stops h.digits hends,
    dropSuffix_append h.suffix h.isBlank_of_head?, hcut, hrest,
    trimStart_append h.between h.start, hapart, h.comment]
  simp [h.someDigits, h.someStatement, entry]

theorem ofLine_line (h : parts.WellFormed) {id : Nat} (hid : parts.entry.id? = some id)
    (lineNumber : Nat) : ofLine lineNumber parts.line = .ok (some ⟨id, parts.entry.text⟩) := by
  simp only [ofLine, isSkipped_line h, ofText?_line h, hid, Bool.false_eq_true, if_false]

end LineParts

end CycleTable.Descriptor

/-!
## Spellings

The lines that a descriptor may be written as: its id in either base with zeros in front, blanks
around the id, the word and the operand, and a comment behind them. Each of them reads as the
descriptor again.
-/

namespace CycleTable.Descriptor

open Text

/-- The digits of a number, in either case and with any number of zeros in front. -/
def IsNumeral (base number : Nat) (digits : List Char) : Prop :=
  ∃ zeros, digits.map Char.toLower = List.replicate zeros '0' ++ Nat.toDigits base number

/-- An id between its marks. Without any mark it is a decimal number. -/
inductive SpellsId (id : Nat) : List Char → Prop
  | marked {mark digits suffix : List Char} (hmark : mark ∈ marks) (hsuffix : suffix ∈ suffixes)
      (hdigits : IsNumeral (if mark = [] ∧ suffix = [] then 10 else 16) id digits) :
      SpellsId id (mark ++ (digits ++ suffix))

/-- Blanks that stay on a line. -/
def IsGap (text : List Char) : Prop :=
  ∀ c ∈ text, isBlank c = true ∧ c ≠ '\n'

instance (text : List Char) : Decidable (IsGap text) :=
  List.decidableBAll _ text

/-- What may stand behind a descriptor, or on a line of its own. -/
inductive IsEnding : List Char → Prop
  | blank {gap : List Char} (hgap : IsGap gap) : IsEnding gap
  | comment {gap remark : List Char} (hgap : IsGap gap) (hremark : '\n' ∉ remark) :
      IsEnding (gap ++ ';' :: remark)

structure IsWord (word : List Char) : Prop where
  nonempty : word ≠ []
  kept : ∀ c ∈ word, isBlank c = false ∧ c ≠ ';'

structure IsOperand (operand : List Char) : Prop where
  nonempty : operand ≠ []
  kept : ∀ c ∈ operand, c ≠ ';' ∧ c ≠ '\n'
  trimmed : IsTrimmed operand

instance (word : List Char) : Decidable (IsWord word) :=
  have := List.decidableBAll (fun c => isBlank c = false ∧ c ≠ ';') word
  decidable_of_iff (word ≠ [] ∧ ∀ c ∈ word, isBlank c = false ∧ c ≠ ';')
    ⟨fun h => ⟨h.1, h.2⟩, fun h => ⟨h.nonempty, h.kept⟩⟩

instance (operand : List Char) : Decidable (IsOperand operand) :=
  have := List.decidableBAll (fun c => c ≠ ';' ∧ c ≠ '\n') operand
  decidable_of_iff (operand ≠ [] ∧ (∀ c ∈ operand, c ≠ ';' ∧ c ≠ '\n') ∧ IsTrimmed operand)
    ⟨fun h => ⟨h.1, h.2.1, h.2.2⟩, fun h => ⟨h.nonempty, h.kept, h.trimmed⟩⟩

/-- A text of a word, or of a word and an operand, with any blanks between the two. -/
inductive SpellsText (text : String) : List Char → Prop
  | word {word : List Char} (hword : IsWord word) (htext : text.toList = word) :
      SpellsText text word
  | operand {word gap operand : List Char} (hword : IsWord word) (hgap : IsGap gap)
      (hne : gap ≠ []) (hoperand : IsOperand operand)
      (htext : text.toList = word ++ ' ' :: operand) : SpellsText text (word ++ (gap ++ operand))

/-- A line with an id and a text, and blanks in front of both. -/
inductive SpellsEntry (d : Descriptor) : List Char → Prop
  | entry {before id between statement ending : List Char} (hbefore : IsGap before)
      (hid : SpellsId d.id id) (hbetween : IsGap between) (hne : between ≠ [])
      (hstatement : SpellsText d.text statement) (hending : IsEnding ending) :
      SpellsEntry d (before ++ (id ++ (between ++ (statement ++ ending))))

variable {base number : Nat} {digits : List Char}

theorem base_eq (mark suffix : List Char) :
    (if !mark.isEmpty || !suffix.isEmpty then 16 else 10) =
      if mark = [] ∧ suffix = [] then 10 else 16 := by
  cases mark with
  | nil => cases suffix <;> rfl
  | cons => rfl

theorem IsNumeral.number?_eq (h : IsNumeral base number digits) (hbase : 1 < base)
    (hlast : base ≤ 16) : number? base digits = some number := by
  rcases h with ⟨zeros, hdigits⟩
  rw [← number?_map digitValue?_toLower, hdigits, number?_zeros_append (by omega),
    number?_toDigits hbase hlast]

theorem IsNumeral.isHexDigit (h : IsNumeral base number digits) (hbase : 1 < base)
    (hlast : base ≤ 16) : ∀ c ∈ digits, isHexDigit c = true :=
  fun _ hc => isHexDigit_of_number? (h.number?_eq hbase hlast) hc

theorem IsNumeral.ne_nil (h : IsNumeral base number digits) : digits ≠ [] := by
  rcases h with ⟨zeros, hdigits⟩
  intro hnil
  rw [hnil, List.map_nil] at hdigits
  exact Nat.toDigits_ne_nil (List.append_eq_nil_iff.mp hdigits.symm).2

theorem IsGap.isBlank {gap : List Char} (h : IsGap gap) : ∀ c ∈ gap, isBlank c = true :=
  fun c hc => (h c hc).1

theorem IsGap.newline_not_mem {gap : List Char} (h : IsGap gap) : '\n' ∉ gap :=
  fun hmem => (h '\n' hmem).2 rfl

theorem IsEnding.exists_comment {ending : List Char} (h : IsEnding ending) :
    ∃ gap comment, ending = gap ++ comment ∧ IsGap gap ∧ isComment comment = true := by
  cases h with
  | blank hgap => exact ⟨ending, [], (List.append_nil ending).symm, hgap, rfl⟩
  | comment hgap hremark => exact ⟨_, _, rfl, hgap, by simpa [isComment] using hremark⟩

theorem IsEnding.isSkipped_eq {ending : List Char} (h : IsEnding ending) :
    isSkipped ending = true := by
  rcases h.exists_comment with ⟨gap, comment, rfl, hgap, hcomment⟩
  have hstops : Stops Text.isBlank comment := by
    intro c hc
    have hsemicolon := stops_of_isComment hcomment c hc
    obtain rfl : c = ';' := by simpa using hsemicolon
    decide
  rw [isSkipped, trimStart_append hgap.isBlank hstops, hcomment]

theorem IsEnding.newline_not_mem {ending : List Char} (h : IsEnding ending) : '\n' ∉ ending := by
  cases h with
  | blank hgap => exact hgap.newline_not_mem
  | comment hgap hremark =>
      rw [List.mem_append, List.mem_cons, not_or, not_or]
      exact ⟨hgap.newline_not_mem, by decide, hremark⟩

theorem IsGap.dropReturn {gap : List Char} (h : IsGap gap) : IsGap (dropReturn gap) :=
  fun c hc => h c (mem_of_mem_dropReturn hc)

theorem IsEnding.dropReturn {ending : List Char} (h : IsEnding ending) :
    IsEnding (dropReturn ending) := by
  cases h with
  | blank hgap => exact IsEnding.blank hgap.dropReturn
  | @comment gap remark hgap hremark =>
      have hmark : (gap ++ [';']).getLast? ≠ some '\r' := by simp
      rw [List.append_cons, dropReturn_append hmark, List.append_assoc]
      exact IsEnding.comment hgap fun hc => hremark (mem_of_mem_dropReturn hc)

namespace SpellsText

variable {text : String} {statement gap : List Char}

theorem ne_nil (h : SpellsText text statement) : statement ≠ [] := by
  cases h with
  | word hword => exact hword.nonempty
  | operand hword => exact fun hnil => hword.nonempty (List.append_eq_nil_iff.mp hnil).1

theorem isTrimmed (h : SpellsText text statement) : IsTrimmed statement := by
  cases h with
  | word hword => exact isTrimmed_of_forall fun c hc => (hword.kept c hc).1
  | operand hword hgap hne hoperand =>
      exact (isTrimmed_of_forall fun c hc => (hword.kept c hc).1).append hoperand.trimmed _
        hword.nonempty hoperand.nonempty

theorem kept (h : SpellsText text statement) : ∀ c ∈ statement, c ≠ ';' ∧ c ≠ '\n' := by
  have hcase : ∀ {word : List Char}, IsWord word → ∀ c ∈ word, c ≠ ';' ∧ c ≠ '\n' := by
    intro word hword c hc
    refine ⟨(hword.kept c hc).2, ?_⟩
    rintro rfl
    cases (hword.kept _ hc).1
  cases h with
  | word hword => exact hcase hword
  | operand hword hgap hne hoperand =>
      intro c hc
      rcases List.mem_append.mp hc with hc | hc
      · exact hcase hword c hc
      · rcases List.mem_append.mp hc with hc | hc
        · exact ⟨ne_of_test (hgap c hc).1 (by decide), (hgap c hc).2⟩
        · exact hoperand.kept c hc

theorem text_eq (h : SpellsText text statement) (hgap : ∀ c ∈ gap, isBlank c = true)
    (digits : List Char) (isHex : Bool) :
    EntryLine.text ⟨digits, isHex, Text.word (statement ++ gap),
      trim (afterWord (statement ++ gap))⟩ = text := by
  cases h with
  | word hword htext =>
      have hkept : ∀ c ∈ statement, isBlank c = false := fun c hc => (hword.kept c hc).1
      rw [word_append hkept (stops_of_blanks hgap), afterWord_append hkept (stops_of_blanks hgap),
        trim_of_blanks hgap, ← htext]
      simp [EntryLine.text]
  | @operand word apart operand hword hapart hne hoperand htext =>
      have hkept : ∀ c ∈ word, isBlank c = false := fun c hc => (hword.kept c hc).1
      have hstops : Stops (fun c => !isBlank c) (apart ++ (operand ++ gap)) :=
        stops_append (stops_of_blanks hapart.isBlank) fun hnil => absurd hnil hne
      have hempty : operand.isEmpty = false := by simpa using hoperand.nonempty
      have htrim : trim (apart ++ (operand ++ gap)) = operand := by
        rw [← List.append_assoc]
        exact hoperand.trimmed.trim_blanks_append hapart.isBlank hgap
      rw [List.append_assoc, List.append_assoc, word_append hkept hstops,
        afterWord_append hkept hstops, htrim, EntryLine.text, hempty, if_neg Bool.false_ne_true,
        ← htext, String.ofList_toList]

end SpellsText

theorem SpellsId.newline_not_mem {id : Nat} {text : List Char} (h : SpellsId id text) :
    '\n' ∉ text := by
  cases h with
  | marked hmark hsuffix hdigits =>
      have hmarks : ∀ mark ∈ marks, '\n' ∉ mark := by decide
      have hsuffixes : ∀ suffix ∈ suffixes, '\n' ∉ suffix := by decide
      have hhex := hdigits.isHexDigit (by split <;> decide) (by split <;> decide)
      rw [List.mem_append, List.mem_append, not_or, not_or]
      exact ⟨hmarks _ hmark, fun hc => ne_of_test (hhex _ hc) (by decide) rfl,
        hsuffixes _ hsuffix⟩

namespace SpellsEntry

variable {d : Descriptor} {line : List Char}

theorem exists_parts (h : SpellsEntry d line) (hid : d.id < 0x10000) :
    ∃ parts : LineParts, parts.line = line ∧ parts.WellFormed ∧ parts.entry.id? = some d.id ∧
      parts.entry.text = d.text := by
  cases h with
  | @entry before _ between statement _ hbefore hspelled hbetween hne hstatement hending =>
      cases hspelled with
      | @marked mark digits suffix hmark hsuffix hdigits =>
          rcases hending.exists_comment with ⟨gap, comment, rfl, hgap, hcomment⟩
          rw [← base_eq] at hdigits
          have hnumber := hdigits.number?_eq (by split <;> decide) (by split <;> decide)
          refine ⟨⟨before, mark, digits, suffix, between, statement ++ gap, comment⟩, ?_, ?_, ?_,
            hstatement.text_eq hgap.isBlank _ _⟩
          · simp only [LineParts.line, LineParts.behind, List.append_assoc]
          · exact {
              before := hbefore.isBlank
              mark := hmark
              someDigits := hdigits.ne_nil
              digits := fun c hc => isHexDigit_of_number? hnumber hc
              suffix := hsuffix
              apart := hne
              between := hbetween.isBlank
              someStatement := fun hnil => hstatement.ne_nil (List.append_eq_nil_iff.mp hnil).1
              start := stops_append hstatement.isTrimmed.head fun hnil =>
                absurd hnil hstatement.ne_nil
              statement := by
                rw [List.mem_append, not_or]
                exact ⟨fun hc => (hstatement.kept _ hc).1 rfl,
                  fun hc => absurd (hgap.isBlank _ hc) (by decide)⟩
              comment := hcomment }
          · rw [EntryLine.id?, LineParts.entry, hnumber, Option.filter_some, if_pos (by simpa)]

theorem ofLine_eq (h : SpellsEntry d line) (hid : d.id < 0x10000) (lineNumber : Nat) :
    ofLine lineNumber line = .ok (some d) := by
  rcases h.exists_parts hid with ⟨parts, rfl, hparts, hread, htext⟩
  rw [LineParts.ofLine_line hparts hread, htext]

theorem newline_not_mem (h : SpellsEntry d line) : '\n' ∉ line := by
  cases h with
  | entry hbefore hid hbetween hne hstatement hending =>
      simp only [List.mem_append, not_or]
      exact ⟨hbefore.newline_not_mem, hid.newline_not_mem, hbetween.newline_not_mem,
        fun hc => (hstatement.kept _ hc).2 rfl, hending.newline_not_mem⟩

theorem dropReturn (h : SpellsEntry d line) : SpellsEntry d (dropReturn line) := by
  cases h with
  | @entry before id between statement ending hbefore hid hbetween hne hstatement hending =>
      have hlast : (before ++ (id ++ (between ++ statement))).getLast? ≠ some '\r' := by
        have hends := List.getLast?_eq_some_getLast hstatement.ne_nil
        rw [List.getLast?_append, List.getLast?_append, List.getLast?_append, hends,
          Option.some_or, Option.some_or, Option.some_or, ← hends]
        intro hreturn
        exact absurd (hstatement.isTrimmed.last _ hreturn) (by decide)
      have hdrop := dropReturn_append hlast ending
      simp only [List.append_assoc] at hdrop
      rw [hdrop]
      exact SpellsEntry.entry hbefore hid hbetween hne hstatement hending.dropReturn

theorem ne_nil (h : SpellsEntry d line) : line ≠ [] := by
  cases h with
  | entry hbefore hid hbetween hne hstatement hending =>
      simp [hne]

end SpellsEntry

end CycleTable.Descriptor
