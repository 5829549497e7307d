import CycleTable.Proofs.Descriptor.Grammar
import CycleTable.Proofs.Descriptor.Loading

/-!
# Printed descriptors

The texts that are read from lines are in normal form: a word, or a word and an operand with a
single space between them. A descriptor with such a text is read again from the line that it is
printed as. Where lines are no list at all, the first bad line is blamed before the count and the
order of the ids.
-/

namespace CycleTable.Descriptor

open Text

/-- A word, or a word and an operand behind a single space. -/
inductive IsNormal : List Char → Prop
  | word {word : List Char} (hword : IsWord word) : IsNormal word
  | operand {word operand : List Char} (hword : IsWord word) (hoperand : IsOperand operand) :
      IsNormal (word ++ ' ' :: operand)

/-- The id in base sixteen behind its mark, a space, and the text. -/
def printed (d : Descriptor) : List Char :=
  (Fault.numbered "0x" d.id ++ " " ++ d.text).toList

variable {d : Descriptor} {list : List Descriptor} {text : String} {statement line : List Char}
  {lines : List (List Char)} {lineNumber : Nat} {fault : Fault}

theorem SpellsText.isNormal (h : SpellsText text statement) : IsNormal text.toList := by
  cases h with
  | word hword htext =>
      rw [htext]
      exact IsNormal.word hword
  | operand hword hgap hne hoperand htext =>
      rw [htext]
      exact IsNormal.operand hword hoperand

theorem IsNormal.spellsText (h : IsNormal text.toList) : SpellsText text text.toList := by
  generalize hchars : text.toList = chars at h ⊢
  cases h with
  | word hword => exact SpellsText.word hword hchars
  | operand hword hoperand =>
      have hgap : IsGap [' '] := by decide
      exact SpellsText.operand hword hgap (by decide) hoperand hchars

theorem isNumeral_hex (width number : Nat) : IsNumeral 16 number (hex width number) := by
  rw [isNumeral_iff (by decide) (by decide)]
  constructor
  · intro hnil
    have hdigits := (List.append_eq_nil_iff.mp hnil).2
    exact Nat.toDigits_ne_nil (List.map_eq_nil_iff.mp hdigits)
  · rw [hex, number?_zeros_append (by decide), number?_map digitValue?_toUpper,
      number?_toDigits (by decide) (by decide)]

theorem spellsEntry_printed (h : IsNormal d.text.toList) : SpellsEntry d (printed d) := by
  have hid : SpellsId d.id (['0', 'x'] ++ (hex 2 d.id ++ [])) :=
    SpellsId.marked (by decide) (by decide) (isNumeral_hex 2 d.id)
  have hnone : IsGap [] := by decide
  have hspace : IsGap [' '] := by decide
  have hline : printed d =
      [] ++ ((['0', 'x'] ++ (hex 2 d.id ++ [])) ++ ([' '] ++ (d.text.toList ++ []))) := by
    simp [printed, Fault.numbered]
  rw [hline]
  exact SpellsEntry.entry hnone hid hspace (by decide) h.spellsText (IsEnding.blank hnone)

example : printed ⟨0x6C, "JMP (nnnn)"⟩ = "0x6C JMP (nnnn)".toList := by decide

theorem spelled_printed (h : ∀ d ∈ list, IsNormal d.text.toList) :
    Spelled list (list.map printed) := by
  induction list with
  | nil => exact Spelled.nil
  | cons d rest ih =>
      rw [List.forall_mem_cons] at h
      exact Spelled.entry (spellsEntry_printed h.1) (ih h.2)

theorem Spelled.isNormal_of_mem (h : Spelled list lines) (hd : d ∈ list) :
    IsNormal d.text.toList := by
  induction h with
  | nil => cases hd
  | entry hentry hrest ih =>
      cases hd with
      | head =>
          cases hentry with
          | entry hbefore hid hbetween hne hstatement hending => exact hstatement.isNormal
      | tail _ hmem => exact ih hmem
  | skipped hline hrest ih => exact ih hd

theorem spelled_of_readLines (hlines : ∀ line ∈ lines, '\n' ∉ line)
    (h : readLines lineNumber lines = .ok list) : Spelled list lines := by
  induction lines generalizing lineNumber list with
  | nil =>
      cases h
      exact Spelled.nil
  | cons line rest ih =>
      rw [List.forall_mem_cons] at hlines
      simp only [readLines, bind_eq_ok_iff] at h
      obtain ⟨head, hhead, tail, htail, hlist⟩ := h
      cases hlist
      have hrest := ih hlines.2 htail
      cases head with
      | none => exact Spelled.skipped ((ofLine_eq_none_iff hlines.1).mp hhead) hrest
      | some d => exact Spelled.entry ((ofLine_eq_some_iff hlines.1).mp hhead).1 hrest

theorem not_isBad_of_readLines (hlines : ∀ line ∈ lines, '\n' ∉ line)
    (h : readLines lineNumber lines = .ok list) : ∀ line ∈ lines, ¬ IsBad line := by
  induction lines generalizing lineNumber list with
  | nil => exact List.forall_mem_nil _
  | cons line rest ih =>
      rw [List.forall_mem_cons] at hlines ⊢
      simp only [readLines, bind_eq_ok_iff] at h
      obtain ⟨head, hhead, tail, htail, _⟩ := h
      exact ⟨(exists_ofLine_eq_ok_iff hlines.1).mp ⟨head, hhead⟩, ih hlines.2 htail⟩

theorem readLines_eq_mapM (lineNumber : Nat) (lines : List (List Char)) :
    readLines lineNumber lines = do
      let found ← (lines.zipIdx lineNumber).mapM fun numbered => ofLine numbered.2 numbered.1
      return found.flatMap Option.toList := by
  induction lines generalizing lineNumber with
  | nil => rfl
  | cons line rest ih =>
      rw [readLines, ih, List.zipIdx_cons, List.mapM_cons]
      simp only [bind_assoc, pure_bind, List.flatMap_cons]

theorem readLines_eq_error_iff (hlines : ∀ line ∈ lines, '\n' ∉ line) :
    readLines lineNumber lines = .error fault ↔
      ∃ place line, lines[place]? = some line ∧
        ofLine (lineNumber + place) line = .error fault ∧
          ∀ earlier other, earlier < place → lines[earlier]? = some other → ¬ IsBad other := by
  simp only [readLines_eq_mapM, bind_eq_error_iff, mapM_eq_error_iff, List.getElem?_zipIdx,
    Option.map_eq_some_iff]
  constructor
  · intro h
    cases h with
    | inl h =>
        obtain ⟨place, _, ⟨line, hline, rfl⟩, hfault, hbefore⟩ := h
        refine ⟨place, line, hline, hfault, ?_⟩
        intro earlier other hlt hother
        exact (exists_ofLine_eq_ok_iff (hlines other (List.mem_of_getElem? hother))).mp
          (hbefore earlier _ hlt ⟨other, hother, rfl⟩)
    | inr h =>
        obtain ⟨_, _, hpure⟩ := h
        cases hpure
  · intro h
    obtain ⟨place, line, hline, hfault, hbefore⟩ := h
    refine Or.inl ⟨place, _, ⟨line, hline, rfl⟩, hfault, ?_⟩
    intro earlier numbered hlt hnumbered
    obtain ⟨other, hother, rfl⟩ := hnumbered
    exact (exists_ofLine_eq_ok_iff (hlines other (List.mem_of_getElem? hother))).mpr
      (hbefore earlier other hlt hother)

theorem kind_of_ofLines_eq_error (hlines : ∀ line ∈ lines, '\n' ∉ line)
    (h : ofLines lines = .error fault) : fault.kind = .descriptor := by
  rw [ofLines, bind_eq_error_iff] at h
  cases h with
  | inl hread =>
      obtain ⟨_, _, _, hfault, _⟩ := (readLines_eq_error_iff hlines).mp hread
      exact (blamesLine_of_ofLine_eq_error hfault).kind_eq
  | inr h =>
      obtain ⟨_, _, h⟩ := h
      cases bind_eq_error_iff.mp h with
      | inl hvalid => exact kind_of_validate_eq_error hvalid
      | inr hpure =>
          obtain ⟨_, _, hpure⟩ := hpure
          cases hpure

/--
Lines are either reported or a complete list of descriptors whose texts are in normal form, without
a semicolon and without blanks around them. Such a list is loaded again from what it is printed as.
If there are bad lines, the first of them is reported by its number, which counts all lines, and
not what else is wrong with the list.
-/
theorem ofLines_normalizes_or_blames (hlines : ∀ line ∈ lines, '\n' ∉ line) :
    ((∃ fault, ofLines lines = .error fault ∧ fault.kind = .descriptor) ∨
      ∃ list, ofLines lines = .ok list ∧ IsComplete list ∧
        (∀ d ∈ list, IsNormal d.text.toList ∧ ';' ∉ d.text.toList ∧ IsTrimmed d.text.toList) ∧
          ofLines (list.map printed) = .ok list) ∧
    ∀ line ∈ lines, IsBad line →
      ∃ place first fault reason, lines[place]? = some first ∧ IsBad first ∧
        (∀ earlier other, earlier < place → lines[earlier]? = some other → ¬ IsBad other) ∧
          ofLines lines = .error fault ∧ BlamesLine (place + 1) fault ∧
            fault.message = Fault.atLine (place + 1) reason := by
  constructor
  · cases hread : ofLines lines with
    | error fault => exact Or.inl ⟨fault, rfl, kind_of_ofLines_eq_error hlines hread⟩
    | ok list =>
        obtain ⟨hread, hvalid⟩ := ofLines_eq_ok_iff.mp hread
        have hcomplete := isComplete_iff_validate_eq_ok.mpr hvalid
        have hnormal : ∀ d ∈ list, IsNormal d.text.toList := fun d =>
          (spelled_of_readLines hlines hread).isNormal_of_mem
        refine Or.inr ⟨list, rfl, hcomplete, ?_, (spelled_printed hnormal).ofLines_eq hcomplete⟩
        intro d hd
        have htext := (hnormal d hd).spellsText
        exact ⟨hnormal d hd, fun hc => (htext.kept _ hc).1 rfl, htext.isTrimmed⟩
  · intro line hline hbad
    cases hread : readLines 1 lines with
    | ok list => exact absurd hbad (not_isBad_of_readLines hlines hread line hline)
    | error fault =>
        obtain ⟨place, first, hfirst, hfault, hbefore⟩ := (readLines_eq_error_iff hlines).mp hread
        have hfirstBad :=
          (exists_ofLine_eq_error_iff (hlines first (List.mem_of_getElem? hfirst))).mp
            ⟨fault, hfault⟩
        have hblames := blamesLine_of_ofLine_eq_error hfault
        rw [Nat.add_comm] at hblames
        obtain ⟨reason, hreason⟩ := hblames.message_eq
        exact ⟨place, first, fault, reason, hfirst, hfirstBad, hbefore,
          bind_eq_error_iff.mpr (Or.inl hread), hblames, hreason⟩

/-- A word of hexadecimal digits is no id without a mark, and is met before the line behind it. Ids
in two notations with remarks behind them are printed in another, and read again. -/
theorem ofLines_blames_unmarked_digits :
    (∀ line ∈ ["; ids".toList, "ADC nn".toList, "?".toList], '\n' ∉ line) ∧
      IsBad "ADC nn".toList ∧
      (∃ fault reason, ofLines ["; ids".toList, "ADC nn".toList, "?".toList] = .error fault ∧
        BlamesLine 2 fault ∧ fault.message = Fault.atLine 2 reason) ∧
      (∀ line ∈ (List.range entryCount).map mixedLine, '\n' ∉ line) ∧
      ∃ list, ofLines ((List.range entryCount).map mixedLine) = .ok list ∧ IsComplete list ∧
        (∀ d ∈ list, IsNormal d.text.toList ∧ ';' ∉ d.text.toList) ∧
          list.map printed ≠ (List.range entryCount).map mixedLine ∧
            ofLines (list.map printed) = .ok list := by
  have hlines : ∀ line ∈ ["; ids".toList, "ADC nn".toList, "?".toList], '\n' ∉ line := by decide
  have hbad : IsBad "ADC nn".toList :=
    (exists_ofLine_eq_error_iff (hlines _ (by decide))).mp ⟨.invalidId 2 "ADC", by rfl⟩
  have hcomment : ofLine 1 "; ids".toList = .ok none := by rfl
  have hskipped : ¬ IsBad "; ids".toList :=
    (exists_ofLine_eq_ok_iff (hlines _ (by decide))).mp ⟨none, hcomment⟩
  have hmixed : ∀ line ∈ (List.range entryCount).map mixedLine, '\n' ∉ line := by
    intro line hline
    obtain ⟨id, hid, rfl⟩ := List.mem_map.mp hline
    exact (spellsEntry_mixedLine (List.mem_range.mp hid)).newline_not_mem
  refine ⟨hlines, hbad, ?_, hmixed, ?_⟩
  · obtain ⟨place, first, fault, reason, hfirst, hfirstBad, hbefore, hread, hblames, hmessage⟩ :=
      (ofLines_normalizes_or_blames hlines).2 _ (by decide) hbad
    have hplace : place = 1 := by
      have hle : place ≤ 1 := Nat.le_of_not_lt fun hlt => hbefore 1 _ hlt rfl hbad
      have hpos : place ≠ 0 := by
        rintro rfl
        cases hfirst
        exact hskipped hfirstBad
      omega
    rw [hplace] at hblames hmessage
    exact ⟨fault, reason, hread, hblames, hmessage⟩
  · have hlist := (spelled_mixedLine fun _ => List.mem_range.mp).ofLines_eq
      (isComplete_map_range fun _ _ => rfl)
    cases (ofLines_normalizes_or_blames hmixed).1 with
    | inl hfault =>
        obtain ⟨fault, hfault, _⟩ := hfault
        rw [hlist] at hfault
        cases hfault
    | inr hloaded =>
        obtain ⟨list, hread, hcomplete, htexts, hagain⟩ := hloaded
        refine ⟨list, hread, hcomplete, fun d hd => ⟨(htexts d hd).1, (htexts d hd).2.1⟩, ?_,
          hagain⟩
        rw [hlist, Except.ok.injEq] at hread
        rw [← hread]
        intro hsame
        have hfirst := congrArg List.head? hsame
        rw [entryCount, List.range_succ_eq_map] at hfirst
        cases hfirst

end CycleTable.Descriptor
