import CycleTable.Proofs.Descriptor.Spelling

/-!
# What a line is read as

A line is skipped if it holds an ending alone, and read as a descriptor if it spells one whose id
has sixteen bits. It is a bad line if it does neither, and no other line is reported.
-/

namespace CycleTable.Descriptor

open Text

variable {base number lineNumber id : Nat} {digits line gap comment statement : List Char}
  {d : Descriptor} {fault : Fault}

theorem isNumeral_iff (hbase : 1 < base) (hlast : base ≤ 16) :
    IsNumeral base number digits ↔ digits ≠ [] ∧ number? base digits = some number := by
  constructor
  · intro h
    exact ⟨h.ne_nil, h.number?_eq hbase hlast⟩
  · intro h
    exact exists_toDigits_of_number? hbase h.1 h.2

theorem exists_mark_append (text : List Char) :
    ∃ mark ∈ marks, mark ++ (dropMark text).2 = text ∧ (dropMark text).1 = !mark.isEmpty := by
  unfold dropMark
  split
  · exact ⟨['$'], by decide, rfl, rfl⟩
  · next c rest =>
    by_cases hletter : c = 'x' ∨ c = 'X'
    · rw [if_pos hletter]
      cases hletter with
      | inl hsmall => exact ⟨['0', 'x'], by decide, by rw [hsmall]; rfl, rfl⟩
      | inr hcapital => exact ⟨['0', 'X'], by decide, by rw [hcapital]; rfl, rfl⟩
    · rw [if_neg hletter]
      exact ⟨[], by decide, rfl, rfl⟩
  · exact ⟨[], by decide, rfl, rfl⟩

theorem exists_suffix_append (text : List Char) :
    ∃ suffix ∈ suffixes, suffix ++ (dropSuffix text).2 = text ∧
      (dropSuffix text).1 = !suffix.isEmpty := by
  unfold dropSuffix
  split
  · next c rest =>
    by_cases hletter : c = 'h' ∨ c = 'H'
    · rw [if_pos hletter]
      cases hletter with
      | inl hsmall => exact ⟨['h'], by decide, by rw [hsmall]; rfl, rfl⟩
      | inr hcapital => exact ⟨['H'], by decide, by rw [hcapital]; rfl, rfl⟩
    · rw [if_neg hletter]
      exact ⟨[], by decide, rfl, rfl⟩
  · exact ⟨[], by decide, rfl, rfl⟩

theorem isEnding_append (hgap : IsGap gap) (hcomment : isComment comment = true) :
    IsEnding (gap ++ comment) := by
  cases comment with
  | nil =>
      rw [List.append_nil]
      exact IsEnding.blank hgap
  | cons c remark =>
      simp only [isComment, Bool.and_eq_true, beq_iff_eq] at hcomment
      obtain ⟨rfl, hremark⟩ := hcomment
      exact IsEnding.comment hgap (by simpa using hremark)

theorem isGap_of_newline_not_mem (hgap : ∀ c ∈ gap, isBlank c = true) (h : '\n' ∉ gap) :
    IsGap gap :=
  fun c hc => ⟨hgap c hc, ne_of_mem_of_not_mem hc h⟩

theorem isWord_word (hne : statement ≠ []) (hstart : Stops isBlank statement)
    (hkept : ';' ∉ statement) : IsWord (Text.word statement) := by
  constructor
  · intro hnil
    exact hne (eq_nil_of_word_eq_nil hstart hnil)
  · intro c hc
    have hmem : c ∈ statement := (List.takeWhile_sublist _).subset hc
    exact ⟨isBlank_eq_false_of_mem_word hc, ne_of_mem_of_not_mem hmem hkept⟩

theorem isOperand_trim {behind : List Char} (hne : trim behind ≠ []) (hkept : ';' ∉ behind)
    (hline : '\n' ∉ behind) : IsOperand (trim behind) where
  nonempty := hne
  kept := fun _ hc =>
    ⟨ne_of_mem_of_not_mem (mem_of_mem_trim hc) hkept,
      ne_of_mem_of_not_mem (mem_of_mem_trim hc) hline⟩
  trimmed := isTrimmed_trim behind

theorem exists_spellsText (hne : statement ≠ []) (hstart : Stops isBlank statement)
    (hkept : ';' ∉ statement) (hline : '\n' ∉ statement) (digits : List Char) (isHex : Bool) :
    ∃ front gap, front ++ gap = statement ∧ IsGap gap ∧
      SpellsText (EntryLine.text ⟨digits, isHex, Text.word statement,
        trim (afterWord statement)⟩) front := by
  have hparts := word_append_afterWord statement
  have hword := isWord_word hne hstart hkept
  have hstops : Stops (fun c => !isBlank c) (afterWord statement) := stops_dropWhile _ _
  rw [← hparts, List.mem_append, not_or] at hkept hline
  obtain ⟨between, after, hbehind, hbetween, hafter⟩ :=
    exists_eq_append_trim (afterWord statement)
  have hfree := hline.2
  rw [hbehind, List.mem_append, List.mem_append, not_or, not_or] at hfree
  have hgap := isGap_of_newline_not_mem hbetween hfree.1.1
  have hgap' := isGap_of_newline_not_mem hafter hfree.2
  by_cases hoperand : trim (afterWord statement) = []
  · rw [hoperand, List.append_nil] at hbehind
    refine ⟨Text.word statement, between ++ after, by rw [← hbehind, hparts], ?_, ?_⟩
    · exact List.forall_mem_append.mpr ⟨hgap, hgap'⟩
    · exact SpellsText.word hword (by simp [EntryLine.text, hoperand])
  · have hapart : between ≠ [] := by
      intro hnil
      rw [hbehind, hnil] at hstops
      exact hoperand ((isTrimmed_trim _).eq_nil_of_stops hstops)
    refine ⟨Text.word statement ++ (between ++ trim (afterWord statement)), after, ?_, hgap', ?_⟩
    · rw [List.append_assoc, ← hbehind, hparts]
    · exact SpellsText.operand hword hgap hapart (isOperand_trim hoperand hkept.2 hline.2)
        (by simp [EntryLine.text, hoperand])

namespace LineParts

variable {parts : LineParts} {entry : EntryLine}

theorem exists_of_ofText? (h : EntryLine.ofText? line = some entry) :
    ∃ parts : LineParts, parts.WellFormed ∧ parts.line = line ∧ parts.entry = entry := by
  -- Each cut of the reader gives one part, and what it leaves is cut next.
  obtain ⟨mark, hmark, hnumeral, hmarked⟩ := exists_mark_append (trimStart line)
  unfold EntryLine.ofText? at h
  generalize dropMark (trimStart line) = markless at h hnumeral hmarked
  obtain ⟨marked, numeral⟩ := markless
  obtain ⟨suffix, hsuffix, hrest, hsuffixed⟩ := exists_suffix_append (numeral.dropWhile isHexDigit)
  simp only at h hnumeral hmarked
  generalize dropSuffix (numeral.dropWhile isHexDigit) = suffixless at h hrest hsuffixed
  obtain ⟨suffixed, rest⟩ := suffixless
  simp only at h hrest hsuffixed
  split at h
  · cases h
  · next hshape =>
    cases h
    generalize hbody : (rest.takeWhile fun c => c != ';') = body at hshape ⊢
    generalize hcomment : (rest.dropWhile fun c => c != ';') = comment at hshape
    have hparts : rest = body ++ comment := by
      rw [← hbody, ← hcomment, List.takeWhile_append_dropWhile]
    simp only [Bool.or_eq_true, not_or, Bool.not_eq_true, List.isEmpty_eq_false_iff,
      beq_eq_false_iff_ne, Bool.not_eq_false'] at hshape
    obtain ⟨⟨⟨hdigits, hstatement⟩, hapart⟩, hends⟩ := hshape
    have hbetween := takeWhile_append_trimStart body
    refine ⟨⟨line.takeWhile isBlank, mark, numeral.takeWhile isHexDigit, suffix,
      body.takeWhile isBlank, trimStart body, comment⟩, ?_, ?_, ?_⟩
    · exact {
        before := fun c hc => test_of_mem_takeWhile hc
        mark := hmark
        someDigits := hdigits
        digits := fun c hc => test_of_mem_takeWhile hc
        suffix := hsuffix
        apart := by
          intro hnil
          rw [show body.takeWhile isBlank = [] from hnil] at hbetween
          exact hapart hbetween
        between := fun c hc => test_of_mem_takeWhile hc
        someStatement := hstatement
        start := stops_dropWhile isBlank body
        statement := by
          intro hc
          have hmem : ';' ∈ body := (List.dropWhile_sublist isBlank).subset hc
          rw [← hbody] at hmem
          exact absurd (test_of_mem_takeWhile hmem) (by decide)
        comment := hends }
    · rw [LineParts.line, behind, hbetween, ← hparts, hrest, List.takeWhile_append_dropWhile,
        hnumeral]
      exact List.takeWhile_append_dropWhile
    · rw [LineParts.entry, ← hmarked, ← hsuffixed]

theorem WellFormed.spellsId (h : parts.WellFormed) (hid : parts.entry.id? = some id) :
    SpellsId id (parts.mark ++ (parts.digits ++ parts.suffix)) ∧ id < 0x10000 := by
  obtain ⟨hnumber, hbits⟩ := Option.filter_eq_some_iff.mp hid
  refine ⟨SpellsId.marked h.mark h.suffix ?_, by simpa using hbits⟩
  rw [← base_eq, isNumeral_iff (by split <;> decide) (by split <;> decide)]
  exact ⟨h.someDigits, hnumber⟩

theorem WellFormed.spellsEntry (h : parts.WellFormed) (hline : '\n' ∉ parts.line)
    (hid : parts.entry.id? = some id) : SpellsEntry ⟨id, parts.entry.text⟩ parts.line := by
  simp only [LineParts.line, behind, List.mem_append, not_or] at hline
  obtain ⟨hbefore, _, _, _, ⟨hbetween, hstatement⟩, _⟩ := hline
  obtain ⟨front, gap, hfront, hgap, htext⟩ :=
    exists_spellsText h.someStatement h.start h.statement hstatement parts.digits
      (!parts.mark.isEmpty || !parts.suffix.isEmpty)
  have hshape : parts.line = parts.before ++ ((parts.mark ++ (parts.digits ++ parts.suffix)) ++
      (parts.between ++ (front ++ (gap ++ parts.comment)))) := by
    rw [LineParts.line, behind, ← hfront]
    simp only [List.append_assoc]
  rw [hshape]
  exact SpellsEntry.entry (isGap_of_newline_not_mem h.before hbefore) (h.spellsId hid).1
    (isGap_of_newline_not_mem h.between hbetween) h.apart htext (isEnding_append hgap h.comment)

end LineParts

theorem isSkipped_iff_isEnding (hline : '\n' ∉ line) : isSkipped line = true ↔ IsEnding line := by
  constructor
  · intro h
    have hparts := takeWhile_append_trimStart line
    have hfree : '\n' ∉ line.takeWhile isBlank := fun hc =>
      hline ((List.takeWhile_sublist isBlank).subset hc)
    rw [← hparts]
    exact isEnding_append (isGap_of_newline_not_mem (fun c => test_of_mem_takeWhile) hfree) h
  · exact IsEnding.isSkipped_eq

theorem ofLine_eq_none_iff (hline : '\n' ∉ line) :
    ofLine lineNumber line = .ok none ↔ IsEnding line := by
  rw [← isSkipped_iff_isEnding hline]
  unfold ofLine
  cases hskipped : isSkipped line with
  | true => simp
  | false =>
      rw [if_neg Bool.false_ne_true]
      split
      · simp
      · split <;> simp

theorem ofLine_eq_some_iff (hline : '\n' ∉ line) :
    ofLine lineNumber line = .ok (some d) ↔ SpellsEntry d line ∧ d.id < 0x10000 := by
  constructor
  · intro h
    unfold ofLine at h
    split at h
    · cases h
    · split at h
      · cases h
      · next entry hentry =>
        obtain ⟨parts, hparts, rfl, rfl⟩ := LineParts.exists_of_ofText? hentry
        split at h
        · cases h
        · next id hid =>
          cases h
          exact ⟨hparts.spellsEntry hline hid, (hparts.spellsId hid).2⟩
  · intro h
    exact h.1.ofLine_eq h.2 lineNumber

/-- A line that is neither skipped nor holds an entry with an id of sixteen bits. -/
def IsBad (line : List Char) : Prop :=
  ¬ IsEnding line ∧ ∀ d : Descriptor, d.id < 0x10000 → ¬ SpellsEntry d line

/-- A fault of a line that names it by its number. -/
inductive BlamesLine (lineNumber : Nat) : Fault → Prop
  | malformed : BlamesLine lineNumber (.malformedLine lineNumber)
  | invalidId (digits : String) : BlamesLine lineNumber (.invalidId lineNumber digits)

theorem BlamesLine.message_eq (h : BlamesLine lineNumber fault) :
    ∃ reason, fault.message = Fault.atLine lineNumber reason := by
  cases h with
  | malformed => exact ⟨_, rfl⟩
  | invalidId digits => exact ⟨_, rfl⟩

theorem BlamesLine.kind_eq (h : BlamesLine lineNumber fault) : fault.kind = .descriptor := by
  cases h with
  | malformed => rfl
  | invalidId digits => rfl

theorem blamesLine_of_ofLine_eq_error (h : ofLine lineNumber line = .error fault) :
    BlamesLine lineNumber fault := by
  unfold ofLine at h
  split at h
  · cases h
  · split at h
    · cases h
      exact BlamesLine.malformed
    · split at h
      · cases h
        exact BlamesLine.invalidId _
      · cases h

/-- Bad lines are reported, and only those. -/
theorem exists_ofLine_eq_error_iff (hline : '\n' ∉ line) :
    (∃ fault, ofLine lineNumber line = .error fault) ↔ IsBad line := by
  have hnone : ofLine lineNumber line = .ok none ↔ IsEnding line := ofLine_eq_none_iff hline
  cases hread : ofLine lineNumber line with
  | error fault =>
      refine iff_of_true ⟨fault, rfl⟩ ⟨?_, ?_⟩
      · intro hending
        have hskipped : ofLine lineNumber line = .ok none := hnone.mpr hending
        rw [hread] at hskipped
        cases hskipped
      · intro d hid hentry
        rw [hentry.ofLine_eq hid] at hread
        cases hread
  | ok found =>
      refine iff_of_false (by simp) ?_
      intro hbad
      cases found with
      | none => exact hbad.1 (hnone.mp hread)
      | some d =>
          obtain ⟨hentry, hid⟩ := (ofLine_eq_some_iff hline).mp hread
          exact hbad.2 d hid hentry

theorem exists_ofLine_eq_ok_iff (hline : '\n' ∉ line) :
    (∃ found, ofLine lineNumber line = .ok found) ↔ ¬ IsBad line := by
  have hbad : (∃ fault, ofLine lineNumber line = .error fault) ↔ IsBad line :=
    exists_ofLine_eq_error_iff hline
  rw [← hbad]
  cases ofLine lineNumber line with
  | error fault => simp
  | ok found => simp

end CycleTable.Descriptor
