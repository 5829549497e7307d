import CycleTable.Proofs.Operand
import CycleTable.Proofs.Success
import CycleTable.Proofs.Text.Blank
import CycleTable.Statement

/-!
# The grammar of statements

Every text is cut in one way into a word and an operand. It is an instruction exactly if the word
names a mnemonic, the operand asks for a mode, and the two go together; what else it may be tells
the kind of the fault.
-/

namespace CycleTable

open Text

namespace Statement

/-- A text is a word and an operand, with blanks in front, between and behind. The word reaches up
to the first blank, and the operand neither starts nor ends with one. -/
structure IsCutOf (s : Statement) (text : List Char) : Prop where
  parts : ∃ before between behind,
    text = before ++ (s.word ++ (between ++ s.operand)) ++ behind ∧
      (∀ c ∈ before, isBlank c = true) ∧ (∀ c ∈ between, isBlank c = true) ∧
      (∀ c ∈ behind, isBlank c = true) ∧ (between = [] → s.operand = [])
  word : ∀ c ∈ s.word, isBlank c = false
  operand : IsTrimmed s.operand
  /-- Only a text that is all blank has no word. -/
  empty : s.word = [] → s.operand = []

variable {s other : Statement} {text : List Char}

def cut (text : List Char) : Statement :=
  ⟨Text.word (trim text), trimStart (afterWord (trim text))⟩

theorem isCutOf_cut (text : List Char) : (cut text).IsCutOf text := by
  have hbody := isTrimmed_trim text
  rcases exists_word_append_eq (trim text) with ⟨between, hwhole, hbetween, hgap⟩
  rcases exists_eq_append_trim text with ⟨before, behind, htext, hbefore, hbehind⟩
  refine ⟨⟨before, between, behind, ?_, hbefore, hbetween, hbehind, hgap⟩, ?_, ⟨?_, ?_⟩, ?_⟩
  · rw [← hwhole] at htext
    exact htext
  · intro c hc
    exact isBlank_eq_false_of_mem_word hc
  · intro c hc
    rcases List.head?_eq_some_iff.mp hc with ⟨rest, hcons⟩
    exact isBlank_of_trimStart_eq_cons hcons
  · intro c hc
    have hlast : (trimStart (afterWord (trim text))).getLast? = some c := hc
    apply hbody.last
    rw [← hwhole, ← List.append_assoc, List.getLast?_append, hlast]
    rfl
  · intro hnil
    have hempty : trim text = [] := eq_nil_of_word_eq_nil hbody.head hnil
    show trimStart (afterWord (trim text)) = []
    rw [hempty]
    rfl

theorem IsCutOf.eq_cut (h : s.IsCutOf text) : s = cut text := by
  obtain ⟨word, operand⟩ := s
  rcases h.parts with ⟨before, between, behind, htext, hbefore, hbetween, hbehind, hgap⟩
  have hword : ∀ c ∈ word, isBlank c = false := h.word
  have hoperand : IsTrimmed operand := h.operand
  by_cases hnone : operand = []
  · have htrim : trim text = word := by
      rw [htext, hnone, List.append_nil, ← List.append_assoc before, List.append_assoc _ between,
        (isTrimmed_of_forall hword).trim_blanks_append hbefore]
      intro c hc
      exact (List.mem_append.mp hc).elim (hbetween c) (hbehind c)
    have hsplit := word_append hword stops_nil
    have hafter := afterWord_append hword stops_nil
    rw [List.append_nil] at hsplit hafter
    rw [cut, htrim, hsplit, hafter, hnone]
    rfl
  · have hwordNe : word ≠ [] := fun hnil => hnone (h.empty hnil)
    have hbetweenNe : between ≠ [] := fun hnil => hnone (hgap hnil)
    have hstops : Stops (fun c => !isBlank c) (between ++ operand) :=
      stops_append (stops_of_blanks hbetween) fun hnil => absurd hnil hbetweenNe
    have hwhole : IsTrimmed (word ++ (between ++ operand)) :=
      (isTrimmed_of_forall hword).append hoperand between hwordNe hnone
    have htrim : trim text = word ++ (between ++ operand) := by
      rw [htext, hwhole.trim_blanks_append hbefore hbehind]
    rw [cut, htrim, word_append hword hstops, afterWord_append hword hstops,
      trimStart_append hbetween hoperand.head]

theorem ofText?_eq (text : List Char) :
    ofText? text =
      if (cut text).word.isEmpty || (cut text).operand.contains '\n' then none
      else some (cut text) := rfl

theorem ofText?_eq_some_iff :
    ofText? text = some s ↔ cut text = s ∧ s.word ≠ [] ∧ '\n' ∉ s.operand := by
  rw [ofText?_eq]
  constructor
  · intro h
    split at h
    · cases h
    · next hkept =>
      cases h
      exact ⟨rfl, by simpa using hkept⟩
  · intro h
    rcases h with ⟨rfl, hword, hoperand⟩
    rw [if_neg (by simp [hword, hoperand])]

end Statement

theorem Mnemonic.ofName?_eq_some_iff {name : String} {m : Mnemonic} :
    ofName? name = some m ↔ m.name = name := by
  constructor
  · exact name_of_ofName?
  · intro h
    have hall : ∀ m ∈ all, ofName? m.name = some m := by decide
    rw [← h, hall m (mem_all m)]

theorem Mnemonic.name_ne_empty (m : Mnemonic) : m.name ≠ "" := by
  have hall : ∀ m ∈ all, m.name ≠ "" := by decide
  exact hall m (mem_all m)

/-- The mode that an operand gives to an instruction. The single byte behind a branch is no address
but a displacement. -/
inductive Mnemonic.Asks (m : Mnemonic) : (operand : List Char) → Mode → Prop
  | implied : Asks m [] .implied
  | relative {operand : List Char} (hbranch : m.family = .branch)
      (hform : Operand.Denotes operand .zeroPage) : Asks m operand .relative
  | form {operand : List Char} {mode : Mode} (hform : Operand.Denotes operand mode)
      (hother : m.family = .branch → mode ≠ .zeroPage) : Asks m operand mode

namespace Statement

variable {s : Statement} {m : Mnemonic} {mode : Mode} {fault : Fault}

theorem mnemonic_eq_ok_iff : s.mnemonic = .ok m ↔ String.ofList (upper s.word) = m.name := by
  rw [eq_comm (b := m.name), ← Mnemonic.ofName?_eq_some_iff]
  unfold mnemonic
  cases hname : Mnemonic.ofName? (String.ofList (upper s.word)) with
  | none => simp [hname]
  | some found => simp [hname]

theorem mnemonic_eq_error_iff :
    s.mnemonic = .error fault ↔
      (∀ m : Mnemonic, String.ofList (upper s.word) ≠ m.name) ∧
        fault = .unknownMnemonic (String.ofList (upper s.word)) := by
  cases hread : s.mnemonic with
  | ok m =>
      have hname := mnemonic_eq_ok_iff.mp hread
      simp only [reduceCtorEq, false_iff]
      intro h
      exact h.1 m hname
  | error cause =>
      have hunknown : ∀ m : Mnemonic, String.ofList (upper s.word) ≠ m.name := by
        intro m hname
        rw [mnemonic_eq_ok_iff.mpr hname] at hread
        cases hread
      have hcause : cause = .unknownMnemonic (String.ofList (upper s.word)) := by
        unfold mnemonic at hread
        dsimp only at hread
        split at hread
        · cases hread
        · exact (Except.error.inj hread).symm
      simp only [Except.error.injEq, hcause, hunknown, ne_eq, not_false_eq_true, implies_true,
        true_and, eq_comm]

theorem mode_eq_error_iff :
    s.mode = .error fault ↔
      s.operand ≠ [] ∧ (∀ mode, ¬ Operand.Denotes s.operand mode) ∧
        fault = .unknownOperand (String.ofList s.operand) := by
  unfold mode
  by_cases hempty : s.operand = []
  · simp [hempty]
  · rw [← Operand.mode?_eq_none_iff, if_neg (by simpa using hempty)]
    cases hfound : Operand.mode? s.operand with
    | none => simp [hempty, eq_comm]
    | some found => simp

theorem mode_eq_ok_iff :
    s.mode = .ok mode ↔ s.operand = [] ∧ mode = .implied ∨ Operand.Denotes s.operand mode := by
  rw [← Operand.mode?_eq_some_iff]
  unfold Statement.mode
  by_cases hempty : s.operand = []
  · have hnone : Operand.mode? [] = none := by rfl
    simp [hempty, hnone, eq_comm]
  · rw [if_neg (by simpa using hempty)]
    cases hfound : Operand.mode? s.operand with
    | none => simp [hempty]
    | some found => simp [hempty]

theorem exists_mode_iff_asks :
    (∃ written, s.mode = .ok written ∧ m.family.adjust written = mode) ↔
      m.Asks s.operand mode := by
  obtain ⟨word, operand⟩ := s
  simp only [mode_eq_ok_iff, Family.adjust]
  constructor
  · intro h
    rcases h with ⟨written, ⟨rfl, rfl⟩ | hform, hadjust⟩
    · rw [if_neg (by simp)] at hadjust
      rw [← hadjust]
      exact Mnemonic.Asks.implied
    · split at hadjust
      · next hbranch =>
        rw [hbranch.2] at hform
        rw [← hadjust]
        exact Mnemonic.Asks.relative hbranch.1 hform
      · next hother =>
        rw [← hadjust]
        exact Mnemonic.Asks.form hform fun hbranch hmode => hother ⟨hbranch, hmode⟩
  · intro h
    cases h with
    | implied => exact ⟨.implied, Or.inl ⟨rfl, rfl⟩, by simp⟩
    | relative hbranch hform => exact ⟨.zeroPage, Or.inr hform, by simp [hbranch]⟩
    | form hform hother =>
        exact ⟨mode, Or.inr hform, if_neg fun hboth => hother hboth.1 hboth.2⟩

end Statement

namespace Instruction

variable {text : String} {m : Mnemonic} {mode : Mode} {fault : Fault}

theorem ofText_eq_ok_iff {i : Instruction} :
    ofText text = .ok i ↔
      ∃ s, Statement.ofText? text.toList = some s ∧
        String.ofList (upper s.word) = i.mnemonic.name ∧ i.mnemonic.Asks s.operand i.mode ∧
          i.isEncodable = true := by
  unfold ofText
  cases Statement.ofText? text.toList with
  | none => simp
  | some s =>
      simp only [bind_eq_ok_iff, Statement.mnemonic_eq_ok_iff, Option.some.injEq, exists_eq_left',
        ← Statement.exists_mode_iff_asks]
      constructor
      · intro h
        rcases h with ⟨m, hm, written, hwritten, h⟩
        split at h
        · next haccepts =>
          cases h
          exact ⟨hm, ⟨written, hwritten, rfl⟩, haccepts⟩
        · cases h
      · intro h
        rcases h with ⟨hm, ⟨written, hwritten, hmode⟩, haccepts⟩
        refine ⟨i.mnemonic, hm, written, hwritten, ?_⟩
        rw [hmode]
        exact if_pos haccepts

theorem isEncodable_of_ofText {i : Instruction} (h : ofText text = .ok i) :
    i.isEncodable = true := by
  rcases ofText_eq_ok_iff.mp h with ⟨_, _, _, _, hencodable⟩
  exact hencodable

/-- What can be wrong with a text, in the order in which it is looked at. -/
inductive Rejects (text : String) : Fault → Prop
  | noStatement (hnone : Statement.ofText? text.toList = none) : Rejects text .blankText
  | mnemonic {s : Statement} (hs : Statement.ofText? text.toList = some s)
      (hunknown : ∀ m : Mnemonic, String.ofList (upper s.word) ≠ m.name) :
      Rejects text (.unknownMnemonic (String.ofList (upper s.word)))
  | operand {s : Statement} (hs : Statement.ofText? text.toList = some s) {m : Mnemonic}
      (hm : String.ofList (upper s.word) = m.name) (hoperand : s.operand ≠ [])
      (hform : ∀ mode, ¬ Operand.Denotes s.operand mode) :
      Rejects text (.unknownOperand (String.ofList s.operand))
  | pair {s : Statement} (hs : Statement.ofText? text.toList = some s) {m : Mnemonic} {mode : Mode}
      (hm : String.ofList (upper s.word) = m.name) (hmode : m.Asks s.operand mode)
      (hrefused : m.family.accepts m mode = false) : Rejects text (.notEncodable m mode)

theorem rejects_of_ofText_eq_error (h : ofText text = .error fault) : Rejects text fault := by
  unfold ofText at h
  split at h
  · next hnone =>
    cases h
    exact Rejects.noStatement hnone
  · next s hs =>
    rcases bind_eq_error_iff.mp h with hm | ⟨m, hm, hrest⟩
    · rcases Statement.mnemonic_eq_error_iff.mp hm with ⟨hunknown, rfl⟩
      exact Rejects.mnemonic hs hunknown
    · rw [Statement.mnemonic_eq_ok_iff] at hm
      rcases bind_eq_error_iff.mp hrest with hmode | ⟨written, hwritten, hpair⟩
      · rcases Statement.mode_eq_error_iff.mp hmode with ⟨hoperand, hform, rfl⟩
        exact Rejects.operand hs hm hoperand hform
      · dsimp only at hpair
        split at hpair
        · cases hpair
        · next hrefused =>
          cases hpair
          exact Rejects.pair hs hm (Statement.exists_mode_iff_asks.mp ⟨written, hwritten, rfl⟩)
            (eq_false_of_ne_true hrefused)

theorem ofText_eq_unknownOperand {s : Statement} (hs : Statement.ofText? text.toList = some s)
    (hm : String.ofList (upper s.word) = m.name) (hoperand : s.operand ≠ [])
    (hform : ∀ mode, ¬ Operand.Denotes s.operand mode) :
    ofText text = .error (.unknownOperand (String.ofList s.operand)) := by
  have hmode := Statement.mode_eq_error_iff.mpr ⟨hoperand, hform, rfl⟩
  simp only [ofText, hs, Statement.mnemonic_eq_ok_iff.mpr hm, hmode]
  rfl

/--
Every text is cut in one way into a word and an operand. It is an instruction exactly if the word
names the mnemonic in some case, the operand is on one line and asks for the mode, and the mnemonic
can be encoded with it. Of the texts that are none, those with a known mnemonic whose operand is of
no kind are at fault in the mode, and all others in the instruction.
-/
theorem ofText_accepts_grammar (text : String) :
    ∃ s : Statement, s.IsCutOf text.toList ∧
      (∀ other : Statement, other.IsCutOf text.toList → other = s) ∧
      (∀ m mode, ofText text = .ok ⟨m, mode⟩ ↔
        s.word ≠ [] ∧ String.ofList (upper s.word) = m.name ∧ '\n' ∉ s.operand ∧
          m.Asks s.operand mode ∧ m.family.accepts m mode = true) ∧
      ((∃ fault, ofText text = .error fault ∧ fault.kind = .addressingMode) ↔
        (∃ m : Mnemonic, String.ofList (upper s.word) = m.name) ∧ s.operand ≠ [] ∧
          '\n' ∉ s.operand ∧ ∀ mode, ¬ Operand.Denotes s.operand mode) ∧
      ∀ fault, ofText text = .error fault → fault.kind ≠ .addressingMode →
        fault.kind = .instruction := by
  refine ⟨Statement.cut text.toList, Statement.isCutOf_cut _, fun _ h => h.eq_cut, ?_, ?_, ?_⟩
  · intro m mode
    simp only [ofText_eq_ok_iff, Statement.ofText?_eq_some_iff]
    constructor
    · intro h
      rcases h with ⟨s, ⟨rfl, hword, hline⟩, hm, hmode, haccepts⟩
      exact ⟨hword, hm, hline, hmode, haccepts⟩
    · intro h
      rcases h with ⟨hword, hm, hline, hmode, haccepts⟩
      exact ⟨_, ⟨rfl, hword, hline⟩, hm, hmode, haccepts⟩
  · constructor
    · intro h
      rcases h with ⟨fault, hfault, hkind⟩
      cases rejects_of_ofText_eq_error hfault with
      | operand hs hm hoperand hform =>
          rcases Statement.ofText?_eq_some_iff.mp hs with ⟨rfl, _, hline⟩
          exact ⟨⟨_, hm⟩, hoperand, hline, hform⟩
      | noStatement | mnemonic | pair => cases hkind
    · intro h
      rcases h with ⟨⟨m, hm⟩, hoperand, hline, hform⟩
      have hword : (Statement.cut text.toList).word ≠ [] := by
        intro hnil
        rw [hnil] at hm
        exact m.name_ne_empty hm.symm
      have hs := Statement.ofText?_eq_some_iff.mpr ⟨rfl, hword, hline⟩
      exact ⟨_, ofText_eq_unknownOperand hs hm hoperand hform, rfl⟩
  · intro fault hfault hkind
    cases rejects_of_ofText_eq_error hfault with
    | operand => exact absurd rfl hkind
    | noStatement | mnemonic | pair => rfl

/-- The ligature U+FB06 has no capital of its own but the two letters `ST`. -/
theorem ofText_ligature_and_unknown_register :
    ofText "\t\uFB06a ( Nn\t,X )" = .ok ⟨.sta, .indexedIndirectX⟩ ∧
      ∃ fault, ofText "lda nn,q" = .error fault ∧ fault.kind = .addressingMode := by
  constructor
  · have hcut : Statement.cut "\t\uFB06a ( Nn\t,X )".toList =
        ⟨['\uFB06', 'a'], "( Nn\t,X )".toList⟩ := by
      decide +kernel
    have hdenotes : Operand.Denotes "( Nn\t,X )".toList .indexedIndirectX :=
      Operand.mode?_eq_some_iff.mp (by decide +kernel)
    rcases ofText_accepts_grammar "\t\uFB06a ( Nn\t,X )" with ⟨s, _, honly, haccepts, _⟩
    rw [haccepts, ← honly _ (Statement.isCutOf_cut _), hcut]
    exact ⟨by decide, by decide +kernel, by decide, Mnemonic.Asks.form hdenotes (by decide), rfl⟩
  · have hcut : Statement.cut "lda nn,q".toList = ⟨"lda".toList, "nn,q".toList⟩ := by
      decide +kernel
    have hform : ∀ mode, ¬ Operand.Denotes "nn,q".toList mode :=
      Operand.mode?_eq_none_iff.mp (by decide +kernel)
    rcases ofText_accepts_grammar "lda nn,q" with ⟨s, _, honly, _, hrejects, _⟩
    rw [hrejects, ← honly _ (Statement.isCutOf_cut _), hcut]
    exact ⟨⟨.lda, by decide +kernel⟩, by decide, by decide, hform⟩

end Instruction

end CycleTable
