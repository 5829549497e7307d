import CycleTable.Proofs.Text.Numeral
import CycleTable.Statement

/-!
# Operands

## The texts of a form

The texts that an operand form stands for, and which mode each of them asks for. Without its
blanks a text has one spelling in small letters, so no text has two of the forms.
-/

namespace CycleTable.Operand

open Text

/-- A form character by character: a space of it stands for any run of blanks, and any other
character for itself in either case. -/
inductive Spells : (form text : List Char) → Prop
  | nil : Spells [] []
  | gap {form blanks text : List Char} (hblanks : ∀ c ∈ blanks, isBlank c = true)
      (hrest : Spells form text) : Spells (' ' :: form) (blanks ++ text)
  | letter {c d : Char} {form text : List Char} (hc : isBlank c = false) (hd : d.toLower = c)
      (hrest : Spells form text) : Spells (c :: form) (d :: text)

variable {form front back text : List Char}

theorem spells_nil_iff : Spells [] text ↔ text = [] := by
  constructor
  · intro h
    cases h
    rfl
  · intro h
    rw [h]
    exact Spells.nil

theorem spells_gap_iff :
    Spells (' ' :: form) text ↔
      ∃ blanks rest, text = blanks ++ rest ∧ (∀ c ∈ blanks, isBlank c = true) ∧
        Spells form rest := by
  constructor
  · intro h
    cases h with
    | gap hblanks hrest => exact ⟨_, _, rfl, hblanks, hrest⟩
    | letter hc => cases hc
  · intro h
    rcases h with ⟨blanks, rest, rfl, hblanks, hrest⟩
    exact Spells.gap hblanks hrest

theorem spells_letter_iff {c : Char} (hc : isBlank c = false) :
    Spells (c :: form) text ↔ ∃ d rest, text = d :: rest ∧ d.toLower = c ∧ Spells form rest := by
  constructor
  · intro h
    cases h with
    | gap => cases hc
    | letter _ hd hrest => exact ⟨_, _, rfl, hd, hrest⟩
  · intro h
    rcases h with ⟨d, rest, rfl, hd, hrest⟩
    exact Spells.letter hc hd hrest

theorem spells_append_iff :
    Spells (front ++ back) text ↔
      ∃ left right, text = left ++ right ∧ Spells front left ∧ Spells back right := by
  constructor
  · intro h
    induction front generalizing text with
    | nil => exact ⟨[], text, rfl, Spells.nil, h⟩
    | cons c front ih =>
        rw [List.cons_append] at h
        cases h with
        | gap hblanks hrest =>
            rcases ih hrest with ⟨left, right, rfl, hleft, hright⟩
            exact ⟨_ ++ left, right, (List.append_assoc _ _ _).symm, Spells.gap hblanks hleft,
              hright⟩
        | letter hc hd hrest =>
            rcases ih hrest with ⟨left, right, rfl, hleft, hright⟩
            exact ⟨_ :: left, right, rfl, Spells.letter hc hd hleft, hright⟩
  · intro h
    rcases h with ⟨left, right, rfl, hleft, hright⟩
    induction hleft with
    | nil => exact hright
    | gap hblanks _ ih =>
        rw [List.append_assoc]
        exact Spells.gap hblanks ih
    | letter hc hd _ ih => exact Spells.letter hc hd ih

theorem Spells.trimStart (h : Spells form text) : Spells form (Text.trimStart text) := by
  induction h with
  | nil => exact Spells.nil
  | @gap form blanks text hblanks _ ih =>
      rw [Text.trimStart, List.dropWhile_append_of_pos hblanks]
      exact @Spells.gap _ [] _ (List.forall_mem_nil _) ih
  | @letter c d form text hc hd hrest _ =>
      have hblank : isBlank d = false := by rw [← isBlank_toLower, hd, hc]
      rw [trimStart_of_head hblank]
      exact Spells.letter hc hd hrest

/-- The spaces of a form are its only blanks. -/
def IsForm (form : List Char) : Prop :=
  ∀ c ∈ form, c = ' ' ∨ isBlank c = false

instance (form : List Char) : Decidable (IsForm form) :=
  List.decidableBAll _ form

theorem fits_gap : fits (' ' :: form) text = fits form (Text.trimStart text) := by
  simp [fits]

theorem fits_letter_eq_true_iff {c : Char} (hc : c ≠ ' ') :
    fits (c :: form) text = true ↔
      ∃ d rest, text = d :: rest ∧ d.toLower = c ∧ fits form rest = true := by
  cases text with
  | nil => simp [fits, hc]
  | cons d rest =>
      simp only [fits, if_neg hc, Bool.and_eq_true, beq_iff_eq]
      constructor
      · intro h
        exact ⟨d, rest, rfl, h⟩
      · intro h
        rcases h with ⟨_, _, ⟨⟩, h⟩
        exact h

/-- Taking all the blanks for a space, as a match does, misses no text that has the form. -/
theorem fits_eq_true_iff (hform : IsForm form) : fits form text = true ↔ Spells form text := by
  induction form generalizing text with
  | nil => rw [fits, List.isEmpty_iff, spells_nil_iff]
  | cons c form ih =>
      have hrest : ∀ {text : List Char}, fits form text = true ↔ Spells form text :=
        ih fun d hd => hform d (List.mem_cons_of_mem c hd)
      by_cases hspace : c = ' '
      · rw [hspace, fits_gap, hrest, spells_gap_iff]
        constructor
        · intro h
          exact ⟨text.takeWhile isBlank, Text.trimStart text,
            List.takeWhile_append_dropWhile.symm,
            fun d hd => List.all_eq_true.mp List.all_takeWhile d hd, h⟩
        · intro h
          rcases h with ⟨blanks, rest, rfl, hblanks, hspells⟩
          rw [Text.trimStart, List.dropWhile_append_of_pos hblanks]
          exact hspells.trimStart
      · have hc : isBlank c = false := (hform c List.mem_cons_self).resolve_left hspace
        simp only [spells_letter_iff hc, fits_letter_eq_true_iff hspace, hrest]

/-- A text without its blanks, in small letters. -/
def bare (text : List Char) : List Char :=
  (text.filter fun c => !isBlank c).map Char.toLower

theorem Spells.bare_eq (h : Spells form text) : bare text = form.filter fun c => !isBlank c := by
  induction h with
  | nil => rfl
  | @gap form blanks text hblanks _ ih =>
      have hnone : blanks.filter (fun c => !isBlank c) = [] := by
        rw [List.filter_eq_nil_iff]
        intro c hc
        simp [hblanks c hc]
      have hspace : isBlank ' ' = true := by decide
      rw [bare, List.filter_append, hnone, List.nil_append,
        List.filter_cons_of_neg (by simp [hspace])]
      exact ih
  | @letter c d form text hc hd _ ih =>
      have hblank : isBlank d = false := by rw [← isBlank_toLower, hd, hc]
      rw [bare, List.filter_cons_of_pos (by simp [hblank]), List.map_cons, hd,
        List.filter_cons_of_pos (by simp [hc])]
      exact congrArg (c :: ·) ih

theorem isForm_of_mem_forms {entry : List Char × Mode} (h : entry ∈ forms) : IsForm entry.1 := by
  have hall : ∀ entry ∈ forms, IsForm entry.1 := by decide
  exact hall entry h

theorem eq_of_fits {entry other : List Char × Mode} (hentry : entry ∈ forms)
    (hother : other ∈ forms) (hfits : fits entry.1 text = true)
    (hfits' : fits other.1 text = true) : entry = other := by
  have hdistinct : ∀ entry ∈ forms, ∀ other ∈ forms,
      entry.1.filter (fun c => !isBlank c) = other.1.filter (fun c => !isBlank c) →
        entry = other := by decide
  have hbare := ((fits_eq_true_iff (isForm_of_mem_forms hentry)).mp hfits).bare_eq
  have hbare' := ((fits_eq_true_iff (isForm_of_mem_forms hother)).mp hfits').bare_eq
  exact hdistinct entry hentry other hother (hbare.symm.trans hbare')

theorem modeIn?_eq_some_iff {order : List (List Char × Mode)} {mode : Mode}
    (horder : order.Perm forms) :
    modeIn? order text = some mode ↔ ∃ form, (form, mode) ∈ forms ∧ Spells form text := by
  simp only [modeIn?, Option.map_eq_some_iff]
  constructor
  · intro h
    obtain ⟨⟨form, found⟩, hfind, rfl⟩ := h
    have hmem := horder.mem_iff.mp (List.mem_of_find?_eq_some hfind)
    have hfits := List.find?_some hfind
    exact ⟨form, hmem, (fits_eq_true_iff (isForm_of_mem_forms hmem)).mp hfits⟩
  · intro h
    obtain ⟨form, hmem, hspells⟩ := h
    have hfits := (fits_eq_true_iff (isForm_of_mem_forms hmem)).mpr hspells
    cases hfind : order.find? fun form => fits form.1 text with
    | none =>
        have hmiss := List.find?_eq_none.mp hfind (form, mode) (horder.mem_iff.mpr hmem)
        exact absurd hfits hmiss
    | some found =>
        have hfound := List.find?_some hfind
        have hmem' := horder.mem_iff.mp (List.mem_of_find?_eq_some hfind)
        have hsame := eq_of_fits hmem' hmem hfound hfits
        exact ⟨found, rfl, congrArg Prod.snd hsame⟩

theorem mode?_eq_some_iff_exists_form {mode : Mode} :
    mode? text = some mode ↔ ∃ form, (form, mode) ∈ forms ∧ Spells form text :=
  modeIn?_eq_some_iff (List.Perm.refl forms)

/-!
## The order of the forms

Forms are tried one after the other, and the first that a text has tells its mode. Since no text
has two of them, nothing depends on which of them is tried first.
-/

variable {order : List (List Char × Mode)}

theorem pairwise_forms (text : List Char) :
    forms.Pairwise fun form other => ¬ (Spells form.1 text ∧ Spells other.1 text) := by
  have hnodup : forms.Nodup := by decide
  refine hnodup.imp_of_mem ?_
  intro form other hform hother hne hboth
  have hfits := (fits_eq_true_iff (isForm_of_mem_forms hform)).mpr hboth.1
  have hfits' := (fits_eq_true_iff (isForm_of_mem_forms hother)).mpr hboth.2
  exact hne (eq_of_fits hform hother hfits hfits')

theorem modeIn?_eq_of_perm (horder : order.Perm forms) (text : List Char) :
    modeIn? order text = mode? text := by
  apply Option.ext
  intro mode
  rw [modeIn?_eq_some_iff horder, mode?_eq_some_iff_exists_form]

/--
A text has at most one of the ten forms, and those that it has are the ones that it fits. The mode
that is found for the text, or that none is found, is therefore the same for the forms in any order.
-/
theorem forms_unambiguous (text : List Char) :
    forms.length = 10 ∧
      (∀ form ∈ forms, fits form.1 text = true ↔ Spells form.1 text) ∧
      (forms.Pairwise fun form other => ¬ (Spells form.1 text ∧ Spells other.1 text)) ∧
      ∀ order : List (List Char × Mode), order.Perm forms → modeIn? order text = mode? text := by
  refine ⟨rfl, ?_, pairwise_forms text, ?_⟩
  · intro form hform
    exact fits_eq_true_iff (isForm_of_mem_forms hform)
  · intro order horder
    exact modeIn?_eq_of_perm horder text

/-- The last form comes first, and the one that the text has after both that it resembles. -/
theorem forms_unambiguous_reversed :
    forms.reverse.Perm forms ∧
      modeIn? forms.reverse "( Nn\t,X )".toList = some .indexedIndirectX := by
  have horder := List.reverse_perm forms
  refine ⟨horder, ?_⟩
  rw [(forms_unambiguous _).2.2.2 _ horder]
  decide

end CycleTable.Operand

/-!
## The grammar

Ten kinds of operand, each written out with the blanks and the cases that it allows. The mode of
an operand is the one whose kind it is of, and no other text has a mode.
-/

namespace CycleTable.Operand

open Text

/-- An address or a value of so many digits, where every digit is written as the letter `n`. -/
def IsValue (digits : Nat) (text : List Char) : Prop :=
  text.length = digits ∧ ∀ c ∈ text, c = 'n' ∨ c = 'N'

def letter : IndexRegister → Char
  | .x => 'x'
  | .y => 'y'

def Names : IndexRegister → Char → Prop
  | .x, c => c = 'x' ∨ c = 'X'
  | .y, c => c = 'y' ∨ c = 'Y'

/-- A comma and a register, with blanks around the comma. -/
inductive IsIndex (index : IndexRegister) : List Char → Prop
  | comma {before behind : List Char} {c : Char} (hbefore : ∀ c ∈ before, isBlank c = true)
      (hbehind : ∀ c ∈ behind, isBlank c = true) (hc : Names index c) :
      IsIndex index (before ++ ',' :: (behind ++ [c]))

/-- The mode that an operand asks for: blanks may stand behind the hash, around the comma and
inside the parentheses. -/
inductive Denotes : List Char → Mode → Prop
  | immediate {blanks value : List Char} (hblanks : ∀ c ∈ blanks, isBlank c = true)
      (hvalue : IsValue 2 value) : Denotes ('#' :: (blanks ++ value)) .immediate
  | zeroPage {value : List Char} (hvalue : IsValue 2 value) : Denotes value .zeroPage
  | zeroPageIndexedX {value index : List Char} (hvalue : IsValue 2 value)
      (hindex : IsIndex .x index) : Denotes (value ++ index) .zeroPageIndexedX
  | zeroPageIndexedY {value index : List Char} (hvalue : IsValue 2 value)
      (hindex : IsIndex .y index) : Denotes (value ++ index) .zeroPageIndexedY
  | absolute {value : List Char} (hvalue : IsValue 4 value) : Denotes value .absolute
  | absoluteIndexedX {value index : List Char} (hvalue : IsValue 4 value)
      (hindex : IsIndex .x index) : Denotes (value ++ index) .absoluteIndexedX
  | absoluteIndexedY {value index : List Char} (hvalue : IsValue 4 value)
      (hindex : IsIndex .y index) : Denotes (value ++ index) .absoluteIndexedY
  | indirectIndexedY {before value behind index : List Char}
      (hbefore : ∀ c ∈ before, isBlank c = true) (hvalue : IsValue 2 value)
      (hbehind : ∀ c ∈ behind, isBlank c = true) (hindex : IsIndex .y index) :
      Denotes ('(' :: (before ++ (value ++ (behind ++ ')' :: index)))) .indirectIndexedY
  | indexedIndirectX {before value index behind : List Char}
      (hbefore : ∀ c ∈ before, isBlank c = true) (hvalue : IsValue 2 value)
      (hindex : IsIndex .x index) (hbehind : ∀ c ∈ behind, isBlank c = true) :
      Denotes ('(' :: (before ++ (value ++ (index ++ (behind ++ [')']))))) .indexedIndirectX
  | indirectAbsolute {before value behind : List Char}
      (hbefore : ∀ c ∈ before, isBlank c = true) (hvalue : IsValue 4 value)
      (hbehind : ∀ c ∈ behind, isBlank c = true) :
      Denotes ('(' :: (before ++ (value ++ (behind ++ [')'])))) .indirectAbsolute

variable {form text : List Char}

theorem toLower_eq_mark_iff {c mark : Char} (hmark : mark.toNat < 65) :
    c.toLower = mark ↔ c = mark := by
  rw [← Char.toNat_inj, ← Char.toNat_inj, toNat_toLower]
  split <;> omega

theorem toLower_eq_letter_iff {c small capital : Char} (hsmall : 97 ≤ small.toNat)
    (hlast : small.toNat ≤ 122) (hcapital : capital.toNat + 32 = small.toNat) :
    c.toLower = small ↔ c = small ∨ c = capital := by
  rw [← Char.toNat_inj, ← Char.toNat_inj, ← Char.toNat_inj, toNat_toLower]
  split <;> omega

theorem spells_mark_iff (mark : Char) (hmark : mark.toNat < 65) (hblank : isBlank mark = false) :
    Spells (mark :: form) text ↔ ∃ rest, text = mark :: rest ∧ Spells form rest := by
  simp only [spells_letter_iff hblank, toLower_eq_mark_iff hmark]
  constructor
  · intro h
    rcases h with ⟨_, rest, htext, rfl, hrest⟩
    exact ⟨rest, htext, hrest⟩
  · intro h
    rcases h with ⟨rest, htext, hrest⟩
    exact ⟨mark, rest, htext, rfl, hrest⟩

theorem spells_value_iff {digits : Nat} :
    Spells (List.replicate digits 'n') text ↔ IsValue digits text := by
  have hn : isBlank 'n' = false := by decide
  have hletter : ∀ c : Char, c.toLower = 'n' ↔ c = 'n' ∨ c = 'N' :=
    fun c => toLower_eq_letter_iff (by decide) (by decide) (by decide)
  unfold IsValue
  induction digits generalizing text with
  | zero =>
      rw [List.replicate_zero, spells_nil_iff, List.length_eq_zero_iff]
      constructor
      · intro h
        rw [h]
        exact ⟨rfl, List.forall_mem_nil _⟩
      · exact And.left
  | succ digits ih =>
      simp only [List.replicate_succ, spells_letter_iff hn, hletter, ih]
      constructor
      · intro h
        rcases h with ⟨d, rest, rfl, hd, hlength, hrest⟩
        exact ⟨congrArg (· + 1) hlength, List.forall_mem_cons.mpr ⟨hd, hrest⟩⟩
      · intro h
        rcases h with ⟨hlength, hall⟩
        rcases List.exists_cons_of_length_eq_add_one hlength with ⟨d, rest, rfl⟩
        rw [List.forall_mem_cons] at hall
        exact ⟨d, rest, rfl, hall.1, Nat.succ.inj hlength, hall.2⟩

theorem toLower_eq_letter_iff_names {index : IndexRegister} {c : Char} :
    c.toLower = letter index ↔ Names index c := by
  cases index with
  | x => exact toLower_eq_letter_iff (by decide) (by decide) (by decide)
  | y => exact toLower_eq_letter_iff (by decide) (by decide) (by decide)

theorem isBlank_letter (index : IndexRegister) : isBlank (letter index) = false := by
  cases index with
  | x => decide
  | y => decide

theorem spells_register_iff (index : IndexRegister) :
    Spells [letter index] text ↔ ∃ c, text = [c] ∧ Names index c := by
  simp only [spells_letter_iff (isBlank_letter index), toLower_eq_letter_iff_names, spells_nil_iff]
  constructor
  · intro h
    rcases h with ⟨c, _, htext, hc, rfl⟩
    exact ⟨c, htext, hc⟩
  · intro h
    rcases h with ⟨c, htext, hc⟩
    exact ⟨c, [], htext, hc, rfl⟩

theorem spells_index_iff (index : IndexRegister) :
    Spells [' ', ',', ' ', letter index] text ↔ IsIndex index text := by
  simp only [spells_gap_iff, spells_mark_iff ',' (by decide) (by decide),
    spells_register_iff]
  constructor
  · intro h
    rcases h with ⟨before, _, rfl, hbefore, _, rfl, behind, _, rfl, hbehind, c, rfl, hc⟩
    exact IsIndex.comma hbefore hbehind hc
  · intro h
    cases h with
    | comma hbefore hbehind hc =>
        exact ⟨_, _, rfl, hbefore, _, rfl, _, _, rfl, hbehind, _, rfl, hc⟩

theorem spells_indexed_iff (digits : Nat) (index : IndexRegister) :
    Spells (List.replicate digits 'n' ++ [' ', ',', ' ', letter index]) text ↔
      ∃ value rest, text = value ++ rest ∧ IsValue digits value ∧ IsIndex index rest := by
  simp only [spells_append_iff, spells_value_iff, spells_index_iff]

theorem spells_parenthesized_iff :
    Spells ('(' :: ' ' :: form) text ↔
      ∃ before rest, text = '(' :: (before ++ rest) ∧ (∀ c ∈ before, isBlank c = true) ∧
        Spells form rest := by
  simp only [spells_mark_iff '(' (by decide) (by decide), spells_gap_iff]
  constructor
  · intro h
    rcases h with ⟨_, rfl, before, rest, rfl, hbefore, hrest⟩
    exact ⟨before, rest, rfl, hbefore, hrest⟩
  · intro h
    rcases h with ⟨before, rest, rfl, hbefore, hrest⟩
    exact ⟨_, rfl, before, rest, rfl, hbefore, hrest⟩

theorem spells_close_iff :
    Spells (' ' :: ')' :: form) text ↔
      ∃ behind rest, text = behind ++ ')' :: rest ∧ (∀ c ∈ behind, isBlank c = true) ∧
        Spells form rest := by
  simp only [spells_mark_iff ')' (by decide) (by decide), spells_gap_iff]
  constructor
  · intro h
    rcases h with ⟨behind, _, rfl, hbehind, rest, rfl, hrest⟩
    exact ⟨behind, rest, rfl, hbehind, hrest⟩
  · intro h
    rcases h with ⟨behind, rest, rfl, hbehind, hrest⟩
    exact ⟨behind, _, rfl, hbehind, rest, rfl, hrest⟩

theorem forms_eq :
    forms =
      [('#' :: ' ' :: List.replicate 2 'n', .immediate),
        (List.replicate 2 'n', .zeroPage),
        (List.replicate 2 'n' ++ [' ', ',', ' ', letter .x], .zeroPageIndexedX),
        (List.replicate 2 'n' ++ [' ', ',', ' ', letter .y], .zeroPageIndexedY),
        (List.replicate 4 'n', .absolute),
        (List.replicate 4 'n' ++ [' ', ',', ' ', letter .x], .absoluteIndexedX),
        (List.replicate 4 'n' ++ [' ', ',', ' ', letter .y], .absoluteIndexedY),
        ('(' :: ' ' :: (List.replicate 2 'n' ++ ' ' :: ')' :: [' ', ',', ' ', letter .y]),
          .indirectIndexedY),
        ('(' :: ' ' :: ((List.replicate 2 'n' ++ [' ', ',', ' ', letter .x]) ++ [' ', ')']),
          .indexedIndirectX),
        ('(' :: ' ' :: (List.replicate 4 'n' ++ [' ', ')']), .indirectAbsolute)] := by
  rfl

theorem spells_iff_denotes {mode : Mode} (hform : (form, mode) ∈ forms) :
    Spells form text ↔ Denotes text mode := by
  -- One case for each form, in the order of the list: its parts are those of the constructor.
  simp only [forms_eq, List.mem_cons, Prod.mk.injEq, List.not_mem_nil, or_false] at hform
  rcases hform with ⟨rfl, rfl⟩ | ⟨rfl, rfl⟩ | ⟨rfl, rfl⟩ | ⟨rfl, rfl⟩ | ⟨rfl, rfl⟩ | ⟨rfl, rfl⟩ |
    ⟨rfl, rfl⟩ | ⟨rfl, rfl⟩ | ⟨rfl, rfl⟩ | ⟨rfl, rfl⟩
  · simp only [spells_mark_iff '#' (by decide) (by decide), spells_gap_iff,
      spells_value_iff]
    constructor
    · intro h
      rcases h with ⟨_, rfl, _, _, rfl, hblanks, hvalue⟩
      exact Denotes.immediate hblanks hvalue
    · intro h
      cases h with
      | immediate hblanks hvalue => exact ⟨_, rfl, _, _, rfl, hblanks, hvalue⟩
  · rw [spells_value_iff]
    constructor
    · exact Denotes.zeroPage
    · intro h
      cases h with
      | zeroPage hvalue => exact hvalue
  · rw [spells_indexed_iff]
    constructor
    · intro h
      rcases h with ⟨_, _, rfl, hvalue, hindex⟩
      exact Denotes.zeroPageIndexedX hvalue hindex
    · intro h
      cases h with
      | zeroPageIndexedX hvalue hindex => exact ⟨_, _, rfl, hvalue, hindex⟩
  · rw [spells_indexed_iff]
    constructor
    · intro h
      rcases h with ⟨_, _, rfl, hvalue, hindex⟩
      exact Denotes.zeroPageIndexedY hvalue hindex
    · intro h
      cases h with
      | zeroPageIndexedY hvalue hindex => exact ⟨_, _, rfl, hvalue, hindex⟩
  · rw [spells_value_iff]
    constructor
    · exact Denotes.absolute
    · intro h
      cases h with
      | absolute hvalue => exact hvalue
  · rw [spells_indexed_iff]
    constructor
    · intro h
      rcases h with ⟨_, _, rfl, hvalue, hindex⟩
      exact Denotes.absoluteIndexedX hvalue hindex
    · intro h
      cases h with
      | absoluteIndexedX hvalue hindex => exact ⟨_, _, rfl, hvalue, hindex⟩
  · rw [spells_indexed_iff]
    constructor
    · intro h
      rcases h with ⟨_, _, rfl, hvalue, hindex⟩
      exact Denotes.absoluteIndexedY hvalue hindex
    · intro h
      cases h with
      | absoluteIndexedY hvalue hindex => exact ⟨_, _, rfl, hvalue, hindex⟩
  · simp only [spells_parenthesized_iff, spells_append_iff, spells_value_iff, spells_close_iff,
      spells_index_iff]
    constructor
    · intro h
      rcases h with ⟨_, _, rfl, hbefore, _, _, rfl, hvalue, _, _, rfl, hbehind, hindex⟩
      exact Denotes.indirectIndexedY hbefore hvalue hbehind hindex
    · intro h
      cases h with
      | indirectIndexedY hbefore hvalue hbehind hindex =>
          exact ⟨_, _, rfl, hbefore, _, _, rfl, hvalue, _, _, rfl, hbehind, hindex⟩
  · simp only [spells_parenthesized_iff, List.append_assoc, spells_append_iff, spells_value_iff,
      spells_index_iff, spells_close_iff, spells_nil_iff]
    constructor
    · intro h
      rcases h with
        ⟨_, _, rfl, hbefore, _, _, rfl, hvalue, _, _, rfl, hindex, _, _, rfl, hbehind, rfl⟩
      exact Denotes.indexedIndirectX hbefore hvalue hindex hbehind
    · intro h
      cases h with
      | indexedIndirectX hbefore hvalue hindex hbehind =>
          exact ⟨_, _, rfl, hbefore, _, _, rfl, hvalue, _, _, rfl, hindex, _, _, rfl, hbehind, rfl⟩
  · simp only [spells_parenthesized_iff, spells_append_iff, spells_value_iff, spells_close_iff,
      spells_nil_iff]
    constructor
    · intro h
      rcases h with ⟨_, _, rfl, hbefore, _, _, rfl, hvalue, _, _, rfl, hbehind, rfl⟩
      exact Denotes.indirectAbsolute hbefore hvalue hbehind
    · intro h
      cases h with
      | indirectAbsolute hbefore hvalue hbehind =>
          exact ⟨_, _, rfl, hbefore, _, _, rfl, hvalue, _, _, rfl, hbehind, rfl⟩

theorem mode?_eq_some_iff {mode : Mode} : mode? text = some mode ↔ Denotes text mode := by
  rw [mode?_eq_some_iff_exists_form]
  constructor
  · intro h
    rcases h with ⟨form, hform, hspells⟩
    exact (spells_iff_denotes hform).mp hspells
  · intro h
    have hform : ∃ form, (form, mode) ∈ forms := by
      cases h <;> simp [forms]
    rcases hform with ⟨form, hform⟩
    exact ⟨form, hform, (spells_iff_denotes hform).mpr h⟩

theorem mode?_eq_none_iff : mode? text = none ↔ ∀ mode, ¬ Denotes text mode := by
  simp only [← mode?_eq_some_iff]
  exact Option.eq_none_iff_forall_ne_some

end CycleTable.Operand
