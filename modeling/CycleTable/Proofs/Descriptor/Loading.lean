import CycleTable.Descriptor
import CycleTable.Proofs.Descriptor.Spelling
import CycleTable.Proofs.Table.Entries
import CycleTable.Proofs.Text.Lines

/-!
# Descriptor files in any notation

A file whose lines spell a complete list, with any lines between them that hold no entry and with
either end of line, is loaded as that list.
-/

namespace CycleTable.Descriptor

open Text

/-- Lines that hold an entry for each descriptor of a list, in order, and no other entries. -/
inductive Spelled : List Descriptor → List (List Char) → Prop
  | nil : Spelled [] []
  | entry {d : Descriptor} {list : List Descriptor} {line : List Char} {lines : List (List Char)}
      (hentry : SpellsEntry d line) (hrest : Spelled list lines) :
      Spelled (d :: list) (line :: lines)
  | skipped {list : List Descriptor} {line : List Char} {lines : List (List Char)}
      (hline : IsEnding line) (hrest : Spelled list lines) : Spelled list (line :: lines)

/-- A text whose lines end in a line feed, with or without a carriage return before it. The last
line may have no end. -/
inductive IsFile : List (List Char) → List Char → Prop
  | empty : IsFile [] []
  | unended (line : List Char) : IsFile [line] line
  | lineFeed {lines : List (List Char)} {text : List Char} (line : List Char)
      (hrest : IsFile lines text) : IsFile (line :: lines) (line ++ '\n' :: text)
  | carriageReturn {lines : List (List Char)} {text : List Char} (line : List Char)
      (hrest : IsFile lines text) : IsFile (line :: lines) (line ++ '\r' :: '\n' :: text)

variable {list : List Descriptor} {line text : List Char} {lines : List (List Char)}

namespace Spelled

theorem newline_not_mem (h : Spelled list (line :: lines)) : '\n' ∉ line := by
  cases h with
  | entry hentry hrest => exact hentry.newline_not_mem
  | skipped hline hrest => exact hline.newline_not_mem

theorem dropReturn_head (h : Spelled list (line :: lines)) :
    Spelled list (dropReturn line :: lines) := by
  cases h with
  | entry hentry hrest => exact entry hentry.dropReturn hrest
  | skipped hline hrest => exact skipped hline.dropReturn hrest

theorem replace_tail (h : Spelled list (line :: lines)) {others : List (List Char)}
    (hothers : ∀ {rest : List Descriptor}, Spelled rest lines → Spelled rest others) :
    Spelled list (line :: others) := by
  cases h with
  | entry hentry hrest => exact entry hentry (hothers hrest)
  | skipped hline hrest => exact skipped hline (hothers hrest)

theorem fileLines (h : Spelled list lines) (htext : IsFile lines text) :
    Spelled list (fileLines (String.ofList text)) := by
  induction htext generalizing list with
  | empty => exact h
  | unended line =>
      rw [fileLines_of_newline_not_mem h.newline_not_mem]
      by_cases hempty : line = []
      · cases h with
        | entry hentry => exact absurd hempty hentry.ne_nil
        | skipped _ hrest =>
            rw [if_pos hempty]
            exact hrest
      · rw [if_neg hempty]
        exact h
  | lineFeed line htext ih =>
      rw [fileLines_append h.newline_not_mem]
      exact h.dropReturn_head.replace_tail ih
  | carriageReturn line htext ih =>
      have hfree : '\n' ∉ line ++ ['\r'] := by
        rw [List.mem_append, not_or]
        exact ⟨h.newline_not_mem, by decide⟩
      rw [List.append_cons, fileLines_append hfree, dropReturn_concat]
      exact h.replace_tail ih

theorem readLines_eq (h : Spelled list lines) (hids : ∀ d ∈ list, d.id < 0x10000)
    (lineNumber : Nat) : readLines lineNumber lines = .ok list := by
  induction h generalizing lineNumber with
  | nil => rfl
  | entry hentry hrest ih =>
      have htail := ih (fun d hd => hids d (List.mem_cons_of_mem _ hd)) (lineNumber + 1)
      rw [readLines, hentry.ofLine_eq (hids _ List.mem_cons_self), htail]
      rfl
  | skipped hline hrest ih =>
      rw [readLines, ofLine, hline.isSkipped_eq, if_pos rfl, ih hids]
      rfl

theorem ofLines_eq (h : Spelled list lines) (hcomplete : IsComplete list) :
    ofLines lines = .ok list := by
  have hids : ∀ d ∈ list, d.id < 0x10000 := by
    intro d hd
    have hid : d.id ∈ List.range entryCount := by
      rw [← show list.map Descriptor.id = List.range entryCount from hcomplete]
      exact List.mem_map_of_mem hd
    have hlast : entryCount ≤ 0x10000 := by decide
    exact Nat.lt_of_lt_of_le (List.mem_range.mp hid) hlast
  exact ofLines_eq_ok_iff.mpr
    ⟨h.readLines_eq hids 1, isComplete_iff_validate_eq_ok.mp hcomplete⟩

end Spelled

theorem isFile_flatMap (lines : List (List Char)) :
    IsFile lines (lines.flatMap (· ++ ['\r', '\n'])) := by
  induction lines with
  | nil => exact IsFile.empty
  | cons line rest ih =>
      rw [List.flatMap_cons, List.append_assoc]
      exact IsFile.carriageReturn line ih

/--
A file that spells a complete list loads as that list, in whatever notation each of its entries is
written and whatever lines without an entry stand between them.
-/
theorem ofFile_of_spelled {list : List Descriptor} {lines : List (List Char)} {text : List Char}
    (hcomplete : IsComplete list) (hlines : Spelled list lines) (htext : IsFile lines text) :
    ofFile (utf8 (String.ofList text)) = .ok list := by
  have hread := (hlines.fileLines htext).ofLines_eq hcomplete
  rw [ofFile, ofUtf8?_utf8]
  exact hread

/-- The ids in two notations, one of them with both marks and a zero in front. -/
def mixedLine (id : Nat) : List Char :=
  ['\t'] ++
    ((if id < 0x100 then ['$'] ++ (('0' :: Nat.toDigits 16 id) ++ ['H'])
      else [] ++ (Nat.toDigits 10 id ++ [])) ++
      (['\u00A0'] ++ (("LDX".toList ++ ([' ', '\t'] ++ "nn , y".toList)) ++ "\t;index".toList)))

theorem spellsEntry_mixedLine {id : Nat} (h : id < entryCount) :
    SpellsEntry ⟨id, "LDX nn , y"⟩ (mixedLine id) := by
  have hlower : ∀ id, id < entryCount →
      (Nat.toDigits 16 id).map Char.toLower = Nat.toDigits 16 id ∧
        (Nat.toDigits 10 id).map Char.toLower = Nat.toDigits 10 id := by
    decide +kernel
  have hid : SpellsId id (if id < 0x100 then ['$'] ++ (('0' :: Nat.toDigits 16 id) ++ ['H'])
      else [] ++ (Nat.toDigits 10 id ++ [])) := by
    split
    · refine SpellsId.marked (by decide) (by decide) ⟨1, ?_⟩
      rw [List.map_cons, (hlower id h).1]
      rfl
    · exact SpellsId.marked (by decide) (by decide) ⟨0, (hlower id h).2⟩
  have htext : SpellsText "LDX nn , y" ("LDX".toList ++ ([' ', '\t'] ++ "nn , y".toList)) :=
    SpellsText.operand (by decide) (by decide) (by decide) (by decide) (by decide)
  have hending : IsEnding (['\t'] ++ ';' :: "index".toList) :=
    IsEnding.comment (by decide) (by decide)
  exact SpellsEntry.entry (by decide) hid (by decide) (by decide) htext hending

theorem spelled_mixedLine {ids : List Nat} (h : ∀ id ∈ ids, id < entryCount) :
    Spelled (ids.map fun id => ⟨id, "LDX nn , y"⟩) (ids.map mixedLine) := by
  induction ids with
  | nil => exact Spelled.nil
  | cons id rest ih =>
      rw [List.forall_mem_cons] at h
      exact Spelled.entry (spellsEntry_mixedLine h.1) (ih h.2)

/-- Lines that end in both characters, behind one that holds a comment and ends in the second. -/
theorem ofFile_mixed :
    ofFile (utf8 (String.ofList ("; ids".toList ++ '\n' ::
      ((List.range entryCount).map mixedLine).flatMap (· ++ ['\r', '\n'])))) =
        .ok ((List.range entryCount).map fun id => ⟨id, "LDX nn , y"⟩) := by
  have hremark : IsEnding ([] ++ ';' :: " ids".toList) :=
    IsEnding.comment (by decide) (by decide)
  exact ofFile_of_spelled (isComplete_map_range fun _ _ => rfl)
    (Spelled.skipped hremark (spelled_mixedLine fun _ => List.mem_range.mp))
    (IsFile.lineFeed _ (isFile_flatMap _))

end CycleTable.Descriptor

/-!
## A file of one instruction

A file that names the same instruction for every id loads, and its list makes a table.
-/

namespace CycleTable

open Text

namespace Descriptor

theorem ofFile_joinLines {lines : List (List Char)} {list : List Descriptor}
    (hplain : ∀ line ∈ lines, '\n' ∉ line ∧ line.getLast? ≠ some '\r')
    (hread : readLines 1 lines = .ok list) (hvalid : validate list = .ok ()) :
    ofFile (utf8 (String.ofList (joinLines '\n' lines))) = .ok list := by
  simp only [ofFile, ofUtf8?_utf8, fileLines_joinLines hplain]
  exact ofLines_eq_ok_iff.mpr ⟨hread, hvalid⟩

def idleLine (id : Nat) : List Char :=
  Nat.toDigits 10 id ++ [' ', 'N', 'O', 'P']

def idleList : List Descriptor :=
  (List.range entryCount).map fun id => ⟨id, "NOP"⟩

def idleFile : Bytes :=
  utf8 (String.ofList (joinLines '\n' ((List.range entryCount).map idleLine)))

theorem ofLine_idleLine {id : Nat} (h : id < entryCount) (lineNumber : Nat) :
    ofLine lineNumber (idleLine id) = .ok (some ⟨id, "NOP"⟩) := by
  have hskipped : ∀ id, id < entryCount → isSkipped (idleLine id) = false := by decide +kernel
  have hentry : ∀ id, id < entryCount → EntryLine.ofText? (idleLine id) =
      some ⟨Nat.toDigits 10 id, false, ['N', 'O', 'P'], []⟩ := by decide +kernel
  have hid : ∀ id, id < entryCount →
      EntryLine.id? ⟨Nat.toDigits 10 id, false, ['N', 'O', 'P'], []⟩ = some id := by
    decide +kernel
  simp only [ofLine, hskipped id h, hentry id h, hid id h, Bool.false_eq_true, if_false]
  rfl

theorem readLines_map {ids : List Nat} {line : Nat → List Char} {entry : Nat → Descriptor}
    (h : ∀ id ∈ ids, ∀ lineNumber, ofLine lineNumber (line id) = .ok (some (entry id)))
    (lineNumber : Nat) : readLines lineNumber (ids.map line) = .ok (ids.map entry) := by
  induction ids generalizing lineNumber with
  | nil => rfl
  | cons id rest ih =>
      rw [List.forall_mem_cons] at h
      rw [List.map_cons, readLines, h.1 lineNumber, ih h.2 (lineNumber + 1)]
      rfl

theorem validate_idleList : validate idleList = .ok () :=
  isComplete_iff_validate_eq_ok.mp (isComplete_map_range fun _ _ => rfl)

theorem ofFile_idleFile : ofFile idleFile = .ok idleList := by
  have hall : ∀ id, id < entryCount →
      '\n' ∉ idleLine id ∧ (idleLine id).getLast? ≠ some '\r' := by decide +kernel
  have hread : ∀ id ∈ List.range entryCount, ∀ lineNumber,
      ofLine lineNumber (idleLine id) = .ok (some ⟨id, "NOP"⟩) :=
    fun id hid => ofLine_idleLine (List.mem_range.mp hid)
  apply ofFile_joinLines _ (readLines_map hread 1) validate_idleList
  intro line hline
  rcases List.mem_map.mp hline with ⟨id, hid, rfl⟩
  exact hall id (List.mem_range.mp hid)

end Descriptor

theorem Table.exists_ofDescriptors_idle :
    ∃ table, ofDescriptors Descriptor.idleList = .ok table := by
  have hinstruction : Instruction.ofText "NOP" = .ok ⟨.nop, .implied⟩ := by rfl
  have hcode : Instruction.microcode ⟨.nop, .implied⟩ = .ok [.ldDummyMemPc] := by rfl
  refine ⟨⟨Descriptor.idleList.map fun d => ⟨d, ⟨.nop, .implied⟩, [.ldDummyMemPc]⟩⟩, ?_⟩
  rw [ofDescriptors_eq_ok_iff, List.map_map]
  refine ⟨Descriptor.validate_idleList, List.map_id' _, ?_⟩
  intro entry hentry
  rcases List.mem_map.mp hentry with ⟨d, hd, rfl⟩
  rcases List.mem_map.mp hd with ⟨id, _, rfl⟩
  exact ⟨hinstruction, hcode⟩

end CycleTable
