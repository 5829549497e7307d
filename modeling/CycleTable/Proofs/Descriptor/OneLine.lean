import CycleTable.Descriptor
import CycleTable.Proofs.Success
import CycleTable.Proofs.Text.Blank
import CycleTable.Statement

/-!
# Texts on one line

A line that descriptors are read from may itself hold line feeds, and so may the operand that
is read. No text with a line feed in it is an instruction, though, so every text that an entry
can be built from fits on a line.
-/

namespace CycleTable

open Text

theorem Statement.newline_not_mem_operand {text : List Char} {s : Statement}
    (h : Statement.ofText? text = some s) :
    '\n' ∉ trimStart (afterWord (trim text)) := by
  unfold Statement.ofText? at h
  intro hmem
  have hcontains : (trimStart (afterWord (trim text))).contains '\n' = true := by
    simpa using hmem
  simp only [hcontains, Bool.or_true, if_true] at h
  cases h

theorem Instruction.exists_statement_of_ofText {text : String} {i : Instruction}
    (h : Instruction.ofText text = .ok i) : ∃ s, Statement.ofText? text.toList = some s := by
  unfold Instruction.ofText at h
  split at h
  · cases h
  · next s hs => exact ⟨s, hs⟩

theorem not_mem_newline_of_not_blank {text : List Char} (h : ∀ c ∈ text, isBlank c = false) :
    '\n' ∉ text := by
  intro hmem
  have hblank := h '\n' hmem
  rw [isBlank_newline] at hblank
  cases hblank

namespace Descriptor

theorem trimStart_afterWord_text {word behind : List Char} (hne : word ≠ [])
    (hword : ∀ c ∈ word, isBlank c = false) (hoperand : trim behind ≠ []) :
    trimStart (afterWord (trim (word ++ ' ' :: trim behind))) = trim behind := by
  rcases exists_ends_of_trim hoperand with ⟨first, rest, last, htrim, hfirst, hlast, hkept⟩
  rw [htrim]
  have hwhole : trim (word ++ ' ' :: first :: rest) = word ++ ' ' :: first :: rest := by
    cases word with
    | nil => exact absurd rfl hne
    | cons letter more =>
        have hends : (letter :: more ++ ' ' :: first :: rest).getLast? = some last := by
          rw [List.getLast?_append, List.getLast?_cons_cons, hlast]
          rfl
        exact trim_eq_self (hword letter List.mem_cons_self) hends hkept
  have hafter : afterWord (word ++ ' ' :: first :: rest) = ' ' :: first :: rest := by
    have hall : ∀ c ∈ word, (!isBlank c) = true := by
      intro c hc
      rw [hword c hc]
      rfl
    rw [afterWord, List.dropWhile_append_of_pos hall]
    rfl
  have hspace : isBlank ' ' = true := by decide
  rw [hwhole, hafter, trimStart, List.dropWhile_cons_of_pos hspace,
    List.dropWhile_cons_of_neg (by simp [hfirst])]

namespace EntryLine

theorem parts_of_ofText? {line : List Char} {entry : EntryLine}
    (h : EntryLine.ofText? line = some entry) :
    entry.word ≠ [] ∧ (∀ c ∈ entry.word, isBlank c = false) ∧
      ∃ behind, entry.operand = trim behind := by
  have hparts : ∀ body : List Char, (trimStart body).isEmpty = false →
      Text.word (trimStart body) ≠ [] := by
    intro body hbody
    cases hstatement : trimStart body with
    | nil =>
        rw [hstatement] at hbody
        cases hbody
    | cons first rest =>
        have hfirst := isBlank_of_trimStart_eq_cons hstatement
        simp [Text.word, hfirst]
  unfold EntryLine.ofText? at h
  simp only at h
  split at h
  · cases h
  · next hshape =>
      cases h
      simp only [Bool.or_eq_true, not_or, Bool.not_eq_true] at hshape
      exact ⟨hparts _ hshape.1.1.2, fun c hc => isBlank_eq_false_of_mem_word hc, _, rfl⟩

theorem newline_not_mem_text {line : List Char} {entry : EntryLine} {i : Instruction}
    (h : EntryLine.ofText? line = some entry) (hok : Instruction.ofText entry.text = .ok i) :
    '\n' ∉ entry.text.toList := by
  rcases parts_of_ofText? h with ⟨hne, hword, behind, hoperand⟩
  have hnewline := not_mem_newline_of_not_blank hword
  rcases Instruction.exists_statement_of_ofText hok with ⟨s, hs⟩
  by_cases hempty : trim behind = []
  · have htext : entry.text.toList = entry.word := by
      simp [text, hoperand, hempty]
    rw [htext]
    exact hnewline
  · have htext : entry.text.toList = entry.word ++ ' ' :: trim behind := by
      simp [text, hoperand, hempty]
    rw [htext] at hs ⊢
    have hrest := Statement.newline_not_mem_operand hs
    rw [trimStart_afterWord_text hne hword hempty] at hrest
    rw [List.mem_append, List.mem_cons, not_or, not_or]
    exact ⟨hnewline, by decide, hrest⟩

end EntryLine

theorem exists_entryLine_of_mem {lines : List (List Char)} {number : Nat}
    {list : List Descriptor} (h : readLines number lines = .ok list) {d : Descriptor}
    (hd : d ∈ list) :
    ∃ line entry, EntryLine.ofText? line = some entry ∧ d.text = entry.text := by
  induction lines generalizing number list with
  | nil =>
      cases h
      cases hd
  | cons line rest ih =>
      simp only [readLines, bind_eq_ok_iff] at h
      rcases h with ⟨head, hhead, tail, htail, hlist⟩
      cases hlist
      rcases List.mem_append.mp hd with hmem | hmem
      · unfold ofLine at hhead
        split at hhead
        · cases hhead
          cases hmem
        · split at hhead
          · cases hhead
          · next entry hentry =>
              split at hhead
              · cases hhead
              · cases hhead
                rw [Option.toList_some, List.mem_singleton] at hmem
                exact ⟨line, entry, hentry, by rw [hmem]⟩
      · exact ih htail hmem

/-- The lists that a table can be asked for: the standard one, and any that reads from lines. -/
def IsLoaded (list : List Descriptor) : Prop :=
  list = standard ∨ ∃ lines, ofLines lines = .ok list

theorem newline_not_mem_standard {d : Descriptor} (h : d ∈ standard) :
    '\n' ∉ d.text.toList := by
  have hall : (standard.all fun d => !d.text.toList.contains '\n') = true := by decide +kernel
  simpa using List.all_eq_true.mp hall d h

theorem newline_not_mem_of_isLoaded {list : List Descriptor} (h : IsLoaded list)
    {d : Descriptor} (hd : d ∈ list) {i : Instruction} (hok : Instruction.ofText d.text = .ok i) :
    '\n' ∉ d.text.toList := by
  rcases h with heq | ⟨lines, hlines⟩
  · rw [heq] at hd
    exact newline_not_mem_standard hd
  · simp only [ofLines, bind_eq_ok_iff] at hlines
    rcases hlines with ⟨read, hread, _, _, hlist⟩
    cases hlist
    rcases exists_entryLine_of_mem hread hd with ⟨line, entry, hentry, htext⟩
    rw [htext] at hok ⊢
    exact EntryLine.newline_not_mem_text hentry hok

end Descriptor

end CycleTable
