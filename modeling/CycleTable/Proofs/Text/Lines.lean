import CycleTable.Text
import Mathlib.Data.List.Chain

/-!
# Texts as lines

A text whose every line ends in a feed, and the line that a place of it lies in.
-/

namespace CycleTable.Text

variable {α : Type}

/-- Each line followed by a feed. -/
def joinLines (feed : α) (lines : List (List α)) : List α :=
  lines.flatMap fun line => line ++ [feed]

@[simp] theorem joinLines_nil (feed : α) : joinLines feed [] = [] := rfl

@[simp] theorem joinLines_cons (feed : α) (line : List α) (rest : List (List α)) :
    joinLines feed (line :: rest) = line ++ feed :: joinLines feed rest := by
  simp [joinLines]

@[simp] theorem joinLines_append (feed : α) (front back : List (List α)) :
    joinLines feed (front ++ back) = joinLines feed front ++ joinLines feed back := by
  simp [joinLines]

theorem map_joinLines {β : Type} (f : α → β) (feed : α) (lines : List (List α)) :
    (joinLines feed lines).map f = joinLines (f feed) (lines.map (List.map f)) := by
  induction lines with
  | nil => rfl
  | cons line rest ih => simp [ih]

/-- What lies before a place of the text, in it and behind it lies in one of the lines, or the
place is the feed that ends the line. -/
theorem joinLines_eq_append_cons {feed old : α} {lines : List (List α)} {front back : List α}
    (h : joinLines feed lines = front ++ old :: back) :
    ∃ before line after, lines = before ++ line :: after ∧
      ((∃ left right, line = left ++ old :: right ∧ front = joinLines feed before ++ left ∧
          back = right ++ feed :: joinLines feed after) ∨
        (old = feed ∧ front = joinLines feed before ++ line ∧
          back = joinLines feed after)) := by
  induction lines generalizing front with
  | nil => simp at h
  | cons line rest ih =>
      rw [joinLines_cons, List.append_eq_append_iff] at h
      rcases h with ⟨more, hfront, hmore⟩ | ⟨right, hline, hright⟩
      · cases more with
        | nil =>
            refine ⟨[], line, rest, rfl, Or.inr ?_⟩
            simp only [List.nil_append, List.cons.injEq] at hmore
            exact ⟨hmore.1.symm, by simpa using hfront, hmore.2.symm⟩
        | cons first more =>
            simp only [List.cons_append, List.cons.injEq] at hmore
            rcases ih hmore.2 with ⟨before, found, after, hlines, hplace⟩
            refine ⟨line :: before, found, after, by rw [hlines, List.cons_append], ?_⟩
            have hjoin : ∀ text, front = joinLines feed (line :: before) ++ text ↔
                more = joinLines feed before ++ text := by
              intro text
              rw [hfront, ← hmore.1, joinLines_cons]
              simp
            simpa only [hjoin] using hplace
      · cases right with
        | nil =>
            simp only [List.nil_append, List.cons.injEq] at hright
            refine ⟨[], line, rest, rfl, Or.inr ⟨hright.1, ?_, hright.2⟩⟩
            simpa using hline.symm
        | cons first right =>
            simp only [List.cons_append, List.cons.injEq] at hright
            refine ⟨[], line, rest, rfl, Or.inl ⟨front, right, ?_, rfl, hright.2⟩⟩
            rw [hline, hright.1]

theorem append_cons_inj {mark : α} {front front' back back' : List α} (hfront : mark ∉ front)
    (hfront' : mark ∉ front') (h : front ++ mark :: back = front' ++ mark :: back') :
    front = front' := by
  induction front generalizing front' with
  | nil =>
      cases front' with
      | nil => rfl
      | cons first more =>
          rw [List.nil_append, List.cons_append, List.cons.injEq] at h
          rw [h.1] at hfront'
          exact absurd List.mem_cons_self hfront'
  | cons first more ih =>
      cases front' with
      | nil =>
          rw [List.nil_append, List.cons_append, List.cons.injEq] at h
          rw [h.1] at hfront
          exact absurd List.mem_cons_self hfront
      | cons first' more' =>
          rw [List.cons_append, List.cons_append, List.cons.injEq] at h
          rw [List.mem_cons, not_or] at hfront hfront'
          rw [h.1, ih hfront.2 hfront'.2 h.2]

section Split

variable [BEq α] [LawfulBEq α] {feed : α} {lines : List (List α)}

theorem splitOn_joinLines_append (h : ∀ line ∈ lines, feed ∉ line) (rest : List α) :
    (joinLines feed lines ++ rest).splitOn feed = lines ++ rest.splitOn feed := by
  induction lines with
  | nil => rfl
  | cons line more ih =>
      rw [joinLines_cons, List.append_assoc, List.cons_append,
        List.splitOn_append_cons_self_of_not_mem (h line List.mem_cons_self),
        ih fun l hl => h l (List.mem_cons_of_mem line hl), List.cons_append]

theorem splitOn_joinLines (h : ∀ line ∈ lines, feed ∉ line) :
    (joinLines feed lines).splitOn feed = lines ++ [[]] := by
  have hsplit := splitOn_joinLines_append h []
  rwa [List.append_nil, List.splitOn_nil] at hsplit

theorem joinLines_inj {others : List (List α)} (h : ∀ line ∈ lines, feed ∉ line)
    (hothers : ∀ line ∈ others, feed ∉ line) :
    joinLines feed lines = joinLines feed others ↔ lines = others := by
  constructor
  · intro heq
    have hsplit := congrArg (List.splitOn feed) heq
    rw [splitOn_joinLines h, splitOn_joinLines hothers] at hsplit
    exact List.append_cancel_right hsplit
  · intro heq
    rw [heq]

end Split

theorem fileLines_joinLines {lines : List (List Char)}
    (h : ∀ line ∈ lines, '\n' ∉ line ∧ line.getLast? ≠ some '\r') :
    fileLines (String.ofList (joinLines '\n' lines)) = lines := by
  have hkept : ∀ line ∈ lines, dropReturn line = line := by
    intro line hline
    rw [dropReturn, if_neg (h line hline).2]
  rw [fileLines, String.toList_ofList, splitOn_joinLines fun line hline => (h line hline).1]
  simp [List.map_congr_left hkept]

theorem mem_of_mem_dropReturn {line : List Char} {c : Char} (h : c ∈ dropReturn line) :
    c ∈ line := by
  unfold dropReturn at h
  split at h
  · exact (List.dropLast_sublist line).subset h
  · exact h

theorem dropReturn_concat (line : List Char) : dropReturn (line ++ ['\r']) = line := by
  simp [dropReturn]

theorem dropReturn_append {front : List Char} (h : front.getLast? ≠ some '\r')
    (back : List Char) : dropReturn (front ++ back) = front ++ dropReturn back := by
  cases back with
  | nil =>
      have hnil : dropReturn [] = [] := rfl
      rw [hnil, List.append_nil, dropReturn, if_neg h]
  | cons c rest =>
      have hlast : (front ++ c :: rest).getLast? = (c :: rest).getLast? := by
        rw [List.getLast?_append, List.getLast?_cons, Option.some_or]
      unfold dropReturn
      rw [hlast, List.dropLast_append_of_ne_nil (List.cons_ne_nil c rest)]
      split
      · rfl
      · rfl

theorem fileLines_of_newline_not_mem {line : List Char} (h : '\n' ∉ line) :
    fileLines (String.ofList line) = if line = [] then [] else [line] := by
  rw [fileLines, String.toList_ofList, List.splitOn_eq_singleton h]
  by_cases hempty : line = []
  · rw [if_pos hempty, hempty]
    rfl
  · rw [if_neg hempty]
    simp [hempty]

theorem fileLines_append {line : List Char} (h : '\n' ∉ line) (text : List Char) :
    fileLines (String.ofList (line ++ '\n' :: text)) =
      dropReturn line :: fileLines (String.ofList text) := by
  have hne : text.splitOn '\n' ≠ [] := List.splitOn_ne_nil _ _
  simp only [fileLines, String.toList_ofList, List.splitOn_append_cons_self_of_not_mem h]
  cases hsplit : text.splitOn '\n' with
  | nil => exact absurd hsplit hne
  | cons piece pieces => simp

def textLines (text : String) : List String :=
  (text.toList.splitOn '\n').map String.ofList

theorem textLines_unlines {lines : List String} (h : ∀ line ∈ lines, '\n' ∉ line.toList) :
    textLines (unlines lines) = lines ++ [""] := by
  have hjoin : (unlines lines).toList = joinLines '\n' (lines.map String.toList) := by
    rw [toList_unlines, joinLines, List.flatMap_map]
  have hfree : ∀ line ∈ lines.map String.toList, '\n' ∉ line := by
    intro line hline
    rcases List.mem_map.mp hline with ⟨text, htext, rfl⟩
    exact h text htext
  rw [textLines, hjoin, splitOn_joinLines hfree, List.map_append, List.map_map]
  have hround : ∀ line ∈ lines, (String.ofList ∘ String.toList) line = line :=
    fun line _ => String.ofList_toList
  rw [List.map_congr_left hround, List.map_id']
  rfl

theorem textLines_unlines_eq_flatMap (lines : List String) :
    textLines (unlines lines) = lines.flatMap textLines ++ [""] := by
  have hsplit : ((unlines lines).toList).splitOn '\n' =
      (lines.flatMap fun line => line.toList.splitOn '\n') ++ [[]] := by
    rw [toList_unlines]
    induction lines with
    | nil => rfl
    | cons line rest ih =>
        rw [List.flatMap_cons, List.append_assoc, List.singleton_append,
          List.splitOn_append_cons_self, ih, List.flatMap_cons, List.append_assoc]
  rw [textLines, hsplit, List.map_append, List.map_flatMap]
  rfl

def begins (start line : String) : Bool :=
  start.toList.isPrefixOf line.toList

theorem begins_append_of_begins {start front : String} (h : begins start front = true)
    (rest : String) : begins start (front ++ rest) = true := by
  unfold begins at h ⊢
  rw [List.isPrefixOf_iff_prefix] at h ⊢
  rw [String.toList_append]
  exact h.trans (List.prefix_append _ _)

theorem begins_append_left_eq_false {start line : String} (h : begins start line = false)
    (more : String) : begins (start ++ more) line = false := by
  cases hbegins : begins (start ++ more) line with
  | false => rfl
  | true =>
      unfold begins at h hbegins
      rw [List.isPrefixOf_iff_prefix, String.toList_append] at hbegins
      have hstart := (List.prefix_append start.toList more.toList).trans hbegins
      rw [List.isPrefixOf_iff_prefix.mpr hstart] at h
      cases h

theorem begins_append_eq_false {start front : String} (h : begins start front = false)
    (h' : begins front start = false) (rest : String) :
    begins start (front ++ rest) = false := by
  cases hbegins : begins start (front ++ rest) with
  | false => rfl
  | true =>
      unfold begins at h h' hbegins
      rw [List.isPrefixOf_iff_prefix, String.toList_append] at hbegins
      rcases List.prefix_or_prefix_of_prefix hbegins (List.prefix_append _ _) with hle | hle
      · rw [List.isPrefixOf_iff_prefix.mpr hle] at h
        cases h
      · rw [List.isPrefixOf_iff_prefix.mpr hle] at h'
        cases h'

end CycleTable.Text

/-!
## Fields of a line

What a reader finds between the spaces of a line: the words of it, or the last place with two spaces
together and what stands on either side.
-/

namespace CycleTable.Text

/-- The parts of a text that lie between spaces. -/
def words (text : List Char) : List (List Char) :=
  (text.splitOn ' ').filter fun word => !word.isEmpty

/-- The text is cut at the last of its places that hold two spaces together. -/
structure IsLastGap (text front back : List Char) : Prop where
  gap : text = front ++ ' ' :: ' ' :: back
  last : ∀ {earlier later : List Char}, text = earlier ++ ' ' :: ' ' :: later →
    earlier.length ≤ front.length

/-- No two spaces stand together. -/
def IsTight (text : List Char) : Prop :=
  text.IsChain fun c d => ¬ (c = ' ' ∧ d = ' ')

/-- A text that is found again among others when a space is put behind it. -/
structure IsField (word : List Char) : Prop where
  nonempty : word ≠ []
  kept : ' ' ∉ word

variable {text front back word : List Char} {fields : List (List Char)}

instance (word : List Char) : Decidable (IsField word) :=
  decidable_of_iff (word ≠ [] ∧ ' ' ∉ word)
    ⟨fun h => ⟨h.1, h.2⟩, fun h => ⟨h.nonempty, h.kept⟩⟩

theorem words_append_space (front back : List Char) :
    words (front ++ ' ' :: back) = words front ++ words back := by
  rw [words, List.splitOn_append_cons_self, List.filter_append]
  rfl

theorem words_space_cons (text : List Char) : words (' ' :: text) = words text :=
  words_append_space [] text

theorem words_spaces_append (count : Nat) (text : List Char) :
    words (List.replicate count ' ' ++ text) = words text := by
  induction count with
  | zero => rfl
  | succ count ih => rw [List.replicate_succ, List.cons_append, words_space_cons, ih]

theorem IsField.words_eq (h : IsField word) : words word = [word] := by
  rw [words, List.splitOn_eq_singleton h.kept]
  simp [h.nonempty]

theorem IsField.words_padLeft (h : IsField word) (width : Nat) :
    words (padLeft width word) = [word] := by
  rw [padLeft_eq, words_spaces_append, h.words_eq]

theorem not_mem_padLeft {c : Char} (hc : c ≠ ' ') (h : c ∉ text) (width : Nat) :
    c ∉ padLeft width text := by
  rw [padLeft_eq, List.mem_append, not_or]
  exact ⟨fun hmem => hc (List.eq_of_mem_replicate hmem), h⟩

theorem not_mem_padRight {c : Char} (hc : c ≠ ' ') (h : c ∉ text) (width : Nat) :
    c ∉ padRight width text := by
  rw [padRight_eq, List.mem_append, not_or]
  exact ⟨h, fun hmem => hc (List.eq_of_mem_replicate hmem)⟩

theorem toList_toString (number : Nat) : (toString number).toList = Nat.toDigits 10 number :=
  Nat.toList_repr

theorem not_mem_toString {c : Char} (hc : c.isDigit = false) (number : Nat) :
    c ∉ (toString number).toList := by
  rw [toList_toString]
  intro hmem
  have hdigit := Nat.isDigit_of_mem_toDigits (by decide) (by decide) hmem
  rw [hc] at hdigit
  cases hdigit

theorem isField_toString (number : Nat) : IsField (toString number).toList where
  nonempty := by
    rw [toList_toString]
    exact Nat.toDigits_ne_nil
  kept := not_mem_toString rfl number

theorem space_cons_intercalate (hne : fields ≠ []) :
    ' ' :: [' '].intercalate fields = fields.flatMap fun word => ' ' :: word := by
  induction fields with
  | nil => exact absurd rfl hne
  | cons word rest ih =>
      cases rest with
      | nil => simp
      | cons next rest =>
          rw [List.intercalate_cons_cons, List.append_assoc, List.singleton_append,
            ih (List.cons_ne_nil next rest)]
          rfl

theorem space_cons_padLeft (width : Nat) (text : List Char) :
    ' ' :: padLeft width text = List.replicate (width - text.length) ' ' ++ ' ' :: text := by
  rw [padLeft_eq, ← List.cons_append, ← List.replicate_succ, List.replicate_succ',
    List.append_assoc, List.singleton_append]

theorem isTight_of_not_mem (h : ' ' ∉ text) : IsTight text := by
  induction text with
  | nil => exact List.IsChain.nil
  | cons c rest ih =>
      rw [List.mem_cons, not_or] at h
      refine List.isChain_cons.mpr ⟨?_, ih h.2⟩
      intro d _ hboth
      exact h.1 hboth.1.symm

theorem isTight_flatMap (h : ∀ word ∈ fields, IsField word) :
    IsTight (fields.flatMap fun word => ' ' :: word) := by
  induction fields with
  | nil => exact List.IsChain.nil
  | cons word rest ih =>
      rw [List.forall_mem_cons] at h
      rw [List.flatMap_cons, IsTight, List.isChain_append]
      refine ⟨List.isChain_cons.mpr ⟨?_, isTight_of_not_mem h.1.kept⟩, ih h.2, ?_⟩
      · intro d hd hboth
        rw [hboth.2] at hd
        exact h.1.kept (List.mem_of_mem_head? hd)
      · intro c hc _ _ hboth
        rw [List.getLast?_cons, List.getLast?_eq_some_getLast h.1.nonempty, hboth.1] at hc
        have hlast := Option.some.inj hc
        exact h.1.kept (hlast ▸ List.getLast_mem h.1.nonempty)

theorem isLastGap_of_isTight (front : List Char) (h : IsTight (' ' :: back)) :
    IsLastGap (front ++ ' ' :: ' ' :: back) front back where
  gap := rfl
  last := by
    intro earlier later heq
    obtain ⟨more, hearlier, hrest⟩ | ⟨more, hfront, _⟩ := List.append_eq_append_iff.mp heq
    · cases more with
      | nil => rw [hearlier, List.append_nil]
      | cons c more =>
          -- the later gap lies in the tight part, as that part starts with a space of the first
          rw [List.cons_append, List.cons.injEq] at hrest
          rw [hrest.2, IsTight, List.isChain_append] at h
          have hspaces := (List.isChain_cons_cons.mp h.2.1).1
          exact absurd ⟨rfl, rfl⟩ hspaces
    · rw [hfront, List.length_append]
      exact Nat.le_add_right _ _

end CycleTable.Text
