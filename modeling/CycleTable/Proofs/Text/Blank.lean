import CycleTable.Text

/-!
# Texts cut at their blanks

What trimming leaves, and which texts it leaves whole.
-/

namespace CycleTable.Text

theorem takeWhile_append_trimStart (text : List Char) :
    text.takeWhile isBlank ++ trimStart text = text :=
  List.takeWhile_append_dropWhile

theorem trimStart_append_blank (text : List Char) {c : Char} (h : isBlank c = true) :
    trimStart (text ++ [c]) = [] ∧ trimStart text = [] ∨
      trimStart (text ++ [c]) = trimStart text ++ [c] := by
  unfold trimStart
  rw [List.dropWhile_append]
  by_cases hempty : (text.dropWhile isBlank).isEmpty = true
  · left
    rw [if_pos hempty]
    exact ⟨by simp [h], List.isEmpty_iff.mp hempty⟩
  · right
    rw [if_neg hempty]

theorem trimEnd_append_blank {text : List Char} {c : Char} (h : isBlank c = true) :
    trimEnd (text ++ [c]) = trimEnd text := by
  simp [trimEnd, h]

theorem trim_append_blank {text : List Char} {c : Char} (h : isBlank c = true) :
    trim (text ++ [c]) = trim text := by
  rcases trimStart_append_blank text h with hnil | hkept
  · rw [trim, trim, hnil.1, hnil.2]
  · rw [trim, trim, hkept, trimEnd_append_blank h]

theorem trim_blanks_append {before text after : List Char}
    (hbefore : ∀ c ∈ before, isBlank c = true) (hafter : ∀ c ∈ after, isBlank c = true) :
    trim (before ++ text ++ after) = trim text := by
  induction after generalizing text with
  | nil =>
      rw [List.append_nil, trim, trimStart, List.dropWhile_append_of_pos hbefore]
      rfl
  | cons c rest ih =>
      have hrest := @ih (text ++ [c]) fun d hd => hafter d (List.mem_cons_of_mem c hd)
      rw [trim_append_blank (hafter c List.mem_cons_self)] at hrest
      rw [← hrest]
      simp

theorem trim_map {f : Char → Char} (h : ∀ c, isBlank (f c) = isBlank c) (text : List Char) :
    trim (text.map f) = (trim text).map f := by
  have hblank : isBlank ∘ f = isBlank := funext h
  simp only [trim, trimEnd, trimStart, List.dropWhile_map, ← List.map_reverse, hblank]

theorem trim_dropReturn (line : List Char) : trim (dropReturn line) = trim line := by
  unfold dropReturn
  split
  · next hlast =>
      rcases List.getLast?_eq_some_iff.mp hlast with ⟨front, rfl⟩
      rw [List.dropLast_concat, trim_append_blank (by decide)]
  · rfl

theorem trimEnd_append_of_not_blank {text : List Char} {c : Char} (h : isBlank c = false) :
    trimEnd (text ++ [c]) = text ++ [c] := by
  simp [trimEnd, h]

theorem trim_eq_self {first last : Char} {text : List Char} (hfirst : isBlank first = false)
    (hlast : (first :: text).getLast? = some last) (hkept : isBlank last = false) :
    trim (first :: text) = first :: text := by
  rcases List.getLast?_eq_some_iff.mp hlast with ⟨front, htext⟩
  rw [trim, trimStart_of_head hfirst, htext, trimEnd_append_of_not_blank hkept]

theorem exists_trim_append_eq_trimStart (text : List Char) :
    ∃ after, trim text ++ after = trimStart text ∧ ∀ c ∈ after, isBlank c = true := by
  have hback : (trimStart text).reverse.takeWhile isBlank ++
      (trimStart text).reverse.dropWhile isBlank = (trimStart text).reverse :=
    List.takeWhile_append_dropWhile
  refine ⟨((trimStart text).reverse.takeWhile isBlank).reverse, ?_, ?_⟩
  · rw [trim, trimEnd, ← List.reverse_append, hback, List.reverse_reverse]
  · intro c hc
    exact List.all_eq_true.mp List.all_takeWhile c (List.mem_reverse.mp hc)

theorem exists_eq_append_trim (text : List Char) :
    ∃ before after, text = before ++ trim text ++ after ∧
      (∀ c ∈ before, isBlank c = true) ∧ ∀ c ∈ after, isBlank c = true := by
  rcases exists_trim_append_eq_trimStart text with ⟨after, hafter, hblank⟩
  refine ⟨text.takeWhile isBlank, after, ?_, ?_, hblank⟩
  · rw [List.append_assoc, hafter, takeWhile_append_trimStart]
  · intro c hc
    exact List.all_eq_true.mp List.all_takeWhile c hc

theorem isBlank_of_trimStart_eq_cons {text rest : List Char} {first : Char}
    (h : trimStart text = first :: rest) : isBlank first = false := by
  have hhead := List.head?_dropWhile_not isBlank text
  rw [show text.dropWhile isBlank = first :: rest from h] at hhead
  simpa using hhead

theorem exists_ends_of_trim {text : List Char} (h : trim text ≠ []) :
    ∃ first rest last, trim text = first :: rest ∧ isBlank first = false ∧
      (first :: rest).getLast? = some last ∧ isBlank last = false := by
  rcases exists_trim_append_eq_trimStart text with ⟨after, hafter, _⟩
  cases htrim : trim text with
  | nil => exact absurd htrim h
  | cons first rest =>
      rw [htrim, List.cons_append] at hafter
      have hlast : trimStart (trimStart text).reverse = (first :: rest).reverse := by
        rw [← htrim, trim, trimEnd, List.reverse_reverse]
        rfl
      cases hends : trimStart (trimStart text).reverse with
      | nil =>
          rw [hends] at hlast
          simp at hlast
      | cons last more =>
          have hget : (first :: rest).getLast? = some last := by
            rw [← List.head?_reverse, ← hlast, hends]
            rfl
          exact ⟨first, rest, last, rfl, isBlank_of_trimStart_eq_cons hafter.symm, hget,
            isBlank_of_trimStart_eq_cons hends⟩

theorem mem_of_mem_trim {text : List Char} {c : Char} (h : c ∈ trim text) : c ∈ text := by
  rcases exists_eq_append_trim text with ⟨before, after, htext, _, _⟩
  rw [htext]
  exact List.mem_append_left _ (List.mem_append_right _ h)

/-!
## Cuts

Where a run of characters of one kind ends, and the cut of a text there: the digits of a number,
a word before the blanks behind it, a text before a comment.
-/

/-- A run of characters that pass a test goes no further into this text. -/
def Stops (test : Char → Bool) (rest : List Char) : Prop :=
  ∀ c, rest.head? = some c → test c = false

variable {test : Char → Bool} {run rest text before after : List Char}

theorem ne_of_test {c other : Char} (h : test c = true) (hother : test other = false) :
    c ≠ other := by
  intro heq
  rw [heq, hother] at h
  cases h

theorem stops_nil : Stops test [] := by
  intro c hc
  cases hc

theorem stops_cons_iff {c : Char} : Stops test (c :: rest) ↔ test c = false := by
  constructor
  · intro h
    exact h c rfl
  · intro h d hd
    cases hd
    exact h

theorem stops_of_forall (h : ∀ c ∈ rest, test c = false) : Stops test rest := by
  intro c hc
  exact h c (List.mem_of_mem_head? hc)

theorem stops_append (hrun : Stops test run) (hrest : run = [] → Stops test rest) :
    Stops test (run ++ rest) := by
  cases run with
  | nil => exact hrest rfl
  | cons c run => exact stops_cons_iff.mpr (stops_cons_iff.mp hrun)

theorem test_of_mem_takeWhile {c : Char} (h : c ∈ text.takeWhile test) : test c = true :=
  List.all_eq_true.mp List.all_takeWhile c h

theorem stops_dropWhile (test : Char → Bool) (text : List Char) :
    Stops test (text.dropWhile test) := by
  intro c hc
  have hhead := List.head?_dropWhile_not test text
  rw [hc] at hhead
  simpa using hhead

theorem takeWhile_append_of_stops (hrun : ∀ c ∈ run, test c = true) (hrest : Stops test rest) :
    (run ++ rest).takeWhile test = run := by
  rw [List.takeWhile_append_of_pos hrun]
  cases rest with
  | nil => simp
  | cons c rest => simp [stops_cons_iff.mp hrest]

theorem dropWhile_append_of_stops (hrun : ∀ c ∈ run, test c = true) (hrest : Stops test rest) :
    (run ++ rest).dropWhile test = rest := by
  rw [List.dropWhile_append_of_pos hrun]
  cases rest with
  | nil => rfl
  | cons c rest => simp [stops_cons_iff.mp hrest]

theorem trimStart_append (hbefore : ∀ c ∈ before, isBlank c = true)
    (hrest : Stops isBlank rest) : trimStart (before ++ rest) = rest :=
  dropWhile_append_of_stops hbefore hrest

theorem word_append (hrun : ∀ c ∈ run, isBlank c = false)
    (hrest : Stops (fun c => !isBlank c) rest) : word (run ++ rest) = run := by
  refine takeWhile_append_of_stops ?_ hrest
  intro c hc
  rw [hrun c hc]
  rfl

theorem afterWord_append (hrun : ∀ c ∈ run, isBlank c = false)
    (hrest : Stops (fun c => !isBlank c) rest) : afterWord (run ++ rest) = rest := by
  refine dropWhile_append_of_stops ?_ hrest
  intro c hc
  rw [hrun c hc]
  rfl

theorem stops_of_blanks (h : ∀ c ∈ rest, isBlank c = true) :
    Stops (fun c => !isBlank c) rest := by
  apply stops_of_forall
  intro c hc
  rw [h c hc]
  rfl

theorem eq_nil_of_word_eq_nil (hstart : Stops isBlank text) (h : word text = []) : text = [] := by
  cases text with
  | nil => rfl
  | cons c rest => simp [word, stops_cons_iff.mp hstart] at h

theorem exists_word_append_eq (text : List Char) :
    ∃ between, word text ++ (between ++ trimStart (afterWord text)) = text ∧
      (∀ c ∈ between, isBlank c = true) ∧
      (between = [] → trimStart (afterWord text) = []) := by
  refine ⟨(afterWord text).takeWhile isBlank, ?_, ?_, ?_⟩
  · rw [trimStart, List.takeWhile_append_dropWhile, word_append_afterWord]
  · intro c hc
    exact test_of_mem_takeWhile hc
  · intro hnil
    have hstops : Stops (fun c => !isBlank c) (afterWord text) := stops_dropWhile _ _
    cases hafter : afterWord text with
    | nil => rfl
    | cons c rest =>
        rw [hafter] at hstops hnil
        rw [List.takeWhile_cons_of_pos (by simpa using stops_cons_iff.mp hstops)] at hnil
        cases hnil

/-- A text that neither starts nor ends with a blank. -/
structure IsTrimmed (text : List Char) : Prop where
  head : Stops isBlank text
  last : ∀ c, text.getLast? = some c → isBlank c = false

theorem isTrimmed_of_forall (h : ∀ c ∈ text, isBlank c = false) : IsTrimmed text where
  head := fun c hc => h c (List.mem_of_mem_head? hc)
  last := fun c hc => h c (List.mem_of_mem_getLast? hc)

theorem IsTrimmed.eq_nil_of_stops (h : IsTrimmed text)
    (hstops : Stops (fun c => !isBlank c) (text ++ rest)) : text = [] := by
  cases text with
  | nil => rfl
  | cons c text =>
      have hblank := stops_cons_iff.mp hstops
      rw [h.head c rfl] at hblank
      cases hblank

theorem IsTrimmed.append {front back : List Char} (hfront : IsTrimmed front)
    (hback : IsTrimmed back) (between : List Char) (hne : front ≠ []) (hne' : back ≠ []) :
    IsTrimmed (front ++ (between ++ back)) := by
  constructor
  · exact stops_append hfront.head fun hnil => absurd hnil hne
  · intro c hc
    have hlast := List.getLast?_eq_some_getLast hne'
    rw [← List.append_assoc, List.getLast?_append, hlast, Option.some_or] at hc
    exact hback.last c (hlast.trans hc)

theorem IsTrimmed.trim_eq (h : IsTrimmed text) : trim text = text := by
  cases text with
  | nil => rfl
  | cons first rest =>
      exact trim_eq_self (h.head first rfl) (List.getLast?_eq_some_getLast (List.cons_ne_nil _ _))
        (h.last _ (List.getLast?_eq_some_getLast (List.cons_ne_nil _ _)))

theorem isTrimmed_trim (text : List Char) : IsTrimmed (trim text) := by
  by_cases hempty : trim text = []
  · rw [hempty]
    exact isTrimmed_of_forall (List.forall_mem_nil _)
  · rcases exists_ends_of_trim hempty with ⟨first, rest, last, htrim, hfirst, hlast, hkept⟩
    rw [htrim]
    constructor
    · intro c hc
      cases hc
      exact hfirst
    · intro c hc
      rw [hlast] at hc
      cases hc
      exact hkept

theorem isTrimmed_iff_trim_eq : IsTrimmed text ↔ trim text = text := by
  constructor
  · exact IsTrimmed.trim_eq
  · intro h
    rw [← h]
    exact isTrimmed_trim text

instance (text : List Char) : Decidable (IsTrimmed text) :=
  decidable_of_iff _ isTrimmed_iff_trim_eq.symm

theorem IsTrimmed.trim_blanks_append (h : IsTrimmed text)
    (hbefore : ∀ c ∈ before, isBlank c = true) (hafter : ∀ c ∈ after, isBlank c = true) :
    trim (before ++ text ++ after) = text := by
  rw [Text.trim_blanks_append hbefore hafter, h.trim_eq]

theorem trim_of_blanks (h : ∀ c ∈ text, isBlank c = true) : trim text = [] := by
  have hnil : IsTrimmed [] := isTrimmed_of_forall (List.forall_mem_nil _)
  have htrim := hnil.trim_blanks_append h (List.forall_mem_nil _)
  rw [List.append_nil, List.append_nil] at htrim
  exact htrim

end CycleTable.Text
