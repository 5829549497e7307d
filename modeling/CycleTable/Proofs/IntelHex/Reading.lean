import CycleTable.IntelHex
import CycleTable.Proofs.IntelHex.Line
import CycleTable.Proofs.Success

/-!
# Documents read from lines

## What is read

A document is read exactly when every line reads, the records of the lines end in the one
that ends a document, and no other record does so. What is read is then those records.
-/

namespace CycleTable.IntelHex

open Text

/-- The records that lines read as, in their order. -/
inductive Holds : List (List Char) → List Record → Prop
  | nil : Holds [] []
  | skip {line : List Char} {lines : List (List Char)} {records : List Record}
      (hline : Record.ofLine line = .ok none) (hrest : Holds lines records) :
      Holds (line :: lines) records
  | read {line : List Char} {lines : List (List Char)} {record : Record}
      {records : List Record} (hline : Record.ofLine line = .ok (some record))
      (hrest : Holds lines records) : Holds (line :: lines) (record :: records)

theorem holds_nil_iff {records : List Record} : Holds [] records ↔ records = [] := by
  constructor
  · intro h
    cases h
    rfl
  · intro h
    rw [h]
    exact Holds.nil

theorem holds_cons_iff {line : List Char} {lines : List (List Char)} {records : List Record} :
    Holds (line :: lines) records ↔
      ∃ found rest, Record.ofLine line = .ok found ∧ Holds lines rest ∧
        records = found.toList ++ rest := by
  constructor
  · intro h
    cases h with
    | skip hline hrest => exact ⟨none, records, hline, hrest, rfl⟩
    | read hline hrest => exact ⟨some _, _, hline, hrest, rfl⟩
  · intro h
    rcases h with ⟨found, rest, hline, hrest, rfl⟩
    cases found with
    | none => exact Holds.skip hline hrest
    | some record => exact Holds.read hline hrest

theorem holds_append_iff {front back : List (List Char)} {records : List Record} :
    Holds (front ++ back) records ↔
      ∃ first second, Holds front first ∧ Holds back second ∧ records = first ++ second := by
  induction front generalizing records with
  | nil =>
      simp only [List.nil_append, holds_nil_iff]
      constructor
      · intro h
        exact ⟨[], records, rfl, h, rfl⟩
      · intro h
        rcases h with ⟨first, second, rfl, hback, rfl⟩
        exact hback
  | cons line rest ih =>
      simp only [List.cons_append, holds_cons_iff, ih]
      constructor
      · intro h
        rcases h with ⟨found, more, hline, ⟨first, second, hrest, hback, rfl⟩, rfl⟩
        exact ⟨found.toList ++ first, second, ⟨found, first, hline, hrest, rfl⟩, hback,
          (List.append_assoc _ _ _).symm⟩
      · intro h
        rcases h with ⟨_, second, ⟨found, first, hline, hrest, rfl⟩, hback, rfl⟩
        exact ⟨found, first ++ second, hline, ⟨first, second, hrest, hback, rfl⟩,
          List.append_assoc _ _ _⟩

theorem holds_singleton_iff {line : List Char} {records : List Record} :
    Holds [line] records ↔ ∃ found, Record.ofLine line = .ok found ∧
      records = found.toList := by
  rw [holds_cons_iff]
  simp only [holds_nil_iff]
  constructor
  · intro h
    rcases h with ⟨found, _, hline, rfl, rfl⟩
    exact ⟨found, hline, List.append_nil _⟩
  · intro h
    rcases h with ⟨found, hline, rfl⟩
    exact ⟨found, [], hline, rfl, (List.append_nil _).symm⟩

theorem holds_blank_iff {records : List Record} : Holds [[]] records ↔ records = [] := by
  have hblank : Record.ofLine [] = .ok none := rfl
  rw [holds_singleton_iff]
  simp [hblank, eq_comm]

theorem Holds.unique {lines : List (List Char)} {records others : List Record}
    (h : Holds lines records) (hothers : Holds lines others) : records = others := by
  induction h generalizing others with
  | nil =>
      cases hothers
      rfl
  | skip hline _ ih =>
      cases hothers with
      | skip _ hrest => exact ih hrest
      | read hother _ =>
          rw [hline] at hother
          cases hother
  | read hline _ ih =>
      cases hothers with
      | skip hother _ =>
          rw [hline] at hother
          cases hother
      | read hother hrest =>
          rw [hline] at hother
          cases hother
          rw [ih hrest]

theorem Holds.exists_ofLine {lines : List (List Char)} {records : List Record}
    (h : Holds lines records) {line : List Char} (hline : line ∈ lines) :
    ∃ found, Record.ofLine line = .ok found := by
  induction h with
  | nil => cases hline
  | skip hfirst _ ih | read hfirst _ ih =>
      rcases List.mem_cons.mp hline with rfl | hrest
      · exact ⟨_, hfirst⟩
      · exact ih hrest

theorem holds_map_line {records : List Record}
    (h : ∀ record ∈ records, record.data.length < 256) :
    Holds (records.map Record.line) records := by
  induction records with
  | nil => exact Holds.nil
  | cons record rest ih =>
      exact Holds.read (Record.ofLine_line (h record List.mem_cons_self))
        (ih fun r hr => h r (List.mem_cons_of_mem record hr))

/-- The records end in the one that ends a document, and no other does so. -/
def IsEnded (records : List Record) : Prop :=
  ∃ front last, records = front ++ [last] ∧ last.isEnd = true ∧
    ∀ record ∈ front, record.isEnd = false

namespace Document

theorem foldlM_addLine_eq_ok_iff {start document : Document} {lines : List (List Char)} :
    lines.foldlM addLine start = .ok document ↔
      ∃ records, Holds lines records ∧ records.foldlM add start = .ok document := by
  induction lines generalizing start with
  | nil =>
      simp only [holds_nil_iff, List.foldlM_nil]
      constructor
      · intro h
        exact ⟨[], rfl, h⟩
      · intro h
        rcases h with ⟨records, rfl, h⟩
        exact h
  | cons line rest ih =>
      simp only [List.foldlM_cons, bind_eq_ok_iff, addLine, ih, holds_cons_iff]
      constructor
      · intro h
        rcases h with ⟨next, ⟨found, hline, hnext⟩, records, hrest, hadd⟩
        refine ⟨found.toList ++ records, ⟨found, records, hline, hrest, rfl⟩, ?_⟩
        cases found with
        | none =>
            cases hnext
            exact hadd
        | some record =>
            exact bind_eq_ok_iff.mpr ⟨next, hnext, hadd⟩
      · intro h
        rcases h with ⟨_, ⟨found, records, hline, hrest, rfl⟩, hadd⟩
        cases found with
        | none => exact ⟨start, ⟨none, hline, rfl⟩, records, hrest, hadd⟩
        | some record =>
            rcases bind_eq_ok_iff.mp hadd with ⟨next, hnext, hmore⟩
            exact ⟨next, ⟨some record, hline, hnext⟩, records, hrest, hmore⟩

theorem foldlM_add_eq_ok_iff {start document : Document} {records : List Record}
    {last : Record} :
    (records ++ [last]).foldlM add start = .ok document ↔
      start.ended = false ∧ (∀ record ∈ records, record.isEnd = false) ∧
        document = ⟨start.records ++ (records ++ [last]).toArray, last.isEnd⟩ := by
  induction records generalizing start with
  | nil =>
      simp only [List.nil_append, List.foldlM_cons, List.foldlM_nil, bind_eq_ok_iff,
        add_eq_ok_iff]
      constructor
      · intro h
        rcases h with ⟨next, ⟨hopen, rfl⟩, hdone⟩
        cases hdone
        exact ⟨hopen, fun _ hmem => absurd hmem List.not_mem_nil, rfl⟩
      · intro h
        rcases h with ⟨hopen, _, rfl⟩
        exact ⟨_, ⟨hopen, rfl⟩, rfl⟩
  | cons record rest ih =>
      simp only [List.cons_append, List.foldlM_cons, bind_eq_ok_iff, add_eq_ok_iff, ih,
        List.forall_mem_cons]
      have hpush : start.records.push record ++ (rest ++ [last]).toArray =
          start.records ++ (record :: (rest ++ [last])).toArray := by
        simp
      constructor
      · intro h
        rcases h with ⟨next, ⟨hopen, rfl⟩, hrecord, hrest, rfl⟩
        exact ⟨hopen, ⟨hrecord, hrest⟩, by rw [hpush]⟩
      · intro h
        rcases h with ⟨hopen, ⟨hrecord, hrest⟩, rfl⟩
        exact ⟨_, ⟨hopen, rfl⟩, hrecord, hrest, by rw [hpush]⟩

theorem ofLines_eq_ok_iff {lines : List (List Char)} {document : Document} :
    ofLines lines = .ok document ↔
      ∃ records, Holds lines records ∧ IsEnded records ∧
        document = ⟨records.toArray, true⟩ := by
  simp only [ofLines, bind_eq_ok_iff, foldlM_addLine_eq_ok_iff]
  constructor
  · intro h
    rcases h with ⟨read, ⟨records, hholds, hadd⟩, hended⟩
    cases hend : read.ended with
    | false =>
        rw [hend] at hended
        cases hended
    | true =>
        rw [hend] at hended
        cases hended
        rcases List.eq_nil_or_concat records with rfl | ⟨front, last, rfl⟩
        · cases hadd
          cases hend
        · rw [List.concat_eq_append] at hholds hadd
          rcases foldlM_add_eq_ok_iff.mp hadd with ⟨_, hfront, rfl⟩
          have hlast : last.isEnd = true := hend
          exact ⟨front ++ [last], hholds, ⟨front, last, rfl, hlast, hfront⟩,
            by simp [hlast, empty]⟩
  · intro h
    rcases h with ⟨records, hholds, ⟨front, last, rfl, hlast, hfront⟩, rfl⟩
    have hadd : (front ++ [last]).foldlM add empty = .ok ⟨(front ++ [last]).toArray, true⟩ :=
      foldlM_add_eq_ok_iff.mpr ⟨rfl, hfront, by simp [hlast, empty]⟩
    exact ⟨_, ⟨front ++ [last], hholds, hadd⟩, rfl⟩

theorem ofLines_of_passed_over {line : List Char} (h : Record.ofLine line = .ok none)
    (front back : List (List Char)) :
    ofLines (front ++ line :: back) = ofLines (front ++ back) := by
  have hskip : ∀ document : Document, document.addLine line = .ok document := by
    intro document
    rw [addLine, h]
    rfl
  have hfold : (line :: back).foldlM addLine = back.foldlM addLine := by
    funext document
    rw [List.foldlM_cons, hskip]
    rfl
  simp only [ofLines, List.foldlM_append, hfold]

theorem ofLines_map_line {records : List Record}
    (h : ∀ record ∈ records, record.data.length < 256) (hended : IsEnded records) :
    ofLines (records.map Record.line) = .ok ⟨records.toArray, true⟩ :=
  ofLines_eq_ok_iff.mpr ⟨records, holds_map_line h, hended, rfl⟩

theorem kind_of_addLine_eq_error {document : Document} {line : List Char} {fault : Fault}
    (h : document.addLine line = .error fault) : fault.kind = .general := by
  rcases bind_eq_error_iff.mp h with hline | ⟨found, _, hadd⟩
  · exact Record.kind_of_ofLine_eq_error hline
  · cases found with
    | none => cases hadd
    | some record =>
        have hrefused : document.add record = .error fault := hadd
        unfold add at hrefused
        split at hrefused
        · cases hrefused
          rfl
        · cases hrefused

theorem kind_of_ofLines_eq_error {lines : List (List Char)} {fault : Fault}
    (h : ofLines lines = .error fault) : fault.kind = .general := by
  have hfold : ∀ (lines : List (List Char)) (start : Document),
      lines.foldlM addLine start = .error fault → fault.kind = .general := by
    intro lines
    induction lines with
    | nil =>
        intro start hnone
        cases hnone
    | cons line rest ih =>
        intro start hmore
        rw [List.foldlM_cons, bind_eq_error_iff] at hmore
        rcases hmore with hline | ⟨next, _, hrest⟩
        · exact kind_of_addLine_eq_error hline
        · exact ih next hrest
  rcases bind_eq_error_iff.mp h with hlines | ⟨document, _, hended⟩
  · exact hfold lines empty hlines
  · split at hended
    · cases hended
    · cases hended
      rfl

theorem exists_ofLines_eq_error {lines : List (List Char)} {line : List Char} {fault : Fault}
    (hmem : line ∈ lines) (hline : Record.ofLine line = .error fault) :
    ∃ cause, ofLines lines = .error cause ∧ cause.kind = .general := by
  cases hread : ofLines lines with
  | error cause => exact ⟨cause, rfl, kind_of_ofLines_eq_error hread⟩
  | ok document =>
      rcases ofLines_eq_ok_iff.mp hread with ⟨records, hholds, _⟩
      rcases hholds.exists_ofLine hmem with ⟨found, hfound⟩
      rw [hline] at hfound
      cases hfound

theorem holds_fileLines_iff {text : String} {records : List Record} :
    Holds (fileLines text) records ↔ Holds (text.toList.splitOn '\n') records := by
  have hreturn : ∀ line, Record.ofLine (dropReturn line) = Record.ofLine line := by
    intro line
    unfold Record.ofLine
    rw [trim_dropReturn]
  have hmap : ∀ (lines : List (List Char)) (records : List Record),
      Holds (lines.map dropReturn) records ↔ Holds lines records := by
    intro lines
    induction lines with
    | nil => exact fun _ => Iff.rfl
    | cons line rest ih =>
        intro records
        simp only [List.map_cons, holds_cons_iff, hreturn, ih]
  rcases List.eq_nil_or_concat (text.toList.splitOn '\n') with hnil | ⟨front, last, hpieces⟩
  · exact absurd hnil (List.splitOn_ne_nil _ _)
  · rw [List.concat_eq_append] at hpieces
    simp only [fileLines, hpieces, List.dropLast_concat, List.getLast?_concat,
      Option.toList_some, holds_append_iff, hmap]
    cases last with
    | nil => simp [holds_blank_iff, holds_nil_iff]
    | cons c rest => simp

theorem ofFile_eq_ok_iff {contents : Bytes} {text : String} {document : Document}
    (h : ofUtf8? contents = some text) :
    ofFile contents = .ok document ↔
      ∃ records, Holds (text.toList.splitOn '\n') records ∧ IsEnded records ∧
        document = ⟨records.toArray, true⟩ := by
  simp only [ofFile, h, ofLines_eq_ok_iff, holds_fileLines_iff]

theorem isEnded_of_ofFile {contents : Bytes} {document : Document}
    (h : ofFile contents = .ok document) :
    IsEnded document.records.toList ∧ document = ⟨document.records, true⟩ := by
  unfold ofFile at h
  split at h
  · cases h
  · rcases ofLines_eq_ok_iff.mp h with ⟨records, _, hended, rfl⟩
    exact ⟨hended, rfl⟩

end Document

/-!
## What is refused

A line is refused if it is malformed, or if it holds a record behind the one that ends the
document. Lines make a document if none of them is refused and a record ends them. Otherwise the
first refused line is what is reported, and a missing end only if there is none.
-/

/-- The records of the lines that hold one, in their order. -/
def recordsOf (lines : List (List Char)) : List Record :=
  lines.filterMap fun line => (Record.ofLine line).toOption.join

/-- A line that cannot be read behind others, and why. -/
inductive Refused (front : List (List Char)) (line : List Char) : Fault → Prop
  | malformed {fault : Fault} (hline : Record.ofLine line = .error fault) :
      Refused front line fault
  | afterEnd {record last : Record} (hline : Record.ofLine line = .ok (some record))
      (hlast : last ∈ recordsOf front) (hend : last.isEnd = true) :
      Refused front line .recordAfterEnd

def RefusedAt (lines : List (List Char)) (place : Nat) (fault : Fault) : Prop :=
  ∃ line, lines[place]? = some line ∧ Refused (lines.take place) line fault

/-- A line is refused, or no record ends the document. -/
def Defective (lines : List (List Char)) : Prop :=
  (∃ place fault, RefusedAt lines place fault) ∨
    ∀ record ∈ recordsOf lines, record.isEnd = false

variable {lines front : List (List Char)} {line : List Char} {records : List Record}
  {fault : Fault}

theorem recordsOf_cons (line : List Char) (rest : List (List Char)) :
    recordsOf (line :: rest) = (Record.ofLine line).toOption.join.toList ++ recordsOf rest := by
  unfold recordsOf
  rw [List.filterMap_cons]
  cases (Record.ofLine line).toOption.join with
  | none => rfl
  | some record => rfl

theorem holds_iff :
    Holds lines records ↔
      (∀ line ∈ lines, ∃ found, Record.ofLine line = .ok found) ∧ records = recordsOf lines := by
  induction lines generalizing records with
  | nil => simp [holds_nil_iff, recordsOf]
  | cons line rest ih =>
      simp only [holds_cons_iff, ih, List.forall_mem_cons, recordsOf_cons]
      constructor
      · intro h
        obtain ⟨found, _, hline, ⟨hrest, rfl⟩, rfl⟩ := h
        rw [hline]
        exact ⟨⟨⟨found, rfl⟩, hrest⟩, rfl⟩
      · intro h
        obtain ⟨⟨⟨found, hline⟩, hrest⟩, rfl⟩ := h
        rw [hline]
        exact ⟨found, _, rfl, ⟨hrest, rfl⟩, rfl⟩

theorem refusedAt_take_iff {place earlier : Nat} (h : earlier < place) :
    RefusedAt (lines.take place) earlier fault ↔ RefusedAt lines earlier fault := by
  rw [RefusedAt, RefusedAt, List.getElem?_take_of_lt h, List.take_take,
    Nat.min_eq_left (Nat.le_of_lt h)]

namespace Document

variable {document : Document}

theorem ended_iff_of_foldlM (h : lines.foldlM addLine empty = .ok document) :
    document.ended = true ↔ ∃ last ∈ recordsOf lines, last.isEnd = true := by
  obtain ⟨records, hholds, hadd⟩ := foldlM_addLine_eq_ok_iff.mp h
  rw [← (holds_iff.mp hholds).2]
  cases List.eq_nil_or_concat records with
  | inl hnil =>
      rw [hnil] at hadd ⊢
      cases hadd
      simp [empty]
  | inr hconcat =>
      obtain ⟨front, last, rfl⟩ := hconcat
      rw [List.concat_eq_append] at hadd ⊢
      obtain ⟨_, hfront, rfl⟩ := foldlM_add_eq_ok_iff.mp hadd
      constructor
      · intro hlast
        exact ⟨last, List.mem_append_right front List.mem_cons_self, hlast⟩
      · intro hsome
        obtain ⟨record, hrecord, hend⟩ := hsome
        cases List.mem_append.mp hrecord with
        | inl hmem =>
            rw [hfront record hmem] at hend
            cases hend
        | inr hmem =>
            rw [List.mem_singleton.mp hmem] at hend
            exact hend

theorem add_eq_error_iff {record : Record} :
    document.add record = .error fault ↔ document.ended = true ∧ fault = .recordAfterEnd := by
  unfold add
  cases document.ended with
  | true => simp [eq_comm]
  | false => simp

theorem addLine_eq_error_iff (h : front.foldlM addLine empty = .ok document) :
    document.addLine line = .error fault ↔ Refused front line fault := by
  have hended := ended_iff_of_foldlM h
  rw [addLine, bind_eq_error_iff]
  constructor
  · intro hfault
    rcases hfault with hline | ⟨found, hline, hadd⟩
    · exact Refused.malformed hline
    · cases found with
      | none => cases hadd
      | some record =>
          obtain ⟨hend, rfl⟩ := add_eq_error_iff.mp hadd
          obtain ⟨last, hmem, hlast⟩ := hended.mp hend
          exact Refused.afterEnd hline hmem hlast
  · intro hrefused
    cases hrefused with
    | malformed hline => exact Or.inl hline
    | @afterEnd record last hline hmem hlast =>
        exact Or.inr ⟨some record, hline,
          add_eq_error_iff.mpr ⟨hended.mpr ⟨last, hmem, hlast⟩, rfl⟩⟩

theorem exists_foldlM_addLine_iff :
    (∃ document, lines.foldlM addLine empty = .ok document) ↔
      ∀ place fault, ¬ RefusedAt lines place fault := by
  cases hread : lines.foldlM addLine empty with
  | ok document =>
      refine iff_of_true ⟨document, rfl⟩ ?_
      intro place fault hrefused
      obtain ⟨line, hline, hrefused⟩ := hrefused
      obtain ⟨hplace, hget⟩ := List.getElem?_eq_some_iff.mp hline
      rw [← List.take_append_drop place lines, List.drop_eq_getElem_cons hplace, hget,
        List.foldlM_append, bind_eq_ok_iff] at hread
      obtain ⟨before, hbefore, hrest⟩ := hread
      rw [List.foldlM_cons, bind_eq_ok_iff] at hrest
      obtain ⟨_, hadd, _⟩ := hrest
      rw [(addLine_eq_error_iff hbefore).mpr hrefused] at hadd
      cases hadd
  | error fault =>
      obtain ⟨place, line, before, hline, hbefore, hfault⟩ := foldlM_eq_error_iff.mp hread
      refine iff_of_false (fun h => nomatch h) ?_
      intro hnone
      exact hnone place fault ⟨line, hline, (addLine_eq_error_iff hbefore).mp hfault⟩

theorem foldlM_addLine_eq_error_iff :
    lines.foldlM addLine empty = .error fault ↔
      ∃ place, RefusedAt lines place fault ∧
        ∀ earlier, earlier < place → ∀ other, ¬ RefusedAt lines earlier other := by
  have hbefore : ∀ place, (∃ document, (lines.take place).foldlM addLine empty = .ok document) ↔
      ∀ earlier, earlier < place → ∀ other, ¬ RefusedAt lines earlier other := by
    intro place
    rw [exists_foldlM_addLine_iff]
    constructor
    · intro hnone earlier hlt other hrefused
      exact hnone earlier other ((refusedAt_take_iff hlt).mpr hrefused)
    · intro hnone earlier other hrefused
      have hlt : earlier < place := by
        obtain ⟨_, hline, _⟩ := hrefused
        have hbound := (List.getElem?_eq_some_iff.mp hline).1
        rw [List.length_take] at hbound
        omega
      exact hnone earlier hlt other ((refusedAt_take_iff hlt).mp hrefused)
  rw [foldlM_eq_error_iff]
  constructor
  · intro h
    obtain ⟨place, line, document, hline, hread, hfault⟩ := h
    exact ⟨place, ⟨line, hline, (addLine_eq_error_iff hread).mp hfault⟩,
      (hbefore place).mp ⟨document, hread⟩⟩
  · intro h
    obtain ⟨place, ⟨line, hline, hrefused⟩, hnone⟩ := h
    obtain ⟨document, hread⟩ := (hbefore place).mpr hnone
    exact ⟨place, line, document, hline, hread, (addLine_eq_error_iff hread).mpr hrefused⟩

theorem ofLines_eq_error_iff :
    ofLines lines = .error fault ↔
      (∃ place, RefusedAt lines place fault ∧
        ∀ earlier, earlier < place → ∀ other, ¬ RefusedAt lines earlier other) ∨
      fault = .endMissing ∧ (∀ place other, ¬ RefusedAt lines place other) ∧
        ∀ record ∈ recordsOf lines, record.isEnd = false := by
  have hend : ∀ document, lines.foldlM addLine empty = .ok document →
      (document.ended = false ↔ ∀ record ∈ recordsOf lines, record.isEnd = false) := by
    intro document hread
    rw [← Bool.not_eq_true, ended_iff_of_foldlM hread]
    simp
  rw [ofLines, bind_eq_error_iff, foldlM_addLine_eq_error_iff, ← exists_foldlM_addLine_iff]
  refine or_congr Iff.rfl ?_
  constructor
  · intro h
    obtain ⟨document, hread, hfault⟩ := h
    cases hended : document.ended with
    | true =>
        rw [hended] at hfault
        cases hfault
    | false =>
        rw [hended] at hfault
        cases hfault
        exact ⟨rfl, ⟨document, hread⟩, (hend document hread).mp hended⟩
  · intro h
    obtain ⟨rfl, ⟨document, hread⟩, hopen⟩ := h
    refine ⟨document, hread, ?_⟩
    rw [(hend document hread).mpr hopen]
    rfl

theorem exists_ofLines_eq_error_iff :
    (∃ fault, ofLines lines = .error fault) ↔ Defective lines := by
  constructor
  · intro h
    obtain ⟨fault, hfault⟩ := h
    cases ofLines_eq_error_iff.mp hfault with
    | inl hrefused =>
        obtain ⟨place, hrefused, _⟩ := hrefused
        exact Or.inl ⟨place, fault, hrefused⟩
    | inr hopen => exact Or.inr hopen.2.2
  · intro hdefective
    cases hread : ofLines lines with
    | error fault => exact ⟨fault, rfl⟩
    | ok document =>
        exfalso
        obtain ⟨read, hfold, hend⟩ := bind_eq_ok_iff.mp hread
        cases hdefective with
        | inl hrefused =>
            obtain ⟨place, fault, hrefused⟩ := hrefused
            exact exists_foldlM_addLine_iff.mp ⟨read, hfold⟩ place fault hrefused
        | inr hopen =>
            by_cases hended : read.ended = true
            · obtain ⟨last, hlast, hisEnd⟩ := (ended_iff_of_foldlM hfold).mp hended
              rw [hopen last hlast] at hisEnd
              cases hisEnd
            · rw [if_neg hended] at hend
              cases hend

theorem ofLines_of_not_defective (h : ¬ Defective lines) :
    ofLines lines = .ok ⟨(recordsOf lines).toArray, true⟩ := by
  cases hread : ofLines lines with
  | error fault => exact absurd (exists_ofLines_eq_error_iff.mp ⟨fault, hread⟩) h
  | ok document =>
      obtain ⟨records, hholds, _, rfl⟩ := ofLines_eq_ok_iff.mp hread
      rw [(holds_iff.mp hholds).2]

/--
Lines make a document exactly if each of them is skipped or holds a record and the last of the
records is the only one that ends a document; its records are then those of the lines, in order.
What is reported otherwise is of the general kind: it is what the first refused line is refused
for, or, only where no line is refused, that the end is missing.
-/
theorem ofLines_blames_first_line (lines : List (List Char)) :
    (∀ document, ofLines lines = .ok document ↔
      (∀ line ∈ lines, ∃ found, Record.ofLine line = .ok found) ∧ IsEnded (recordsOf lines) ∧
        document = ⟨(recordsOf lines).toArray, true⟩) ∧
    (∀ fault, ofLines lines = .error fault → fault.kind = .general) ∧
    ∀ fault, ofLines lines = .error fault ↔
      (∃ place, RefusedAt lines place fault ∧
        ∀ earlier, earlier < place → ∀ other, ¬ RefusedAt lines earlier other) ∨
      fault = .endMissing ∧ (∀ place other, ¬ RefusedAt lines place other) ∧
        ∀ record ∈ recordsOf lines, record.isEnd = false := by
  refine ⟨?_, fun _ => kind_of_ofLines_eq_error, fun _ => ofLines_eq_error_iff⟩
  intro document
  simp only [ofLines_eq_ok_iff, holds_iff]
  constructor
  · intro h
    obtain ⟨_, ⟨hlines, rfl⟩, hended, hdocument⟩ := h
    exact ⟨hlines, hended, hdocument⟩
  · intro h
    obtain ⟨hlines, hended, hdocument⟩ := h
    exact ⟨_, ⟨hlines, rfl⟩, hended, hdocument⟩

example : ofLines [":00000001FF".toList, "x".toList, ":00000001FF".toList, ":00".toList] =
    .error .recordAfterEnd := by
  rfl

end Document

end CycleTable.IntelHex
