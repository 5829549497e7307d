import CycleTable.Proofs.IntelHex.Written

/-!
# Sessions on a document

## What they keep

Whatever is done to a document, in whatever order, a record that ends it is the last one. So
what can be written of it reads back as it is, unless a record holds more data than its count
can tell.
-/

namespace CycleTable.IntelHex

open Text

/-- What can be done to a document: start anew, add to it, end it, or make it from an image or
from lines. -/
inductive Command
  | new
  | add (record : Record)
  | finish
  | ofImage (image : Bytes)
  | ofLines (lines : List (List Char))
  deriving DecidableEq, Repr

/-- Either the document is ended by its last record alone, or nothing ended it yet. -/
inductive Document.IsSound : Document → Prop
  | ended {records : Array Record} (hended : IsEnded records.toList) : IsSound ⟨records, true⟩
  | unended {records : Array Record}
      (hopen : ∀ record ∈ records.toList, record.isEnd = false) : IsSound ⟨records, false⟩

namespace Document

def apply (document : Document) : Command → Except Fault Document
  | .new => .ok empty
  | .add record => document.add record
  | .finish => .ok document.finish
  | .ofImage image => ofImage image
  | .ofLines lines => ofLines lines

/-- A command that fails leaves the document as it was. -/
def step (document : Document) (command : Command) : Document :=
  match document.apply command with
  | .ok next => next
  | .error _ => document

def after (document : Document) (commands : List Command) : Document :=
  commands.foldl step document

variable {document next : Document} {command : Command} {records : Array Record}

theorem isSound_empty : IsSound empty :=
  IsSound.unended fun _ hrecord => absurd hrecord List.not_mem_nil

theorem IsSound.push (h : IsSound ⟨records, false⟩) (record : Record) :
    IsSound ⟨records.push record, record.isEnd⟩ := by
  cases h with
  | unended hopen =>
      cases hend : record.isEnd with
      | true => exact IsSound.ended ⟨records.toList, record, Array.toList_push, hend, hopen⟩
      | false =>
          apply IsSound.unended
          intro other hother
          rw [Array.toList_push, List.mem_append, List.mem_singleton] at hother
          rcases hother with hold | rfl
          · exact hopen other hold
          · exact hend

theorem IsSound.finish (h : document.IsSound) : document.finish.IsSound := by
  cases h with
  | ended hended => exact IsSound.ended hended
  | unended hopen => exact (IsSound.unended hopen).push Record.endOfFile

theorem IsSound.apply (h : document.IsSound) (hnext : document.apply command = .ok next) :
    next.IsSound := by
  cases command with
  | new =>
      cases hnext
      exact isSound_empty
  | add record =>
      rcases add_eq_ok_iff.mp hnext with ⟨hopen, rfl⟩
      rcases document with ⟨records, ended⟩
      cases hopen
      exact h.push record
  | finish =>
      cases hnext
      exact h.finish
  | ofImage image =>
      rcases ofImage_eq_ok_iff.mp hnext with ⟨himage, rfl⟩
      exact IsSound.ended (isEnded_imageRecords himage)
  | ofLines lines =>
      rcases ofLines_eq_ok_iff.mp hnext with ⟨records, _, hended, rfl⟩
      exact IsSound.ended hended

theorem IsSound.step (h : document.IsSound) (command : Command) :
    (document.step command).IsSound := by
  unfold Document.step
  split
  · next hnext => exact h.apply hnext
  · exact h

theorem IsSound.after (h : document.IsSound) (commands : List Command) :
    (document.after commands).IsSound := by
  induction commands generalizing document with
  | nil => exact h
  | cons command rest ih => exact ih (h.step command)

theorem IsSound.ended_iff (h : document.IsSound) :
    document.ended = true ↔ ∃ record ∈ document.records.toList, record.isEnd = true := by
  cases h with
  | ended hended =>
      rcases hended with ⟨front, last, hrecords, hlast, _⟩
      refine iff_of_true rfl ⟨last, ?_, hlast⟩
      rw [hrecords]
      exact List.mem_append_right front List.mem_cons_self
  | unended hopen =>
      refine iff_of_false Bool.false_ne_true ?_
      intro hend
      rcases hend with ⟨record, hrecord, hisEnd⟩
      rw [hopen record hrecord] at hisEnd
      cases hisEnd

theorem IsSound.ofLines_map_line (h : document.IsSound) (hended : document.ended = true)
    (hdata : ∀ record ∈ document.records.toList, record.data.length < 256) :
    ofLines (document.records.toList.map Record.line) = .ok document := by
  cases h with
  | ended hrecords => exact Document.ofLines_map_line hdata hrecords
  | unended _ => cases hended

/--
After any session a document can be written exactly if a record ends it. What is written reads
back as the same document if each record's data can be counted, and otherwise not at all.
-/
theorem read_back_after (commands : List Command) :
    ((∃ text, (empty.after commands).display = .ok text) ↔
      ∃ record ∈ (empty.after commands).records.toList, record.isEnd = true) ∧
    ∀ text, (empty.after commands).display = .ok text →
      ((∀ record ∈ (empty.after commands).records.toList, record.data.length ≤ 255) →
        ofLines (fileLines text) = .ok (empty.after commands)) ∧
      ((∃ record ∈ (empty.after commands).records.toList, 255 < record.data.length) →
        ∃ fault, ofLines (fileLines text) = .error fault ∧ fault.kind = .general) := by
  have hsound := isSound_empty.after commands
  constructor
  · rw [← hsound.ended_iff]
    simp only [display_eq_ok_iff, exists_and_left, exists_eq', and_true]
  · intro text htext
    rcases display_eq_ok_iff.mp htext with ⟨hended, rfl⟩
    rw [fileLines_join_display]
    constructor
    · intro hdata
      exact hsound.ofLines_map_line hended fun record hrecord =>
        Nat.lt_succ_of_le (hdata record hrecord)
    · intro hlong
      rcases hlong with ⟨record, hrecord, hlength⟩
      exact exists_ofLines_eq_error (List.mem_map_of_mem hrecord)
        (Record.ofLine_line_of_long hlength)

/-- A session whose last record carries data and lets nothing follow it, and one that adds a record
of one byte too many. -/
theorem read_back_after_short_and_long :
    let short := [.new, .add ⟨0x30, 7, []⟩, .add ⟨2, endType, [5]⟩, .add .endOfFile, .finish]
    let long := [.add (Record.ofData 0 (List.replicate 256 0)), .finish]
    (∃ text, (empty.after short).display = .ok text ∧
      ofLines (fileLines text) = .ok (empty.after short)) ∧
    ∃ text fault, (empty.after long).display = .ok text ∧
      ofLines (fileLines text) = .error fault ∧ fault.kind = .general := by
  intro short long
  have hshort : (empty.after short).records.toList = [⟨0x30, 7, []⟩, ⟨2, endType, [5]⟩] := by rfl
  have hlong : (empty.after long).records.toList =
      [Record.ofData 0 (List.replicate 256 0), .endOfFile] := by rfl
  constructor
  · rcases read_back_after short with ⟨hdisplay, hread⟩
    rw [hshort] at hdisplay hread
    rcases hdisplay.mpr ⟨⟨2, endType, [5]⟩, by decide, by decide⟩ with ⟨text, htext⟩
    exact ⟨text, htext, (hread text htext).1 (by decide)⟩
  · rcases read_back_after long with ⟨hdisplay, hread⟩
    rw [hlong] at hdisplay hread
    have hend : Record.endOfFile ∈
        [Record.ofData 0 (List.replicate 256 0), Record.endOfFile] :=
      List.mem_cons_of_mem _ List.mem_cons_self
    rcases hdisplay.mpr ⟨_, hend, rfl⟩ with ⟨text, htext⟩
    have hcount : 255 < (Record.ofData 0 (List.replicate 256 0)).data.length := by
      rw [Record.ofData, List.length_replicate]
      decide
    rcases (hread text htext).2 ⟨_, List.mem_cons_self, hcount⟩ with ⟨fault, hfault, hkind⟩
    exact ⟨text, fault, htext, hfault, hkind⟩

end Document

end CycleTable.IntelHex

/-!
## The image they leave

The image of a document, with the bounds of every step checked: they always hold, whatever was
done to the document before. The image reaches as far as the data records do, and each of its
places shows the last of them that covers it.
-/

namespace CycleTable.IntelHex

/-- Copy data to where an image holds as many bytes; `none` if it does not. -/
def copyInto? (image : Array UInt8) (start stop : Nat) (data : Bytes) : Option (Array UInt8) :=
  if start ≤ stop ∧ stop ≤ image.size ∧ data.length = stop - start then
    some (image.extract 0 start ++ data.toArray ++ image.extract stop image.size)
  else none

/-- Lay records over an image up to the one that ends a document. -/
def flatten? (image : Array UInt8) : List Record → Option (Array UInt8)
  | [] => some image
  | record :: rest =>
      if record.isData then do
        let grown :=
          if image.size < record.limit then
            image ++ Array.replicate (record.limit - image.size) 0
          else image
        let next ← copyInto? grown record.address.toNat record.limit record.data
        flatten? next rest
      else if record.isEnd then some image
      else flatten? image rest

theorem copyInto?_grown (image : Array UInt8) {start stop : Nat} {data : Bytes}
    (hstop : stop = start + data.length) :
    copyInto?
      (if image.size < stop then image ++ Array.replicate (stop - image.size) 0 else image)
      start stop data = some (overlay image start data) := by
  generalize hgrown :
    (if image.size < stop then image ++ Array.replicate (stop - image.size) 0 else image) = grown
  have hbase : grown.toList = image.toList ++ List.replicate (stop - image.size) 0 := by
    rw [← hgrown]
    split
    · simp
    · next hlarge =>
        have hnone : stop - image.size = 0 := by omega
        simp [hnone]
  have hsize := congrArg List.length hbase
  rw [List.length_append, List.length_replicate, Array.length_toList,
    Array.length_toList] at hsize
  have hbounds : start ≤ stop ∧ stop ≤ grown.size ∧ data.length = stop - start := by omega
  have hback : (grown.toList.drop stop).take (grown.size - stop) = grown.toList.drop stop :=
    List.take_of_length_le (Nat.le_of_eq (by rw [List.length_drop, Array.length_toList]))
  rw [copyInto?, if_pos hbounds, Option.some.injEq, ← Array.toList_inj, toList_overlay, ← hstop,
    ← hbase]
  simp [hback]

theorem flatten?_eq (image : Array UInt8) (records : List Record) :
    flatten? image records =
      some (((records.takeWhile fun record => !record.isEnd).filter Record.isData).foldl
        (fun image record => overlay image record.address.toNat record.data) image) := by
  induction records generalizing image with
  | nil => rfl
  | cons record rest ih =>
      rw [flatten?]
      by_cases hdata : record.isData = true
      · have hopen : record.isEnd = false := by
          rw [Record.isEnd, eq_of_beq hdata]
          rfl
        rw [if_pos hdata, List.takeWhile_cons_of_pos (by rw [hopen]; rfl),
          List.filter_cons_of_pos hdata, List.foldl_cons, ← ih]
        have hcopy := copyInto?_grown image (show record.limit = _ from rfl)
        simp only [hcopy, Option.bind_eq_bind, Option.bind_some]
      · rw [if_neg hdata]
        cases hend : record.isEnd with
        | true => simp [hend]
        | false =>
            rw [if_neg Bool.false_ne_true, ih,
              List.takeWhile_cons_of_pos (by rw [hend]; rfl), List.filter_cons_of_neg hdata]

namespace Document

variable {document : Document}

theorem IsSound.filter_content (h : document.IsSound) :
    document.content.filter Record.isData = document.records.toList.filter Record.isData := by
  have hwhole : ∀ records : List Record, (∀ record ∈ records, record.isEnd = false) →
      ∀ more, (records ++ more).takeWhile (fun record => !record.isEnd) =
        records ++ more.takeWhile fun record => !record.isEnd := by
    intro records hopen more
    apply List.takeWhile_append_of_pos
    intro record hrecord
    rw [hopen record hrecord]
    rfl
  cases h with
  | @ended records hended =>
      rcases hended with ⟨front, last, hrecords, hlast, hfront⟩
      have hdata : last.isData = false := by
        rw [Record.isData, eq_of_beq hlast]
        rfl
      rw [content, hrecords, hwhole front hfront]
      simp [hlast, hdata]
  | @unended records hopen =>
      have hall := hwhole records.toList hopen []
      rw [List.append_nil] at hall
      rw [content, hall]
      simp

theorem flatten?_records (document : Document) :
    (flatten? #[] document.records.toList).map Array.toList = some document.image := by
  rw [flatten?_eq]
  rfl

theorem IsSound.length_image (h : document.IsSound) :
    document.image.length =
      ((document.records.toList.filter Record.isData).map Record.limit).max?.getD 0 := by
  rw [image, h.filter_content, Array.length_toList, size_foldl_overlay, List.foldl_max]
  exact Nat.zero_max _

theorem IsSound.getElem?_image (h : document.IsSound) {place : Nat}
    (hplace : place < document.image.length) :
    document.image[place]? =
      some (lastByte (document.records.toList.filter Record.isData) place) := by
  have hbyte := getD_foldl_overlay (document.content.filter Record.isData) #[] place
  have himage : document.image.getD place 0 =
      lastByte (document.records.toList.filter Record.isData) place := by
    rw [← h.filter_content]
    exact hbyte
  rw [← himage, List.getD_eq_getElem?_getD, List.getElem?_eq_getElem hplace, Option.getD_some]

theorem IsSound.isFlat_image (h : document.IsSound) :
    IsFlat (document.records.toList.filter Record.isData) document.image :=
  ⟨h.length_image, fun _ => h.getElem?_image⟩

theorem isFlat_image_of_ofLines {lines : List (List Char)} (h : ofLines lines = .ok document) :
    IsFlat (document.records.toList.filter Record.isData) document.image :=
  (isSound_empty.apply (show empty.apply (.ofLines lines) = .ok document from h)).isFlat_image

theorem IsSound.length_image_le_iff (h : document.IsSound) {bound : Nat} :
    document.image.length ≤ bound ↔
      ∀ record ∈ document.records.toList.filter Record.isData, record.limit ≤ bound := by
  rw [h.length_image]
  generalize document.records.toList.filter Record.isData = data
  cases hmax : (data.map Record.limit).max? with
  | none =>
      rw [List.max?_eq_none_iff, List.map_eq_nil_iff] at hmax
      simp [hmax]
  | some reach =>
      rw [Option.getD_some, List.max?_le_iff hmax, List.forall_mem_map]

theorem exists_ofImage_iff {image : Bytes} :
    (∃ document, ofImage image = .ok document) ↔ image.length ≤ maxImage := by
  simp only [ofImage_eq_ok_iff, exists_and_left, exists_eq, and_true]

/--
After any session a document can be flattened. The image is as long as its data records reach, an
empty one included, and each of its places holds what the last data record that covers it says,
or zero. The image can be split into records again exactly if no data record reaches behind the
last address, and then it comes back.
-/
theorem image_after (commands : List Command) :
    let document := empty.after commands
    let data := document.records.toList.filter Record.isData
    (flatten? #[] document.records.toList).map Array.toList = some document.image ∧
    document.image.length = (data.map Record.limit).max?.getD 0 ∧
    (∀ place, place < document.image.length →
      document.image[place]? = some (lastByte data place)) ∧
    ((∃ again, ofImage document.image = .ok again) ↔
      ∀ record ∈ data, record.limit ≤ 0x10000) ∧
    ∀ again, ofImage document.image = .ok again → again.image = document.image := by
  intro document data
  have hsound : document.IsSound := isSound_empty.after commands
  refine ⟨flatten?_records document, hsound.length_image, fun _ => hsound.getElem?_image, ?_,
    fun _ => image_ofImage⟩
  rw [exists_ofImage_iff]
  exact hsound.length_image_le_iff

/-- Data over other data, a record of another type, and an empty data record far behind; and data
that reach behind the last address. -/
theorem image_after_overlapping_and_too_far :
    let overlapping := [.add (Record.ofData 0x11 [9, 9, 9]), .add (Record.ofData 0x10 [1, 2]),
      .add ⟨5, 7, [8]⟩, .add (Record.ofData 0x20 []), .finish]
    let tooFar := [.add (Record.ofData 0xFFFF [1, 2])]
    ((empty.after overlapping).image.length = 0x20 ∧
      [5, 0x10, 0x11, 0x12, 0x1F].map ((empty.after overlapping).image[·]?) =
        [some 0, some 1, some 2, some 9, some 0] ∧
      ∃ again, ofImage (empty.after overlapping).image = .ok again ∧
        again.image = (empty.after overlapping).image) ∧
    ¬ ∃ again, ofImage (empty.after tooFar).image = .ok again := by
  intro overlapping tooFar
  constructor
  · rcases image_after overlapping with ⟨_, hlength, hplace, hagain, himage⟩
    have hdata : (empty.after overlapping).records.toList.filter Record.isData =
        [Record.ofData 0x11 [9, 9, 9], Record.ofData 0x10 [1, 2], Record.ofData 0x20 []] := by
      rfl
    rw [hdata] at hlength hplace hagain
    have hsize : (empty.after overlapping).image.length = 0x20 := hlength
    refine ⟨hsize, ?_, ?_⟩
    · simp only [List.map_cons, List.map_nil]
      rw [hplace 5 (by rw [hsize]; decide), hplace 0x10 (by rw [hsize]; decide),
        hplace 0x11 (by rw [hsize]; decide), hplace 0x12 (by rw [hsize]; decide),
        hplace 0x1F (by rw [hsize]; decide)]
      rfl
    · rcases hagain.mpr (by decide) with ⟨again, hmade⟩
      exact ⟨again, hmade, himage again hmade⟩
  · have hdata : (empty.after tooFar).records.toList.filter Record.isData =
        [Record.ofData 0xFFFF [1, 2]] := by rfl
    have hagain := (image_after tooFar).2.2.2.1
    rw [hdata] at hagain
    rw [hagain]
    decide

end Document

end CycleTable.IntelHex
