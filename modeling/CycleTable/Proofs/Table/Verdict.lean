import CycleTable.Proofs.IntelHex.Damage
import CycleTable.Proofs.IntelHex.Reading
import CycleTable.Proofs.IntelHex.Session
import CycleTable.Proofs.Table.Difference
import CycleTable.Proofs.Table.Walk
import CycleTable.Proofs.Text.Ascii
import CycleTable.Table.Format

/-!
# Checks of a table

## Damaged hex documents

A generated table passes the check against its own hex document, and damage to the document
is either harmless or found: a record that is lost leaves a zero where an entry starts, and
no entry starts with a fetch.
-/

namespace CycleTable.Table

open IntelHex

variable {list : List Descriptor} {table : Table}

theorem length_toBytes_le_maxImage (h : ofDescriptors list = .ok table) :
    table.toBytes.length ≤ maxImage := by
  rw [length_toBytes, length_entries h]
  decide

theorem hexDocument_eq (h : ofDescriptors list = .ok table) :
    table.hexDocument = .ok ⟨(imageRecords table.toBytes).toArray, true⟩ :=
  Document.ofImage_eq_ok_iff.mpr ⟨length_toBytes_le_maxImage h, rfl⟩

theorem encode_hex (h : ofDescriptors list = .ok table) (symbol : Option String) :
    table.encode .hex symbol = .ok (written (imageRecords table.toBytes)) := by
  rw [encode, hexDocument_eq h]
  show Except.ok (Text.utf8 (String.join _)) = _
  rw [utf8_join_display]

theorem check_eq_ok_iff {path : String} {contents : Bytes}
    (hpath : Path.hasExtension "hex" path = true) :
    table.check path (.ok contents) = .ok () ↔
      ∃ document, Document.ofFile contents = .ok document ∧
        document.image = table.toBytes := by
  simp only [check, Recorded.read, Recorded.decode, hpath, if_true, bind_eq_ok_iff,
    compare_eq_ok_iff]
  constructor
  · intro h
    rcases h with ⟨recorded, ⟨document, hread, hrecorded⟩, himage⟩
    cases hrecorded
    exact ⟨document, hread, himage.symm⟩
  · intro h
    rcases h with ⟨document, hread, himage⟩
    exact ⟨_, ⟨document, hread, rfl⟩, himage.symm⟩

theorem image_ne_of_lost (h : ofDescriptors list = .ok table) {document : Document}
    (hlost : Lost (imageRecords table.toBytes) document.records.toList)
    (hended : IsEnded document.records.toList) : document.image ≠ table.toBytes := by
  rcases exists_misses_of_lost (length_toBytes_le_maxImage h) hlost hended with
    ⟨i, hplace, hmisses⟩
  rw [length_toBytes, length_entries h] at hplace
  have hid : 2 * i < entryCount := by
    simp only [entryCount, cellsPerEntry, maxData] at hplace ⊢
    omega
  have hstart : i * maxData = 2 * i * cellsPerEntry := by
    simp only [cellsPerEntry, maxData]
    omega
  intro heq
  have hzero := Document.getD_image_of_misses hmisses
  rw [heq, hstart] at hzero
  exact getD_toBytes_ne_zero h hid hzero

/--
A generated table is written as a hex document that reads back. When one byte of it is
replaced or deleted, or one line is deleted, either the records are still the same, which
takes a change in the case of a letter or at the final line feed, and the check passes, or
the records are not the same and the check fails.
-/
theorem check_damaged_hex (h : ofDescriptors list = .ok table) (symbol : Option String) :
    ∃ text document, table.encode .hex symbol = .ok text ∧
      Document.ofFile text = .ok document ∧
      ∀ path damaged, Path.hasExtension "hex" path = true → Damage text damaged →
        (table.check path (.ok damaged) = .ok () ∧
            Document.ofFile damaged = .ok document ∧
            (CaseChange text damaged ∨ FinalFeedChange text damaged)) ∨
          ((∃ fault, table.check path (.ok damaged) = .error fault) ∧
            Document.ofFile damaged ≠ .ok document) := by
  have hlength := length_toBytes_le_maxImage h
  have hrecords : ∀ record ∈ imageRecords table.toBytes, record.data.length < 256 :=
    fun _ hrecord => length_data_of_mem_imageRecords hlength hrecord
  have himage : Document.image ⟨(imageRecords table.toBytes).toArray, true⟩ = table.toBytes :=
    Document.image_ofImage (hexDocument_eq h)
  refine ⟨_, _, encode_hex h symbol,
    Document.ofFile_written hrecords (isEnded_imageRecords hlength), ?_⟩
  intro path damaged hpath hdamage
  cases hcheck : table.check path (.ok damaged) with
  | ok _ =>
      left
      rcases (check_eq_ok_iff hpath).mp hcheck with ⟨document, hread, hsame⟩
      rcases Document.isEnded_of_ofFile hread with ⟨hended, hdocument⟩
      rcases outcome_of_damage hrecords hdamage hread with ⟨hkept, hharmless⟩ | hlost
      · have heq : document = ⟨(imageRecords table.toBytes).toArray, true⟩ := by
          rw [hdocument, ← hkept]
        rw [hread, heq]
        exact ⟨rfl, rfl, hharmless⟩
      · exact absurd hsame (image_ne_of_lost h hlost hended)
  | error fault =>
      right
      refine ⟨⟨fault, rfl⟩, ?_⟩
      intro hread
      rw [(check_eq_ok_iff hpath).mpr ⟨_, hread, himage⟩] at hcheck
      cases hcheck

theorem check_standard_without_first_line :
    ∃ table line rest, ofDescriptors Descriptor.standard = .ok table ∧
      table.encode .hex none = .ok (line ++ lineFeed :: rest) ∧ lineFeed ∉ line ∧
      ∃ fault, table.check "table.hex" (.ok rest) = .error fault := by
  rcases exists_ofDescriptors_standard with ⟨table, h⟩
  rcases check_damaged_hex h none with ⟨text, document, hencode, _, hdamaged⟩
  have htext := Except.ok.inj (hencode.symm.trans (encode_hex h none))
  cases hrecords : imageRecords table.toBytes with
  | nil => exact absurd hrecords (by simp [imageRecords])
  | cons record more =>
      rw [hrecords, written_cons] at htext
      refine ⟨table, record.lineBytes, written more, h, by rw [hencode, htext],
        record.lineFeed_not_mem_lineBytes, ?_⟩
      have hdamage : Damage text (written more) := by
        rw [htext, ← written_cons]
        exact Damage.deleteLine [] (more.map Record.lineBytes) record.lineBytes
          (lineFeed_not_mem_of_mem_map (record :: more))
      -- Both harmless kinds of damage leave all but one byte in place.
      rcases hdamaged "table.hex" _ (by rfl) hdamage with ⟨_, _, hharmless⟩ | ⟨hfault, _⟩
      · have hlength : (written more).length + 2 ≤ text.length := by
          have hline : 0 < record.lineBytes.length := by
            simp [Record.lineBytes, Record.line_eq]
          rw [htext, List.length_append, List.length_cons]
          omega
        rcases hharmless with
          ⟨front, old, new, back, hold, hnew, _⟩ | ⟨front, rest, hold, hnew, _⟩
        · rw [hold, hnew] at hlength
          simp only [List.length_append, List.length_cons] at hlength
          omega
        · rw [hold, hnew] at hlength
          simp only [List.length_append, List.length_singleton] at hlength
          omega
      · exact hfault

end CycleTable.Table

/-!
## What a check finds out

A file is checked by its image: what its hex records leave if its name says so, and otherwise its
bytes. The check passes for the bytes of the table alone. Where it fails it tells a file that
cannot be read or decoded from one of another size and from one that differs, and of the last it
names the first place.
-/

namespace CycleTable

open Text

/-- The image that a file records under its name. -/
inductive HasImage (path : String) (contents : Bytes) : Bytes → Prop
  | hex {text : String} {image : Bytes} (hpath : Path.hasExtension "hex" path = true)
      (htext : ofUtf8? contents = some text) (hlines : ¬ IntelHex.Defective (fileLines text))
      (himage : IntelHex.IsFlat
        ((IntelHex.recordsOf (fileLines text)).filter IntelHex.Record.isData) image) :
      HasImage path contents image
  | bare (hpath : Path.hasExtension "hex" path = false) : HasImage path contents contents

/-- Nothing can be had of a file, or no text where one is asked for. -/
inductive Unreadable (path : String) : Except FileFault Bytes → Prop
  | refused (reason : FileFault) : Unreadable path (.error reason)
  | notText {bytes : Bytes} (hpath : Path.hasExtension "hex" path = true)
      (htext : ofUtf8? bytes = none) : Unreadable path (.ok bytes)

/-- The text of a file is no hex document, though its name says so. -/
inductive NoDocument (path : String) : Except FileFault Bytes → Prop
  | defective {bytes : Bytes} {text : String} (hpath : Path.hasExtension "hex" path = true)
      (htext : ofUtf8? bytes = some text) (hlines : IntelHex.Defective (fileLines text)) :
      NoDocument path (.ok bytes)

/-- A byte by the name of the micro-op that it is the code of, or by its two digits. -/
inductive ShownAs (byte : UInt8) : String → Prop
  | code {op : MicroOp} (hop : op.code = byte) : ShownAs byte op.name
  | digits (hbyte : 93 ≤ byte.toNat) : ShownAs byte ("$" ++ String.ofList (byteHex byte))

/-- The first place where an image is not the table, as a step of an entry. -/
structure FirstDifference (table : Table) (image : Bytes) (id step : Nat) (expected : MicroOp)
    (found : UInt8) : Prop where
  step_lt : step < cellsPerEntry
  of_table : (table.cells[id * cellsPerEntry + step]?).map Cell.microOp = some expected
  of_image : image[id * cellsPerEntry + step]? = some found
  differs : expected.code ≠ found
  least : ∀ place, place < id * cellsPerEntry + step → table.toBytes[place]? = image[place]?

theorem hasImage_of_not_defective {path text : String} {contents : Bytes}
    (hpath : Path.hasExtension "hex" path = true) (htext : ofUtf8? contents = some text)
    (hlines : ¬ IntelHex.Defective (fileLines text)) :
    HasImage path contents
      (IntelHex.Document.image ⟨(IntelHex.recordsOf (fileLines text)).toArray, true⟩) :=
  HasImage.hex hpath htext hlines (IntelHex.Document.isFlat_image_of_ofLines
    (IntelHex.Document.ofLines_of_not_defective hlines))

theorem hasImage_of_ofFile {path : String} {contents : Bytes} {document : IntelHex.Document}
    (hpath : Path.hasExtension "hex" path = true)
    (hread : IntelHex.Document.ofFile contents = .ok document) :
    HasImage path contents document.image := by
  cases htext : ofUtf8? contents with
  | none =>
      rw [IntelHex.Document.ofFile, htext] at hread
      cases hread
  | some text =>
      replace hread : IntelHex.Document.ofLines (fileLines text) = .ok document := by
        simpa only [IntelHex.Document.ofFile, htext] using hread
      have hlines : ¬ IntelHex.Defective (fileLines text) := by
        rw [← IntelHex.Document.exists_ofLines_eq_error_iff, hread]
        simp
      rw [IntelHex.Document.ofLines_of_not_defective hlines, Except.ok.injEq] at hread
      rw [← hread]
      exact hasImage_of_not_defective hpath htext hlines

theorem hasImage_written {path : String} {image : Bytes}
    (hpath : Path.hasExtension "hex" path = true) (himage : image.length ≤ IntelHex.maxImage) :
    HasImage path (IntelHex.written (IntelHex.imageRecords image)) image := by
  obtain ⟨document, hread, hdocument⟩ := IntelHex.Document.exists_ofFile_written himage
  rw [← hdocument]
  exact hasImage_of_ofFile hpath (hdocument ▸ hread)

theorem FirstDifference.le_of_ne {table : Table} {image : Bytes} {id step place : Nat}
    {expected : MicroOp} {found : UInt8} (h : FirstDifference table image id step expected found)
    (hne : table.toBytes[place]? ≠ image[place]?) : id * cellsPerEntry + step ≤ place := by
  by_cases hlt : place < id * cellsPerEntry + step
  · exact absurd (h.least place hlt) hne
  · omega

theorem hex_byte (byte : UInt8) : Text.hex 2 byte.toNat = byteHex byte := by
  have hall : ∀ value : Fin 256,
      Text.hex 2 value.val = [hexDigit (value.val / 16), hexDigit (value.val % 16)] := by
    decide +kernel
  exact hall ⟨byte.toNat, byte.toNat_lt⟩

theorem MicroOp.ofCode?_eq_some_iff {byte : UInt8} {op : MicroOp} :
    ofCode? byte = some op ↔ op.code = byte := by
  constructor
  · intro h
    have hcodes : ∀ code, code < 93 → all[code]?.map MicroOp.code = some (UInt8.ofNat code) := by
      decide
    have hbyte := hcodes byte.toNat (List.getElem?_eq_some_iff.mp h).1
    rw [show all[byte.toNat]? = some op from h, UInt8.ofNat_toNat] at hbyte
    exact Option.some.inj hbyte
  · intro h
    rw [← h, ofCode?_code]

theorem shownAs_cellName (byte : UInt8) : ShownAs byte (Fault.cellName byte) := by
  unfold Fault.cellName
  cases hop : MicroOp.ofCode? byte with
  | some op => exact ShownAs.code (MicroOp.ofCode?_eq_some_iff.mp hop)
  | none =>
      show ShownAs byte ("$" ++ String.ofList (Text.hex 2 byte.toNat))
      rw [hex_byte]
      exact ShownAs.digits (List.getElem?_eq_none_iff.mp hop)

namespace Table

variable {table : Table} {list : List Descriptor} {path : String} {bytes image : Bytes}
  {fault : Fault}

theorem check_of_read_eq_ok {contents : Except FileFault Bytes} {recorded : Recorded}
    (h : Recorded.read path contents = .ok recorded) :
    table.check path contents = table.compare recorded.image := by
  simp only [check, h, bind, Except.bind]

theorem check_of_hasImage (h : HasImage path bytes image) :
    table.check path (.ok bytes) = table.compare image := by
  obtain ⟨recorded, hread, himage⟩ :
      ∃ recorded, Recorded.read path (.ok bytes) = .ok recorded ∧ recorded.image = image := by
    cases h with
    | hex hpath htext hlines himage =>
        have hread := IntelHex.Document.ofLines_of_not_defective hlines
        have hsame := (IntelHex.Document.isFlat_image_of_ofLines hread).unique himage
        simp only [Recorded.read, Recorded.decode, hpath, if_true, IntelHex.Document.ofFile,
          htext, hread, bind, Except.bind, pure, Except.pure, Except.ok.injEq, exists_eq_left']
        exact hsame
    | bare hpath =>
        simp only [Recorded.read, Recorded.decode, hpath, Bool.false_eq_true, if_false]
        exact ⟨_, rfl, rfl⟩
  rw [check_of_read_eq_ok hread, himage]

theorem check_of_unreadable {contents : Except FileFault Bytes} (h : Unreadable path contents) :
    ∃ fault, table.check path contents = .error fault ∧ fault.kind = .file := by
  cases h with
  | refused reason => exact ⟨.file reason, rfl, rfl⟩
  | notText hpath htext =>
      refine ⟨.file .notText, ?_, rfl⟩
      simp only [check, Recorded.read, Recorded.decode, hpath, if_true, IntelHex.Document.ofFile,
        htext]
      rfl

theorem check_of_noDocument {contents : Except FileFault Bytes} (h : NoDocument path contents) :
    ∃ fault, table.check path contents = .error fault ∧ fault.kind = .general := by
  cases h with
  | defective hpath htext hlines =>
      obtain ⟨fault, hfault⟩ := IntelHex.Document.exists_ofLines_eq_error_iff.mpr hlines
      refine ⟨fault, ?_, IntelHex.Document.kind_of_ofLines_eq_error hfault⟩
      simp only [check, Recorded.read, Recorded.decode, hpath, if_true, IntelHex.Document.ofFile,
        htext, hfault]
      rfl

theorem kind_of_compare_eq_error (h : table.compare image = .error fault) :
    fault.kind = .check := by
  by_cases hlength : image.length = table.cells.length
  · by_cases heq : table.toBytes = image
    · rw [compare_eq_ok_iff.mpr heq] at h
      cases h
    · obtain ⟨_, _, _, _, _, hcompare, _⟩ := exists_compare_eq_error hlength heq
      rw [hcompare] at h
      cases h
      rfl
  · rw [compare, if_pos hlength] at h
    cases h
    rfl

/-- Each file can be read as one thing only: not at all, as no document, or as an image. -/
inductive Reads (path : String) (contents : Except FileFault Bytes) : Prop
  | unreadable (h : Unreadable path contents)
  | noDocument (h : NoDocument path contents)
  | image {bytes image : Bytes} (hbytes : contents = .ok bytes) (h : HasImage path bytes image)

theorem reads (path : String) (contents : Except FileFault Bytes) : Reads path contents := by
  cases contents with
  | error reason => exact Reads.unreadable (Unreadable.refused reason)
  | ok bytes =>
      cases hpath : Path.hasExtension "hex" path with
      | false => exact Reads.image rfl (HasImage.bare hpath)
      | true =>
          cases htext : ofUtf8? bytes with
          | none => exact Reads.unreadable (Unreadable.notText hpath htext)
          | some text =>
              by_cases hlines : IntelHex.Defective (fileLines text)
              · exact Reads.noDocument (NoDocument.defective hpath htext hlines)
              · exact Reads.image rfl (hasImage_of_not_defective hpath htext hlines)

theorem check_eq_ok_iff_hasImage {contents : Except FileFault Bytes} :
    table.check path contents = .ok () ↔
      ∃ bytes, contents = .ok bytes ∧ HasImage path bytes table.toBytes := by
  constructor
  · intro h
    cases reads path contents with
    | unreadable hunreadable =>
        obtain ⟨fault, hcheck, _⟩ := check_of_unreadable hunreadable
        rw [hcheck] at h
        cases h
    | noDocument hnone =>
        obtain ⟨fault, hcheck, _⟩ := check_of_noDocument hnone
        rw [hcheck] at h
        cases h
    | @image bytes image hbytes himage =>
        rw [hbytes, check_of_hasImage himage, compare_eq_ok_iff] at h
        rw [h]
        exact ⟨bytes, hbytes, himage⟩
  · intro h
    obtain ⟨bytes, rfl, himage⟩ := h
    rw [check_of_hasImage himage, compare_eq_ok_iff]

theorem kind_of_check_eq_error {contents : Except FileFault Bytes}
    (h : table.check path contents = .error fault) (hreadable : ¬ Unreadable path contents)
    (hdocument : ¬ NoDocument path contents) : fault.kind = .check := by
  cases reads path contents with
  | unreadable hunreadable => exact absurd hunreadable hreadable
  | noDocument hnone => exact absurd hnone hdocument
  | image hbytes himage =>
      rw [hbytes, check_of_hasImage himage] at h
      exact kind_of_compare_eq_error h

theorem exists_firstDifference (hlength : image.length = table.cells.length)
    (hne : image ≠ table.toBytes) :
    ∃ id step expected found, FirstDifference table image id step expected found ∧
      table.compare image = .error (.differs id step expected found) := by
  obtain ⟨id, step, cell, byte, hstep, hcompare, hcell, hbyte, hdiffers, hbefore⟩ :=
    exists_compare_eq_error hlength (Ne.symm hne)
  refine ⟨id, step, cell.microOp, byte, ?_, hcompare⟩
  exact {
    step_lt := hstep
    of_table := by rw [hcell, Option.map_some]
    of_image := hbyte
    differs := hdiffers
    least := hbefore }

theorem exists_message_differs (id step : Nat) (expected : MicroOp) (found : UInt8) :
    ∃ name, ShownAs found name ∧ (Fault.differs id step expected found).message =
      Fault.checkFailed ("opcode " ++ Fault.numbered "$" id ++ " step " ++ toString step ++
        ": expected " ++ expected.name ++ ", found " ++ name) :=
  ⟨_, shownAs_cellName found, rfl⟩

/--
A file passes the check of a generated table exactly if it has the bytes of the table as its image.
Otherwise the fault is one of the file if the file cannot be read, or is no text though its name
asks for one; else a general one if the text is no document; and in all remaining cases one of the
check. An image of another size is reported with both sizes, and one of the same size by the first
place where it differs, with what the table has there and what was found.
-/
theorem check_locates_difference (h : ofDescriptors list = .ok table) (path : String)
    (contents : Except FileFault Bytes) :
    (table.check path contents = .ok () ↔
      ∃ bytes, contents = .ok bytes ∧ HasImage path bytes table.toBytes) ∧
    (Unreadable path contents →
      ∃ fault, table.check path contents = .error fault ∧ fault.kind = .file) ∧
    (NoDocument path contents →
      ∃ fault, table.check path contents = .error fault ∧ fault.kind = .general) ∧
    (∀ fault, table.check path contents = .error fault → ¬ Unreadable path contents →
      ¬ NoDocument path contents → fault.kind = .check) ∧
    ∀ bytes image, contents = .ok bytes → HasImage path bytes image →
      (image.length ≠ cellCount →
        table.check path contents = .error (.wrongSize image.length cellCount) ∧
        (Fault.wrongSize image.length cellCount).message =
          Fault.checkFailed ("table has " ++ toString image.length ++ " cells; expected " ++
            toString cellCount)) ∧
      (image.length = cellCount → image ≠ table.toBytes →
        ∃ id step expected found name, FirstDifference table image id step expected found ∧
          ShownAs found name ∧
          table.check path contents = .error (.differs id step expected found) ∧
          (Fault.differs id step expected found).message =
            Fault.checkFailed ("opcode " ++ Fault.numbered "$" id ++ " step " ++ toString step ++
              ": expected " ++ expected.name ++ ", found " ++ name)) := by
  refine ⟨check_eq_ok_iff_hasImage, check_of_unreadable, check_of_noDocument,
    fun _ => kind_of_check_eq_error, ?_⟩
  intro bytes image hbytes himage
  rw [hbytes, check_of_hasImage himage, ← length_cells_of_ofDescriptors h]
  constructor
  · intro hlength
    exact ⟨by rw [compare, if_pos hlength], rfl⟩
  · intro hlength hne
    obtain ⟨id, step, expected, found, hfirst, hcompare⟩ := exists_firstDifference hlength hne
    obtain ⟨name, hname, hmessage⟩ := exists_message_differs id step expected found
    exact ⟨id, step, expected, found, name, hfirst, hname, hcompare, hmessage⟩

theorem getElem?_toBytes_ne (table : Table) (place : Nat) : table.toBytes[place]? ≠ some 0xFF := by
  rw [toBytes, List.getElem?_map]
  intro hcode
  obtain ⟨cell, _, hcell⟩ := Option.map_eq_some_iff.mp hcode
  cases MicroOp.ofCode?_eq_some_iff.mpr hcell

theorem firstDifference_set_zero {id step : Nat} {expected : MicroOp} {found : UInt8}
    (h : FirstDifference table (table.toBytes.set 0 0xFF) id step expected found) :
    id = 0 ∧ step = 0 ∧ found = 0xFF := by
  obtain ⟨hplace, hfound⟩ := List.getElem?_eq_some_iff.mp h.of_image
  rw [List.length_set] at hplace
  have hset : (table.toBytes.set 0 0xFF)[0]? = some 0xFF := List.getElem?_set_self (by omega)
  have hle := h.le_of_ne (hset ▸ table.getElem?_toBytes_ne 0)
  obtain ⟨rfl, rfl⟩ : id = 0 ∧ step = 0 := by
    simp only [cellsPerEntry] at hle
    omega
  exact ⟨rfl, rfl, Option.some.inj (h.of_image.symm.trans hset)⟩

/-- Hex documents of the table, of the table with one byte that is no code, and of nothing; bytes
that are no text and text that is no document; and two files of bare bytes. -/
theorem check_standard_damaged :
    ∃ table text damaged expected, ofDescriptors Descriptor.standard = .ok table ∧
      table.encode .hex none = .ok text ∧ table.check "table.hex" (.ok text) = .ok () ∧
      (∃ document, IntelHex.Document.ofFile damaged = .ok document ∧
        document.image = table.toBytes.set 0 0xFF) ∧
      table.check "table.hex" (.ok damaged) = .error (.differs 0 0 expected 0xFF) ∧
      table.check "table.hex" (.ok (utf8 ":00000001FF\n")) = .error (.wrongSize 0 cellCount) ∧
      (∃ fault, table.check "old.HEX" (.ok [0x3A, 0x30, 0x30, 0x0A, 0xFF]) = .error fault ∧
        fault.kind = .file) ∧
      (∃ fault, table.check "old.hex" (.ok [0x3A, 0x30, 0x0A]) = .error fault ∧
        fault.kind = .general) ∧
      table.check "hex" (.ok []) = .error (.wrongSize 0 cellCount) ∧
      ∃ expected, table.check ".hex" (.ok (table.toBytes.set 0 0xFF)) =
        .error (.differs 0 0 expected 0xFF) := by
  obtain ⟨table, h⟩ := exists_ofDescriptors_standard
  have hroom := length_toBytes_le_maxImage h
  have hsize : table.toBytes.length = cellCount := by
    rw [toBytes, List.length_map, length_cells_of_ofDescriptors h]
  generalize hset : table.toBytes.set 0 0xFF = changed
  have hlength : changed.length = cellCount := by rw [← hset, List.length_set, hsize]
  have hdiffers : changed ≠ table.toBytes := by
    intro heq
    apply table.getElem?_toBytes_ne 0
    rw [← heq, ← hset]
    exact List.getElem?_set_self (by rw [hsize]; decide)
  have hname : Path.hasExtension "hex" "table.hex" = true := by rfl
  have hnothing : utf8 ":00000001FF\n" = IntelHex.written (IntelHex.imageRecords []) := by
    rw [← IntelHex.utf8_join_display, IntelHex.imageRecords, IntelHex.dataRecords, IntelHex.pieces]
    rfl
  have hfile := IntelHex.Document.exists_ofFile_written
    (show changed.length ≤ IntelHex.maxImage by rwa [hlength, ← hsize])
  obtain ⟨id, step, expected, found, _, hfirst, _, hcheck, _⟩ :=
    ((check_locates_difference h "table.hex" _).2.2.2.2 _ _ rfl
      (hasImage_written hname (hlength ▸ by decide))).2 hlength hdiffers
  rw [← hset] at hfirst
  obtain ⟨rfl, rfl, rfl⟩ := firstDifference_set_zero hfirst
  refine ⟨table, _, _, expected, h, encode_hex h none, ?_, hset ▸ hfile, hcheck, ?_, ?_, ?_, ?_,
    ?_⟩
  · exact (check_locates_difference h "table.hex" _).1.mpr
      ⟨_, rfl, hasImage_written hname hroom⟩
  · have himage := hasImage_written hname (show [].length ≤ IntelHex.maxImage by decide)
    rw [← hnothing] at himage
    exact (((check_locates_difference h "table.hex" _).2.2.2.2 _ _ rfl himage).1 (by decide)).1
  · have htext : ofUtf8? ([0x3A, 0x30, 0x30, 0x0A] ++ 0xFF :: []) = none :=
      ofUtf8?_eq_none_of_foreign (by simp [isForeign]) (List.forall_mem_nil _) (by decide)
    exact (check_locates_difference h "old.HEX" _).2.1 (Unreadable.notText (by rfl) htext)
  · have hascii : ∀ b ∈ [0x3A, 0x30, 0x0A], isForeign b = false := by simp [isForeign]
    have htext := ofUtf8?_of_ascii hascii
    exact (check_locates_difference h "old.hex" _).2.2.1
      (NoDocument.defective (by rfl) htext (Or.inr (by decide)))
  · have himage : HasImage "hex" [] [] := HasImage.bare (by rfl)
    exact (((check_locates_difference h "hex" _).2.2.2.2 _ _ rfl himage).1 (by decide)).1
  · have himage : HasImage ".hex" changed changed := HasImage.bare (by rfl)
    obtain ⟨id, step, expected, found, _, hfirst, _, hcheck, _⟩ :=
      ((check_locates_difference h ".hex" _).2.2.2.2 _ _ rfl himage).2 hlength hdiffers
    rw [← hset] at hfirst
    obtain ⟨rfl, rfl, rfl⟩ := firstDifference_set_zero hfirst
    rw [hset]
    exact ⟨expected, hcheck⟩

end Table

end CycleTable
