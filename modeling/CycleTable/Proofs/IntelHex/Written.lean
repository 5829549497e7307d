import CycleTable.Proofs.IntelHex.Image
import CycleTable.Proofs.Text.Ascii
import CycleTable.Proofs.Text.Lines

/-!
# Written records

The bytes of a run of records as a document is written, and what is read from bytes that
start or end in such a run.
-/

namespace CycleTable.IntelHex

open Text

def lineFeed : UInt8 := 10

def Record.lineBytes (record : Record) : Bytes :=
  record.line.map Char.toUInt8

/-- The bytes of records that are written one after the other. -/
def written (records : List Record) : Bytes :=
  joinLines lineFeed (records.map Record.lineBytes)

theorem written_append (front back : List Record) :
    written (front ++ back) = written front ++ written back := by
  rw [written, List.map_append, joinLines_append]
  rfl

theorem written_cons (record : Record) (rest : List Record) :
    written (record :: rest) = record.lineBytes ++ lineFeed :: written rest := by
  rw [written, List.map_cons, joinLines_cons]
  rfl

namespace Record

theorem line_ascii {record : Record} {c : Char} (h : c ∈ record.line) : c.toNat < 128 := by
  rw [line_eq] at h
  rcases List.mem_cons.mp h with rfl | hdigit
  · decide
  · have hwritten := isWrittenDigit_of_mem_digits hdigit
    unfold IsWrittenDigit at hwritten
    omega

theorem newline_not_mem_line (record : Record) : '\n' ∉ record.line := by
  rw [line_eq, List.mem_cons, not_or]
  refine ⟨by decide, ?_⟩
  intro hmem
  have hdigit := isHexDigit_of_mem_digits hmem
  rw [not_isHexDigit_newline] at hdigit
  cases hdigit

theorem lineBytes_ascii {record : Record} {byte : UInt8} (h : byte ∈ record.lineBytes) :
    isForeign byte = false := by
  rcases List.mem_map.mp h with ⟨c, hc, rfl⟩
  exact isForeign_toUInt8 (line_ascii hc)

theorem map_lineBytes (record : Record) :
    record.lineBytes.map Char.ofUInt8 = record.line := by
  rw [lineBytes, List.map_map]
  have hround : ∀ c ∈ record.line, (Char.ofUInt8 ∘ Char.toUInt8) c = c := by
    intro c hc
    exact ofUInt8_toUInt8 (line_ascii hc)
  rw [List.map_congr_left hround, List.map_id']

theorem lineFeed_not_mem_lineBytes (record : Record) : lineFeed ∉ record.lineBytes := by
  intro hmem
  have hnewline := List.mem_map_of_mem (f := Char.ofUInt8) hmem
  rw [map_lineBytes] at hnewline
  exact newline_not_mem_line record hnewline

end Record

theorem lineFeed_not_mem_of_mem_map (records : List Record) :
    ∀ line ∈ records.map Record.lineBytes, lineFeed ∉ line := by
  intro line hline
  rcases List.mem_map.mp hline with ⟨record, _, rfl⟩
  exact record.lineFeed_not_mem_lineBytes

theorem written_ascii {records : List Record} {byte : UInt8} (h : byte ∈ written records) :
    isForeign byte = false := by
  induction records with
  | nil => cases h
  | cons record rest ih =>
      rw [written_cons] at h
      rcases List.mem_append.mp h with hline | hmore
      · exact Record.lineBytes_ascii hline
      · rcases List.mem_cons.mp hmore with rfl | hrest
        · decide
        · exact ih hrest

theorem join_display (records : List Record) :
    String.join (records.map Record.display) =
      String.ofList (joinLines '\n' (records.map Record.line)) := by
  apply String.toList_inj.mp
  simp [String.toList_join, joinLines, List.flatMap_map, Record.display]

theorem fileLines_join_display (records : List Record) :
    fileLines (String.join (records.map Record.display)) = records.map Record.line := by
  rw [join_display]
  apply fileLines_joinLines
  intro line hline
  rcases List.mem_map.mp hline with ⟨record, _, rfl⟩
  refine ⟨record.newline_not_mem_line, ?_⟩
  intro hlast
  rcases List.mem_cons.mp (List.mem_of_getLast? hlast) with hcolon | hdigit
  · exact absurd hcolon (by decide)
  · exact absurd (Record.isHexDigit_of_mem_digits hdigit) (by decide)

theorem Document.display_eq_ok_iff {document : Document} {text : String} :
    document.display = .ok text ↔
      document.ended = true ∧ String.join (document.records.toList.map Record.display) = text := by
  unfold display
  cases document.ended with
  | true => simp
  | false => simp

theorem utf8_join_display (records : List Record) :
    utf8 (String.join (records.map Record.display)) = written records := by
  have hascii : ∀ c ∈ joinLines '\n' (records.map Record.line), c.toNat < 128 := by
    intro c hc
    rcases List.mem_flatMap.mp hc with ⟨line, hline, hmem⟩
    rcases List.mem_map.mp hline with ⟨record, _, rfl⟩
    rcases List.mem_append.mp hmem with hin | hfeed
    · exact Record.line_ascii hin
    · rw [List.mem_singleton.mp hfeed]
      decide
  rw [join_display, utf8_of_ascii hascii, map_joinLines, List.map_map]
  rfl

def byteLines (bytes : Bytes) : List (List Char) :=
  (bytes.map Char.ofUInt8).splitOn '\n'

theorem byteLines_append_cons (front back : Bytes) :
    byteLines (front ++ lineFeed :: back) = byteLines front ++ byteLines back := by
  have hfeed : Char.ofUInt8 lineFeed = '\n' := rfl
  rw [byteLines, List.map_append, List.map_cons, hfeed, List.splitOn_append_cons_self]
  rfl

theorem byteLines_of_not_mem {bytes : Bytes} (h : lineFeed ∉ bytes) :
    byteLines bytes = [bytes.map Char.ofUInt8] := by
  apply List.splitOn_eq_singleton
  intro hmem
  rcases List.mem_map.mp hmem with ⟨byte, hbyte, hnewline⟩
  have hfeed : byte = lineFeed := ofUInt8_inj.mp hnewline
  rw [hfeed] at hbyte
  exact h hbyte

theorem byteLines_lineBytes (record : Record) : byteLines record.lineBytes = [record.line] := by
  rw [byteLines_of_not_mem record.lineFeed_not_mem_lineBytes, record.map_lineBytes]

theorem byteLines_written_append (records : List Record) (rest : Bytes) :
    byteLines (written records ++ rest) = records.map Record.line ++ byteLines rest := by
  induction records with
  | nil => rfl
  | cons record more ih =>
      rw [written_cons, List.append_assoc, List.cons_append, byteLines_append_cons,
        byteLines_lineBytes, ih]
      rfl

theorem holds_written_append_iff {records found : List Record} {rest : Bytes}
    (h : ∀ record ∈ records, record.data.length < 256) :
    Holds (byteLines (written records ++ rest)) found ↔
      ∃ more, Holds (byteLines rest) more ∧ found = records ++ more := by
  rw [byteLines_written_append, holds_append_iff]
  constructor
  · intro hholds
    rcases hholds with ⟨first, second, hfirst, hsecond, rfl⟩
    rw [hfirst.unique (holds_map_line h)]
    exact ⟨second, hsecond, rfl⟩
  · intro hholds
    rcases hholds with ⟨more, hmore, rfl⟩
    exact ⟨records, more, holds_map_line h, hmore, rfl⟩

theorem holds_written_iff {records found : List Record}
    (h : ∀ record ∈ records, record.data.length < 256) :
    Holds (byteLines (written records)) found ↔ found = records := by
  have hblank : byteLines [] = [[]] := rfl
  rw [← List.append_nil (written records), holds_written_append_iff h, hblank]
  simp only [holds_blank_iff]
  constructor
  · intro hholds
    rcases hholds with ⟨more, rfl, rfl⟩
    exact List.append_nil records
  · intro heq
    exact ⟨[], rfl, by rw [heq, List.append_nil]⟩

theorem holds_append_written_iff {records found : List Record} {rest : Bytes}
    (h : ∀ record ∈ records, record.data.length < 256) :
    Holds (byteLines (rest ++ lineFeed :: written records)) found ↔
      ∃ more, Holds (byteLines rest) more ∧ found = more ++ records := by
  rw [byteLines_append_cons, holds_append_iff]
  simp only [holds_written_iff h]
  constructor
  · intro hholds
    rcases hholds with ⟨more, _, hmore, rfl, rfl⟩
    exact ⟨more, hmore, rfl⟩
  · intro hholds
    rcases hholds with ⟨more, hmore, rfl⟩
    exact ⟨more, records, hmore, rfl, rfl⟩

theorem Document.ofFile_ascii_eq_ok_iff {contents : Bytes} {document : Document}
    (h : ∀ byte ∈ contents, isForeign byte = false) :
    ofFile contents = .ok document ↔
      ∃ records, Holds (byteLines contents) records ∧ IsEnded records ∧
        document = ⟨records.toArray, true⟩ := by
  rw [ofFile_eq_ok_iff (ofUtf8?_of_ascii h), String.toList_ofList]
  rfl

theorem Document.ofFile_written {records : List Record}
    (h : ∀ record ∈ records, record.data.length < 256) (hended : IsEnded records) :
    ofFile (written records) = .ok ⟨records.toArray, true⟩ := by
  rw [ofFile_ascii_eq_ok_iff fun byte hbyte => written_ascii hbyte]
  exact ⟨records, (holds_written_iff h).mpr rfl, hended, rfl⟩

theorem Document.exists_ofFile_written {image : Bytes} (h : image.length ≤ maxImage) :
    ∃ document, ofFile (written (imageRecords image)) = .ok document ∧ document.image = image :=
  ⟨_, ofFile_written (fun _ hrecord => length_data_of_mem_imageRecords h hrecord)
    (isEnded_imageRecords h), image_ofImage (ofImage_eq_ok_iff.mpr ⟨h, rfl⟩)⟩

/-!
## Noise between and around lines

Blanks around a line, the case of its letters, and further lines that hold no record make no
difference to the document that is read. So an image comes back from the lines it was written
as, whatever noise was added to them.
-/

open Text

/-- A line has blanks around it, and its letters may have changed their case. -/
def Restyled (line noisy : List Char) : Prop :=
  ∃ before text after, noisy = before ++ text ++ after ∧
    (∀ c ∈ before, isBlank c = true) ∧ (∀ c ∈ after, isBlank c = true) ∧
    text.map Char.toLower = line.map Char.toLower

/-- Each line was restyled, and lines that hold no record stand anywhere between them. -/
inductive Noisy : List (List Char) → List (List Char) → Prop
  | nil : Noisy [] []
  | keep {line noisy : List Char} {lines altered : List (List Char)}
      (hline : Restyled line noisy) (hrest : Noisy lines altered) :
      Noisy (line :: lines) (noisy :: altered)
  | insert {line : List Char} {lines altered : List (List Char)}
      (hline : Record.ofLine line = .ok none) (hrest : Noisy lines altered) :
      Noisy lines (line :: altered)

theorem bytesOfText?_map_toLower (text : List Char) :
    bytesOfText? (text.map Char.toLower) = bytesOfText? text := by
  cases text with
  | nil => rfl
  | cons c digits =>
      by_cases hcolon : c = ':'
      · have hlower : ':'.toLower = ':' := rfl
        simp only [hcolon, List.map_cons, hlower, bytesOfText?, List.isEmpty_map,
          bytesOfHex?_map digitValue?_toLower]
      · have hother : c.toLower ≠ ':' := mt eq_colon_of_toLower hcolon
        simp [bytesOfText?, hcolon, hother]

theorem bytesOfText?_trim_of_restyled {line noisy : List Char} (h : Restyled line noisy) :
    bytesOfText? (trim noisy) = bytesOfText? (trim line) := by
  rcases h with ⟨before, text, after, rfl, hbefore, hafter, hcase⟩
  rw [trim_blanks_append hbefore hafter, ← bytesOfText?_map_toLower, ← trim_map isBlank_toLower,
    hcase, trim_map isBlank_toLower, bytesOfText?_map_toLower]

theorem Record.ofLine_of_restyled {line noisy : List Char} {found : Option Record}
    (hline : Restyled line noisy) (h : ofLine line = .ok found) : ofLine noisy = .ok found := by
  have hbytes := bytesOfText?_trim_of_restyled hline
  cases found with
  | none =>
      rw [ofLine_eq_ok_none_iff] at h ⊢
      rw [hbytes, h]
  | some record =>
      rw [ofLine_eq_ok_some_iff] at h ⊢
      rw [hbytes]
      exact h

theorem holds_of_noisy {lines noisy : List (List Char)} {records : List Record}
    (hnoisy : Noisy lines noisy) (h : Holds lines records) : Holds noisy records := by
  induction hnoisy generalizing records with
  | nil => exact h
  | keep hline _ ih =>
      rcases holds_cons_iff.mp h with ⟨found, rest, hfound, hrest, rfl⟩
      exact holds_cons_iff.mpr
        ⟨found, rest, Record.ofLine_of_restyled hline hfound, ih hrest, rfl⟩
  | insert hline _ ih => exact Holds.skip hline (ih h)

theorem Document.ofLines_of_noisy {lines noisy : List (List Char)} {document : Document}
    (hnoisy : Noisy lines noisy) (h : ofLines lines = .ok document) :
    ofLines noisy = .ok document := by
  rcases ofLines_eq_ok_iff.mp h with ⟨records, hholds, hended, rfl⟩
  exact ofLines_eq_ok_iff.mpr ⟨records, holds_of_noisy hnoisy hholds, hended, rfl⟩

/--
An image that fits is split into data records of thirty-two bytes, of which the last may hold
fewer, and whatever noise is added to the lines they are written as, the image is read from them.
An image that does not fit is refused.
-/
theorem Document.image_of_noisy_lines (image : Bytes) :
    (image.length ≤ 0x10000 →
      ∃ document data text, ofImage image = .ok document ∧
        document.records.toList = data ++ [Record.endOfFile] ∧
        data.length = (image.length + 31) / 32 ∧
        (∀ i record, data[i]? = some record →
          record.isData = true ∧ record.address.toNat = i * 32 ∧ record.data.length ≤ 32 ∧
            record.data = (image.drop (i * 32)).take 32) ∧
        document.display = .ok text ∧
        ∀ noisy, Noisy (fileLines text) noisy →
          ∃ read, ofLines noisy = .ok read ∧ read.image = image) ∧
    (0x10000 < image.length → ofImage image = .error .imageTooLarge) := by
  constructor
  · intro himage
    have hmade : ofImage image = .ok ⟨(imageRecords image).toArray, true⟩ :=
      ofImage_eq_ok_iff.mpr ⟨himage, rfl⟩
    refine ⟨_, dataRecords image, _, hmade, rfl, length_dataRecords image, ?_, rfl, ?_⟩
    · intro i record hrecord
      rcases getElem?_dataRecords himage hrecord with ⟨_, haddress, _, hdata⟩
      rcases of_mem_dataRecords himage (List.mem_of_getElem? hrecord) with ⟨hisData, _, hlength⟩
      exact ⟨hisData, haddress, hlength, hdata⟩
    · intro noisy hnoisy
      rw [fileLines_join_display] at hnoisy
      have hread := ofLines_map_line
        (fun record hrecord => length_data_of_mem_imageRecords himage hrecord)
        (isEnded_imageRecords himage)
      exact ⟨_, ofLines_of_noisy hnoisy hread, image_ofImage hmade⟩
  · intro hlarge
    rw [ofImage]
    exact if_pos hlarge

/-- Three bytes with a remark in front of them, blanks around their line, the end in small letters
and an empty line behind it; and an image that is one byte too long. -/
theorem Document.image_of_three_noisy_lines :
    (∃ read, ofLines ["; three bytes".toList, "\t:03000000010203f7 ".toList,
        ":00000001ff".toList, []] = .ok read ∧ read.image = [1, 2, 3]) ∧
      ofImage (List.replicate 0x10001 0) = .error .imageTooLarge := by
  constructor
  · rcases (image_of_noisy_lines [1, 2, 3]).1 (by decide) with
      ⟨document, _, text, hmade, _, _, _, hdisplay, hread⟩
    rcases ofImage_eq_ok_iff.mp hmade with ⟨_, rfl⟩
    have hrecords : dataRecords [1, 2, 3] = [Record.ofData 0 [1, 2, 3]] := by
      simp [dataRecords, pieces, maxData]
    cases hdisplay
    rw [fileLines_join_display, hrecords] at hread
    apply hread
    refine Noisy.insert (by rfl) (Noisy.keep ?_ (Noisy.keep ?_ (Noisy.insert (by rfl) Noisy.nil)))
    · exact ⟨['\t'], ":03000000010203f7".toList, [' '], by rfl,
        List.forall_mem_singleton.mpr (by decide), List.forall_mem_singleton.mpr (by decide),
        by rfl⟩
    · exact ⟨[], ":00000001ff".toList, [], by rfl, List.forall_mem_nil _, List.forall_mem_nil _,
        by rfl⟩
  · exact (image_of_noisy_lines _).2 (by rw [List.length_replicate]; decide)

end CycleTable.IntelHex
