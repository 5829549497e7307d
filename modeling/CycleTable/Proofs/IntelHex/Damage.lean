import CycleTable.Proofs.IntelHex.Reading
import CycleTable.Proofs.IntelHex.Shape
import CycleTable.Proofs.IntelHex.Written

/-!
# Damage

## One byte or one line of a document

A written document in which one byte or one line was changed either is no document any more,
or has lost records and gained none, or still holds the same records. The last happens to a
digit in the other case of its letter, and to the line feed at the very end.
-/

namespace CycleTable.IntelHex

open Text

/-- One byte was replaced or deleted, or one line with its line feed was deleted. -/
inductive Damage : Bytes → Bytes → Prop
  | replace (front back : Bytes) {old new : UInt8} (hne : new ≠ old) :
      Damage (front ++ old :: back) (front ++ new :: back)
  | delete (front back : Bytes) (old : UInt8) :
      Damage (front ++ old :: back) (front ++ back)
  | deleteLine (front back : List Bytes) (line : Bytes)
      (hlines : ∀ l ∈ front ++ line :: back, lineFeed ∉ l) :
      Damage (joinLines lineFeed (front ++ line :: back)) (joinLines lineFeed (front ++ back))

/-- One letter among the digits is in lower case instead. -/
def CaseChange (text damaged : Bytes) : Prop :=
  ∃ front old new back, text = front ++ old :: back ∧ damaged = front ++ new :: back ∧
    65 ≤ old.toNat ∧ old.toNat ≤ 70 ∧ new.toNat = old.toNat + 32

/-- The line feed at the end is missing, or is another byte instead. -/
def FinalFeedChange (text damaged : Bytes) : Prop :=
  ∃ front rest, text = front ++ [lineFeed] ∧ damaged = front ++ rest ∧ rest.length ≤ 1

/-- Some of the records are missing, and the others are still there. -/
def Lost (records found : List Record) : Prop :=
  ∃ before lost after, records = before ++ lost ++ after ∧ lost ≠ [] ∧ found = before ++ after

def Outcome (records : List Record) (damaged : Bytes) (found : List Record) : Prop :=
  (found = records ∧
      (CaseChange (written records) damaged ∨ FinalFeedChange (written records) damaged)) ∨
    Lost records found

theorem written_eq_append_cons {records : List Record} {front back : Bytes} {old : UInt8}
    (h : written records = front ++ old :: back) :
    ∃ before record after, records = before ++ record :: after ∧
      ((∃ left right, record.lineBytes = left ++ old :: right ∧
          front = written before ++ left ∧ back = right ++ lineFeed :: written after) ∨
        (old = lineFeed ∧ front = written before ++ record.lineBytes ∧
          back = written after)) := by
  rcases joinLines_eq_append_cons h with ⟨before, line, after, hlines, hplace⟩
  rcases List.map_eq_append_iff.mp hlines with ⟨first, rest, rfl, rfl, hrest⟩
  rcases List.map_eq_cons_iff.mp hrest with ⟨record, second, rfl, rfl, rfl⟩
  exact ⟨first, record, second, rfl, hplace⟩

theorem line_eq_of_lineBytes_eq {record : Record} {left right : Bytes} {old : UInt8}
    (h : record.lineBytes = left ++ old :: right) :
    record.line = left.map Char.ofUInt8 ++ Char.ofUInt8 old :: right.map Char.ofUInt8 := by
  rw [← Record.map_lineBytes, h, List.map_append, List.map_cons]

theorem lineFeed_not_mem_of_lineBytes_eq {record : Record} {left right : Bytes} {old : UInt8}
    (h : record.lineBytes = left ++ old :: right) : lineFeed ∉ left ∧ lineFeed ∉ right := by
  have hfeed := record.lineFeed_not_mem_lineBytes
  rw [h, List.mem_append, List.mem_cons, not_or, not_or] at hfeed
  exact ⟨hfeed.1, hfeed.2.2⟩

section Lines

variable {record next : Record} {found : List Record} {left right between : Bytes}
  {old new : UInt8}

theorem holds_replace (hrecord : record.data.length < 256)
    (hline : record.lineBytes = left ++ old :: right) (hne : new ≠ old)
    (h : Holds (byteLines (left ++ new :: right)) found) :
    found = [] ∨ (found = [record] ∧
      65 ≤ old.toNat ∧ old.toNat ≤ 70 ∧ new.toNat = old.toNat + 32) := by
  rcases lineFeed_not_mem_of_lineBytes_eq hline with ⟨hleft, hright⟩
  have hchars := line_eq_of_lineBytes_eq hline
  by_cases hfeed : new = lineFeed
  · left
    rw [hfeed, byteLines_append_cons, byteLines_of_not_mem hleft, byteLines_of_not_mem hright,
      List.singleton_append, holds_cons_iff] at h
    rcases h with ⟨first, rest, hfirst, hrest, rfl⟩
    rcases holds_singleton_iff.mp hrest with ⟨second, hsecond, rfl⟩
    rw [Record.ofLine_front hrecord hchars hfirst, Record.ofLine_back hchars hsecond]
    rfl
  · have hone : lineFeed ∉ left ++ new :: right := by
      rw [List.mem_append, List.mem_cons, not_or, not_or]
      exact ⟨hleft, fun heq => hfeed heq.symm, hright⟩
    rw [byteLines_of_not_mem hone, holds_singleton_iff, List.map_append, List.map_cons] at h
    rcases h with ⟨read, hread, rfl⟩
    have hneChar : Char.ofUInt8 new ≠ Char.ofUInt8 old := fun heq => hne (ofUInt8_inj.mp heq)
    rcases Record.ofLine_replace hchars hneChar hread with rfl | ⟨rfl, hcase⟩
    · exact Or.inl rfl
    · right
      simp only [toNat_ofUInt8] at hcase
      exact ⟨rfl, hcase⟩

theorem holds_delete (hline : record.lineBytes = left ++ old :: right)
    (h : Holds (byteLines (left ++ right)) found) : found = [] := by
  rcases lineFeed_not_mem_of_lineBytes_eq hline with ⟨hleft, hright⟩
  have hone : lineFeed ∉ left ++ right := by
    rw [List.mem_append, not_or]
    exact ⟨hleft, hright⟩
  rw [byteLines_of_not_mem hone, holds_singleton_iff, List.map_append] at h
  rcases h with ⟨read, hread, rfl⟩
  rw [Record.ofLine_delete (line_eq_of_lineBytes_eq hline) hread]
  rfl

theorem holds_joined (hfeed : lineFeed ∉ between)
    (h : Holds (byteLines (record.lineBytes ++ between ++ next.lineBytes)) found) :
    found = [] := by
  have hone : lineFeed ∉ record.lineBytes ++ between ++ next.lineBytes := by
    rw [List.mem_append, List.mem_append, not_or, not_or]
    exact ⟨⟨record.lineFeed_not_mem_lineBytes, hfeed⟩, next.lineFeed_not_mem_lineBytes⟩
  rw [byteLines_of_not_mem hone, holds_singleton_iff, List.map_append, List.map_append,
    record.map_lineBytes, next.map_lineBytes] at h
  rcases h with ⟨read, hread, rfl⟩
  rw [Record.ofLine_joined hread]
  rfl

theorem holds_last (hrecord : record.data.length < 256) (hfeed : lineFeed ∉ between)
    (hlength : between.length ≤ 1)
    (h : Holds (byteLines (record.lineBytes ++ between)) found) :
    found = [] ∨ found = [record] := by
  have hone : lineFeed ∉ record.lineBytes ++ between := by
    rw [List.mem_append, not_or]
    exact ⟨record.lineFeed_not_mem_lineBytes, hfeed⟩
  rw [byteLines_of_not_mem hone, holds_singleton_iff, List.map_append,
    record.map_lineBytes] at h
  rcases h with ⟨read, hread, rfl⟩
  cases between with
  | nil =>
      rw [List.map_nil, List.append_nil, Record.ofLine_line hrecord, Except.ok.injEq] at hread
      rw [← hread]
      exact Or.inr rfl
  | cons byte rest =>
      have hrest : rest = [] := by
        rw [List.length_cons] at hlength
        exact List.length_eq_zero_iff.mp (by omega)
      rw [hrest] at hread
      rcases Record.ofLine_append_char hread with rfl | rfl
      · exact Or.inl rfl
      · exact Or.inr rfl

end Lines

section Documents

variable {before after found : List Record} {record : Record} {left right between damaged : Bytes}
  {old new : UInt8}

theorem lost_record : Lost (before ++ record :: after) (before ++ after) :=
  ⟨before, [record], after, by simp, List.cons_ne_nil record [], rfl⟩

theorem holds_around (hrecords : ∀ r ∈ before ++ record :: after, r.data.length < 256)
    (h : Holds (byteLines (written before ++ left ++ lineFeed :: written after)) found) :
    ∃ more, Holds (byteLines left) more ∧ found = before ++ more ++ after := by
  have hbefore : ∀ r ∈ before, r.data.length < 256 :=
    fun r hr => hrecords r (List.mem_append_left _ hr)
  have hafter : ∀ r ∈ after, r.data.length < 256 :=
    fun r hr => hrecords r (List.mem_append_right _ (List.mem_cons_of_mem record hr))
  rw [List.append_assoc, holds_written_append_iff hbefore] at h
  rcases h with ⟨rest, hrest, rfl⟩
  rcases (holds_append_written_iff hafter).mp hrest with ⟨more, hmore, rfl⟩
  exact ⟨more, hmore, (List.append_assoc _ _ _).symm⟩

theorem outcome_replace (hrecords : ∀ r ∈ before ++ record :: after, r.data.length < 256)
    (hline : record.lineBytes = left ++ old :: right) (hne : new ≠ old)
    (h : Holds (byteLines (written before ++ left ++ new :: (right ++ lineFeed :: written after)))
      found) :
    Outcome (before ++ record :: after)
      (written before ++ left ++ new :: (right ++ lineFeed :: written after)) found := by
  have hrecord := hrecords record (List.mem_append_right _ List.mem_cons_self)
  have htext : written before ++ left ++ new :: (right ++ lineFeed :: written after) =
      written before ++ (left ++ new :: right) ++ lineFeed :: written after := by simp
  rw [htext] at h
  rcases holds_around hrecords h with ⟨more, hmore, rfl⟩
  rcases holds_replace hrecord hline hne hmore with rfl | ⟨rfl, hcase⟩
  · right
    rw [List.append_nil]
    exact lost_record
  · left
    refine ⟨by simp, Or.inl ⟨written before ++ left, old, new,
      right ++ lineFeed :: written after, ?_, rfl, hcase⟩⟩
    rw [written_append, written_cons, hline]
    simp

theorem lost_delete (hrecords : ∀ r ∈ before ++ record :: after, r.data.length < 256)
    (hline : record.lineBytes = left ++ old :: right)
    (h : Holds (byteLines (written before ++ left ++ (right ++ lineFeed :: written after)))
      found) :
    Lost (before ++ record :: after) found := by
  have htext : written before ++ left ++ (right ++ lineFeed :: written after) =
      written before ++ (left ++ right) ++ lineFeed :: written after := by simp
  rw [htext] at h
  rcases holds_around hrecords h with ⟨more, hmore, rfl⟩
  rw [holds_delete hline hmore, List.append_nil]
  exact lost_record

theorem outcome_feed (hrecords : ∀ r ∈ before ++ record :: after, r.data.length < 256)
    (hfeed : lineFeed ∉ between) (hlength : between.length ≤ 1)
    (h : Holds (byteLines (written before ++ record.lineBytes ++ between ++ written after))
      found) :
    Outcome (before ++ record :: after)
      (written before ++ record.lineBytes ++ between ++ written after) found := by
  have hrecord := hrecords record (List.mem_append_right _ List.mem_cons_self)
  have hbefore : ∀ r ∈ before, r.data.length < 256 :=
    fun r hr => hrecords r (List.mem_append_left _ hr)
  cases after with
  | nil =>
      have hnil : written [] = [] := rfl
      rw [hnil, List.append_nil] at h ⊢
      rw [List.append_assoc, holds_written_append_iff hbefore] at h
      rcases h with ⟨more, hmore, rfl⟩
      rcases holds_last hrecord hfeed hlength hmore with rfl | rfl
      · right
        exact lost_record
      · left
        refine ⟨rfl, Or.inr ⟨written before ++ record.lineBytes, between, ?_, rfl, hlength⟩⟩
        rw [written_append, written_cons, hnil, List.append_assoc]
  | cons next after =>
      have htext : written before ++ record.lineBytes ++ between ++ written (next :: after) =
          written before ++ (record.lineBytes ++ between ++ next.lineBytes) ++
            lineFeed :: written after := by
        rw [written_cons]
        simp
      rw [htext] at h
      have hrest : ∀ r ∈ before ++ record :: after, r.data.length < 256 := by
        intro r hr
        apply hrecords r
        simp only [List.mem_append, List.mem_cons] at hr ⊢
        rcases hr with hr | hr | hr
        · exact Or.inl hr
        · exact Or.inr (Or.inl hr)
        · exact Or.inr (Or.inr (Or.inr hr))
      rcases holds_around hrest h with ⟨more, hmore, rfl⟩
      right
      rw [holds_joined hfeed hmore, List.append_nil]
      exact ⟨before, [record, next], after, by simp, List.cons_ne_nil record _, rfl⟩

end Documents

/-- What is read from a damaged document holds the same records or fewer. -/
theorem outcome_of_damage {records : List Record} {damaged : Bytes} {document : Document}
    (hrecords : ∀ record ∈ records, record.data.length < 256)
    (h : Damage (written records) damaged) (hread : Document.ofFile damaged = .ok document) :
    Outcome records damaged document.records.toList := by
  have hholds : (∀ byte ∈ damaged, isForeign byte = false) →
      Holds (byteLines damaged) document.records.toList := by
    intro hascii
    rcases (Document.ofFile_ascii_eq_ok_iff hascii).mp hread with ⟨found, hfound, _, rfl⟩
    exact hfound
  have hclean : ∀ byte ∈ written records, isForeign byte = false :=
    fun byte hbyte => written_ascii hbyte
  generalize htext : written records = text at h hclean
  cases h with
  | replace front back hne =>
      rename_i old new
      have hfront : ∀ byte ∈ front, isForeign byte = false :=
        fun byte hbyte => hclean byte (List.mem_append_left _ hbyte)
      have hback : ∀ byte ∈ back, isForeign byte = false :=
        fun byte hbyte => hclean byte (List.mem_append_right _ (List.mem_cons_of_mem _ hbyte))
      cases hforeign : isForeign new with
      | true =>
          rw [Document.ofFile, ofUtf8?_eq_none_of_foreign hfront hback hforeign] at hread
          cases hread
      | false =>
          have hfound := hholds fun byte hbyte => by
            rcases List.mem_append.mp hbyte with hin | hin
            · exact hfront byte hin
            · rcases List.mem_cons.mp hin with rfl | hin
              · exact hforeign
              · exact hback byte hin
          -- The byte lies in the line of a record, or it is the feed behind one.
          rcases written_eq_append_cons htext with
            ⟨before, record, after, rfl, ⟨left, right, hline, rfl, rfl⟩ | ⟨rfl, rfl, rfl⟩⟩
          · exact outcome_replace hrecords hline hne hfound
          · have hfeed : lineFeed ∉ [new] := by
              rw [List.mem_singleton]
              exact hne.symm
            have hsame : written before ++ record.lineBytes ++ new :: written after =
                written before ++ record.lineBytes ++ [new] ++ written after := by simp
            rw [hsame] at hfound ⊢
            exact outcome_feed hrecords hfeed (Nat.le_refl 1) hfound
  | delete front back old =>
      have hfound := hholds fun byte hbyte => by
        rcases List.mem_append.mp hbyte with hin | hin
        · exact hclean byte (List.mem_append_left _ hin)
        · exact hclean byte (List.mem_append_right _ (List.mem_cons_of_mem _ hin))
      rcases written_eq_append_cons htext with
        ⟨before, record, after, rfl, ⟨left, right, hline, rfl, rfl⟩ | ⟨rfl, rfl, rfl⟩⟩
      · exact Or.inr (lost_delete hrecords hline hfound)
      · have hsame : written before ++ record.lineBytes ++ written after =
            written before ++ record.lineBytes ++ [] ++ written after := by simp
        rw [hsame] at hfound ⊢
        exact outcome_feed hrecords List.not_mem_nil (Nat.zero_le 1) hfound
  | deleteLine front back line hlines =>
      have hsplit := (joinLines_inj (lineFeed_not_mem_of_mem_map records) hlines).mp htext
      rcases List.map_eq_append_iff.mp hsplit with ⟨before, rest, rfl, rfl, hrest⟩
      rcases List.map_eq_cons_iff.mp hrest with ⟨record, after, rfl, rfl, rfl⟩
      have hsame : joinLines lineFeed
          (before.map Record.lineBytes ++ after.map Record.lineBytes) =
            written (before ++ after) := by
        rw [written, List.map_append]
      rw [hsame] at hread hholds ⊢
      have hkept : ∀ r ∈ before ++ after, r.data.length < 256 := by
        intro r hr
        apply hrecords r
        rcases List.mem_append.mp hr with hr | hr
        · exact List.mem_append_left _ hr
        · exact List.mem_append_right _ (List.mem_cons_of_mem record hr)
      have hfound := hholds fun byte hbyte => written_ascii hbyte
      rw [(holds_written_iff hkept).mp hfound]
      exact Or.inr lost_record

/-- When records of an image are lost and the end is not, nothing covers the place where the
first lost piece starts. -/
theorem exists_misses_of_lost {image : Bytes} (himage : image.length ≤ maxImage)
    {found : List Record} (hlost : Lost (imageRecords image) found) (hended : IsEnded found) :
    ∃ i, i * maxData < image.length ∧ ∀ record ∈ found, record.Misses (i * maxData) := by
  rcases hlost with ⟨before, lost, after, hrecords, hne, rfl⟩
  rcases List.eq_nil_or_concat after with rfl | ⟨middle, last, rfl⟩
  · -- The end itself is lost, and no data record ends a document.
    rcases List.eq_nil_or_concat lost with rfl | ⟨more, final, rfl⟩
    · exact absurd rfl hne
    · rw [imageRecords, List.append_nil, List.concat_eq_append, ← List.append_assoc] at hrecords
      have hdata := (List.append_inj' hrecords rfl).1
      rcases hended with ⟨front, ending, hfound, hending, _⟩
      rw [List.append_nil] at hfound
      have hmem : ending ∈ dataRecords image := by
        rw [hdata, hfound]
        simp
      rw [(of_mem_dataRecords himage hmem).2.1] at hending
      cases hending
  · cases lost with
    | nil => exact absurd rfl hne
    | cons first more =>
        rw [imageRecords, List.concat_eq_append, ← List.append_assoc] at hrecords
        rcases List.append_inj' hrecords rfl with ⟨hdata, hlast⟩
        have hfirst : (dataRecords image)[before.length]? = some first := by
          rw [hdata, List.append_assoc, List.getElem?_append_right (Nat.le_refl _), Nat.sub_self]
          rfl
        refine ⟨before.length, (getElem?_dataRecords himage hfirst).1, ?_⟩
        intro record hrecord
        rw [List.concat_eq_append] at hrecord
        -- The pieces that are left keep their places, before or behind the first that is lost.
        rcases List.mem_append.mp hrecord with hbefore | hafter
        · rcases List.mem_iff_getElem?.mp hbefore with ⟨j, hj⟩
          have hlt := (List.getElem?_eq_some_iff.mp hj).1
          apply misses_of_dataRecords himage (i := j) _ (Nat.ne_of_lt hlt)
          rw [hdata, List.append_assoc, List.getElem?_append_left hlt, hj]
        · rcases List.mem_append.mp hafter with hmiddle | hend
          · rcases List.mem_iff_getElem?.mp hmiddle with ⟨j, hj⟩
            apply misses_of_dataRecords himage
              (i := (before ++ first :: more).length + j) _ (by simp; omega)
            rw [hdata, List.getElem?_append_right (Nat.le_add_right _ _), Nat.add_sub_cancel_left,
              hj]
          · rw [List.mem_singleton.mp hend, ← List.singleton_inj.mp hlast]
            exact misses_endOfFile _

end CycleTable.IntelHex

/-!
## One wrong digit

A digit of another value in the line of a record is found, by the count if it belongs to the
count and by the sum if not. A digit that is missing, or a character in its place that is no
digit, takes the shape of a record from the line. The line is then passed over, and a document
is read as if the record had never been in it.
-/

namespace CycleTable.IntelHex

open Text

/-- One digit of a text is missing, or another character stands for it that is no digit. -/
inductive Broken : List Char → List Char → Prop
  | missing {left right : List Char} {old : Char} (hold : isHexDigit old = true) :
      Broken (left ++ old :: right) (left ++ right)
  | foreign {left right : List Char} {old new : Char} (hold : isHexDigit old = true)
      (hnew : isHexDigit new = false) : Broken (left ++ old :: right) (left ++ new :: right)

namespace Record

variable {record : Record} {left right : List Char} {old new : Char}

theorem ofLine_of_broken {broken : List Char} (h : Broken record.line broken) :
    ofLine broken = .ok none := by
  rw [ofLine_eq_ok_none_iff]
  generalize hline : record.line = line at h
  cases h with
  | @missing left right old hold =>
      have hgap := bytesOfText?_of_gap hline hold [] (List.forall_mem_nil _) (Nat.zero_le 1)
      rwa [List.append_nil] at hgap
  | @foreign left right old new hold hnew =>
      have hgap := bytesOfText?_of_gap hline hold [new]
        (List.forall_mem_singleton.mpr hnew) (Nat.le_refl 1)
      rwa [List.append_assoc] at hgap

theorem ofLine_append_newline (text : List Char) : ofLine (text ++ ['\n']) = ofLine text := by
  unfold ofLine
  rw [trim_append_blank isBlank_newline]

/--
Whatever record a line is of, and whichever of its digits is missing or is a foreign character
now, nothing is reported: the line is passed over, with or without its line feed, and any document
reads the same with it as without it.
-/
theorem passes_over_broken_line {broken : List Char} (h : Broken record.line broken) :
    ofLine broken = .ok none ∧ ofLine (broken ++ ['\n']) = .ok none ∧
      ∀ front back, Document.ofLines (front ++ broken :: back) =
        Document.ofLines (front ++ back) := by
  have hbroken := ofLine_of_broken h
  exact ⟨hbroken, by rw [ofLine_append_newline, hbroken],
    Document.ofLines_of_passed_over hbroken⟩

/-- A data record is lost with one of its digits, and the document without it is accepted. -/
theorem passes_over_broken_data_line :
    Broken (ofData 0x30 [2, 0x33, 0x7A]).line ":030030002337A1E".toList ∧
      Document.ofLines [":030030002337A1E".toList, ":00000001FF".toList] =
        Document.ofLines [":00000001FF".toList] := by
  have hbroken : Broken (ofData 0x30 [2, 0x33, 0x7A]).line ":030030002337A1E".toList :=
    @Broken.missing ":03003000".toList "2337A1E".toList '0' rfl
  exact ⟨hbroken, (passes_over_broken_line hbroken).2.2 [] [":00000001FF".toList]⟩

/-- A line may start in a colon and be passed over: the one that ends a document, with a letter for
one of its digits, neither holds a record nor is refused. -/
theorem colon_line_passed_over :
    Broken endOfFile.line ":0000000GFF".toList ∧
      ¬ ∀ text rest, trimStart text = ':' :: rest → ofLine text ≠ .ok none := by
  constructor
  · exact @Broken.foreign ":0000000".toList "FF".toList '1' 'G' rfl rfl
  · intro hreported
    exact hreported ":0000000GFF".toList "0000000GFF".toList (by rfl) (by rfl)

theorem ofBytes_of_changed_byte {before after : Bytes} {byte other : UInt8}
    (hdata : record.data.length < 256) (h : record.toBytes = before ++ byte :: after)
    (hne : other ≠ byte) :
    ofBytes (before ++ other :: after) =
      .error (if before.length = 0 then .length else .checksum) := by
  cases before with
  | nil =>
      rw [List.nil_append] at h
      have hlength := length_eq_of_toBytes_eq_cons hdata h
      rw [List.length_cons] at hlength
      apply ofBytes_of_length_ne
      rw [List.length_cons, hlength]
      intro hcount
      exact hne (UInt8.toNat_inj.mp (by omega))
  | cons count more =>
      have hlength := length_eq_of_toBytes_eq_cons hdata h
      apply ofBytes_of_checksum_ne
      · simpa using hlength
      · intro hsum
        rw [← checksum_toBytes record, h] at hsum
        have hsame : checksum (count :: more ++ other :: after) =
            checksum (count :: more ++ byte :: after) := hsum
        exact hne (checksum_replace hsame)

/--
One digit of a record's line stands for another value. In the count, which are the first two digits,
the line is refused for its length, and anywhere else for its checksum, with or without its
line feed.
-/
theorem refuses_changed_digit {value other : Nat} (hdata : record.data.length ≤ 255)
    (hline : record.line = left ++ old :: right) (hold : digitValue? old = some value)
    (hnew : digitValue? new = some other) (hne : other ≠ value) :
    let changed := left ++ new :: right
    let fault := Fault.badRecord (if left.length < 3 then .length else .checksum)
      (String.ofList changed)
    ofLine changed = .error fault ∧ ofLine (changed ++ ['\n']) = .error fault := by
  intro changed fault
  rcases digits_eq_of_line_eq hline (Option.isSome_of_eq_some hold) with ⟨front, rfl, hdigits⟩
  have hbytes := record.bytesOfHex?_digits
  have hwritten := record.hasShape_line
  rw [line_eq, hdigits] at hwritten
  rw [hdigits] at hbytes
  have hshape : HasShape changed (front ++ new :: right) :=
    hwritten.replace (Option.isSome_of_eq_some hnew)
  rcases hasShape_iff.mp hshape with ⟨_, _, others, hothers⟩
  have hrefused : ofLine changed = .error fault := by
    rcases bytesOfHex?_replace hbytes hothers with
      ⟨hvalue, _⟩ | ⟨before, byte, changedByte, after, hbefore, rfl, hdiffers, hplace⟩
    · rw [hold, hnew, Option.some.injEq] at hvalue
      exact absurd hvalue hne
    · have htext : bytesOfText? (trim changed) = some (before ++ changedByte :: after) := by
        rw [trim_of_hasShape hshape]
        exact bytesOfText?_eq_some_iff_hasShape.mpr ⟨_, hshape, hothers⟩
      have hcount : before.length = 0 ↔ (':' :: front).length < 3 := by
        rw [List.length_cons]
        omega
      have hdefect := ofBytes_of_changed_byte (Nat.lt_succ_of_le hdata) hbefore hdiffers
      rw [ofLine_of_ofBytes_error htext hdefect, trim_of_hasShape hshape]
      simp only [hcount, fault]
  exact ⟨hrefused, by rw [ofLine_append_newline, hrefused]⟩

/-- A changed count, and a changed checksum in small letters. -/
theorem refuses_changed_digit_of_data_line :
    ofLine ":0200300002337A1E".toList =
        .error (.badRecord .length ":0200300002337A1E") ∧
      ofLine ":0300300002337A1f".toList =
        .error (.badRecord .checksum ":0300300002337A1f") := by
  have hcount : (ofData 0x30 [2, 0x33, 0x7A]).line =
      ":0".toList ++ '3' :: "00300002337A1E".toList := by rfl
  have hsum : (ofData 0x30 [2, 0x33, 0x7A]).line = ":0300300002337A1".toList ++ 'E' :: [] := by
    rfl
  have htwo : digitValue? '2' = some 2 := by rfl
  have hthree : digitValue? '3' = some 3 := by rfl
  have hfourteen : digitValue? 'E' = some 14 := by rfl
  have hfifteen : digitValue? 'f' = some 15 := by rfl
  exact ⟨(refuses_changed_digit (by decide) hcount hthree htwo (by decide)).1,
    (refuses_changed_digit (by decide) hsum hfourteen hfifteen (by decide)).1⟩

end Record

end CycleTable.IntelHex
