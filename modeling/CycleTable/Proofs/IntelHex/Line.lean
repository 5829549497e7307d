import CycleTable.IntelHex
import CycleTable.Proofs.Text.Blank
import CycleTable.Proofs.Text.Numeral

/-!
# Lines of hex records

Which record a line reads as, and what is read from the line of a record after one character
of it was replaced or deleted, after it was broken in two, and after it was joined to another.
A line that no longer has the shape of a record is skipped, so in each case the damage is
either an error or a record that is missing; a wrong record is never read.
-/

namespace CycleTable.IntelHex

open Text

theorem checksum_cons (byte : UInt8) (rest : Bytes) :
    checksum (byte :: rest) = byte + checksum rest := by
  rw [show byte :: rest = [byte] ++ rest from rfl, checksum_append, checksum, List.foldl_cons,
    List.foldl_nil, UInt8.zero_add]

theorem checksum_concat_eq_zero_iff {front : Bytes} {last : UInt8} :
    checksum (front ++ [last]) = 0 ↔ last = -checksum front := by
  have hlast : checksum [last] = last := by
    rw [checksum_cons]
    exact UInt8.add_zero last
  rw [checksum_append, hlast, ← UInt8.add_right_neg (checksum front), UInt8.add_right_inj]

theorem checksum_replace {before after : Bytes} {byte other : UInt8}
    (h : checksum (before ++ byte :: after) = checksum (before ++ other :: after)) :
    byte = other := by
  rw [checksum_append, checksum_append, checksum_cons, checksum_cons] at h
  exact (UInt8.add_left_inj _).mp ((UInt8.add_right_inj _).mp h)

theorem bytesOfText?_eq_some_iff {text : List Char} {bytes : Bytes} :
    bytesOfText? text = some bytes ↔
      ∃ digits, text = ':' :: digits ∧ digits ≠ [] ∧ bytesOfHex? digits = some bytes := by
  unfold bytesOfText?
  split
  · next digits =>
      cases digits with
      | nil => simp
      | cons first rest => simp
  · next hshape =>
      constructor
      · intro h
        cases h
      · intro h
        rcases h with ⟨digits, rfl, _⟩
        exact absurd rfl (hshape digits)

theorem trim_colon_cons {digits : List Char} (hnil : digits ≠ [])
    (hdigits : ∀ c ∈ digits, isHexDigit c = true) : trim (':' :: digits) = ':' :: digits := by
  have hlast : (':' :: digits).getLast? = some (digits.getLast hnil) := by
    rw [List.getLast?_cons, List.getLast?_eq_some_getLast hnil]
    rfl
  exact trim_eq_self (by decide) hlast
    (isBlank_of_isHexDigit (hdigits _ (List.getLast_mem hnil)))

theorem digits_of_bytesOfText? {right : List Char} {bytes : Bytes}
    (h : bytesOfText? (trim (':' :: right)) = some bytes) :
    ∃ digits blanks, right = digits ++ blanks ∧ blanks.length = right.countP isBlank ∧
      (∀ b ∈ blanks, isBlank b = true) ∧ bytesOfHex? digits = some bytes := by
  rcases bytesOfText?_eq_some_iff.mp h with ⟨digits, htrim, _, hdigits⟩
  rcases exists_eq_append_trim (':' :: right) with ⟨before, blanks, htext, hbefore, hblanks⟩
  cases before with
  | cons first before =>
      rw [List.cons_append, List.cons_append, List.cons.injEq] at htext
      have hblank := hbefore first List.mem_cons_self
      rw [← htext.1] at hblank
      exact absurd hblank (by decide)
  | nil =>
      rw [htrim, List.nil_append, List.cons_append, List.cons.injEq] at htext
      refine ⟨digits, blanks, htext.2, ?_, hblanks, hdigits⟩
      have hnone : digits.countP isBlank = 0 := by
        rw [List.countP_eq_zero]
        intro d hd
        simp [isBlank_of_isHexDigit (isHexDigit_of_bytesOfHex? hdigits hd)]
      have hall : blanks.countP isBlank = blanks.length := List.countP_eq_length.mpr hblanks
      rw [htext.2, List.countP_append, hnone, hall, Nat.zero_add]

namespace Record

theorem body_of_length {count high low type : UInt8} {data : Bytes}
    (h : data.length = count.toNat) :
    body ⟨UInt16.ofNat (256 * high.toNat + low.toNat), type, data⟩ =
      [count, high, low, type] ++ data := by
  have hhigh := high.toNat_lt
  have hlow := low.toNat_lt
  have haddress : (UInt16.ofNat (256 * high.toNat + low.toNat)).toNat =
      256 * high.toNat + low.toNat :=
    UInt16.toNat_ofNat_of_lt' (by rw [UInt16.size]; omega)
  have hdiv : (256 * high.toNat + low.toNat) / 256 = high.toNat := by omega
  have hmod : (256 * high.toNat + low.toNat) % 256 = low.toNat := by omega
  simp only [body, haddress, h, hdiv, hmod, UInt8.ofNat_toNat]

theorem toBytes_of_ofBytes {bytes : Bytes} {record : Record}
    (h : ofBytes bytes = .ok record) :
    record.toBytes = bytes ∧ record.data.length < 256 := by
  unfold ofBytes at h
  split at h
  case h_2 => cases h
  case h_1 count high low type rest =>
      by_cases hlength : rest.length = count.toNat + 1
      · by_cases hsum : checksum (count :: high :: low :: type :: rest) = 0
        · simp only [hlength, hsum, ne_eq, not_true_eq_false, if_false] at h
          cases h
          have hcount := count.toNat_lt
          have hdata : rest.dropLast.length = count.toNat := by
            rw [List.length_dropLast]
            omega
          have hrest : rest ≠ [] := by
            intro hnil
            rw [hnil] at hlength
            cases hlength
          have hbytes : [count, high, low, type] ++ rest.dropLast ++ [rest.getLast hrest] =
              count :: high :: low :: type :: rest := by
            rw [List.append_assoc, List.dropLast_concat_getLast hrest]
            rfl
          refine ⟨?_, show rest.dropLast.length < 256 by omega⟩
          rw [← hbytes] at hsum
          rw [toBytes, body_of_length hdata, ← checksum_concat_eq_zero_iff.mp hsum, hbytes]
        · simp [hlength, hsum] at h
      · simp [hlength] at h

theorem ofLine_eq_ok_some_iff {text : List Char} {record : Record} :
    ofLine text = .ok (some record) ↔
      bytesOfText? (trim text) = some record.toBytes ∧ record.data.length < 256 := by
  unfold ofLine
  constructor
  · intro h
    split at h
    · cases h
    · next bytes hbytes =>
        split at h
        · next found hfound =>
            cases h
            have hrecord := toBytes_of_ofBytes hfound
            rw [hbytes, hrecord.1]
            exact ⟨rfl, hrecord.2⟩
        · cases h
  · intro h
    rw [h.1]
    simp only [ofBytes_toBytes h.2]

theorem ofLine_eq_ok_none_iff {text : List Char} :
    ofLine text = .ok none ↔ bytesOfText? (trim text) = none := by
  unfold ofLine
  split
  · next hnone => simp [hnone]
  · next bytes hsome => split <;> simp [hsome]

def digits (record : Record) : List Char :=
  record.toBytes.flatMap byteHex

theorem line_eq (record : Record) : record.line = ':' :: record.digits := rfl

theorem bytesOfHex?_digits (record : Record) :
    bytesOfHex? record.digits = some record.toBytes :=
  bytesOfHex?_flatMap_byteHex record.toBytes

theorem isWrittenDigit_of_mem_digits {record : Record} {c : Char} (h : c ∈ record.digits) :
    IsWrittenDigit c :=
  isWrittenDigit_of_mem_flatMap_byteHex h

theorem isHexDigit_of_mem_digits {record : Record} {c : Char}
    (h : c ∈ record.digits) : isHexDigit c = true :=
  (isWrittenDigit_of_mem_digits h).isHexDigit

theorem length_digits (record : Record) :
    record.digits.length = 2 * record.toBytes.length :=
  length_of_bytesOfHex? (bytesOfHex?_digits record)

theorem length_eq_of_toBytes_eq_cons {record : Record} {count : UInt8} {rest : Bytes}
    (hdata : record.data.length < 256) (h : record.toBytes = count :: rest) :
    (count :: rest).length = count.toNat + 5 := by
  have hcount : UInt8.ofNat record.data.length = count := by
    have hhead := congrArg List.head? h
    simpa [toBytes, body] using hhead
  rw [← h, length_toBytes, ← hcount, UInt8.toNat_ofNat_of_lt' hdata]

theorem eq_of_toBytes_append {record other : Record} {more : Bytes}
    (hrecord : record.data.length < 256) (hother : other.data.length < 256)
    (h : record.toBytes = other.toBytes ++ more) : more = [] := by
  cases hbytes : other.toBytes with
  | nil =>
      have hlength := length_toBytes other
      rw [hbytes] at hlength
      cases hlength
  | cons count rest =>
      rw [hbytes, List.cons_append] at h
      have hwhole := length_eq_of_toBytes_eq_cons hrecord h
      rw [← length_eq_of_toBytes_eq_cons hother hbytes] at hwhole
      simp only [List.length_cons, List.length_append] at hwhole
      exact List.length_eq_zero_iff.mp (by omega)

/-- Even where the count cannot tell how many data there are, the bytes can. -/
theorem toBytes_inj {record other : Record} : record.toBytes = other.toBytes ↔ record = other := by
  constructor
  · intro h
    rcases record with ⟨address, type, data⟩
    rcases other with ⟨address', type', data'⟩
    simp only [toBytes, body, List.cons_append, List.nil_append, List.cons.injEq] at h
    rcases h with ⟨_, hhigh, hlow, rfl, hdata⟩
    rcases List.append_inj' hdata rfl with ⟨rfl, _⟩
    have haddress := address.toNat_lt
    have haddress' := address'.toNat_lt
    have hsize : UInt8.size = 256 := rfl
    have hhighNat := congrArg UInt8.toNat hhigh
    have hlowNat := congrArg UInt8.toNat hlow
    rw [UInt8.toNat_ofNat_of_lt' (by omega), UInt8.toNat_ofNat_of_lt' (by omega)] at hhighNat
    rw [UInt8.toNat_ofNat_of_lt' (by omega), UInt8.toNat_ofNat_of_lt' (by omega)] at hlowNat
    rw [UInt16.toNat_inj.mp (show address.toNat = address'.toNat by omega)]
  · intro h
    rw [h]

theorem digits_ne_nil (record : Record) : record.digits ≠ [] := by
  intro hnil
  have hlength := length_digits record
  rw [hnil, List.length_nil, length_toBytes] at hlength
  omega

theorem bytesOfText?_trim_line (record : Record) :
    bytesOfText? (trim record.line) = some record.toBytes := by
  rw [line_eq, trim_colon_cons record.digits_ne_nil fun _ => isHexDigit_of_mem_digits]
  exact bytesOfText?_eq_some_iff.mpr
    ⟨record.digits, rfl, record.digits_ne_nil, bytesOfHex?_digits record⟩

theorem ofBytes_toBytes_of_long {record : Record} (h : 255 < record.data.length) :
    ofBytes record.toBytes = .error .length := by
  have hcount := (UInt8.ofNat record.data.length).toNat_lt
  simp only [toBytes, body, List.cons_append, List.nil_append, ofBytes, List.length_append,
    List.length_cons, List.length_nil]
  exact if_pos (by omega)

theorem ofLine_line_of_long {record : Record} (h : 255 < record.data.length) :
    ofLine record.line = .error (.badRecord .length (String.ofList (trim record.line))) := by
  rw [ofLine, bytesOfText?_trim_line]
  simp only [ofBytes_toBytes_of_long h]

theorem kind_of_ofLine_eq_error {text : List Char} {fault : Fault}
    (h : ofLine text = .error fault) : fault.kind = .general := by
  unfold ofLine at h
  split at h
  · cases h
  · split at h
    · cases h
    · cases h
      rfl

section Damage

variable {record other : Record} {found : Option Record} {left right : List Char}
  {old new c : Char}

theorem ofLine_line (h : record.data.length < 256) :
    ofLine record.line = .ok (some record) :=
  ofLine_eq_ok_some_iff.mpr ⟨record.bytesOfText?_trim_line, h⟩

theorem ofLine_of_not_colon {text : List Char} (hcolon : ':' ∉ text)
    (h : ofLine text = .ok found) : found = none := by
  cases found with
  | none => rfl
  | some other =>
      rcases bytesOfText?_eq_some_iff.mp (ofLine_eq_ok_some_iff.mp h).1 with
        ⟨digits, htrim, _⟩
      have hmem : ':' ∈ trim text := by
        rw [htrim]
        exact List.mem_cons_self
      exact absurd (mem_of_mem_trim hmem) hcolon

theorem digits_of_ofLine (h : ofLine (':' :: right) = .ok (some other)) :
    ∃ digits blanks, right = digits ++ blanks ∧ blanks.length = right.countP isBlank ∧
      (∀ b ∈ blanks, isBlank b = true) ∧
      bytesOfHex? digits = some other.toBytes ∧ other.data.length < 256 := by
  rcases ofLine_eq_ok_some_iff.mp h with ⟨hbytes, hlength⟩
  rcases digits_of_bytesOfText? hbytes with ⟨digits, blanks, hright, hcount, hblanks, hdigits⟩
  exact ⟨digits, blanks, hright, hcount, hblanks, hdigits, hlength⟩

theorem countP_isBlank_digits (record : Record) : record.digits.countP isBlank = 0 := by
  rw [List.countP_eq_zero]
  intro d hd
  simp [isBlank_of_isHexDigit (isHexDigit_of_mem_digits hd)]

theorem countP_isBlank_of_digits_eq (h : record.digits = left ++ old :: right) :
    left.countP isBlank = 0 ∧ right.countP isBlank = 0 := by
  have hnone := countP_isBlank_digits record
  rw [h, List.countP_append, List.countP_cons] at hnone
  omega

theorem eq_of_bytesOfHex?_replace (hdigits : record.digits = left ++ old :: right)
    (hread : bytesOfHex? (left ++ new :: right) = some other.toBytes) :
    other = record ∧ digitValue? new = digitValue? old := by
  have hbytes := bytesOfHex?_digits record
  rw [hdigits] at hbytes
  rcases bytesOfHex?_replace hbytes hread with
    ⟨hvalue, hsame⟩ | ⟨before, byte, changed, after, hold, hnew, hdiffers, _⟩
  · exact ⟨toBytes_inj.mp hsame, hvalue⟩
  · have hsum := checksum_toBytes other
    rw [hnew, ← checksum_toBytes record, hold] at hsum
    exact absurd (checksum_replace hsum) hdiffers

theorem line_eq_append_cons (h : record.line = left ++ old :: right) :
    (left = [] ∧ old = ':' ∧ right = record.digits) ∨
      ∃ front, left = ':' :: front ∧
        record.digits = front ++ old :: right := by
  cases left with
  | nil =>
      left
      rw [line_eq, List.nil_append, List.cons.injEq] at h
      exact ⟨rfl, h.1.symm, h.2.symm⟩
  | cons first front =>
      right
      rw [line_eq, List.cons_append, List.cons.injEq] at h
      exact ⟨front, by rw [h.1], h.2⟩

theorem isWrittenDigit_of_digits_eq (h : record.digits = left ++ old :: right) :
    IsWrittenDigit old := by
  apply isWrittenDigit_of_mem_digits
  rw [h]
  exact List.mem_append_right _ List.mem_cons_self

theorem not_colon_digits (record : Record) : ':' ∉ record.digits := by
  intro hmem
  have hdigit := isHexDigit_of_mem_digits hmem
  rw [not_isHexDigit_colon] at hdigit
  cases hdigit

theorem digits_eq_of_line_eq (h : record.line = left ++ old :: right)
    (hold : isHexDigit old = true) :
    ∃ front, left = ':' :: front ∧ record.digits = front ++ old :: right := by
  rcases line_eq_append_cons h with ⟨_, rfl, _⟩ | hfront
  · rw [not_isHexDigit_colon] at hold
    cases hold
  · exact hfront

theorem bytesOfText?_of_gap (h : record.line = left ++ old :: right)
    (hold : isHexDigit old = true) (gap : List Char) (hgap : ∀ c ∈ gap, isHexDigit c = false)
    (hlength : gap.length ≤ 1) : bytesOfText? (trim (left ++ gap ++ right)) = none := by
  rcases digits_eq_of_line_eq h hold with ⟨front, rfl, hdigits⟩
  rw [List.append_assoc, List.cons_append]
  cases hread : bytesOfText? (trim (':' :: (front ++ (gap ++ right)))) with
  | none => rfl
  | some bytes =>
      rcases digits_of_bytesOfText? hread with ⟨digits, blanks, htext, hblanks, _, hbytes⟩
      rcases countP_isBlank_of_digits_eq hdigits with ⟨hfront, hright⟩
      rw [List.countP_append, List.countP_append, hfront, hright, Nat.zero_add,
        Nat.add_zero] at hblanks
      have htotal := congrArg List.length htext
      have hwritten := length_digits record
      have heven := length_of_bytesOfHex? hbytes
      rw [hdigits] at hwritten
      simp only [List.length_append, List.length_cons] at htotal hwritten
      by_cases hdropped : blanks.length = gap.length
      · -- Nothing is left in the gap, and an odd number of digits would be read.
        omega
      · -- What is left in the gap would be read as a digit.
        have hfew : gap.countP isBlank ≤ gap.length := List.countP_le_length
        have hnil : blanks = [] := List.length_eq_zero_iff.mp (by omega)
        have hsome : gap ≠ [] := by
          rintro rfl
          exact hdropped hblanks
        have hmem : gap.head hsome ∈ digits := by
          rw [hnil, List.append_nil] at htext
          rw [← htext]
          exact List.mem_append_right _ (List.mem_append_left _ (List.head_mem hsome))
        have hforeign := hgap _ (List.head_mem hsome)
        rw [isHexDigit_of_bytesOfHex? hbytes hmem] at hforeign
        cases hforeign

/-- A replaced character is found by the sum or by the shape of the line, unless it is a
letter written in lower case. -/
theorem ofLine_replace (hline : record.line = left ++ old :: right) (hne : new ≠ old)
    (h : ofLine (left ++ new :: right) = .ok found) :
    found = none ∨ (found = some record ∧
      65 ≤ old.toNat ∧ old.toNat ≤ 70 ∧ new.toNat = old.toNat + 32) := by
  rcases line_eq_append_cons hline with ⟨rfl, rfl, rfl⟩ | ⟨front, rfl, hdigits⟩
  · have hcolon : ':' ∉ new :: record.digits := by
      rw [List.mem_cons, not_or]
      exact ⟨hne.symm, record.not_colon_digits⟩
    exact Or.inl (ofLine_of_not_colon hcolon h)
  · have hold := isWrittenDigit_of_digits_eq hdigits
    cases hnew : isHexDigit new with
    | false =>
        left
        have hgap := bytesOfText?_of_gap hline hold.isHexDigit [new]
          (List.forall_mem_singleton.mpr hnew) (Nat.le_refl 1)
        rw [List.append_assoc, List.singleton_append, ← ofLine_eq_ok_none_iff, h] at hgap
        exact Except.ok.inj hgap
    | true =>
        cases found with
        | none => exact Or.inl rfl
        | some other =>
            right
            rw [List.cons_append] at h
            rcases digits_of_ofLine h with ⟨digits, blanks, htext, hblanks, _, hread, _⟩
            rcases countP_isBlank_of_digits_eq hdigits with ⟨hfront, hright⟩
            rw [List.countP_append, List.countP_cons, hfront, hright,
              isBlank_of_isHexDigit hnew] at hblanks
            rw [List.length_eq_zero_iff.mp hblanks, List.append_nil] at htext
            rw [← htext] at hread
            rcases eq_of_bytesOfHex?_replace hdigits hread with ⟨rfl, hvalue⟩
            exact ⟨rfl, toNat_eq_of_digitValue?_eq hold hne hvalue⟩

theorem ofLine_delete (hline : record.line = left ++ old :: right)
    (h : ofLine (left ++ right) = .ok found) : found = none := by
  rcases line_eq_append_cons hline with ⟨rfl, rfl, rfl⟩ | ⟨front, _, hdigits⟩
  · exact ofLine_of_not_colon record.not_colon_digits h
  · have hgap := bytesOfText?_of_gap hline (isWrittenDigit_of_digits_eq hdigits).isHexDigit []
      (List.forall_mem_nil _) (Nat.zero_le 1)
    rw [List.append_nil, ← ofLine_eq_ok_none_iff, h] at hgap
    exact Except.ok.inj hgap

theorem ofLine_front (hrecord : record.data.length < 256)
    (hline : record.line = left ++ old :: right) (h : ofLine left = .ok found) :
    found = none := by
  cases found with
  | none => rfl
  | some other =>
      rcases line_eq_append_cons hline with ⟨rfl, rfl, rfl⟩ | ⟨front, rfl, hdigits⟩
      · exact ofLine_of_not_colon List.not_mem_nil h
      · rcases digits_of_ofLine h with ⟨digits, blanks, htext, hblanks, _, hread, hother⟩
        rw [(countP_isBlank_of_digits_eq hdigits).1] at hblanks
        rw [List.length_eq_zero_iff.mp hblanks, List.append_nil] at htext
        rw [← htext] at hread
        have hbytes := bytesOfHex?_digits record
        rw [hdigits, bytesOfHex?_append hread, Option.map_eq_some_iff] at hbytes
        rcases hbytes with ⟨more, hmore, happend⟩
        have hempty := eq_of_toBytes_append hrecord hother happend.symm
        have hlength := length_of_bytesOfHex? hmore
        rw [hempty] at hlength
        cases hlength

theorem ofLine_back (hline : record.line = left ++ old :: right)
    (h : ofLine right = .ok found) : found = none := by
  apply ofLine_of_not_colon _ h
  intro hmem
  rcases line_eq_append_cons hline with ⟨_, _, rfl⟩ | ⟨front, _, hdigits⟩
  · exact record.not_colon_digits hmem
  · apply record.not_colon_digits
    rw [hdigits]
    exact List.mem_append_right _ (List.mem_cons_of_mem _ hmem)

theorem ofLine_joined {between : List Char}
    (h : ofLine (record.line ++ between ++ other.line) = .ok found) : found = none := by
  cases found with
  | none => rfl
  | some joined =>
      rw [line_eq, List.cons_append, List.cons_append] at h
      rcases digits_of_ofLine h with ⟨digits, blanks, htext, _, hblanks, hread, _⟩
      have hcolon : ':' ∈ digits ++ blanks := by
        rw [← htext]
        exact List.mem_append_right _ List.mem_cons_self
      rcases List.mem_append.mp hcolon with hmem | hmem
      · have hdigit := isHexDigit_of_bytesOfHex? hread hmem
        rw [not_isHexDigit_colon] at hdigit
        cases hdigit
      · exact absurd (hblanks ':' hmem) (by decide)

theorem ofLine_append_char (h : ofLine (record.line ++ [c]) = .ok found) :
    found = none ∨ found = some record := by
  cases found with
  | none => exact Or.inl rfl
  | some other =>
      right
      rw [line_eq, List.cons_append] at h
      rcases digits_of_ofLine h with ⟨digits, blanks, htext, hblanks, _, hread, hother⟩
      have hnone := countP_isBlank_digits record
      have hfew : blanks.length ≤ 1 := by
        rw [hblanks, List.countP_append, List.countP_cons, hnone, List.countP_nil]
        split <;> omega
      have htotal := congrArg List.length htext
      have hwritten := length_digits record
      have heven := length_of_bytesOfHex? hread
      simp only [List.length_append, List.length_singleton] at htotal
      have hone : blanks.length = [c].length := by
        rw [List.length_singleton]
        omega
      have hsame := (List.append_inj' htext hone.symm).1
      rw [← hsame, bytesOfHex?_digits] at hread
      exact congrArg some (toBytes_inj.mp (Option.some.inj hread).symm)

end Damage

end Record

end CycleTable.IntelHex
