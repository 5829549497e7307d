import CycleTable.Proofs.IntelHex.Line

/-!
# The lines of records

## Their shape

A line has the shape of a record if a colon and then pairs of digits stand between its blanks.
What is read from the bytes of these digits hangs on their count and on their sum. The line that
a record is written as is the only one that it is read from, but for blanks and the case of
letters.
-/

namespace CycleTable.IntelHex

open Text

/-- A colon and behind it pairs of digits, one pair at least. -/
def HasShape (text digits : List Char) : Prop :=
  text = ':' :: digits ∧ digits ≠ [] ∧ digits.length % 2 = 0 ∧
    ∀ c ∈ digits, isHexDigit c = true

theorem hasShape_iff {text digits : List Char} :
    HasShape text digits ↔
      text = ':' :: digits ∧ digits ≠ [] ∧ ∃ bytes, bytesOfHex? digits = some bytes := by
  rw [HasShape, exists_bytesOfHex?_iff]

theorem trim_of_hasShape {text digits : List Char} (h : HasShape text digits) :
    trim text = text := by
  rcases h with ⟨rfl, hnil, _, hdigits⟩
  exact trim_colon_cons hnil hdigits

theorem HasShape.replace {front back : List Char} {old new : Char}
    (h : HasShape (':' :: (front ++ old :: back)) (front ++ old :: back))
    (hnew : isHexDigit new = true) :
    HasShape (':' :: (front ++ new :: back)) (front ++ new :: back) := by
  rcases h with ⟨_, _, heven, hdigits⟩
  refine ⟨rfl, by simp, by simpa using heven, ?_⟩
  simp only [List.forall_mem_append, List.forall_mem_cons] at hdigits ⊢
  exact ⟨hdigits.1, hnew, hdigits.2.2⟩

theorem bytesOfText?_eq_some_iff_hasShape {text : List Char} {bytes : Bytes} :
    bytesOfText? text = some bytes ↔
      ∃ digits, HasShape text digits ∧ bytesOfHex? digits = some bytes := by
  rw [bytesOfText?_eq_some_iff]
  constructor
  · intro h
    rcases h with ⟨digits, htext, hnil, hbytes⟩
    exact ⟨digits, hasShape_iff.mpr ⟨htext, hnil, bytes, hbytes⟩, hbytes⟩
  · intro h
    rcases h with ⟨digits, ⟨htext, hnil, _⟩, hbytes⟩
    exact ⟨digits, htext, hnil, hbytes⟩

theorem bytesOfText?_eq_none_iff {text : List Char} :
    bytesOfText? text = none ↔ ∀ digits, ¬ HasShape text digits := by
  constructor
  · intro h digits hshape
    rcases hasShape_iff.mp hshape with ⟨_, _, bytes, hbytes⟩
    have hsome := bytesOfText?_eq_some_iff_hasShape.mpr ⟨digits, hshape, hbytes⟩
    rw [h] at hsome
    cases hsome
  · intro h
    cases htext : bytesOfText? text with
    | none => rfl
    | some bytes =>
        rcases bytesOfText?_eq_some_iff_hasShape.mp htext with ⟨digits, hshape, _⟩
        exact absurd hshape (h digits)

theorem exists_count_of_hasShape {text digits : List Char} (h : HasShape text digits) :
    ∃ count rest, bytesOfHex? digits = some (count :: rest) ∧
      bytesOfText? text = some (count :: rest) := by
  rcases hasShape_iff.mp h with ⟨_, hnil, bytes, hbytes⟩
  cases bytes with
  | nil =>
      have hlength := length_of_bytesOfHex? hbytes
      exact absurd (List.length_eq_zero_iff.mp hlength) hnil
  | cons count rest =>
      exact ⟨count, rest, hbytes, bytesOfText?_eq_some_iff_hasShape.mpr ⟨digits, h, hbytes⟩⟩

/-- The sum of bytes as numbers, of which the checksum keeps the last byte. -/
def byteSum : Bytes → Nat
  | [] => 0
  | byte :: rest => byte.toNat + byteSum rest

theorem toNat_checksum (bytes : Bytes) :
    (checksum bytes).toNat = byteSum bytes % 256 := by
  induction bytes with
  | nil => rfl
  | cons byte rest ih => rw [checksum_cons, UInt8.toNat_add, ih, byteSum, Nat.add_mod_mod]

theorem checksum_eq_zero_iff {bytes : Bytes} :
    checksum bytes = 0 ↔ byteSum bytes % 256 = 0 := by
  rw [← UInt8.toNat_inj, toNat_checksum]
  rfl

namespace Record

theorem hasShape_line (record : Record) : HasShape record.line record.digits :=
  hasShape_iff.mpr
    ⟨record.line_eq, record.digits_ne_nil, record.toBytes, record.bytesOfHex?_digits⟩

section Bytes

variable {count : UInt8} {rest : Bytes}

theorem ofBytes_of_length_ne (h : (count :: rest).length ≠ count.toNat + 5) :
    ofBytes (count :: rest) = .error .length := by
  unfold ofBytes
  split
  · next high low type more heq =>
      cases heq
      exact if_pos fun hmore => h (by simp only [List.length_cons, hmore])
  · rfl

theorem exists_fields (h : (count :: rest).length = count.toNat + 5) :
    ∃ high low type more, rest = high :: low :: type :: more ∧
      more.length = count.toNat + 1 := by
  rw [List.length_cons] at h
  rcases rest with _ | ⟨high, _ | ⟨low, _ | ⟨type, more⟩⟩⟩
  · rw [List.length_nil] at h
    omega
  · simp only [List.length_cons, List.length_nil] at h
    omega
  · simp only [List.length_cons, List.length_nil] at h
    omega
  · simp only [List.length_cons] at h
    exact ⟨high, low, type, more, rfl, by omega⟩

theorem ofBytes_of_checksum_ne (h : (count :: rest).length = count.toNat + 5)
    (hsum : checksum (count :: rest) ≠ 0) : ofBytes (count :: rest) = .error .checksum := by
  rcases exists_fields h with ⟨high, low, type, more, rfl, hmore⟩
  simp only [ofBytes, hmore, ne_eq, not_true_eq_false, if_false]
  exact if_pos hsum

theorem exists_ofBytes (h : (count :: rest).length = count.toNat + 5)
    (hsum : checksum (count :: rest) = 0) : ∃ record, ofBytes (count :: rest) = .ok record := by
  rcases exists_fields h with ⟨high, low, type, more, rfl, hmore⟩
  simp only [ofBytes, hmore, hsum, ne_eq, not_true_eq_false, if_false]
  exact ⟨_, rfl⟩

end Bytes

section Line

variable {text : List Char} {count : UInt8} {rest : Bytes} {record : Record}

theorem ofLine_eq_ok_none_iff_not_hasShape :
    ofLine text = .ok none ↔ ∀ digits, ¬ HasShape (trim text) digits := by
  rw [ofLine_eq_ok_none_iff, bytesOfText?_eq_none_iff]

theorem ofLine_of_ofBytes_error {bytes : Bytes} {defect : RecordDefect}
    (htext : bytesOfText? (trim text) = some bytes) (h : ofBytes bytes = .error defect) :
    ofLine text = .error (.badRecord defect (String.ofList (trim text))) := by
  simp only [ofLine, htext, h]

theorem ofLine_of_ofBytes_ok {bytes : Bytes} (htext : bytesOfText? (trim text) = some bytes)
    (h : ofBytes bytes = .ok record) : ofLine text = .ok (some record) := by
  simp only [ofLine, htext, h]

theorem ofLine_of_length_ne (htext : bytesOfText? (trim text) = some (count :: rest))
    (h : (count :: rest).length ≠ count.toNat + 5) :
    ofLine text = .error (.badRecord .length (String.ofList (trim text))) :=
  ofLine_of_ofBytes_error htext (ofBytes_of_length_ne h)

theorem ofLine_of_checksum_ne (htext : bytesOfText? (trim text) = some (count :: rest))
    (h : (count :: rest).length = count.toNat + 5) (hsum : checksum (count :: rest) ≠ 0) :
    ofLine text = .error (.badRecord .checksum (String.ofList (trim text))) :=
  ofLine_of_ofBytes_error htext (ofBytes_of_checksum_ne h hsum)

theorem exists_ofLine_iff (htext : bytesOfText? (trim text) = some (count :: rest)) :
    (∃ record, ofLine text = .ok (some record)) ↔
      (count :: rest).length = count.toNat + 5 ∧ checksum (count :: rest) = 0 := by
  constructor
  · intro haccepted
    rcases haccepted with ⟨record, hrecord⟩
    by_cases hlength : (count :: rest).length = count.toNat + 5
    · by_cases hsum : checksum (count :: rest) = 0
      · exact ⟨hlength, hsum⟩
      · rw [ofLine_of_checksum_ne htext hlength hsum] at hrecord
        cases hrecord
    · rw [ofLine_of_length_ne htext hlength] at hrecord
      cases hrecord
  · intro hwhole
    rcases exists_ofBytes hwhole.1 hwhole.2 with ⟨record, hrecord⟩
    exact ⟨record, ofLine_of_ofBytes_ok htext hrecord⟩

end Line

theorem display_eq_iff {record : Record} {line : List Char} :
    record.display = String.ofList (line ++ ['\n']) ↔ record.line = line := by
  rw [display, String.ofList_inj, List.append_left_inj]

theorem display_inj {record other : Record} : record.display = other.display ↔ record = other := by
  constructor
  · intro h
    have hline := display_eq_iff.mp h
    rw [line_eq, line_eq, List.cons.injEq] at hline
    have hbytes := bytesOfHex?_digits record
    rw [hline.2, bytesOfHex?_digits, Option.some.injEq] at hbytes
    exact (toBytes_inj.mp hbytes).symm
  · intro h
    rw [h]

theorem bytesOfText?_eq_toBytes_iff {text : List Char} {record : Record} :
    bytesOfText? text = some record.toBytes ↔ text.map Char.toUpper = record.line := by
  have hcolon : ':'.toUpper = ':' := rfl
  rw [bytesOfText?_eq_some_iff, line_eq]
  constructor
  · intro h
    rcases h with ⟨digits, rfl, _, hdigits⟩
    rw [List.map_cons, hcolon, bytesOfHex?_eq_some_iff_map_toUpper.mp hdigits]
    rfl
  · intro h
    rcases List.map_eq_cons_iff.mp h with ⟨c, digits, rfl, hc, hdigits⟩
    have hbytes := bytesOfHex?_eq_some_iff_map_toUpper.mpr hdigits
    refine ⟨digits, by rw [eq_colon_of_toUpper hc], ?_, hbytes⟩
    rintro rfl
    exact record.digits_ne_nil hdigits.symm

theorem ofLine_eq_ok_some_iff_display {text : List Char} {record : Record} :
    ofLine text = .ok (some record) ↔
      record.data.length ≤ 255 ∧
        record.display = String.ofList ((trim text).map Char.toUpper ++ ['\n']) := by
  rw [ofLine_eq_ok_some_iff, bytesOfText?_eq_toBytes_iff, display_eq_iff, Nat.lt_succ_iff,
    and_comm, eq_comm (a := record.line)]

end Record

end CycleTable.IntelHex

/-!
## Reading them step by step

The reading of a line with every step that could fail written out. Pairs of characters are cut
from the text at places that count bytes, each pair is read as a number, and the fields are taken
from their places among the bytes. It is the same reading as `Record.ofLine`: no cut is out of
range, and no pair fails to be a number. So the shape of a line, its count and its sum alone decide
what is read from it, and what is accepted is what a record is written as.
-/

namespace CycleTable.IntelHex

open Text

/-- Why a step stops the reading: it looked for what is not there, it met a pair that is no
number, or it refused the line. -/
inductive StepFault
  | outOfRange
  | notHex
  | refused (fault : Fault)
  deriving DecidableEq, Repr

def StepFault.orElse {α : Type} (fault : StepFault) : Option α → Except StepFault α
  | none => .error fault
  | some value => .ok value

def byteLength : List Char → Nat
  | [] => 0
  | c :: rest => c.utf8Size + byteLength rest

/-- What follows that many bytes; `none` if they end within a character or behind the text. -/
def dropBytes? : Nat → List Char → Option (List Char)
  | 0, text => some text
  | _ + 1, [] => none
  | count + 1, c :: rest =>
      if c.utf8Size ≤ count + 1 then dropBytes? (count + 1 - c.utf8Size) rest else none

def takeBytes? : Nat → List Char → Option (List Char)
  | 0, _ => some []
  | _ + 1, [] => none
  | count + 1, c :: rest =>
      if c.utf8Size ≤ count + 1 then
        (takeBytes? (count + 1 - c.utf8Size) rest).map (c :: ·)
      else none

/-- The byte that a numeral of base sixteen denotes. A plus sign may stand before it. -/
def byteOfNumeral? (numeral : List Char) : Option UInt8 :=
  let digits := match numeral with
    | '+' :: rest => rest
    | _ => numeral
  if digits.isEmpty then none
  else (number? 16 digits).bind fun value =>
    if value < 256 then some (UInt8.ofNat value) else none

/-- The byte of the pair of characters at a place that counts bytes. -/
def stepPair (digits : List Char) (place : Nat) : Except StepFault UInt8 := do
  let pair ← StepFault.outOfRange.orElse ((dropBytes? place digits).bind (takeBytes? 2))
  StepFault.notHex.orElse (byteOfNumeral? pair)

def stepBytes (digits : List Char) : Except StepFault Bytes :=
  (List.range ((byteLength digits + 1) / 2)).mapM fun i => stepPair digits (2 * i)

def fieldAt (bytes : Bytes) (place : Nat) : Except StepFault UInt8 :=
  StepFault.outOfRange.orElse bytes[place]?

def fieldBetween (bytes : Bytes) (start stop : Nat) : Except StepFault Bytes :=
  StepFault.outOfRange.orElse
    (if start ≤ stop ∧ stop ≤ bytes.length then some ((bytes.take stop).drop start) else none)

def stepRecord (line : String) (bytes : Bytes) : Except StepFault Record :=
  if bytes.length < 5 then .error (.refused (.badRecord .length line))
  else do
    let count ← fieldAt bytes 0
    if bytes.length ≠ count.toNat + 5 then .error (.refused (.badRecord .length line))
    else if checksum bytes ≠ 0 then .error (.refused (.badRecord .checksum line))
    else do
      let high ← fieldAt bytes 1
      let low ← fieldAt bytes 2
      let type ← fieldAt bytes 3
      let data ← fieldBetween bytes 4 (bytes.length - 1)
      return ⟨UInt16.ofNat (256 * high.toNat + low.toNat), type, data⟩

/-- What stands behind the colon of a text that has the shape of a record. -/
def captured? : List Char → Option (List Char)
  | ':' :: digits =>
      if !digits.isEmpty && digits.length % 2 == 0 && digits.all isHexDigit then some digits
      else none
  | _ => none

def stepLine (text : List Char) : Except StepFault (Option Record) :=
  match captured? (trim text) with
  | none => .ok none
  | some digits => do
      let bytes ← stepBytes digits
      let record ← stepRecord (String.ofList (trim text)) bytes
      return some record

theorem captured?_eq_some_iff {text digits : List Char} :
    captured? text = some digits ↔ HasShape text digits := by
  unfold captured? HasShape
  split
  · next behind =>
      simp only [List.cons.injEq, Option.ite_none_right_eq_some, Option.some.injEq,
        Bool.and_eq_true, Bool.not_eq_true', List.isEmpty_eq_false_iff, beq_iff_eq,
        List.all_eq_true, and_assoc, true_and]
      constructor
      · intro h
        rcases h with ⟨hnil, heven, hdigits, rfl⟩
        exact ⟨rfl, hnil, heven, hdigits⟩
      · intro h
        rcases h with ⟨rfl, hnil, heven, hdigits⟩
        exact ⟨hnil, heven, hdigits, rfl⟩
  · next hother =>
      constructor
      · intro h
        cases h
      · intro h
        exact absurd h.1 (hother digits)

section Pairs

variable {high low c : Char} {digits : List Char} {bytes : Bytes}

theorem utf8Size_of_isHexDigit (h : isHexDigit c = true) : c.utf8Size = 1 := by
  rcases Option.isSome_iff_exists.mp h with ⟨value, hvalue⟩
  have hcases := digitValue?_eq_some_iff.mp hvalue
  rw [Char.utf8Size_eq_one_iff, UInt32.le_iff_toNat_le]
  show c.toNat ≤ 127
  omega

theorem byteLength_of_isHexDigit (h : ∀ c ∈ digits, isHexDigit c = true) :
    byteLength digits = digits.length := by
  induction digits with
  | nil => rfl
  | cons c rest ih =>
      rw [List.forall_mem_cons] at h
      rw [byteLength, utf8Size_of_isHexDigit h.1, ih h.2, List.length_cons, Nat.add_comm]

theorem byteOfNumeral?_pair {h l : Nat} (hh : digitValue? high = some h)
    (hl : digitValue? low = some l) :
    byteOfNumeral? [high, low] = some (UInt8.ofNat (16 * h + l)) := by
  have hhigh := digitValue?_lt hh
  have hlow := digitValue?_lt hl
  have hplus : high ≠ '+' := by
    rintro rfl
    cases hh
  have hnumber : number? 16 [high, low] = some (16 * h + l) := by
    simp [number?, hh, hl, hhigh, hlow, Nat.mul_comm]
  have hsmall : 16 * h + l < 256 := by omega
  simp [byteOfNumeral?, hplus, hnumber, hsmall]

theorem stepPair_zero {h l : Nat} (hh : digitValue? high = some h)
    (hl : digitValue? low = some l) :
    stepPair (high :: low :: digits) 0 = .ok (UInt8.ofNat (16 * h + l)) := by
  have hhigh := utf8Size_of_isHexDigit (Option.isSome_of_eq_some hh)
  have hlow := utf8Size_of_isHexDigit (Option.isSome_of_eq_some hl)
  have hpair : (dropBytes? 0 (high :: low :: digits)).bind (takeBytes? 2) =
      some [high, low] := by
    simp [dropBytes?, takeBytes?, hhigh, hlow]
  rw [stepPair, hpair]
  show StepFault.notHex.orElse (byteOfNumeral? [high, low]) = _
  rw [byteOfNumeral?_pair hh hl]
  rfl

theorem stepPair_add_two (hhigh : isHexDigit high = true) (hlow : isHexDigit low = true)
    (place : Nat) :
    stepPair (high :: low :: digits) (place + 2) = stepPair digits place := by
  have hdrop : dropBytes? (place + 2) (high :: low :: digits) = dropBytes? place digits := by
    simp [dropBytes?, utf8Size_of_isHexDigit hhigh, utf8Size_of_isHexDigit hlow]
  rw [stepPair, stepPair, hdrop]

theorem stepBytes_eq_ok (h : bytesOfHex? digits = some bytes) :
    stepBytes digits = .ok bytes := by
  have hpairs : ∀ (digits : List Char) (bytes : Bytes), bytesOfHex? digits = some bytes →
      (List.range bytes.length).mapM (fun i => stepPair digits (2 * i)) = .ok bytes := by
    intro digits
    induction digits using bytesOfHex?.induct with
    | case1 =>
        intro bytes h
        cases h
        rfl
    | case2 c =>
        intro bytes h
        cases h
    | case3 high low digits ih =>
        intro bytes h
        rcases bytesOfHex?_cons_cons_eq_some_iff.mp h with ⟨h, l, rest, hh, hl, hrest, rfl⟩
        have hshift : ((fun i => stepPair (high :: low :: digits) (2 * i)) ∘ Nat.succ) =
            fun i => stepPair digits (2 * i) := by
          funext i
          exact stepPair_add_two (Option.isSome_of_eq_some hh) (Option.isSome_of_eq_some hl) _
        rw [List.length_cons, List.range_succ_eq_map, List.mapM_cons, List.mapM_map, hshift,
          Nat.mul_zero, stepPair_zero hh hl, ih rest hrest]
        rfl
  have hlength := length_of_bytesOfHex? h
  have hcount : (byteLength digits + 1) / 2 = bytes.length := by
    rw [byteLength_of_isHexDigit fun _ => isHexDigit_of_bytesOfHex? h]
    omega
  rw [stepBytes, hcount]
  exact hpairs digits bytes h

end Pairs

theorem fieldBetween_four (count high low type : UInt8) {more : Bytes} (h : more ≠ []) :
    fieldBetween (count :: high :: low :: type :: more)
      4 ((count :: high :: low :: type :: more).length - 1) = .ok more.dropLast := by
  have hmore := List.length_pos_iff.mpr h
  have hstop : (count :: high :: low :: type :: more).length - 1 = more.length - 1 + 4 := by
    simp only [List.length_cons]
    omega
  have hbounds : 4 ≤ more.length - 1 + 4 ∧
      more.length - 1 + 4 ≤ (count :: high :: low :: type :: more).length := by
    simp only [List.length_cons]
    omega
  rw [hstop, fieldBetween, if_pos hbounds, List.dropLast_eq_take]
  rfl

theorem stepRecord_eq (line : String) (bytes : Bytes) :
    stepRecord line bytes =
      (Record.ofBytes bytes).mapError fun defect => .refused (.badRecord defect line) := by
  rcases bytes with _ | ⟨count, rest⟩
  · rfl
  · by_cases hlength : (count :: rest).length = count.toNat + 5
    · rcases Record.exists_fields hlength with ⟨high, low, type, more, rfl, hmore⟩
      have hnil : more ≠ [] := by
        rintro rfl
        cases hmore
      have hdata := fieldBetween_four count high low type hnil
      rw [stepRecord, if_neg (by omega)]
      show (if (count :: high :: low :: type :: more).length ≠ count.toNat + 5 then _
        else if checksum (count :: high :: low :: type :: more) ≠ 0 then _
        else fieldBetween (count :: high :: low :: type :: more) 4
          ((count :: high :: low :: type :: more).length - 1) >>= _) = _
      rw [if_neg (not_not_intro hlength), hdata]
      simp only [Record.ofBytes, hmore, ne_eq, not_true_eq_false, if_false]
      by_cases hsum : checksum (count :: high :: low :: type :: more) = 0
      · rw [if_neg (not_not_intro hsum), if_neg (not_not_intro hsum)]
        rfl
      · rw [if_pos hsum, if_pos hsum]
        rfl
    · rw [Record.ofBytes_of_length_ne hlength, stepRecord]
      split
      · rfl
      · exact if_pos hlength

theorem stepLine_eq (text : List Char) :
    stepLine text = (Record.ofLine text).mapError StepFault.refused := by
  cases hdigits : captured? (trim text) with
  | none =>
      have hnone : Record.ofLine text = .ok none := by
        rw [Record.ofLine_eq_ok_none_iff_not_hasShape]
        intro digits hshape
        rw [captured?_eq_some_iff.mpr hshape] at hdigits
        cases hdigits
      rw [hnone, stepLine, hdigits]
      rfl
  | some digits =>
      rcases exists_count_of_hasShape (captured?_eq_some_iff.mp hdigits) with
        ⟨count, rest, hbytes, htext⟩
      rw [stepLine, hdigits]
      show (stepBytes digits >>= fun bytes =>
        stepRecord (String.ofList (trim text)) bytes >>= fun record => pure (some record)) = _
      rw [stepBytes_eq_ok hbytes]
      show (stepRecord (String.ofList (trim text)) (count :: rest) >>=
        fun record => pure (some record)) = _
      rw [stepRecord_eq]
      cases hread : Record.ofBytes (count :: rest) with
      | error defect =>
          rw [Record.ofLine_of_ofBytes_error htext hread]
          rfl
      | ok record =>
          rw [Record.ofLine_of_ofBytes_ok htext hread]
          rfl

namespace Record

/--
A line is passed over exactly if it does not have the shape of a record. Else the count and then
the sum of its bytes decide, and nothing more can go wrong on the way. What is accepted is what
some record is written as, but for blanks around it and the case of letters, and that of no other
record.
-/
theorem ofLine_accepts_exactly_written (text : List Char) :
    let printed := String.ofList ((trim text).map Char.toUpper ++ ['\n'])
    (ofLine text = .ok none ↔ ∀ digits, ¬ HasShape (trim text) digits) ∧
    (∀ digits, HasShape (trim text) digits →
      ∃ count rest, bytesOfHex? digits = some (count :: rest) ∧
        ((∃ record, ofLine text = .ok (some record)) ↔
          (count :: rest).length = count.toNat + 5 ∧ byteSum (count :: rest) % 256 = 0) ∧
        ((count :: rest).length ≠ count.toNat + 5 →
          ∃ fault, ofLine text = .error fault ∧ fault.message =
            "bad hex record (length): " ++ Fault.quoted (String.ofList (trim text))) ∧
        ((count :: rest).length = count.toNat + 5 →
          byteSum (count :: rest) % 256 ≠ 0 →
          ∃ fault, ofLine text = .error fault ∧ fault.message =
            "bad hex record (checksum): " ++ Fault.quoted (String.ofList (trim text))) ∧
        ∀ record, ofLine text = .ok (some record) →
          record.display = String.ofList (':' :: digits.map Char.toUpper ++ ['\n'])) ∧
    stepLine text = (ofLine text).mapError StepFault.refused ∧
    (∀ record, ofLine text = .ok (some record) ↔
      record.data.length ≤ 255 ∧ record.display = printed) ∧
    ((∃ record, ofLine text = .ok (some record)) →
      ∃ record : Record, record.display = printed ∧
        ∀ other : Record, other.display = printed → other = record) := by
  intro printed
  have haccepts : ∀ record, ofLine text = .ok (some record) ↔
      record.data.length ≤ 255 ∧ record.display = printed :=
    fun _ => ofLine_eq_ok_some_iff_display
  refine ⟨ofLine_eq_ok_none_iff_not_hasShape, ?_, stepLine_eq text, haccepts, ?_⟩
  · intro digits hshape
    rcases exists_count_of_hasShape hshape with ⟨count, rest, hbytes, htext⟩
    refine ⟨count, rest, hbytes, ?_⟩
    simp only [ne_eq, ← checksum_eq_zero_iff]
    refine ⟨exists_ofLine_iff htext, fun hlength => ⟨_, ofLine_of_length_ne htext hlength, rfl⟩,
      fun hlength hsum => ⟨_, ofLine_of_checksum_ne htext hlength hsum, rfl⟩, ?_⟩
    intro record hrecord
    rw [((haccepts record).mp hrecord).2]
    simp only [printed, hshape.1]
    rfl
  · intro haccepted
    rcases haccepted with ⟨record, hrecord⟩
    have hdisplay := ((haccepts record).mp hrecord).2
    refine ⟨record, hdisplay, ?_⟩
    intro other hother
    exact display_inj.mp (hother.trans hdisplay.symm)

/-- The record that ends a document, in small letters between blanks, a line whose count asks for
more, and one whose sum is wrong. -/
theorem ofLine_accepts_exactly_three_lines :
    (∃ record, ofLine " :00000001ff\t".toList = .ok (some record) ∧
      record.display = ":00000001FF\n" ∧
      ∀ other : Record, other.display = ":00000001FF\n" → other = record) ∧
    (∃ fault, ofLine ":01000001ff".toList = .error fault ∧
      fault.message = "bad hex record (length): " ++ Fault.quoted ":01000001ff") ∧
    ∃ fault, ofLine ":00000001fe".toList = .error fault ∧
      fault.message = "bad hex record (checksum): " ++ Fault.quoted ":00000001fe" := by
  refine ⟨?_, ?_, ?_⟩
  · rcases ofLine_accepts_exactly_written " :00000001ff\t".toList with
      ⟨_, hread, _, _, hunique⟩
    rcases hread "00000001ff".toList
        (hasShape_iff.mpr ⟨by rfl, by decide, [0, 0, 0, 1, 0xFF], by rfl⟩) with
      ⟨count, rest, hbytes, haccepted, _, _, hdisplay⟩
    cases hbytes
    rcases haccepted.mpr (by decide) with ⟨record, hrecord⟩
    rcases hunique ⟨record, hrecord⟩ with ⟨only, honly, hothers⟩
    have hprinted : record.display = ":00000001FF\n" := hdisplay record hrecord
    refine ⟨record, hrecord, hprinted, ?_⟩
    intro other hother
    exact (hothers other hother).trans (hothers record hprinted).symm
  · rcases (ofLine_accepts_exactly_written ":01000001ff".toList).2.1 "01000001ff".toList
        (hasShape_iff.mpr ⟨by rfl, by decide, [1, 0, 0, 1, 0xFF], by rfl⟩) with
      ⟨count, rest, hbytes, _, hlength, _⟩
    cases hbytes
    exact hlength (by decide)
  · rcases (ofLine_accepts_exactly_written ":00000001fe".toList).2.1 "00000001fe".toList
        (hasShape_iff.mpr ⟨by rfl, by decide, [0, 0, 0, 1, 0xFE], by rfl⟩) with
      ⟨count, rest, hbytes, _, _, hsum, _⟩
    cases hbytes
    exact hsum (by decide) (by decide)

end Record

end CycleTable.IntelHex
