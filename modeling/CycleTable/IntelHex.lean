import CycleTable.Fault
import CycleTable.Text

/-!
# Intel HEX

## Records

One line of an Intel HEX document: a colon, then in digits a count, an address, a type, the
data and a checksum that brings the sum of all bytes to zero.
-/

namespace CycleTable.IntelHex

open Text

structure Record where
  address : UInt16
  type : UInt8
  data : Bytes
  deriving DecidableEq, Repr

/-- The type of a record that holds a part of the image. -/
def dataType : UInt8 := 0

/-- The type of the record that ends a document. -/
def endType : UInt8 := 1

def checksum (bytes : Bytes) : UInt8 :=
  bytes.foldl (· + ·) 0

theorem checksum_append (front back : Bytes) :
    checksum (front ++ back) = checksum front + checksum back := by
  have hfrom : ∀ (bytes : Bytes) (start : UInt8),
      bytes.foldl (· + ·) start = start + checksum bytes := by
    intro bytes
    induction bytes with
    | nil =>
        intro start
        exact (UInt8.add_zero start).symm
    | cons byte rest ih =>
        intro start
        have hrest : checksum (byte :: rest) = byte + checksum rest := by
          rw [checksum, List.foldl_cons, ih, UInt8.zero_add]
        rw [List.foldl_cons, ih, hrest, UInt8.add_assoc]
  rw [checksum, List.foldl_append, hfrom]
  rfl

/-- The bytes of a text that has the shape of a record. -/
def bytesOfText? : List Char → Option Bytes
  | ':' :: digits => if digits.isEmpty then none else bytesOfHex? digits
  | _ => none

namespace Record

def isData (record : Record) : Bool :=
  record.type == dataType

def isEnd (record : Record) : Bool :=
  record.type == endType

/-- A record of the image's bytes from an address on. -/
def ofData (address : UInt16) (data : Bytes) : Record :=
  ⟨address, dataType, data⟩

def endOfFile : Record :=
  ⟨0, endType, []⟩

/-- The bytes of a record before its checksum. The count is taken modulo 256. -/
def body (record : Record) : Bytes :=
  [UInt8.ofNat record.data.length, UInt8.ofNat (record.address.toNat / 256),
    UInt8.ofNat (record.address.toNat % 256), record.type] ++ record.data

def toBytes (record : Record) : Bytes :=
  record.body ++ [-checksum record.body]

theorem length_toBytes (record : Record) :
    record.toBytes.length = record.data.length + 5 := by
  simp only [toBytes, body, List.length_append, List.length_cons, List.length_nil]
  omega

theorem checksum_toBytes (record : Record) : checksum record.toBytes = 0 := by
  rw [toBytes, checksum_append]
  simp only [checksum, List.foldl_cons, List.foldl_nil, UInt8.zero_add]
  exact UInt8.add_right_neg _

def line (record : Record) : List Char :=
  ':' :: record.toBytes.flatMap byteHex

def display (record : Record) : String :=
  String.ofList (record.line ++ ['\n'])

/-- The count is checked before the checksum. -/
def ofBytes : Bytes → Except RecordDefect Record
  | count :: high :: low :: type :: rest =>
      if rest.length ≠ count.toNat + 1 then .error .length
      else if checksum (count :: high :: low :: type :: rest) ≠ 0 then .error .checksum
      else .ok ⟨UInt16.ofNat (256 * high.toNat + low.toNat), type, rest.dropLast⟩
  | _ => .error .length

theorem ofBytes_toBytes {record : Record} (h : record.data.length < 256) :
    ofBytes record.toBytes = .ok record := by
  obtain ⟨address, type, data⟩ := record
  have haddress := address.toNat_lt
  have hsize : UInt8.size = 256 := rfl
  have hcount : (UInt8.ofNat data.length).toNat = data.length :=
    UInt8.toNat_ofNat_of_lt' h
  have hhigh : (UInt8.ofNat (address.toNat / 256)).toNat = address.toNat / 256 :=
    UInt8.toNat_ofNat_of_lt' (by omega)
  have hlow : (UInt8.ofNat (address.toNat % 256)).toNat = address.toNat % 256 :=
    UInt8.toNat_ofNat_of_lt' (Nat.mod_lt _ (by omega))
  have hsum := checksum_toBytes ⟨address, type, data⟩
  simp only [toBytes, body, List.cons_append, List.nil_append] at hsum ⊢
  simp only [ofBytes, hsum, hcount, hhigh, hlow, List.length_append, List.length_cons,
    List.length_nil, List.dropLast_concat, Nat.zero_add, ne_eq, not_true_eq_false,
    if_false, Nat.div_add_mod, UInt16.ofNat_toNat]

/-- The record of a line; a line of another shape has none. -/
def ofLine (text : List Char) : Except Fault (Option Record) :=
  match bytesOfText? (trim text) with
  | none => .ok none
  | some bytes => match ofBytes bytes with
    | .ok record => .ok (some record)
    | .error defect => .error (.badRecord defect (String.ofList (trim text)))

end Record

/-!
## Documents

A run of records up to the one that ends it. The data records lie over each other in the
order in which they stand, on an image of zeros that starts at address zero.
-/

open Text

def maxData : Nat := 32

/-- Addresses have sixteen bits. -/
def maxImage : Nat := 0x10000

structure Document where
  records : Array Record
  ended : Bool
  deriving DecidableEq, Repr

/-- Lay data over an image from a place on. The image grows to hold all of it. -/
def overlay (image : Array UInt8) (start : Nat) (data : Bytes) : Array UInt8 :=
  let room := start + data.length - image.size
  (data.foldl
    (fun (image, place) byte => (image.setIfInBounds place byte, place + 1))
    (image ++ Array.replicate room 0, start)).1

theorem toList_overlay (image : Array UInt8) (start : Nat) (data : Bytes) :
    (overlay image start data).toList =
      let base := image.toList ++ List.replicate (start + data.length - image.size) 0
      base.take start ++ data ++ base.drop (start + data.length) := by
  have hfold : ∀ (data : Bytes) (image : Array UInt8) (place : Nat),
      place + data.length ≤ image.size →
      (data.foldl
          (fun ((image, place) : Array UInt8 × Nat) byte =>
            (image.setIfInBounds place byte, place + 1))
          (image, place)).1.toList =
        image.toList.take place ++ data ++ image.toList.drop (place + data.length) := by
    intro data
    induction data with
    | nil =>
        intro image place _
        simp
    | cons byte rest ih =>
        intro image place hroom
        rw [List.length_cons] at hroom
        have hplace : place < image.toList.length := by
          rw [Array.length_toList]
          omega
        rw [List.foldl_cons, ih _ _ (by rw [Array.size_setIfInBounds]; omega),
          Array.toList_setIfInBounds, List.take_add_one, List.drop_set_of_lt (by omega),
          List.take_set_of_le (Nat.le_refl place), List.getElem?_set_self hplace,
          List.length_cons]
        simp [Nat.add_assoc, Nat.add_comm 1]
  rw [overlay, hfold _ _ _ (by simp only [Array.size_append, Array.size_replicate]; omega)]
  simp

/-- An image in pieces of at most `maxData` bytes. -/
def pieces : Bytes → List Bytes
  | [] => []
  | byte :: rest => (byte :: rest.take (maxData - 1)) :: pieces (rest.drop (maxData - 1))
  termination_by image => image.length

namespace Document

def empty : Document :=
  ⟨#[], false⟩

def size (document : Document) : Nat :=
  document.records.size

/-- Nothing follows the record that ends a document. -/
def add (document : Document) (record : Record) : Except Fault Document :=
  if document.ended then .error .recordAfterEnd
  else .ok ⟨document.records.push record, record.isEnd⟩

theorem add_eq_ok_iff {document next : Document} {record : Record} :
    document.add record = .ok next ↔
      document.ended = false ∧ next = ⟨document.records.push record, record.isEnd⟩ := by
  unfold add
  cases document.ended with
  | true => simp
  | false => simp [eq_comm]

def finish (document : Document) : Document :=
  if document.ended then document
  else ⟨document.records.push .endOfFile, true⟩

theorem ended_finish (document : Document) : document.finish.ended = true := by
  unfold finish
  split
  · assumption
  · rfl

theorem finish_finish (document : Document) :
    document.finish.finish = document.finish := by
  rw [finish, if_pos (ended_finish document)]

/-- The records of an image, in ascending order of address. -/
def ofImage (image : Bytes) : Except Fault Document :=
  if maxImage < image.length then .error .imageTooLarge
  else
    let records := (pieces image).mapIdx fun i piece =>
      Record.ofData (UInt16.ofNat (i * maxData)) piece
    .ok (finish ⟨records.toArray, false⟩)

def addLine (document : Document) (line : List Char) : Except Fault Document := do
  match ← Record.ofLine line with
  | none => return document
  | some record => document.add record

/-- A document from lines. Lines that hold no record are skipped. -/
def ofLines (lines : List (List Char)) : Except Fault Document := do
  let document ← lines.foldlM addLine empty
  if document.ended then return document else .error .endMissing

def ofFile (contents : Bytes) : Except Fault Document :=
  match ofUtf8? contents with
  | none => .error (.file .notText)
  | some text => ofLines (fileLines text)

/-- The records before the one that ends the document. -/
def content (document : Document) : List Record :=
  document.records.toList.takeWhile fun record => !record.isEnd

def image (document : Document) : Bytes :=
  ((document.content.filter Record.isData).foldl
    (fun image record => overlay image record.address.toNat record.data) #[]).toList

def ignoredTypes (document : Document) : List UInt8 :=
  (document.content.filter fun record => !record.isData).map Record.type

/-- Only a document that is ended can be written. -/
def display (document : Document) : Except Fault String :=
  if document.ended then
    .ok (String.join (document.records.toList.map Record.display))
  else
    .error .endUnwritten

end Document

end CycleTable.IntelHex
