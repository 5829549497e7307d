import CycleTable.IntelHex
import CycleTable.Proofs.IntelHex.Reading

/-!
# The image of a document

## Data laid over each other

Data laid over an image make it as long as they reach and are read where they lie. Of many that
were laid one after another, each place shows the last that covers it.
-/

namespace CycleTable.IntelHex

theorem getD_overlay (image : Array UInt8) (start : Nat) (data : Bytes) (place : Nat) :
    (overlay image start data).toList.getD place 0 =
      if start ≤ place ∧ place < start + data.length then data.getD (place - start) 0
      else image.toList.getD place 0 := by
  have hbase : (image.toList ++
      List.replicate (start + data.length - image.size) 0).getD place 0 =
        image.toList.getD place 0 := by
    by_cases hplace : place < image.toList.length
    · rw [List.getD_eq_getElem?_getD, List.getD_eq_getElem?_getD,
        List.getElem?_append_left hplace]
    · rw [List.getD_eq_getElem?_getD, List.getD_eq_getElem?_getD,
        List.getElem?_append_right (by omega), List.getElem?_replicate,
        List.getElem?_eq_none (by omega)]
      split <;> rfl
  rw [toList_overlay, ← hbase]
  have hlength : start + data.length ≤
      (image.toList ++ List.replicate (start + data.length - image.size) 0).length := by
    simp only [List.length_append, List.length_replicate, Array.length_toList]
    omega
  generalize image.toList ++ List.replicate (start + data.length - image.size) 0 = base
    at hlength ⊢
  simp only [List.getD_eq_getElem?_getD, List.getElem?_append, List.length_append,
    List.length_take, List.getElem?_take, List.getElem?_drop]
  have hmin : min start base.length = start := by omega
  rw [hmin]
  by_cases hbefore : place < start
  · rw [if_pos (by omega), if_pos hbefore, if_pos hbefore, if_neg (by omega)]
  · by_cases hinside : place < start + data.length
    · rw [if_pos hinside, if_neg hbefore, if_pos (by omega)]
    · have hplace : start + data.length + (place - (start + data.length)) = place := by omega
      rw [if_neg hinside, if_neg (by omega), hplace]

theorem toList_overlay_size (image : Array UInt8) (data : Bytes) :
    (overlay image image.size data).toList = image.toList ++ data := by
  have hlength : image.toList.length = image.size := Array.length_toList
  rw [toList_overlay]
  simp [hlength]

theorem size_overlay (image : Array UInt8) (start : Nat) (data : Bytes) :
    (overlay image start data).size = max image.size (start + data.length) := by
  rw [← Array.length_toList, toList_overlay]
  simp only [List.length_append, List.length_take, List.length_drop, List.length_replicate,
    Array.length_toList]
  omega

namespace Record

/-- The place behind the last byte of a record. -/
def limit (record : Record) : Nat :=
  record.address.toNat + record.data.length

def covers (record : Record) (place : Nat) : Bool :=
  decide (record.address.toNat ≤ place ∧ place < record.limit)

def byteAt (record : Record) (place : Nat) : UInt8 :=
  record.data.getD (place - record.address.toNat) 0

theorem covers_eq_true_iff {record : Record} {place : Nat} :
    record.covers place = true ↔ record.address.toNat ≤ place ∧ place < record.limit :=
  decide_eq_true_iff

theorem getD_overlay (record : Record) (image : Array UInt8) (place : Nat) :
    (overlay image record.address.toNat record.data).toList.getD place 0 =
      if record.covers place then record.byteAt place else image.toList.getD place 0 := by
  simp only [IntelHex.getD_overlay, covers_eq_true_iff, limit, byteAt]

end Record

/-- The last of the records that covers a place. -/
def lastCovering? (records : List Record) (place : Nat) : Option Record :=
  records.reverse.find? fun record => record.covers place

/-- What records leave at a place: the byte of the last that covers it, or zero. -/
def lastByte (records : List Record) (place : Nat) : UInt8 :=
  ((lastCovering? records place).map (Record.byteAt · place)).getD 0

/-- An image that reaches as far as some records do, and holds at each of its places what they leave
there. -/
structure IsFlat (records : List Record) (image : Bytes) : Prop where
  length : image.length = (records.map Record.limit).max?.getD 0
  getElem? : ∀ place, place < image.length → image[place]? = some (lastByte records place)

variable {records : List Record} {place : Nat}

theorem IsFlat.unique {image other : Bytes} (h : IsFlat records image)
    (hother : IsFlat records other) : image = other := by
  have hlength : image.length = other.length := h.length.trans hother.length.symm
  apply List.ext_getElem?
  intro place
  by_cases hplace : place < image.length
  · rw [h.getElem? place hplace, hother.getElem? place (hlength ▸ hplace)]
  · rw [List.getElem?_eq_none (by omega), List.getElem?_eq_none (by omega)]

theorem lastCovering?_cons (record : Record) (records : List Record) (place : Nat) :
    lastCovering? (record :: records) place =
      (lastCovering? records place).or (if record.covers place then some record else none) := by
  rw [lastCovering?, List.reverse_cons, List.find?_append, List.find?_singleton]
  rfl

theorem lastCovering?_eq_none_iff :
    lastCovering? records place = none ↔ ∀ record ∈ records, record.covers place = false := by
  simp [lastCovering?]

theorem size_foldl_overlay (records : List Record) (image : Array UInt8) :
    (records.foldl (fun image record => overlay image record.address.toNat record.data)
      image).size = (records.map Record.limit).foldl max image.size := by
  induction records generalizing image with
  | nil => rfl
  | cons record rest ih =>
      rw [List.foldl_cons, ih, size_overlay]
      rfl

/-- Each place shows the last record that covers it, and what was there before if none does. -/
theorem getD_foldl_overlay (records : List Record) (image : Array UInt8) (place : Nat) :
    (records.foldl (fun image record => overlay image record.address.toNat record.data)
      image).toList.getD place 0 =
        ((lastCovering? records place).map (Record.byteAt · place)).getD
          (image.toList.getD place 0) := by
  induction records generalizing image with
  | nil => rfl
  | cons record rest ih =>
      rw [List.foldl_cons, ih, record.getD_overlay, lastCovering?_cons]
      cases lastCovering? rest place with
      | some later => rfl
      | none => cases record.covers place <;> rfl

end CycleTable.IntelHex

/-!
## Records of an image

The data records of an image give the image back, and a place that no record covers is left
zero.
-/

namespace CycleTable.IntelHex

def Record.Misses (place : Nat) (record : Record) : Prop :=
  place < record.address.toNat ∨ record.address.toNat + record.data.length ≤ place

theorem Record.Misses.covers_eq_false {place : Nat} {record : Record}
    (h : record.Misses place) : record.covers place = false := by
  unfold Misses at h
  rw [covers, limit, decide_eq_false_iff_not]
  omega

theorem Document.getD_image_of_misses {document : Document} {place : Nat}
    (h : ∀ record ∈ document.records.toList, record.Misses place) :
    document.image.getD place 0 = 0 := by
  unfold Document.image
  rw [getD_foldl_overlay, lastCovering?_eq_none_iff.mpr]
  · rfl
  · intro record hrecord
    have hcontent := (List.mem_filter.mp hrecord).1
    exact (h record (List.takeWhile_subset _ hcontent)).covers_eq_false

def dataRecords (image : Bytes) : List Record :=
  (pieces image).mapIdx fun i piece => Record.ofData (UInt16.ofNat (i * maxData)) piece

theorem Document.ofImage_eq_ok_iff {image : Bytes} {document : Document} :
    ofImage image = .ok document ↔
      image.length ≤ maxImage ∧
        document = ⟨(dataRecords image ++ [Record.endOfFile]).toArray, true⟩ := by
  unfold ofImage
  by_cases hlarge : maxImage < image.length
  · rw [if_pos hlarge]
    constructor
    · intro h
      cases h
    · intro h
      omega
  · rw [if_neg hlarge]
    have hfinish : finish ⟨(dataRecords image).toArray, false⟩ =
        ⟨(dataRecords image ++ [Record.endOfFile]).toArray, true⟩ := by
      simp [finish]
    show Except.ok (finish ⟨(dataRecords image).toArray, false⟩) = Except.ok document ↔ _
    rw [hfinish]
    constructor
    · intro h
      cases h
      exact ⟨by omega, rfl⟩
    · intro h
      rw [h.2]

theorem length_pieces (image : Bytes) : (pieces image).length = (image.length + 31) / 32 := by
  fun_induction pieces image with
  | case1 => rfl
  | case2 byte rest ih =>
      rw [List.length_cons, ih, List.length_cons, List.length_drop]
      simp only [maxData]
      omega

theorem length_dataRecords (image : Bytes) :
    (dataRecords image).length = (image.length + 31) / 32 := by
  rw [dataRecords, List.length_mapIdx, length_pieces]

theorem getElem?_pieces {image piece : Bytes} {i : Nat} (h : (pieces image)[i]? = some piece) :
    i * maxData < image.length ∧ piece = (image.drop (i * maxData)).take maxData := by
  fun_induction pieces image generalizing i with
  | case1 => simp at h
  | case2 byte rest ih =>
      cases i with
      | zero =>
          rw [List.getElem?_cons_zero, Option.some.injEq] at h
          rw [← h]
          exact ⟨by simp, rfl⟩
      | succ i =>
          rw [List.getElem?_cons_succ] at h
          rcases ih h with ⟨hlength, hpiece⟩
          rw [List.length_drop] at hlength
          rw [List.drop_drop] at hpiece
          have hplace : (i + 1) * maxData = maxData - 1 + i * maxData + 1 := by
            simp only [maxData]
            omega
          rw [hplace]
          exact ⟨by rw [List.length_cons]; omega, by rw [List.drop_succ_cons, hpiece]⟩

theorem getElem?_dataRecords {image : Bytes} (himage : image.length ≤ maxImage)
    {record : Record} {i : Nat} (h : (dataRecords image)[i]? = some record) :
    i * maxData < image.length ∧ record.address.toNat = i * maxData ∧
      record.type = dataType ∧ record.data = (image.drop (i * maxData)).take maxData := by
  rw [dataRecords, List.getElem?_mapIdx, Option.map_eq_some_iff] at h
  rcases h with ⟨piece, hpiece, rfl⟩
  rcases getElem?_pieces hpiece with ⟨hlength, rfl⟩
  have haddress : (UInt16.ofNat (i * maxData)).toNat = i * maxData := by
    apply UInt16.toNat_ofNat_of_lt'
    rw [UInt16.size]
    unfold maxImage at himage
    omega
  exact ⟨hlength, haddress, rfl, rfl⟩

theorem of_mem_dataRecords {image : Bytes} (himage : image.length ≤ maxImage)
    {record : Record} (h : record ∈ dataRecords image) :
    record.isData = true ∧ record.isEnd = false ∧ record.data.length ≤ maxData := by
  rcases List.mem_iff_getElem?.mp h with ⟨i, hi⟩
  rcases getElem?_dataRecords himage hi with ⟨_, _, htype, hdata⟩
  refine ⟨?_, ?_, ?_⟩
  · rw [Record.isData, htype]
    rfl
  · rw [Record.isEnd, htype]
    rfl
  · rw [hdata, List.length_take]
    omega

def imageRecords (image : Bytes) : List Record :=
  dataRecords image ++ [Record.endOfFile]

theorem isEnded_imageRecords {image : Bytes} (himage : image.length ≤ maxImage) :
    IsEnded (imageRecords image) :=
  ⟨dataRecords image, Record.endOfFile, rfl, rfl,
    fun _ hrecord => (of_mem_dataRecords himage hrecord).2.1⟩

theorem length_data_of_mem_imageRecords {image : Bytes} (himage : image.length ≤ maxImage)
    {record : Record} (h : record ∈ imageRecords image) : record.data.length < 256 := by
  rcases List.mem_append.mp h with hdata | hend
  · have hlength := (of_mem_dataRecords himage hdata).2.2
    unfold maxData at hlength
    omega
  · rw [List.mem_singleton.mp hend]
    decide

theorem misses_of_dataRecords {image : Bytes} (himage : image.length ≤ maxImage)
    {record : Record} {i j : Nat} (h : (dataRecords image)[i]? = some record) (hne : i ≠ j) :
    record.Misses (j * maxData) := by
  rcases getElem?_dataRecords himage h with ⟨_, haddress, _, hdata⟩
  unfold Record.Misses
  rw [haddress, hdata, List.length_take]
  simp only [maxData]
  omega

theorem misses_endOfFile (place : Nat) : Record.endOfFile.Misses place :=
  Or.inr (Nat.zero_le place)

/-- The pieces from one place on, laid over an image that ends there. Only the last piece may be
a short one, and nothing is laid behind it. -/
theorem toList_foldl_pieces {image : Bytes} {base : Array UInt8} {count : Nat}
    (hbase : image ≠ [] → base.size = count * maxData)
    (hroom : base.size + image.length ≤ maxImage) :
    (((pieces image).mapIdx fun i piece =>
        Record.ofData (UInt16.ofNat ((i + count) * maxData)) piece).foldl
      (fun image record => overlay image record.address.toNat record.data) base).toList =
        base.toList ++ image := by
  fun_induction pieces image generalizing base count with
  | case1 => simp
  | case2 byte rest ih =>
      have hsize := hbase (List.cons_ne_nil byte rest)
      rw [List.length_cons] at hroom
      have haddress : (UInt16.ofNat ((0 + count) * maxData)).toNat = base.size := by
        rw [Nat.zero_add, ← hsize]
        apply UInt16.toNat_ofNat_of_lt'
        rw [UInt16.size]
        unfold maxImage at hroom
        omega
      have hlaid := toList_overlay_size base (byte :: rest.take (maxData - 1))
      have hgrown : (overlay base base.size (byte :: rest.take (maxData - 1))).size =
          base.size + (min (maxData - 1) rest.length + 1) := by
        have hlength := congrArg List.length hlaid
        rwa [List.length_append, Array.length_toList, Array.length_toList, List.length_cons,
          List.length_take] at hlength
      have hnext : rest.drop (maxData - 1) ≠ [] →
          (overlay base base.size (byte :: rest.take (maxData - 1))).size =
            (count + 1) * maxData := by
        intro hmore
        have hlong := List.length_pos_iff.mpr hmore
        rw [List.length_drop] at hlong
        rw [hgrown, hsize]
        simp only [maxData] at hlong ⊢
        omega
      have hfit : (overlay base base.size (byte :: rest.take (maxData - 1))).size +
          (rest.drop (maxData - 1)).length ≤ maxImage := by
        rw [hgrown, List.length_drop]
        omega
      have hrest := ih hnext hfit
      rw [List.mapIdx_cons, List.foldl_cons]
      simp only [Record.ofData, haddress, Nat.add_right_comm _ 1 count]
      simp only [Record.ofData, ← Nat.add_assoc] at hrest
      rw [hrest, hlaid, List.append_assoc, List.cons_append, List.take_append_drop]

theorem Document.content_ofImage {image : Bytes} (himage : image.length ≤ maxImage) :
    content ⟨(dataRecords image ++ [Record.endOfFile]).toArray, true⟩ = dataRecords image := by
  have hopen : ∀ record ∈ dataRecords image, (!record.isEnd) = true := by
    intro record hrecord
    rw [(of_mem_dataRecords himage hrecord).2.1]
    rfl
  have hend : (!Record.endOfFile.isEnd) = false := rfl
  rw [content, List.takeWhile_append_of_pos hopen, List.takeWhile_cons, hend]
  exact List.append_nil _

theorem Document.image_ofImage {image : Bytes} {document : Document}
    (h : ofImage image = .ok document) : document.image = image := by
  rcases ofImage_eq_ok_iff.mp h with ⟨himage, rfl⟩
  have hdata : (dataRecords image).filter Record.isData = dataRecords image := by
    rw [List.filter_eq_self]
    intro record hrecord
    exact (of_mem_dataRecords himage hrecord).1
  rw [Document.image, content_ofImage himage, hdata]
  have hstart : (#[] : Array UInt8).size = 0 * maxData := by simp
  have hroom : (#[] : Array UInt8).size + image.length ≤ maxImage := by simpa using himage
  exact @toList_foldl_pieces image #[] 0 (fun _ => hstart) hroom

end CycleTable.IntelHex
