import CycleTable.Text

/-!
# ASCII texts

A text of ASCII characters is one byte a character. Any other character takes at least two
bytes, none of which is ASCII, so a single foreign byte among ASCII ones encodes nothing.
-/

namespace CycleTable.Text

theorem utf8_ofList (chars : List Char) :
    utf8 (String.ofList chars) = chars.flatMap String.utf8EncodeChar := by
  rw [utf8, String.toUTF8_eq_toByteArray, String.toByteArray_ofList]
  exact List.toList_data_toByteArray

theorem utf8EncodeChar_of_ascii {c : Char} (h : c.toNat < 128) :
    String.utf8EncodeChar c = [c.toUInt8] := by
  have hsize : c.utf8Size = 1 := by
    rw [Char.utf8Size_eq_one_iff, UInt32.le_iff_toNat_le]
    exact Nat.le_of_lt_succ h
  exact String.utf8EncodeChar_eq_singleton hsize

theorem utf8_of_ascii {chars : List Char} (h : ∀ c ∈ chars, c.toNat < 128) :
    utf8 (String.ofList chars) = chars.map Char.toUInt8 := by
  rw [utf8_ofList]
  induction chars with
  | nil => rfl
  | cons c rest ih =>
      rw [List.flatMap_cons, utf8EncodeChar_of_ascii (h c List.mem_cons_self),
        ih fun d hd => h d (List.mem_cons_of_mem c hd)]
      rfl

theorem utf8_of_ofUtf8?_eq_some {bytes : Bytes} {text : String}
    (h : ofUtf8? bytes = some text) : utf8 text = bytes := by
  unfold ofUtf8? String.fromUTF8? at h
  split at h
  · next hvalid =>
      cases h
      rw [utf8, String.toUTF8_eq_toByteArray]
      rfl
  · cases h

/-- The bytes that encode no character of their own. -/
def isForeign (byte : UInt8) : Bool :=
  128 ≤ byte

theorem isForeign_toUInt8 {c : Char} (h : c.toNat < 128) : isForeign c.toUInt8 = false := by
  have hbyte : c.toUInt8.toNat = c.toNat := by
    have hmod : c.toUInt8.toNat = c.toNat % 256 := UInt32.toNat_toUInt8 c.val
    omega
  have hlow : c.toUInt8.toNat < 128 := by omega
  simpa [isForeign, UInt8.lt_iff_toNat_lt] using hlow

theorem toNat_ofUInt8 (byte : UInt8) : (Char.ofUInt8 byte).toNat = byte.toNat :=
  UInt8.toNat_toUInt32 byte

theorem ofUInt8_toUInt8 {c : Char} (h : c.toNat < 128) : Char.ofUInt8 c.toUInt8 = c := by
  have hbyte : c.toUInt8.toNat = c.toNat % 256 := UInt32.toNat_toUInt8 c.val
  have hchar := toNat_ofUInt8 c.toUInt8
  exact Char.toNat_inj.mp (by omega)

theorem ofUInt8_inj {byte other : UInt8} :
    Char.ofUInt8 byte = Char.ofUInt8 other ↔ byte = other := by
  constructor
  · intro h
    have hnat := congrArg Char.toNat h
    rw [toNat_ofUInt8, toNat_ofUInt8] at hnat
    exact UInt8.toNat_inj.mp hnat
  · intro h
    rw [h]

theorem isForeign_or (byte : UInt8) {mark : UInt8} (h : isForeign mark = true) :
    isForeign (byte ||| mark) = true := by
  have hmark : 128 ≤ mark := by
    simpa [isForeign] using h
  have hor : mark ≤ byte ||| mark := UInt8.right_le_or
  simpa [isForeign] using UInt8.le_trans hmark hor

theorem countP_isForeign_utf8EncodeChar (c : Char) :
    (String.utf8EncodeChar c).countP isForeign = 0 ∨
      2 ≤ (String.utf8EncodeChar c).countP isForeign := by
  have h80 : isForeign 0x80 = true := by decide
  have hc0 : isForeign 0xc0 = true := by decide
  have he0 : isForeign 0xe0 = true := by decide
  have hf0 : isForeign 0xf0 = true := by decide
  rcases c.utf8Size_eq with hone | htwo | hthree | hfour
  · left
    have hle := Char.utf8Size_eq_one_iff.mp hone
    rw [UInt32.le_iff_toNat_le] at hle
    have hascii : c.toNat < 128 := Nat.lt_succ_of_le hle
    rw [utf8EncodeChar_of_ascii hascii]
    simp [isForeign_toUInt8 hascii]
  · right
    rw [String.utf8EncodeChar_eq_cons_cons htwo]
    simp [isForeign_or, h80, hc0]
  · right
    rw [String.utf8EncodeChar_eq_cons_cons_cons hthree]
    simp [isForeign_or, h80, he0]
  · right
    rw [String.utf8EncodeChar_eq_cons_cons_cons_cons hfour]
    simp [isForeign_or, h80, hf0]

theorem countP_isForeign_utf8_ne_one (text : String) :
    (utf8 text).countP isForeign ≠ 1 := by
  rw [← String.ofList_toList (s := text), utf8_ofList]
  induction text.toList with
  | nil => simp
  | cons c rest ih =>
      rw [List.flatMap_cons, List.countP_append]
      have hc := countP_isForeign_utf8EncodeChar c
      omega

theorem ofUtf8?_eq_none_of_foreign {front back : Bytes} {byte : UInt8}
    (hfront : ∀ b ∈ front, isForeign b = false) (hback : ∀ b ∈ back, isForeign b = false)
    (hbyte : isForeign byte = true) : ofUtf8? (front ++ byte :: back) = none := by
  cases htext : ofUtf8? (front ++ byte :: back) with
  | none => rfl
  | some text =>
      have hone := countP_isForeign_utf8_ne_one text
      rw [utf8_of_ofUtf8?_eq_some htext, List.countP_append, List.countP_cons_of_pos hbyte] at hone
      have hnone : ∀ bytes : Bytes, (∀ b ∈ bytes, isForeign b = false) →
          bytes.countP isForeign = 0 := by
        intro bytes hbytes
        rw [List.countP_eq_zero]
        intro b hb
        simp [hbytes b hb]
      rw [hnone front hfront, hnone back hback] at hone
      exact absurd rfl hone

theorem ofUtf8?_of_ascii {bytes : Bytes} (h : ∀ b ∈ bytes, isForeign b = false) :
    ofUtf8? bytes = some (String.ofList (bytes.map Char.ofUInt8)) := by
  have hascii : ∀ c ∈ bytes.map Char.ofUInt8, c.toNat < 128 := by
    intro c hc
    rcases List.mem_map.mp hc with ⟨b, hb, rfl⟩
    have hlow := h b hb
    simp only [isForeign, decide_eq_false_iff_not, UInt8.not_le, UInt8.lt_iff_toNat_lt] at hlow
    exact hlow
  have hback : (bytes.map Char.ofUInt8).map Char.toUInt8 = bytes := by
    rw [List.map_map]
    have hround : ∀ b ∈ bytes, (Char.toUInt8 ∘ Char.ofUInt8) b = b :=
      fun b _ => UInt8.toUInt8_toUInt32 b
    rw [List.map_congr_left hround, List.map_id']
  have htext := ofUtf8?_utf8 (String.ofList (bytes.map Char.ofUInt8))
  rw [utf8_of_ascii hascii, hback] at htext
  exact htext

end CycleTable.Text
