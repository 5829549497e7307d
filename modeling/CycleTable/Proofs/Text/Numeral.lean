import CycleTable.Text

/-!
# Digits read as bytes and as numbers

Which characters are digits, and what becomes of the bytes when the digits are cut short or
one of them is replaced. A number is read back from its digits, in either case and behind zeros.
-/

namespace CycleTable.Text

theorem digitValue?_eq_some_iff {c : Char} {value : Nat} :
    digitValue? c = some value ↔
      (48 ≤ c.toNat ∧ c.toNat ≤ 57 ∧ value = c.toNat - 48) ∨
      (65 ≤ c.toNat ∧ c.toNat ≤ 70 ∧ value = c.toNat - 55) ∨
      (97 ≤ c.toNat ∧ c.toNat ≤ 102 ∧ value = c.toNat - 87) := by
  have hle : ∀ a b : Char, a ≤ b ↔ a.toNat ≤ b.toNat := by
    intro a b
    rw [Char.le_def, UInt32.le_iff_toNat_le]
    rfl
  have h0 : '0'.toNat = 48 := rfl
  have h9 : '9'.toNat = 57 := rfl
  have hA : 'A'.toNat = 65 := rfl
  have hF : 'F'.toNat = 70 := rfl
  have ha : 'a'.toNat = 97 := rfl
  have hf : 'f'.toNat = 102 := rfl
  unfold digitValue?
  simp only [hle, h0, h9, hA, hF, ha, hf]
  split
  · rw [Option.some.injEq]
    omega
  · split
    · rw [Option.some.injEq]
      omega
    · split
      · rw [Option.some.injEq]
        omega
      · simp only [reduceCtorEq, false_iff]
        omega

theorem digitValue?_lt {c : Char} {value : Nat} (h : digitValue? c = some value) :
    value < 16 := by
  have hcases := digitValue?_eq_some_iff.mp h
  omega

theorem isBlank_of_isHexDigit {c : Char} (h : isHexDigit c = true) : isBlank c = false := by
  rcases Option.isSome_iff_exists.mp h with ⟨value, hvalue⟩
  have hcases := digitValue?_eq_some_iff.mp hvalue
  simp only [isBlank, Bool.or_eq_false_iff, Bool.and_eq_false_iff, decide_eq_false_iff_not,
    beq_eq_false_iff_ne]
  omega

theorem not_isHexDigit_colon : isHexDigit ':' = false := rfl

theorem not_isHexDigit_newline : isHexDigit '\n' = false := rfl

/-- The digits that are written: no lower-case letters. -/
def IsWrittenDigit (c : Char) : Prop :=
  (48 ≤ c.toNat ∧ c.toNat ≤ 57) ∨ (65 ≤ c.toNat ∧ c.toNat ≤ 70)

theorem IsWrittenDigit.isHexDigit {c : Char} (h : IsWrittenDigit c) :
    isHexDigit c = true := by
  rw [Text.isHexDigit, Option.isSome_iff_exists]
  rcases h with hdigit | hletter
  · exact ⟨c.toNat - 48, digitValue?_eq_some_iff.mpr (Or.inl ⟨hdigit.1, hdigit.2, rfl⟩)⟩
  · exact ⟨c.toNat - 55,
      digitValue?_eq_some_iff.mpr (Or.inr (Or.inl ⟨hletter.1, hletter.2, rfl⟩))⟩

theorem isWrittenDigit_hexDigit {value : Nat} (h : value < 16) :
    IsWrittenDigit (hexDigit value) := by
  have hall : ∀ v : Fin 16,
      (48 ≤ (hexDigit v).toNat ∧ (hexDigit v).toNat ≤ 57) ∨
        (65 ≤ (hexDigit v).toNat ∧ (hexDigit v).toNat ≤ 70) := by decide
  exact hall ⟨value, h⟩

theorem isWrittenDigit_of_mem_flatMap_byteHex {bytes : List UInt8} {c : Char}
    (h : c ∈ bytes.flatMap byteHex) : IsWrittenDigit c := by
  rcases List.mem_flatMap.mp h with ⟨byte, _, hc⟩
  have hbyte := byte.toNat_lt
  simp only [byteHex, List.mem_cons, List.not_mem_nil, or_false] at hc
  rcases hc with rfl | rfl
  · exact isWrittenDigit_hexDigit (by omega)
  · exact isWrittenDigit_hexDigit (by omega)

theorem toNat_eq_of_digitValue?_eq {old new : Char} (hold : IsWrittenDigit old)
    (hne : new ≠ old) (h : digitValue? new = digitValue? old) :
    65 ≤ old.toNat ∧ old.toNat ≤ 70 ∧ new.toNat = old.toNat + 32 := by
  rcases Option.isSome_iff_exists.mp hold.isHexDigit with ⟨value, hvalue⟩
  have holdCases := digitValue?_eq_some_iff.mp hvalue
  have hnewCases := digitValue?_eq_some_iff.mp (h.trans hvalue)
  have hneNat : new.toNat ≠ old.toNat := fun heq => hne (Char.toNat_inj.mp heq)
  unfold IsWrittenDigit at hold
  omega

theorem toNat_toLower (c : Char) :
    c.toLower.toNat = if 65 ≤ c.toNat ∧ c.toNat ≤ 90 then c.toNat + 32 else c.toNat := by
  have hrange : (c.val ≥ 'A'.val ∧ c.val ≤ 'Z'.val) ↔ 65 ≤ c.toNat ∧ c.toNat ≤ 90 := by
    rw [ge_iff_le, UInt32.le_iff_toNat_le, UInt32.le_iff_toNat_le]
    rfl
  unfold Char.toLower
  by_cases hupper : 65 ≤ c.toNat ∧ c.toNat ≤ 90
  · rw [dif_pos (hrange.mpr hupper), if_pos hupper]
    show (c.val + 32).toNat = c.toNat + 32
    have hsmall : c.val.toNat ≤ 90 := hupper.2
    rw [UInt32.toNat_add, Nat.mod_eq_of_lt (by simp; omega)]
    rfl
  · rw [dif_neg (mt hrange.mp hupper), if_neg hupper]

theorem digitValue?_toLower (c : Char) : digitValue? c.toLower = digitValue? c := by
  ext value
  rw [digitValue?_eq_some_iff, digitValue?_eq_some_iff, toNat_toLower]
  split <;> omega

theorem toNat_toUpper (c : Char) :
    c.toUpper.toNat = if 97 ≤ c.toNat ∧ c.toNat ≤ 122 then c.toNat - 32 else c.toNat := by
  have hrange : ('a'.val ≤ c.val ∧ c.val ≤ 'z'.val) ↔ 97 ≤ c.toNat ∧ c.toNat ≤ 122 := by
    rw [UInt32.le_iff_toNat_le, UInt32.le_iff_toNat_le]
    rfl
  unfold Char.toUpper
  by_cases hlower : 97 ≤ c.toNat ∧ c.toNat ≤ 122
  · rw [dif_pos (hrange.mpr hlower), if_pos hlower]
    show (c.val + ('A'.val - 'a'.val)).toNat = c.toNat - 32
    have hbounds : 97 ≤ c.val.toNat ∧ c.val.toNat ≤ 122 := hlower
    have hshift : ('A'.val - 'a'.val).toNat = 2 ^ 32 - 32 := rfl
    rw [UInt32.toNat_add, hshift]
    show (c.val.toNat + (2 ^ 32 - 32)) % 2 ^ 32 = c.val.toNat - 32
    omega
  · rw [dif_neg (mt hrange.mp hlower), if_neg hlower]

theorem digitValue?_toUpper (c : Char) : digitValue? c.toUpper = digitValue? c := by
  ext value
  rw [digitValue?_eq_some_iff, digitValue?_eq_some_iff, toNat_toUpper]
  split <;> omega

theorem toNat_hexDigit {value : Nat} (h : value < 16) :
    (hexDigit value).toNat = if value < 10 then value + 48 else value + 55 := by
  have hall : ∀ v : Fin 16,
      (hexDigit v).toNat = if v.val < 10 then v.val + 48 else v.val + 55 := by decide
  exact hall ⟨value, h⟩

theorem toUpper_of_digitValue? {c : Char} {value : Nat} (h : digitValue? c = some value) :
    c.toUpper = hexDigit value := by
  have hcases := digitValue?_eq_some_iff.mp h
  apply Char.toNat_inj.mp
  rw [toNat_toUpper, toNat_hexDigit (digitValue?_lt h)]
  split <;> split <;> omega

theorem toNat_digitChar {value : Nat} (h : value < 16) :
    (Nat.digitChar value).toNat = if value < 10 then value + 48 else value + 87 := by
  have hall : ∀ v : Fin 16,
      (Nat.digitChar v).toNat = if v.val < 10 then v.val + 48 else v.val + 87 := by decide
  exact hall ⟨value, h⟩

theorem toLower_of_digitValue? {c : Char} {value : Nat} (h : digitValue? c = some value) :
    c.toLower = Nat.digitChar value := by
  have hcases := digitValue?_eq_some_iff.mp h
  apply Char.toNat_inj.mp
  rw [toNat_toLower, toNat_digitChar (digitValue?_lt h)]
  split <;> split <;> omega

theorem eq_colon_of_toLower {c : Char} (h : c.toLower = ':') : c = ':' := by
  have hnat := congrArg Char.toNat h
  have hcolon : ':'.toNat = 58 := rfl
  rw [toNat_toLower, hcolon] at hnat
  apply Char.toNat_inj.mp
  rw [hcolon]
  split at hnat <;> omega

theorem eq_colon_of_toUpper {c : Char} (h : c.toUpper = ':') : c = ':' := by
  have hnat := congrArg Char.toNat h
  have hcolon : ':'.toNat = 58 := rfl
  rw [toNat_toUpper, hcolon] at hnat
  apply Char.toNat_inj.mp
  rw [hcolon]
  split at hnat <;> omega

theorem isBlank_toLower (c : Char) : isBlank c.toLower = isBlank c := by
  rw [Bool.eq_iff_iff]
  simp only [isBlank, toNat_toLower, Bool.or_eq_true, Bool.and_eq_true, decide_eq_true_eq,
    beq_iff_eq]
  split <;> omega

section Bytes

variable {digits front back : List Char} {bytes others : List UInt8}

theorem bytesOfHex?_cons_cons_eq_some_iff {high low : Char} :
    bytesOfHex? (high :: low :: digits) = some bytes ↔
      ∃ h l rest, digitValue? high = some h ∧ digitValue? low = some l ∧
        bytesOfHex? digits = some rest ∧ bytes = UInt8.ofNat (16 * h + l) :: rest := by
  rw [bytesOfHex?]
  simp only [Option.bind_eq_bind, Option.bind_eq_some_iff, Option.pure_def, Option.some.injEq]
  constructor
  · intro hread
    rcases hread with ⟨h, hh, l, hl, rest, hrest, hbytes⟩
    exact ⟨h, l, rest, hh, hl, hrest, hbytes.symm⟩
  · intro hread
    rcases hread with ⟨h, l, rest, hh, hl, hrest, hbytes⟩
    exact ⟨h, hh, l, hl, rest, hrest, hbytes.symm⟩

theorem length_of_bytesOfHex? (h : bytesOfHex? digits = some bytes) :
    digits.length = 2 * bytes.length := by
  induction digits using bytesOfHex?.induct generalizing bytes with
  | case1 =>
      cases h
      rfl
  | case2 c => cases h
  | case3 high low digits ih =>
      rcases bytesOfHex?_cons_cons_eq_some_iff.mp h with ⟨_, _, rest, _, _, hrest, rfl⟩
      have hlength := ih hrest
      simp only [List.length_cons]
      omega

theorem isHexDigit_of_bytesOfHex? (h : bytesOfHex? digits = some bytes) {c : Char}
    (hc : c ∈ digits) : isHexDigit c = true := by
  induction digits using bytesOfHex?.induct generalizing bytes with
  | case1 => cases hc
  | case2 _ => cases h
  | case3 high low digits ih =>
      rcases bytesOfHex?_cons_cons_eq_some_iff.mp h with ⟨_, _, rest, hhigh, hlow, hrest, rfl⟩
      rcases List.mem_cons.mp hc with rfl | hc
      · exact Option.isSome_of_eq_some hhigh
      · rcases List.mem_cons.mp hc with rfl | hc
        · exact Option.isSome_of_eq_some hlow
        · exact ih hrest hc

theorem bytesOfHex?_append (h : bytesOfHex? front = some bytes) :
    bytesOfHex? (front ++ back) = (bytesOfHex? back).map (bytes ++ ·) := by
  induction front using bytesOfHex?.induct generalizing bytes with
  | case1 =>
      cases h
      simp
  | case2 _ => cases h
  | case3 high low digits ih =>
      rcases bytesOfHex?_cons_cons_eq_some_iff.mp h with ⟨_, _, rest, hhigh, hlow, hrest, rfl⟩
      simp only [List.cons_append, bytesOfHex?, hhigh, hlow, ih hrest, Option.bind_eq_bind,
        Option.bind_some, Option.pure_def]
      cases bytesOfHex? back with
      | none => rfl
      | some more => rfl

theorem bytesOfHex?_map {f : Char → Char} (hvalue : ∀ c, digitValue? (f c) = digitValue? c)
    (digits : List Char) : bytesOfHex? (digits.map f) = bytesOfHex? digits := by
  induction digits using bytesOfHex?.induct with
  | case1 => rfl
  | case2 c => rfl
  | case3 high low digits ih =>
      simp only [List.map_cons, bytesOfHex?, hvalue, ih]

theorem exists_bytesOfHex?_iff :
    (∃ bytes, bytesOfHex? digits = some bytes) ↔
      digits.length % 2 = 0 ∧ ∀ c ∈ digits, isHexDigit c = true := by
  constructor
  · intro h
    rcases h with ⟨bytes, hbytes⟩
    have hlength := length_of_bytesOfHex? hbytes
    exact ⟨by omega, fun _ => isHexDigit_of_bytesOfHex? hbytes⟩
  · intro h
    rcases h with ⟨heven, hdigits⟩
    induction digits using bytesOfHex?.induct with
    | case1 => exact ⟨[], rfl⟩
    | case2 c => cases heven
    | case3 high low digits ih =>
        simp only [List.forall_mem_cons] at hdigits
        rcases hdigits with ⟨hhigh, hlow, hrest⟩
        rw [List.length_cons, List.length_cons, Nat.add_assoc, Nat.add_mod_right] at heven
        rcases Option.isSome_iff_exists.mp hhigh with ⟨h, hh⟩
        rcases Option.isSome_iff_exists.mp hlow with ⟨l, hl⟩
        rcases ih heven hrest with ⟨rest, hbytes⟩
        exact ⟨_, bytesOfHex?_cons_cons_eq_some_iff.mpr ⟨h, l, rest, hh, hl, hbytes, rfl⟩⟩

theorem byteHex_ofNat {high low : Nat} (hhigh : high < 16) (hlow : low < 16) :
    byteHex (UInt8.ofNat (16 * high + low)) = [hexDigit high, hexDigit low] := by
  have hbyte : (UInt8.ofNat (16 * high + low)).toNat = 16 * high + low :=
    UInt8.toNat_ofNat_of_lt' (by rw [UInt8.size]; omega)
  have hdiv : (16 * high + low) / 16 = high := by omega
  have hmod : (16 * high + low) % 16 = low := by omega
  rw [byteHex, hbyte, hdiv, hmod]

theorem bytesOfHex?_eq_some_iff_map_toUpper :
    bytesOfHex? digits = some bytes ↔ digits.map Char.toUpper = bytes.flatMap byteHex := by
  constructor
  · intro h
    induction digits using bytesOfHex?.induct generalizing bytes with
    | case1 =>
        cases h
        rfl
    | case2 c => cases h
    | case3 high low digits ih =>
        rcases bytesOfHex?_cons_cons_eq_some_iff.mp h with ⟨h, l, rest, hh, hl, hrest, rfl⟩
        rw [List.map_cons, List.map_cons, List.flatMap_cons, ih hrest,
          toUpper_of_digitValue? hh, toUpper_of_digitValue? hl,
          byteHex_ofNat (digitValue?_lt hh) (digitValue?_lt hl)]
        rfl
  · intro h
    rw [← bytesOfHex?_map digitValue?_toUpper, h]
    exact bytesOfHex?_flatMap_byteHex bytes

theorem ofNat_digits_inj {high low high' low' : Nat} (hhigh : high < 16) (hlow : low < 16)
    (hhigh' : high' < 16) (hlow' : low' < 16)
    (h : UInt8.ofNat (16 * high + low) = UInt8.ofNat (16 * high' + low')) :
    high = high' ∧ low = low' := by
  have hnat := congrArg UInt8.toNat h
  rw [UInt8.toNat_ofNat_of_lt' (by rw [UInt8.size]; omega),
    UInt8.toNat_ofNat_of_lt' (by rw [UInt8.size]; omega)] at hnat
  omega

/-- A replaced digit either has the same value or changes the byte that it belongs to and no
other. -/
theorem bytesOfHex?_replace {old new : Char}
    (hold : bytesOfHex? (front ++ old :: back) = some bytes)
    (hnew : bytesOfHex? (front ++ new :: back) = some others) :
    (digitValue? new = digitValue? old ∧ others = bytes) ∨
      ∃ before byte other after, bytes = before ++ byte :: after ∧
        others = before ++ other :: after ∧ other ≠ byte ∧
          before.length = front.length / 2 := by
  -- Pair by pair to the one that holds the replaced digit, as its first or its second.
  induction front using bytesOfHex?.induct generalizing bytes others with
  | case1 =>
      cases back with
      | nil => cases hold
      | cons low back =>
          rw [List.nil_append, bytesOfHex?_cons_cons_eq_some_iff] at hold hnew
          rcases hold with ⟨h, l, rest, hh, hl, hrest, rfl⟩
          rcases hnew with ⟨h', l', rest', hh', hl', hrest', rfl⟩
          cases hl.symm.trans hl'
          cases hrest.symm.trans hrest'
          by_cases heq : h' = h
          · left
            rw [hh, hh', heq]
            exact ⟨rfl, rfl⟩
          · right
            refine ⟨[], _, _, rest, rfl, rfl, ?_, rfl⟩
            intro hbyte
            exact heq (ofNat_digits_inj (digitValue?_lt hh') (digitValue?_lt hl)
              (digitValue?_lt hh) (digitValue?_lt hl) hbyte).1
  | case2 high =>
      rw [List.cons_append, List.nil_append, bytesOfHex?_cons_cons_eq_some_iff] at hold hnew
      rcases hold with ⟨h, l, rest, hh, hl, hrest, rfl⟩
      rcases hnew with ⟨h', l', rest', hh', hl', hrest', rfl⟩
      cases hh.symm.trans hh'
      cases hrest.symm.trans hrest'
      by_cases heq : l' = l
      · left
        rw [hl, hl', heq]
        exact ⟨rfl, rfl⟩
      · right
        refine ⟨[], _, _, rest, rfl, rfl, ?_, by simp⟩
        intro hbyte
        exact heq (ofNat_digits_inj (digitValue?_lt hh) (digitValue?_lt hl')
          (digitValue?_lt hh) (digitValue?_lt hl) hbyte).2
  | case3 high low digits ih =>
      rw [List.cons_append, List.cons_append, bytesOfHex?_cons_cons_eq_some_iff] at hold hnew
      rcases hold with ⟨h, l, rest, hh, hl, hrest, rfl⟩
      rcases hnew with ⟨h', l', rest', hh', hl', hrest', rfl⟩
      cases hh.symm.trans hh'
      cases hl.symm.trans hl'
      rcases ih hrest hrest' with
        ⟨hvalue, rfl⟩ | ⟨before, byte, other, after, rfl, rfl, hne, hplace⟩
      · exact Or.inl ⟨hvalue, rfl⟩
      · refine Or.inr ⟨_ :: before, byte, other, after, rfl, rfl, hne, ?_⟩
        simp only [List.length_cons]
        omega

end Bytes

section Numbers

variable {base number : Nat} {digits : List Char}

theorem number?_concat (base : Nat) (digits : List Char) (c : Char) :
    number? base (digits ++ [c]) =
      (number? base digits).bind fun value =>
        (digitValue? c).bind fun digit =>
          if digit < base then some (value * base + digit) else none := by
  simp [number?, List.foldlM_append]

theorem digitValue?_digitChar {value : Nat} (h : value < 16) :
    digitValue? (Nat.digitChar value) = some value := by
  have hall : ∀ v : Fin 16, digitValue? (Nat.digitChar v) = some v.val := by decide
  exact hall ⟨value, h⟩

theorem number?_toDigits (hbase : 1 < base) (hlast : base ≤ 16) (number : Nat) :
    number? base (Nat.toDigits base number) = some number := by
  induction number using Nat.strongRecOn with
  | ind number ih =>
      rw [Nat.toDigits_eq_if hbase]
      split
      · next hsmall =>
        have hdigit := digitValue?_digitChar (Nat.lt_of_lt_of_le hsmall hlast)
        simp [number?, hdigit, hsmall]
      · next hlarge =>
        have hmod : number % base < base := Nat.mod_lt _ (by omega)
        have hdigit := digitValue?_digitChar (Nat.lt_of_lt_of_le hmod hlast)
        have hsmaller : number / base < number := Nat.div_lt_self (by omega) hbase
        rw [number?_concat, ih _ hsmaller, hdigit, Option.bind_some, Option.bind_some,
          if_pos hmod, Nat.div_add_mod']

theorem number?_zeros_append (hbase : 0 < base) (zeros : Nat) (digits : List Char) :
    number? base (List.replicate zeros '0' ++ digits) = number? base digits := by
  induction zeros with
  | zero => rfl
  | succ zeros ih =>
      rw [← ih, List.replicate_succ, List.cons_append, number?, List.foldlM_cons]
      have hzero : digitValue? '0' = some 0 := by decide
      simp [hzero, hbase, number?]

theorem number?_map {f : Char → Char} (hvalue : ∀ c, digitValue? (f c) = digitValue? c)
    (base : Nat) (digits : List Char) : number? base (digits.map f) = number? base digits := by
  simp only [number?, List.foldlM_map, hvalue]

theorem number?_concat_eq_some_iff {c : Char} :
    number? base (digits ++ [c]) = some number ↔
      ∃ value digit, number? base digits = some value ∧ digitValue? c = some digit ∧
        digit < base ∧ value * base + digit = number := by
  simp only [number?_concat, Option.bind_eq_some_iff, Option.ite_none_right_eq_some,
    Option.some.injEq]
  constructor
  · intro h
    obtain ⟨value, hvalue, digit, hdigit, hlt, hnumber⟩ := h
    exact ⟨value, digit, hvalue, hdigit, hlt, hnumber⟩
  · intro h
    obtain ⟨value, digit, hvalue, hdigit, hlt, hnumber⟩ := h
    exact ⟨value, hvalue, digit, hdigit, hlt, hnumber⟩

theorem exists_toDigits_concat {value digit : Nat} (hbase : 1 < base) (hlt : digit < base)
    (zeros : Nat) :
    ∃ more, List.replicate zeros '0' ++ Nat.toDigits base value ++ [Nat.digitChar digit] =
      List.replicate more '0' ++ Nat.toDigits base (value * base + digit) := by
  by_cases hzero : value = 0
  · refine ⟨zeros + 1, ?_⟩
    rw [hzero, Nat.zero_mul, Nat.zero_add, Nat.toDigits_of_lt_base hlt,
      Nat.toDigits_of_lt_base (by omega), List.replicate_succ']
    rfl
  · have happend := Nat.toDigits_append_toDigits hbase (Nat.pos_of_ne_zero hzero) hlt
    refine ⟨zeros, ?_⟩
    rw [Nat.mul_comm, ← happend, Nat.toDigits_of_lt_base hlt, List.append_assoc]

/-- Digits that denote a number are its own behind zeros, in either case. -/
theorem exists_toDigits_of_number? (hbase : 1 < base) (hne : digits ≠ [])
    (h : number? base digits = some number) :
    ∃ zeros, digits.map Char.toLower = List.replicate zeros '0' ++ Nat.toDigits base number := by
  -- The digits are taken off the end, as they are put there one after another.
  have hreversed : ∀ (reversed : List Char) (number : Nat), reversed ≠ [] →
      number? base reversed.reverse = some number →
        ∃ zeros, reversed.reverse.map Char.toLower =
          List.replicate zeros '0' ++ Nat.toDigits base number := by
    intro reversed
    induction reversed with
    | nil =>
        intro number hne
        exact absurd rfl hne
    | cons c front ih =>
        intro number _ h
        rw [List.reverse_cons] at h ⊢
        obtain ⟨value, digit, hvalue, hdigit, hlt, rfl⟩ := number?_concat_eq_some_iff.mp h
        rw [List.map_append, List.map_singleton, toLower_of_digitValue? hdigit]
        cases front with
        | nil =>
            cases hvalue
            refine ⟨0, ?_⟩
            rw [Nat.zero_mul, Nat.zero_add, Nat.toDigits_of_lt_base hlt]
            rfl
        | cons d more =>
            obtain ⟨zeros, hfront⟩ := ih value (List.cons_ne_nil d more) hvalue
            rw [hfront]
            exact exists_toDigits_concat hbase hlt zeros
  have hdigits := hreversed digits.reverse number (by simpa using hne)
  rw [List.reverse_reverse] at hdigits
  exact hdigits h

theorem isHexDigit_of_number? (h : number? base digits = some number) {c : Char}
    (hc : c ∈ digits) : isHexDigit c = true := by
  unfold number? at h
  generalize 0 = start at h
  induction digits generalizing start with
  | nil => cases hc
  | cons d rest ih =>
      simp only [List.foldlM_cons, Option.bind_eq_bind, Option.bind_eq_some_iff] at h
      rcases h with ⟨value, ⟨digit, hdigit, _⟩, hrest⟩
      rcases List.mem_cons.mp hc with rfl | hc
      · exact Option.isSome_of_eq_some hdigit
      · exact ih hc value hrest

end Numbers

end CycleTable.Text
