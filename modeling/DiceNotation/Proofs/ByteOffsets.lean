import DiceNotation.Pattern.Offsets
import Mathlib.Data.String.Basic

/-! Offsets in the bytes of a text. A character below 128 is one byte, and all bytes of any other are 128 or more, so the
digits and letters of a group are found among the bytes exactly where they stand among the characters. -/

namespace DiceNotation.Proofs.ByteOffsets
open Offsets
open String (utf8Len)

variable {source : String} {offset start stop inner : Nat} {text rest : List Char} {c letter : Char} {byte : UInt8}

/-- What an offset leaves of a text. Only a boundary leaves whole characters. -/
def Leaves (source : String) (offset : Nat) (rest : List Char) : Prop :=
  ∃ front, source.toList = front ++ rest ∧ utf8Len front = offset

theorem leaves_all (source : String) : Leaves source 0 source.toList :=
  ⟨[], rfl, rfl⟩

theorem boundary_iff : Boundary source offset ↔ ∃ rest, Leaves source offset rest := by
  rw [Boundary, String.Pos.Raw.isValid_iff_exists_append]
  constructor
  · rintro ⟨first, second, rfl, ends⟩
    refine ⟨second.toList, first.toList, String.toList_append, ?_⟩
    rw [String.utf8Len_toList, ← String.byteIdx_rawEndPos, ← ends]
  · rintro ⟨rest, front, whole, rfl⟩
    refine ⟨String.ofList front, String.ofList rest, ?_, (String.rawEndPos_ofList front).symm⟩
    rw [← String.ofList_append, ← whole, String.ofList_toList]

/-- A byte below 128 that a character begins with is all of this character. -/
theorem firstByte_iff (c : Char) (ascii : byte.toNat < 128) :
    (String.utf8EncodeChar c)[0]? = some byte ↔ c.toNat = byte.toNat := by
  have code : c.val.toNat = c.toNat := rfl
  have longer {code : Nat} (high : 128 ≤ code) (small : code < 256) : UInt8.ofNat code ≠ byte := by
    intro same
    rw [← same, UInt8.toNat_ofNat_of_lt' small] at ascii
    omega
  rw [String.utf8EncodeChar, code]
  split
  next single =>
    have small : c.toNat < 256 := by omega
    rw [List.getElem?_cons_zero, Option.some.injEq, ← UInt8.toNat_inj, UInt8.toNat_ofNat_of_lt' small]
  next several =>
    have apart : c.toNat ≠ byte.toNat := by omega
    simp only [apart, iff_false]
    intro same
    split at same
    · exact longer (by omega) (by omega) (Option.some.inj same)
    · split at same
      · exact longer (by omega) (by omega) (Option.some.inj same)
      · exact longer (by omega) (by omega) (Option.some.inj same)

theorem utf8Size_ascii (ascii : c.toNat < 128) : c.utf8Size = 1 := by
  rw [Char.utf8Size_eq_one_iff, UInt32.le_iff_toNat_le]
  exact Nat.le_of_lt_succ ascii

theorem toUInt8_ascii (ascii : c.toNat < 128) : c.toUInt8.toNat = c.toNat :=
  UInt8.toNat_ofNat_of_lt' (Nat.lt_trans ascii (by decide))

theorem isDigit_char (same : c.toNat = byte.toNat) : isDigit byte = c.isDigit := by
  rw [Bool.eq_iff_iff, Char.isDigit_iff_toNat, same]
  simp only [isDigit, Bool.and_eq_true, decide_eq_true_eq, UInt8.le_iff_toNat_le]
  rfl

theorem digit_ascii (digit : c.isDigit = true) : c.toNat < 128 :=
  Nat.lt_of_le_of_lt (Char.isDigit_iff_toNat.mp digit).2 (by decide)

theorem byte_ascii (digit : isDigit byte = true) : byte.toNat < 128 := by
  simp only [isDigit, Bool.and_eq_true, decide_eq_true_eq, UInt8.le_iff_toNat_le] at digit
  exact Nat.lt_of_le_of_lt digit.2 (by decide)

/-- A code below 128 stands for a whole character. -/
theorem first_codes : ∀ code < 128, (UInt8.ofNat code).IsUTF8FirstByte := by
  decide

/-- Inside of a character stands no byte below 128. -/
theorem high_of_not_boundary (apart : ¬ Boundary source offset) (found : source.toByteArray[offset]? = some byte) :
    128 ≤ byte.toNat := by
  by_contra low
  apply apart
  obtain ⟨inside, same⟩ := getElem?_eq_some_iff.mp found
  rw [Boundary, String.Pos.Raw.isValid_iff_isUTF8FirstByte]
  right
  have first := first_codes byte.toNat (by omega)
  rw [UInt8.ofNat_toNat] at first
  refine ⟨?_, ?_⟩
  · rw [String.Pos.Raw.lt_iff, String.byteIdx_rawEndPos, ← String.size_toByteArray]
    exact inside
  · rw [String.getUTF8Byte, same]
    exact first

namespace Leaves

theorem boundary (leaves : Leaves source offset rest) : Boundary source offset :=
  boundary_iff.mpr ⟨rest, leaves⟩

/-- Behind a text that stands at an offset, the offset has moved by the bytes of the text. -/
theorem forward (leaves : Leaves source offset (text ++ rest)) : Leaves source (offset + utf8Len text) rest := by
  obtain ⟨front, whole, rfl⟩ := leaves
  exact ⟨front ++ text, by rw [whole, List.append_assoc], String.utf8Len_append front text⟩

theorem size (leaves : Leaves source offset rest) : source.utf8ByteSize = offset + utf8Len rest := by
  obtain ⟨front, whole, rfl⟩ := leaves
  rw [← String.utf8Len_toList, whole, String.utf8Len_append]

theorem unique (leaves : Leaves source start rest) (leaves' : Leaves source stop rest) : start = stop := by
  have same := leaves.size.symm.trans leaves'.size
  omega

/-- The bytes behind an offset are those of what it leaves. -/
theorem bytes (leaves : Leaves source offset rest) :
    ∃ before : ByteArray, before.size = offset ∧ source.toByteArray = before ++ (String.ofList rest).toByteArray := by
  obtain ⟨front, whole, rfl⟩ := leaves
  refine ⟨(String.ofList front).toByteArray, ?_, ?_⟩
  · rw [String.size_toByteArray, String.utf8ByteSize_ofList]
  · rw [← String.toByteArray_append, ← String.ofList_append, ← whole, String.ofList_toList]

theorem cut_eq (leaves : Leaves source start (text ++ rest)) (behind : Leaves source stop rest) :
    cut source start stop = .ok (String.ofList text) := by
  have moved : stop = start + utf8Len text := behind.unique leaves.forward
  have placed : start ≤ stop ∧ Boundary source start ∧ Boundary source stop :=
    ⟨by omega, leaves.boundary, behind.boundary⟩
  obtain ⟨before, size, bytes⟩ := leaves.bytes
  rw [cut, dif_pos placed]
  apply congrArg Except.ok
  apply String.toByteArray_inj.mp
  rw [String.toByteArray_extract, bytes, String.offset_pos, String.offset_pos, moved, ← size, String.ofList_append,
    String.toByteArray_append]
  rw [← Nat.add_zero before.size, Nat.add_assoc, Nat.zero_add, ByteArray.extract_append_size_add]
  apply ByteArray.extract_append_eq_left
  rw [String.size_toByteArray, String.utf8ByteSize_ofList]

/-- The byte at an offset is the first one of what is left. -/
theorem byte_eq (leaves : Leaves source offset rest) :
    source.toByteArray[offset]? = (rest.flatMap String.utf8EncodeChar)[0]? := by
  have data (bytes : ByteArray) (index : Nat) : bytes[index]? = bytes.data[index]? := by
    rw [getElem?_def, getElem?_def]
    rfl
  obtain ⟨before, size, bytes⟩ := leaves.bytes
  rw [data, bytes, ByteArray.data_append, ← size, ByteArray.size, Array.getElem?_append_right (Nat.le_refl _), Nat.sub_self,
    String.toByteArray_ofList, List.utf8Encode, List.data_toByteArray, List.getElem?_toArray]

theorem byte_iff (leaves : Leaves source offset rest) (ascii : byte.toNat < 128) :
    source.toByteArray[offset]? = some byte ↔ ∃ c ∈ rest.head?, c.toNat = byte.toNat := by
  rw [leaves.byte_eq]
  cases rest with
  | nil => simp
  | cons c rest =>
    have some : 0 < (String.utf8EncodeChar c).length := by
      rw [String.length_utf8EncodeChar]
      exact c.utf8Size_pos
    rw [List.flatMap_cons, List.getElem?_append_left some, firstByte_iff c ascii]
    simp

theorem letter_iff (leaves : Leaves source offset rest) (ascii : letter.toNat < 128) :
    source.toByteArray[offset]? = some letter.toUInt8 ↔ rest.head? = some letter := by
  have code := toUInt8_ascii ascii
  rw [leaves.byte_iff (code ▸ ascii), code]
  constructor
  · rintro ⟨c, first, same⟩
    rw [← Char.toNat_inj.mp same]
    exact first
  · intro first
    exact ⟨letter, first, rfl⟩

theorem digit_iff (leaves : Leaves source offset rest) :
    (∃ byte ∈ source.toByteArray[offset]?, isDigit byte = true) ↔ ∃ c ∈ rest.head?, c.isDigit = true := by
  constructor
  · rintro ⟨byte, found, digit⟩
    obtain ⟨c, first, same⟩ := (leaves.byte_iff (byte_ascii digit)).mp found
    exact ⟨c, first, isDigit_char same ▸ digit⟩
  · rintro ⟨c, first, digit⟩
    have ascii := digit_ascii digit
    have code := toUInt8_ascii ascii
    refine ⟨c.toUInt8, ?_, isDigit_char code.symm ▸ digit⟩
    exact (leaves.byte_iff (code.symm ▸ ascii)).mpr ⟨c, first, code.symm⟩

/-- No boundary lies between the bytes of one character. -/
theorem not_boundary (leaves : Leaves source offset (c :: rest)) (behind : offset < inner)
    (before : inner < offset + c.utf8Size) : ¬ Boundary source inner := by
  intro boundary
  obtain ⟨front, whole, rfl⟩ := leaves
  obtain ⟨others, front', whole', rfl⟩ := boundary_iff.mp boundary
  rcases List.append_eq_append_iff.mp (whole.symm.trans whole') with ⟨between, rfl, cut⟩ | ⟨between, rfl, -⟩
  · cases between with
    | nil => simp at behind
    | cons first between =>
      obtain ⟨rfl, -⟩ := List.cons.inj cut
      rw [String.utf8Len_append, String.utf8Len_cons] at before
      omega
  · rw [String.utf8Len_append] at behind
    omega

/-- A character below 128 takes up one byte. -/
theorem next (leaves : Leaves source offset (c :: rest)) (ascii : c.toNat < 128) : Leaves source (offset + 1) rest := by
  have forward : Leaves source (offset + utf8Len [c]) rest := leaves.forward
  rwa [String.utf8Len_cons, String.utf8Len_nil, Nat.zero_add, utf8Size_ascii ascii] at forward

/-- Throughout a text of characters below 128 there are only boundaries. -/
theorem boundaries (leaves : Leaves source start (text ++ rest)) (ascii : ∀ c ∈ text, c.toNat < 128)
    (after : start ≤ offset) (before : offset ≤ start + utf8Len text) : Boundary source offset := by
  induction text generalizing start with
  | nil =>
    rw [String.utf8Len_nil] at before
    obtain rfl : offset = start := by omega
    exact leaves.boundary
  | cons c text ih =>
    obtain ⟨here, there⟩ := List.forall_mem_cons.mp ascii
    rcases Nat.eq_or_lt_of_le after with rfl | further
    · exact leaves.boundary
    · rw [String.utf8Len_cons, utf8Size_ascii here] at before
      exact ih (leaves.next here) there further (by omega)

end Leaves

end DiceNotation.Proofs.ByteOffsets
