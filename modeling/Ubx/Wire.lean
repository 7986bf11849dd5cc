import Ubx.Internal
import Ubx.Lib.Layout

/-!
# Fields on the wire

The wire form of each kind of field: little-endian, two's complement for the
signed kinds. For each kind there are two facts, of which the layouts of the
messages are made: the field read at an offset has the bytes found there as its
wire form (`wire…_at`), and the wire form determines the value (`wire…_inj`).
-/

namespace Ubx

open Lib

/-! ## One field -/

/-- A `uint8_t` field: the byte itself. -/
def wireU8 (v : UInt8) : List UInt8 := leBytes 1 v.toNat

/-- A `uint16_t` field, low byte first. -/
def wireU16 (v : UInt16) : List UInt8 := leBytes 2 v.toNat

/-- A `uint32_t` field, and the bits of a `float`. -/
def wireU32 (v : UInt32) : List UInt8 := leBytes 4 v.toNat

/-- The bits of a `double` field. -/
def wireU64 (v : UInt64) : List UInt8 := leBytes 8 v.toNat

/-- An `int8_t` field in two's complement: the residue of the value modulo `2^8`. -/
def wireI8 (v : Int8) : List UInt8 := leBytes 1 (v.toInt % 2 ^ 8).toNat

/-- An `int16_t` field, its residue modulo `2^16`. -/
def wireI16 (v : Int16) : List UInt8 := leBytes 2 (v.toInt % 2 ^ 16).toNat

/-- An `int32_t` field, its residue modulo `2^32`. -/
def wireI32 (v : Int32) : List UInt8 := leBytes 4 (v.toInt % 2 ^ 32).toNat

/-- Each kind has its width, whatever the value. -/
@[simp] theorem length_wireU8 (v : UInt8) : (wireU8 v).length = 1 := length_leBytes ..

@[simp] theorem length_wireU16 (v : UInt16) : (wireU16 v).length = 2 := length_leBytes ..

@[simp] theorem length_wireU32 (v : UInt32) : (wireU32 v).length = 4 := length_leBytes ..

@[simp] theorem length_wireU64 (v : UInt64) : (wireU64 v).length = 8 := length_leBytes ..

@[simp] theorem length_wireI8 (v : Int8) : (wireI8 v).length = 1 := length_leBytes ..

@[simp] theorem length_wireI16 (v : Int16) : (wireI16 v).length = 2 := length_leBytes ..

@[simp] theorem length_wireI32 (v : Int32) : (wireI32 v).length = 4 := length_leBytes ..

/-- A signed value has the bytes of the unsigned value with its bits. -/
theorem wireI8_eq (v : Int8) : wireI8 v = wireU8 v.toUInt8 := by
  rw [wireI8, wireU8, int8_residue]

/-- So have two bytes. -/
theorem wireI16_eq (v : Int16) : wireI16 v = wireU16 v.toUInt16 := by
  rw [wireI16, wireU16, int16_residue]

/-- And four. -/
theorem wireI32_eq (v : Int32) : wireI32 v = wireU32 v.toUInt32 := by
  rw [wireI32, wireU32, int32_residue]

/-! ## The wire form determines the value -/

/-- Unsigned values are below `256^n`, so their bytes tell them apart. -/
@[simp] theorem wireU8_inj {v v' : UInt8} : wireU8 v = wireU8 v' ↔ v = v' :=
  ⟨fun h => UInt8.toNat_inj.mp (leBytes_inj v.toNat_lt v'.toNat_lt h), congrArg _⟩

@[simp] theorem wireU16_inj {v v' : UInt16} : wireU16 v = wireU16 v' ↔ v = v' :=
  ⟨fun h => UInt16.toNat_inj.mp (leBytes_inj v.toNat_lt v'.toNat_lt h), congrArg _⟩

@[simp] theorem wireU32_inj {v v' : UInt32} : wireU32 v = wireU32 v' ↔ v = v' :=
  ⟨fun h => UInt32.toNat_inj.mp (leBytes_inj v.toNat_lt v'.toNat_lt h), congrArg _⟩

@[simp] theorem wireU64_inj {v v' : UInt64} : wireU64 v = wireU64 v' ↔ v = v' :=
  ⟨fun h => UInt64.toNat_inj.mp (leBytes_inj v.toNat_lt v'.toNat_lt h), congrArg _⟩

/-- Signed values have the bytes of unsigned ones, with the same bits. -/
@[simp] theorem wireI8_inj {v v' : Int8} : wireI8 v = wireI8 v' ↔ v = v' := by
  rw [wireI8_eq, wireI8_eq, wireU8_inj]
  exact ⟨fun h => Int8.toBitVec_inj.mp (congrArg UInt8.toBitVec h), congrArg _⟩

@[simp] theorem wireI16_inj {v v' : Int16} : wireI16 v = wireI16 v' ↔ v = v' := by
  rw [wireI16_eq, wireI16_eq, wireU16_inj]
  exact ⟨fun h => Int16.toBitVec_inj.mp (congrArg UInt16.toBitVec h), congrArg _⟩

@[simp] theorem wireI32_inj {v v' : Int32} : wireI32 v = wireI32 v' ↔ v = v' := by
  rw [wireI32_eq, wireI32_eq, wireU32_inj]
  exact ⟨fun h => Int32.toBitVec_inj.mp (congrArg UInt32.toBitVec h), congrArg _⟩

/-! ## What is read at an offset -/

section

variable {xs : List UInt8} {i : Nat}

/-- A field of `n` bytes of a payload, and the bytes of its value. -/
theorem leBytes_field {n : Nat} (h : i + n ≤ xs.length) :
    leBytes n (leValue ((xs.drop i).take n) % 256 ^ n) = (xs.drop i).take n :=
  leBytes_leValue_mod (length_window h)

/-- **A byte at an offset** is the one byte there. -/
theorem wireU8_at (h : i + 1 ≤ xs.length) : wireU8 (byteAt xs i) = (xs.drop i).take 1 := by
  rw [wireU8, leBytes8, byteAt, List.getD_eq_getElem _ _ h, List.drop_eq_getElem_cons h]
  rfl

/-- **A word at an offset** has the bytes found there as its wire form. -/
theorem wireU16_at (h : i + 2 ≤ xs.length) : wireU16 (u16At xs i) = (xs.drop i).take 2 := by
  rw [wireU16, u16At, UInt16.toNat_ofNat']
  exact leBytes_field h

/-- So has one of four bytes. -/
theorem wireU32_at (h : i + 4 ≤ xs.length) : wireU32 (u32At xs i) = (xs.drop i).take 4 := by
  rw [wireU32, u32At, UInt32.toNat_ofNat']
  exact leBytes_field h

/-- And one of eight. -/
theorem wireU64_at (h : i + 8 ≤ xs.length) : wireU64 (u64At xs i) = (xs.drop i).take 8 := by
  rw [wireU64, u64At, UInt64.toNat_ofNat']
  exact leBytes_field h

/-- A signed field is the unsigned one read there, with its bits. -/
theorem wireI8_at (h : i + 1 ≤ xs.length) :
    wireI8 (byteAt xs i).toInt8 = (xs.drop i).take 1 := by
  rw [wireI8_eq, ← wireU8_at h]
  rfl

theorem wireI16_at (h : i + 2 ≤ xs.length) :
    wireI16 (u16At xs i).toInt16 = (xs.drop i).take 2 := by
  rw [wireI16_eq, ← wireU16_at h]
  rfl

theorem wireI32_at (h : i + 4 ≤ xs.length) :
    wireI32 (u32At xs i).toInt32 = (xs.drop i).take 4 := by
  rw [wireI32_eq, ← wireU32_at h]
  rfl

end

/-! ## A record at an offset

What is read at an offset behind the start of a record is read at the sum of the
two. -/

/-- A byte of a record is counted from the start of the payload. -/
theorem byteAt_drop (xs : List UInt8) (p i : Nat) : byteAt (xs.drop p) i = byteAt xs (p + i) := by
  rw [byteAt, byteAt, List.getD_eq_getElem?_getD, List.getElem?_drop, List.getD_eq_getElem?_getD]

/-- So is a word of two bytes. -/
theorem u16At_drop (xs : List UInt8) (p i : Nat) : u16At (xs.drop p) i = u16At xs (p + i) := by
  rw [u16At, List.drop_drop, u16At]

/-- So is a word of four bytes. -/
theorem u32At_drop (xs : List UInt8) (p i : Nat) : u32At (xs.drop p) i = u32At xs (p + i) := by
  rw [u32At, List.drop_drop, u32At]

/-- And a word of eight. -/
theorem u64At_drop (xs : List UInt8) (p i : Nat) : u64At (xs.drop p) i = u64At xs (p + i) := by
  rw [u64At, List.drop_drop, u64At]

/-! ## Words -/

/-- A word of two bytes as a record of one field. -/
def u16Layout : Layout UInt16 UInt8 where
  widths := [2]
  fields v := [wireU16 v]
  ofBytes xs := u16At xs 0
  widths_fields _ := rfl
  fields_inj _ _ h := wireU16_inj.mp (List.cons.inj h).1
  fields_ofBytes xs h := by
    rw [splitLengths_one]
    exact congrArg (fun field => [field]) (wireU16_at h)

/-- A word of four bytes as a record of one field. -/
def u32Layout : Layout UInt32 UInt8 where
  widths := [4]
  fields v := [wireU32 v]
  ofBytes xs := u32At xs 0
  widths_fields _ := rfl
  fields_inj _ _ h := wireU32_inj.mp (List.cons.inj h).1
  fields_ofBytes xs h := by
    rw [splitLengths_one]
    exact congrArg (fun field => [field]) (wireU32_at h)

/-- A list of such records is the list of the words on the wire. -/
theorem u16Layout_records (vs : List UInt16) : u16Layout.records vs = vs.flatMap wireU16 :=
  congrArg (fun f => List.flatMap f vs) (funext fun _ => List.append_nil _)

theorem u32Layout_records (vs : List UInt32) : u32Layout.records vs = vs.flatMap wireU32 :=
  congrArg (fun f => List.flatMap f vs) (funext fun _ => List.append_nil _)

/-! ## Fields that are arrays -/

/-- `n` bytes at an offset. -/
def bytesAt (xs : List UInt8) (i n : Nat) : Vector UInt8 n :=
  Vector.ofFn fun k => byteAt xs (i + k)

/-- They are a window of the payload. -/
theorem bytesAt_toList {xs : List UInt8} {i n : Nat} (h : i + n ≤ xs.length) :
    (bytesAt xs i n).toList = (xs.drop i).take n := by
  apply List.ext_getElem
  · rw [Vector.length_toList, List.length_take, List.length_drop]
    omega
  · intro k hk _
    rw [Vector.length_toList] at hk
    rw [Vector.getElem_toList, List.getElem_take, List.getElem_drop]
    unfold bytesAt
    rw [Vector.getElem_ofFn, byteAt, List.getD_eq_getElem _ _ (by omega)]

/-- `n` 16-bit words at an offset. -/
def wordsAt (xs : List UInt8) (i n : Nat) : Vector UInt16 n :=
  Vector.ofFn fun k => u16At xs (i + k * 2)

/-- Word `k` of them stands `2 * k` further on. -/
theorem wordsAt_toList (xs : List UInt8) (i n : Nat) :
    (wordsAt xs i n).toList = (List.range n).map fun k => u16At xs (i + k * 2) := by
  apply List.ext_getElem
  · rw [Vector.length_toList, List.length_map, List.length_range]
  · intro k hk _
    rw [Vector.length_toList] at hk
    rw [Vector.getElem_toList, List.getElem_map, List.getElem_range]
    unfold wordsAt
    rw [Vector.getElem_ofFn]

/-- The wire form of words read at an offset. -/
theorem wordsAt_bytes {xs : List UInt8} {i n : Nat} (h : i + n * 2 ≤ xs.length) :
    (wordsAt xs i n).toList.flatMap wireU16 = (xs.drop i).take (n * 2) := by
  have hwidth : u16Layout.width = 2 := rfl
  have hwindows := @Layout.records_windows _ _ u16Layout (xs.drop i) n
    (by rw [hwidth, List.length_drop]; omega)
  rw [hwidth, u16Layout_records] at hwindows
  rw [← hwindows, wordsAt_toList]
  congr 1
  apply List.map_congr_left
  intro k _
  show u16At xs (i + k * 2) = u16At ((xs.drop i).drop (k * 2)) 0
  rw [List.drop_drop, u16At_drop, Nat.add_zero]

/-- Arrays of words are told apart by their wire form. -/
@[simp] theorem words_inj {n : Nat} {v v' : Vector UInt16 n} :
    v.toList.flatMap wireU16 = v'.toList.flatMap wireU16 ↔ v = v' := by
  constructor
  · intro h
    rw [← u16Layout_records, ← u16Layout_records] at h
    have hlen : v.toList.length = v'.toList.length := by
      rw [Vector.length_toList, Vector.length_toList]
    exact Vector.toList_inj.mp (u16Layout.records_inj hlen h)
  · intro h
    rw [h]

/-- Their wire form is two bytes a word. -/
theorem length_words {n : Nat} (v : Vector UInt16 n) :
    (v.toList.flatMap wireU16).length = n * 2 := by
  rw [← u16Layout_records, Layout.length_records, Vector.length_toList]
  rfl

end Ubx
