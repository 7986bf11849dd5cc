import Ubx.Cfg.Key

/-!
# The VALSET builder, `src/ubx_cfg.c`

`ubxCfgValsetAddRaw` is the append routine that the eight typed adders share,
check by check and store by store; each adder is its own definition under its
own name. A `Setting` is a call of one of them: a key and a `Value`, whose kind
says which adder it is.

`Built` is the invariant of a builder: its buffer holds the header and the
items of the settings accepted so far, and is otherwise what it was.
`add_step` says what one call does, `valset_builder` what any calls do.
-/

namespace Ubx.Cfg

open Lib

/-- `ubx_cfg_valset_builder_t`; the buffer is the object the pointer refers to. -/
structure UbxCfgValsetBuilder where
  buffer : Option (List UInt8)
  capacity : Nat
  length : Nat
  itemCount : UInt8
  deriving DecidableEq, Repr

/-- `ubx_cfg_valset_begin`: the result, the builder and the caller's buffer. -/
def ubxCfgValsetBegin (builder : Option UbxCfgValsetBuilder) (buffer : Option (List UInt8))
    (capacity : Nat) (layers : UInt8) :
    Run (UbxCfgBuildResult × Option UbxCfgValsetBuilder × Option (List UInt8)) := do
  if builder.isNone ∨ buffer.isNone then
    return (.nullArgument, builder, buffer)
  if layers = 0 ∨ layers &&& ~~~(0x07 : UInt8) ≠ 0 then
    return (.invalidLayer, builder, buffer)
  if capacity < 4 then
    return (.bufferTooSmall, builder, buffer)
  let buffer ← store buffer 0 0x00
  let buffer ← store buffer 1 layers
  let buffer ← store buffer 2 0
  let buffer ← store buffer 3 0
  return (.ok, builder.map fun _ => ⟨buffer, capacity, 4, 0⟩, buffer)

/-- `ubx_cfg_valset_add_raw`: the result and the builder. -/
def ubxCfgValsetAddRaw (P : Platform) (builder : Option UbxCfgValsetBuilder) (key : UInt32)
    (expectedStorage : UbxCfgKeyStorage) (value : Option (List UInt8)) (valueLength : UInt8) :
    Run (UbxCfgBuildResult × Option UbxCfgValsetBuilder) :=
  match builder with
  | none => return (.nullArgument, none)
  | some builder => do
    if value.isNone then
      return (.nullArgument, some builder)
    if builder.buffer.isNone then
      return (.invalidState, some builder)
    if builder.length > builder.capacity then
      return (.invalidState, some builder)
    if builder.itemCount ≥ 64 then
      return (.tooManyItems, some builder)
    let actualStorage := ubxCfgKeyStorage key
    if actualStorage ≠ expectedStorage then
      return (.keyTypeMismatch, some builder)
    if ubxCfgStorageValueLength actualStorage ≠ valueLength then
      return (.keyTypeMismatch, some builder)
    let itemLength := P.sizeAdd 4 valueLength.toNat
    if builder.capacity - builder.length < itemLength then
      return (.bufferTooSmall, some builder)
    let buffer ← ubxWriteU32Le builder.buffer builder.length key
    let buffer ← forUp 0 valueLength.toNat (fun index buffer => do
      let byte ← load value index
      store buffer (P.sizeAdd (P.sizeAdd builder.length 4) index) byte) buffer
    return (.ok, some
      { builder with
        buffer := buffer
        length := P.sizeAdd builder.length itemLength
        itemCount := builder.itemCount + 1 })

/-! ## The typed adders -/

/-- `ubx_cfg_valset_add_l`. -/
def ubxCfgValsetAddL (P : Platform) (builder : Option UbxCfgValsetBuilder) (key : UInt32)
    (value : UInt8) : Run (UbxCfgBuildResult × Option UbxCfgValsetBuilder) := do
  if value > 1 then
    return (.invalidValue, builder)
  ubxCfgValsetAddRaw P builder key .l (some [value]) 1

/-- `ubx_cfg_valset_add_u1`. -/
def ubxCfgValsetAddU1 (P : Platform) (builder : Option UbxCfgValsetBuilder) (key : UInt32)
    (value : UInt8) : Run (UbxCfgBuildResult × Option UbxCfgValsetBuilder) :=
  ubxCfgValsetAddRaw P builder key .oneByte (some [value]) 1

/-- `ubx_cfg_valset_add_u2`; the local array starts with any content. -/
def ubxCfgValsetAddU2 (P : Platform) (builder : Option UbxCfgValsetBuilder) (key : UInt32)
    (value : UInt16) : Run (UbxCfgBuildResult × Option UbxCfgValsetBuilder) := do
  let encodedValue ← ubxWriteU16Le (some [0, 0]) 0 value
  ubxCfgValsetAddRaw P builder key .twoBytes encodedValue 2

/-- `ubx_cfg_valset_add_u4`. -/
def ubxCfgValsetAddU4 (P : Platform) (builder : Option UbxCfgValsetBuilder) (key : UInt32)
    (value : UInt32) : Run (UbxCfgBuildResult × Option UbxCfgValsetBuilder) := do
  let encodedValue ← ubxWriteU32Le (some [0, 0, 0, 0]) 0 value
  ubxCfgValsetAddRaw P builder key .fourBytes encodedValue 4

/-- `ubx_cfg_valset_add_i1`. -/
def ubxCfgValsetAddI1 (P : Platform) (builder : Option UbxCfgValsetBuilder) (key : UInt32)
    (value : Int8) : Run (UbxCfgBuildResult × Option UbxCfgValsetBuilder) :=
  ubxCfgValsetAddRaw P builder key .oneByte (some [value.toUInt8]) 1

/-- `ubx_cfg_valset_add_i2`. -/
def ubxCfgValsetAddI2 (P : Platform) (builder : Option UbxCfgValsetBuilder) (key : UInt32)
    (value : Int16) : Run (UbxCfgBuildResult × Option UbxCfgValsetBuilder) := do
  let encodedValue ← ubxWriteU16Le (some [0, 0]) 0 value.toUInt16
  ubxCfgValsetAddRaw P builder key .twoBytes encodedValue 2

/-- `ubx_cfg_valset_add_i4`. -/
def ubxCfgValsetAddI4 (P : Platform) (builder : Option UbxCfgValsetBuilder) (key : UInt32)
    (value : Int32) : Run (UbxCfgBuildResult × Option UbxCfgValsetBuilder) := do
  let encodedValue ← ubxWriteU32Le (some [0, 0, 0, 0]) 0 value.toUInt32
  ubxCfgValsetAddRaw P builder key .fourBytes encodedValue 4

/-- `ubx_cfg_valset_add_e1`. -/
def ubxCfgValsetAddE1 (P : Platform) (builder : Option UbxCfgValsetBuilder) (key : UInt32)
    (value : UInt8) : Run (UbxCfgBuildResult × Option UbxCfgValsetBuilder) :=
  ubxCfgValsetAddRaw P builder key .oneByte (some [value]) 1

/-! ## Settings -/

/-- The argument of a typed adder; the kind says which one. -/
inductive Value where
  | l (value : UInt8)
  | u1 (value : UInt8)
  | u2 (value : UInt16)
  | u4 (value : UInt32)
  | i1 (value : Int8)
  | i2 (value : Int16)
  | i4 (value : Int32)
  | e1 (value : UInt8)
  deriving DecidableEq, Repr

/-- A call of a typed adder. -/
structure Setting where
  key : UInt32
  value : Value
  deriving DecidableEq, Repr

/-- The adder that a setting calls. -/
def ubxCfgValsetAdd (P : Platform) (builder : Option UbxCfgValsetBuilder) (setting : Setting) :
    Run (UbxCfgBuildResult × Option UbxCfgValsetBuilder) :=
  match setting.value with
  | .l value => ubxCfgValsetAddL P builder setting.key value
  | .u1 value => ubxCfgValsetAddU1 P builder setting.key value
  | .u2 value => ubxCfgValsetAddU2 P builder setting.key value
  | .u4 value => ubxCfgValsetAddU4 P builder setting.key value
  | .i1 value => ubxCfgValsetAddI1 P builder setting.key value
  | .i2 value => ubxCfgValsetAddI2 P builder setting.key value
  | .i4 value => ubxCfgValsetAddI4 P builder setting.key value
  | .e1 value => ubxCfgValsetAddE1 P builder setting.key value

/-- The class of keys that a kind of value goes with. -/
def Value.keyClass : Value → Nat
  | .l _ => 1
  | .u1 _ | .i1 _ | .e1 _ => 2
  | .u2 _ | .i2 _ => 3
  | .u4 _ | .i4 _ => 4

/-- Any value of a kind is legal, but of a logical one only 0 and 1. -/
def Value.Legal : Value → Prop
  | .l value => value = 0 ∨ value = 1
  | _ => True

theorem not_gt_one {value : UInt8} (h : (Value.l value).Legal) : ¬ value > 1 := by
  rcases h with rfl | rfl
  · decide
  · decide

/-- The value on the wire: little-endian, two's complement for the signed kinds. -/
def Value.bytes : Value → List UInt8
  | .l value | .u1 value | .e1 value => leBytes 1 value.toNat
  | .u2 value => leBytes 2 value.toNat
  | .u4 value => leBytes 4 value.toNat
  | .i1 value => leBytes 1 (value.toInt % 2 ^ 8).toNat
  | .i2 value => leBytes 2 (value.toInt % 2 ^ 16).toNat
  | .i4 value => leBytes 4 (value.toInt % 2 ^ 32).toNat

/-- A setting on the wire: the key, then the value. -/
def Setting.bytes (setting : Setting) : List UInt8 :=
  leBytes 4 setting.key.toNat ++ setting.value.bytes

theorem Value.bytes_width (value : Value) :
    classWidth value.keyClass = some value.bytes.length := by
  cases value with
  | _ => rfl

theorem Value.length_bytes_le (value : Value) : value.bytes.length ≤ 4 := by
  cases value with
  | _ => exact Nat.le_of_ble_eq_true rfl

theorem Setting.length_bytes (setting : Setting) :
    setting.bytes.length = 4 + setting.value.bytes.length := by
  rw [Setting.bytes, List.length_append, length_leBytes]

/-- The local array of a two-byte adder. -/
theorem encoded16 (value : UInt16) :
    ubxWriteU16Le (some [0, 0]) 0 value = .ok (some (leBytes 2 value.toNat)) := by
  have hlen : (leBytes 2 value.toNat).length = [0, (0 : UInt8)].length := length_leBytes ..
  rw [ubxWriteU16Le_eq, storeRange_all hlen]

/-- The local array of a four-byte adder. -/
theorem encoded32 (value : UInt32) :
    ubxWriteU32Le (some [0, 0, 0, 0]) 0 value = .ok (some (leBytes 4 value.toNat)) := by
  have hlen : (leBytes 4 value.toNat).length = [0, 0, 0, (0 : UInt8)].length := length_leBytes ..
  rw [ubxWriteU32Le_eq, storeRange_all hlen]

variable {P : Platform}

/-- **A legal call** is a call of the append routine, with the value's wire form
and the class and width of its kind. -/
theorem ubxCfgValsetAdd_legal (builder : Option UbxCfgValsetBuilder) {setting : Setting}
    (h : setting.value.Legal) :
    ubxCfgValsetAdd P builder setting =
      ubxCfgValsetAddRaw P builder setting.key (.ofValue setting.value.keyClass)
        (some setting.value.bytes) (UInt8.ofNat setting.value.bytes.length) := by
  obtain ⟨key, value⟩ := setting
  cases value with
  | l value =>
    show (if value > 1 then _ else _) = _
    rw [if_neg (not_gt_one h), Value.bytes, leBytes8]
    rfl
  | u1 value | e1 value =>
    show ubxCfgValsetAddRaw P builder key .oneByte (some [value]) 1 = _
    rw [Value.bytes, leBytes8]
    rfl
  | u2 value =>
    show (ubxWriteU16Le (some [0, 0]) 0 value >>= _) = _
    rw [encoded16, ok_bind]
    rfl
  | u4 value =>
    show (ubxWriteU32Le (some [0, 0, 0, 0]) 0 value >>= _) = _
    rw [encoded32, ok_bind]
    rfl
  | i1 value =>
    show ubxCfgValsetAddRaw P builder key .oneByte (some [value.toUInt8]) 1 = _
    rw [Value.bytes, int8_residue, leBytes8]
    rfl
  | i2 value =>
    show (ubxWriteU16Le (some [0, 0]) 0 value.toUInt16 >>= _) = _
    rw [encoded16, ok_bind, Value.bytes, int16_residue]
    rfl
  | i4 value =>
    show (ubxWriteU32Le (some [0, 0, 0, 0]) 0 value.toUInt32 >>= _) = _
    rw [encoded32, ok_bind, Value.bytes, int32_residue]
    rfl

/-- An illegal value is refused before anything is looked at. -/
theorem ubxCfgValsetAdd_illegal (builder : Option UbxCfgValsetBuilder) {setting : Setting}
    (h : ¬ setting.value.Legal) :
    ubxCfgValsetAdd P builder setting = .ok (.invalidValue, builder) := by
  obtain ⟨key, value⟩ := setting
  cases value with
  | l value =>
    have hgt : value > 1 := by
      by_contra hle
      refine h ?_
      show value = 0 ∨ value = 1
      have hle' := UInt8.le_iff_toNat_le.mp (UInt8.not_lt.mp hle)
      rcases Nat.le_one_iff_eq_zero_or_eq_one.mp hle' with h0 | h1
      · exact Or.inl (UInt8.toNat_inj.mp h0)
      · exact Or.inr (UInt8.toNat_inj.mp h1)
    show (if value > 1 then _ else _) = _
    rw [if_pos hgt]
    rfl
  | _ => exact absurd trivial h

/-! ## The append routine -/

/-- The copy loop of an append writes the value behind the key. -/
theorem append_loop {value cells w : List UInt8} {start : Nat} (hw : start + 4 = w.length)
    (hfit : w.length + value.length ≤ cells.length) (hsmall : w.length + value.length < 2 ^ 16) :
    forUp 0 value.length (fun index buffer => do
        let byte ← load (some value) index
        store buffer (P.sizeAdd (P.sizeAdd start 4) index) byte) (some (written cells w))
      = .ok (some (written cells (w ++ value))) := by
  have hstart : P.sizeAdd start 4 = w.length := by rw [P.sizeAdd_small (by omega), hw]
  rw [hstart]
  obtain ⟨buffer, hrun, hbuffer⟩ := forUp_inv
    (fun index buffer => buffer = some (written cells (w ++ value.take index)))
    (fun index buffer => do
      let byte ← load (some value) index
      store buffer (P.sizeAdd w.length index) byte) value.length 0
    (some (written cells w)) (by rw [List.take_zero, List.append_nil]) (by
    intro index buffer _ hlt hbuffer
    subst hbuffer
    rw [Nat.zero_add] at hlt
    have hat : P.sizeAdd w.length index = (w ++ value.take index).length := by
      rw [P.sizeAdd_small (by omega), List.length_append, List.length_take]
      omega
    have hin : P.sizeAdd w.length index < cells.length := by
      rw [hat, List.length_append, List.length_take]
      omega
    refine ⟨_, by rw [load_some hlt, ok_bind, store_written hat hin], ?_⟩
    rw [List.append_assoc, List.take_append_getElem hlt])
  rw [hrun, hbuffer, Nat.zero_add, List.take_length]

/-- **An append that passes its checks** writes the item right behind the
builder's length and nothing else. -/
theorem addRaw_ok {b : UbxCfgValsetBuilder} {cells w value : List UInt8} {key : UInt32} {k : Nat}
    (hbuffer : b.buffer = some (written cells w)) (hlength : b.length = w.length)
    (hcells : b.capacity ≤ cells.length) (hsmall : w.length + 12 < 2 ^ 16)
    (hcount : b.itemCount < 64) (hclass : keyClass key = k)
    (hwidth : classWidth k = some value.length) (hle : b.length ≤ b.capacity)
    (hfit : 4 + value.length ≤ b.capacity - b.length) :
    ubxCfgValsetAddRaw P (some b) key (.ofValue k) (some value) (UInt8.ofNat value.length)
      = .ok (.ok, some
          { b with
            buffer := some (written cells (w ++ (leBytes 4 key.toNat ++ value)))
            length := b.length + (4 + value.length)
            itemCount := b.itemCount + 1 }) := by
  have h8 := (classWidth_pos hwidth).2
  have hlen := valueLength_toNat hwidth
  have hkey : ubxWriteU32Le (some (written cells w)) w.length key
      = .ok (some (written cells (w ++ leBytes 4 key.toNat))) :=
    ubxWriteU32Le_written rfl (by omega) key
  have hwk : w.length + 4 = (w ++ leBytes 4 key.toNat).length := by
    rw [List.length_append, length_leBytes]
  unfold ubxCfgValsetAddRaw
  simp only [hbuffer, ubxCfgKeyStorage_eq, hclass, valueLength_eq hwidth, hlen, Option.isNone_some,
    Bool.false_eq_true, if_false, ne_eq, not_true]
  -- the checks in the order of the C function, then the key and the value
  rw [if_neg (by omega), if_neg (UInt8.not_le.mpr hcount), P.sizeAdd_small (by omega),
    if_neg (by omega), hlength, hkey, ok_bind,
    append_loop hwk (by omega) (by omega), ok_bind, P.sizeAdd_small (by omega), List.append_assoc]
  rfl

/-- **An append that fails a check** changes nothing. -/
theorem addRaw_fails {b : UbxCfgValsetBuilder} {value : List UInt8} {key : UInt32} {k : Nat}
    (hbuffer : b.buffer.isSome) (hwidth : classWidth k = some value.length)
    (hle : b.length ≤ b.capacity)
    (hbad : ¬(b.itemCount < 64 ∧ keyClass key = k ∧ 4 + value.length ≤ b.capacity - b.length)) :
    ∃ r, r ≠ .ok ∧
      ubxCfgValsetAddRaw P (some b) key (.ofValue k) (some value) (UInt8.ofNat value.length)
        = .ok (r, some b) := by
  have h8 := (classWidth_pos hwidth).2
  have hlen := valueLength_toNat hwidth
  unfold ubxCfgValsetAddRaw
  obtain ⟨cells, hcells⟩ := Option.isSome_iff_exists.mp hbuffer
  simp only [hcells, ubxCfgKeyStorage_eq, hlen, Option.isNone_some, Bool.false_eq_true, if_false]
  rw [if_neg (Nat.not_lt.mpr hle)]
  by_cases hcount : b.itemCount < 64
  · rw [if_neg (UInt8.not_le.mpr hcount)]
    by_cases hclass : keyClass key = k
    · have hsmall : b.capacity - b.length < P.sizeAdd 4 value.length := by
        rw [P.sizeAdd_small (by omega)]
        exact Nat.lt_of_not_le fun hfit => hbad ⟨hcount, hclass, hfit⟩
      rw [if_neg (not_not.mpr (congrArg _ hclass)), hclass, valueLength_eq hwidth,
        if_neg (not_not.mpr rfl), if_pos hsmall]
      exact ⟨.bufferTooSmall, nofun, rfl⟩
    · rw [if_pos fun heq => hclass (ofValue_inj.mp heq)]
      exact ⟨.keyTypeMismatch, nofun, rfl⟩
  · rw [if_pos (UInt8.not_lt.mp hcount)]
    exact ⟨.tooManyItems, nofun, rfl⟩

/-! ## Runs of the builder -/

/-- A payload: the header with the layer mask, then the settings. -/
def content (layers : UInt8) (accepted : List Setting) : List UInt8 :=
  [0, layers, 0, 0] ++ accepted.flatMap Setting.bytes

/-- A legal value under a key of its class. -/
def Setting.Typed (setting : Setting) : Prop :=
  setting.value.Legal ∧ keyClass setting.key = setting.value.keyClass

/-- The builder holds the settings accepted, in a buffer that was `cells`. -/
structure Built (cells : List UInt8) (capacity : Nat) (layers : UInt8) (accepted : List Setting)
    (b : UbxCfgValsetBuilder) : Prop where
  buffer : b.buffer = some (written cells (content layers accepted))
  length_eq : b.length = (content layers accepted).length
  capacity_eq : b.capacity = capacity
  count : b.itemCount.toNat = accepted.length
  count_le : accepted.length ≤ 64
  fits : b.length ≤ capacity
  typed : ∀ setting ∈ accepted, setting.Typed

theorem length_content_cons (layers : UInt8) (setting : Setting) (accepted : List Setting) :
    (content layers (setting :: accepted)).length
      = setting.bytes.length + (content layers accepted).length := by
  simp only [content, List.flatMap_cons, List.length_append]
  omega

/-- An item is at most eight bytes. -/
theorem length_content_le (layers : UInt8) :
    ∀ accepted : List Setting, (content layers accepted).length ≤ 4 + 8 * accepted.length := by
  intro accepted
  induction accepted with
  | nil =>
    exact Nat.le_refl 4
  | cons setting accepted ih =>
    have hvalue := setting.value.length_bytes_le
    have hrest := ih
    rw [length_content_cons, setting.length_bytes, List.length_cons]
    omega

theorem content_append (layers : UInt8) (accepted : List Setting) (setting : Setting) :
    content layers (accepted ++ [setting]) = content layers accepted ++ setting.bytes := by
  rw [content, List.flatMap_append, ← List.append_assoc, List.flatMap_singleton]
  rfl

/-- When a call is accepted. -/
def Acceptable (capacity : Nat) (accepted : List Setting) (b : UbxCfgValsetBuilder)
    (setting : Setting) : Prop :=
  setting.value.Legal ∧ accepted.length < 64 ∧ keyClass setting.key = setting.value.keyClass ∧
    4 + setting.value.bytes.length ≤ capacity - b.length

variable {cells : List UInt8} {capacity : Nat} {layers : UInt8} {accepted : List Setting}
  {b : UbxCfgValsetBuilder}

/-- An accepted call appends its setting. -/
theorem add_accepts (hcells : capacity ≤ cells.length) (hb : Built cells capacity layers accepted b)
    {setting : Setting} (h : Acceptable capacity accepted b setting) :
    ∃ b', ubxCfgValsetAdd P (some b) setting = .ok (.ok, some b') ∧
      Built cells capacity layers (accepted ++ [setting]) b' := by
  obtain ⟨hlegal, hcount, hclass, hfit⟩ := h
  have hlen := length_content_le layers accepted
  have hitems : b.itemCount < 64 := UInt8.lt_iff_toNat_lt.mpr (hb.count ▸ hcount)
  rw [ubxCfgValsetAdd_legal _ hlegal,
    addRaw_ok hb.buffer hb.length_eq (hb.capacity_eq ▸ hcells) (by omega) hitems hclass
      setting.value.bytes_width (hb.capacity_eq ▸ hb.fits) (hb.capacity_eq ▸ hfit)]
  have hnew : (content layers (accepted ++ [setting])).length
      = b.length + (4 + setting.value.bytes.length) := by
    rw [content_append, List.length_append, ← hb.length_eq, setting.length_bytes]
  refine ⟨_, rfl, ?_, hnew.symm, hb.capacity_eq, ?_, ?_, ?_, ?_⟩
  · rw [content_append]
    rfl
  · rw [List.length_append, List.length_singleton]
    exact toNat_count_succ hb.count hcount
  · rw [List.length_append, List.length_singleton]
    exact hcount
  · have := hb.fits
    show b.length + (4 + setting.value.bytes.length) ≤ capacity
    omega
  · intro s hs
    rcases List.mem_append.mp hs with h | h
    · exact hb.typed s h
    · rw [List.mem_singleton.mp h]
      exact ⟨hlegal, hclass⟩

/-- Any other call changes nothing. -/
theorem add_refuses (hb : Built cells capacity layers accepted b) {setting : Setting}
    (h : ¬ Acceptable capacity accepted b setting) :
    ∃ r, r ≠ .ok ∧ ubxCfgValsetAdd P (some b) setting = .ok (r, some b) := by
  by_cases hlegal : setting.value.Legal
  · rw [ubxCfgValsetAdd_legal _ hlegal]
    refine addRaw_fails (by rw [hb.buffer]; rfl) setting.value.bytes_width
      (hb.capacity_eq ▸ hb.fits) ?_
    intro hchecks
    obtain ⟨hcount, hclass, hfit⟩ := hchecks
    refine h ⟨hlegal, ?_, hclass, hb.capacity_eq ▸ hfit⟩
    rw [← hb.count]
    exact UInt8.lt_iff_toNat_lt.mp hcount
  · exact ⟨.invalidValue, nofun, ubxCfgValsetAdd_illegal _ hlegal⟩

/-- **One call** returns; it is accepted exactly when it is acceptable, and then
appends its setting; else it changes nothing. -/
theorem add_step (hcells : capacity ≤ cells.length) (hb : Built cells capacity layers accepted b)
    (setting : Setting) :
    ∃ r b', ubxCfgValsetAdd P (some b) setting = .ok (r, some b') ∧
      (r = .ok ↔ Acceptable capacity accepted b setting) ∧
      (r = .ok → Built cells capacity layers (accepted ++ [setting]) b') ∧
      (r ≠ .ok → b' = b) := by
  by_cases h : Acceptable capacity accepted b setting
  · obtain ⟨b', hadd, hb'⟩ := add_accepts (P := P) hcells hb h
    exact ⟨.ok, b', hadd, ⟨fun _ => h, fun _ => rfl⟩, fun _ => hb', fun hne => absurd rfl hne⟩
  · obtain ⟨r, hr, hadd⟩ := add_refuses (P := P) hb h
    exact ⟨r, b, hadd, ⟨fun hok => absurd hok hr, fun hok => absurd hok h⟩,
      fun hok => absurd hok hr, fun _ => rfl⟩

/-- **Every run** of adders returns and keeps `Built`. -/
theorem add_run (hcells : capacity ≤ cells.length) (hb : Built cells capacity layers [] b)
    (calls : List Setting) :
    ∃ results b', run (ubxCfgValsetAdd P) (some b) calls = .ok (results, some b') ∧
      Built cells capacity layers (acceptedOf (calls.zip results)) b' := by
  have hstep : ∀ h s setting, (∃ b', s = some b' ∧ Built cells capacity layers (acceptedOf h) b') →
      ∃ r s', ubxCfgValsetAdd P s setting = .ok (r, s') ∧
        ∃ b', s' = some b' ∧ Built cells capacity layers (acceptedOf (h ++ [(setting, r)])) b' := by
    intro h s setting hs
    obtain ⟨b', rfl, hb'⟩ := hs
    obtain ⟨r, b'', hadd, -, hok, hne⟩ := add_step (P := P) hcells hb' setting
    refine ⟨r, _, hadd, b'', rfl, ?_⟩
    by_cases hr : r = .ok
    · subst hr
      rw [acceptedOf_ok]
      exact hok rfl
    · rw [acceptedOf_ne _ _ hr, hne hr]
      exact hb'
  obtain ⟨results, s, hrun, b', rfl, hb'⟩ := run_inv _ hstep calls [] (some b) ⟨b, rfl, hb⟩
  exact ⟨results, b', hrun, hb'⟩

/-- A successful begin leaves the bare header. -/
theorem begin_ok {builder b₀ : UbxCfgValsetBuilder} {buffer' : Option (List UInt8)}
    (hcells : capacity ≤ cells.length)
    (h : ubxCfgValsetBegin (some builder) (some cells) capacity layers
      = .ok (.ok, some b₀, buffer')) : Built cells capacity layers [] b₀ := by
  unfold ubxCfgValsetBegin at h
  simp only [Option.isNone_some, Bool.false_eq_true, or_self, if_false] at h
  split at h
  next => exact nomatch h
  next =>
    split at h
    next => exact nomatch h
    next hcap =>
      have h4 : 4 ≤ cells.length := by omega
      rw [← written_nil cells, store_written (by rfl) (by omega), ok_bind,
        store_written (by rfl) (by omega), ok_bind, store_written (by rfl) (by omega), ok_bind,
        store_written (by rfl) (by omega), ok_bind] at h
      cases h
      exact ⟨rfl, rfl, rfl, rfl, Nat.zero_le _, Nat.le_of_not_lt hcap, nofun⟩

/-- A begin that fails changes nothing. -/
theorem begin_fails {builder builder' : Option UbxCfgValsetBuilder}
    {buffer buffer' : Option (List UInt8)} {r : UbxCfgBuildResult}
    (h : ubxCfgValsetBegin builder buffer capacity layers = .ok (r, builder', buffer'))
    (hr : r ≠ .ok) : builder' = builder ∧ buffer' = buffer := by
  unfold ubxCfgValsetBegin at h
  split at h
  next =>
    cases h
    exact ⟨rfl, rfl⟩
  next =>
    split at h
    next =>
      cases h
      exact ⟨rfl, rfl⟩
    next =>
      split at h
      next =>
        cases h
        exact ⟨rfl, rfl⟩
      next =>
        obtain ⟨_, -, h⟩ := bind_eq_ok.mp h
        obtain ⟨_, -, h⟩ := bind_eq_ok.mp h
        obtain ⟨_, -, h⟩ := bind_eq_ok.mp h
        obtain ⟨_, -, h⟩ := bind_eq_ok.mp h
        cases h
        exact absurd rfl hr

/-- **The VALSET builder over whole runs.** After a successful begin, whatever
adders are called: the buffer holds the header and the items of the accepted
calls, and behind them what it held before; the counters are those of the
items, within their bounds; the next call is accepted exactly when its value is
legal, there are fewer than 64 items, its key has the class of its value and the
item fits; and a call that is not accepted changes nothing. Nor does a begin
that fails. -/
theorem valset_builder (P : Platform) :
    (∀ (builder builder' : Option UbxCfgValsetBuilder) (buffer buffer' : Option (List UInt8))
        (capacity : Nat) (layers : UInt8) (r : UbxCfgBuildResult),
      ubxCfgValsetBegin builder buffer capacity layers = .ok (r, builder', buffer') → r ≠ .ok →
      builder' = builder ∧ buffer' = buffer) ∧
    ∀ (cells : List UInt8) (capacity : Nat) (layers : UInt8) (builder b₀ : UbxCfgValsetBuilder)
        (buffer' : Option (List UInt8)), capacity ≤ cells.length →
      ubxCfgValsetBegin (some builder) (some cells) capacity layers = .ok (.ok, some b₀, buffer') →
      ∀ calls : List Setting, ∃ results b accepted,
        run (ubxCfgValsetAdd P) (some b₀) calls = .ok (results, some b) ∧
        accepted = acceptedOf (calls.zip results) ∧
        b.buffer = some ([0, layers, 0, 0] ++ accepted.flatMap Setting.bytes
          ++ cells.drop b.length) ∧
        b.length = ([0, layers, 0, 0] ++ accepted.flatMap Setting.bytes).length ∧
        b.itemCount.toNat = accepted.length ∧ accepted.length ≤ 64 ∧
        b.length ≤ capacity ∧ b.length ≤ 516 ∧
        ∀ setting, ∃ r b', ubxCfgValsetAdd P (some b) setting = .ok (r, some b') ∧
          (r = .ok ↔ setting.value.Legal ∧ accepted.length < 64 ∧
            keyClass setting.key = setting.value.keyClass ∧
            4 + setting.value.bytes.length ≤ capacity - b.length) ∧
          (r ≠ .ok → b' = b) := by
  refine ⟨fun _ _ _ _ _ _ _ => begin_fails, ?_⟩
  intro cells capacity layers builder b₀ buffer' hcells hbegin calls
  obtain ⟨results, b, hrun, hb⟩ := add_run (P := P) hcells (begin_ok hcells hbegin) calls
  have hlen := length_content_le layers (acceptedOf (calls.zip results))
  refine ⟨results, b, _, hrun, rfl, ?_, hb.length_eq, hb.count, hb.count_le, hb.fits, ?_, ?_⟩
  · rw [hb.buffer, hb.length_eq]
    rfl
  · have hcount := hb.count_le
    rw [hb.length_eq]
    omega
  · intro setting
    obtain ⟨r, b', hadd, hiff, -, hne⟩ := add_step (P := P) hcells hb setting
    exact ⟨r, b', hadd, hiff, hne⟩

/-- A refused value, then an item that fills the buffer of nine cells. -/
theorem valset_builder_nine :
    ∃ results b accepted,
      run (ubxCfgValsetAdd Platform.size32) (some ⟨some [0, 1, 0, 0, 7, 7, 7, 7, 7], 9, 4, 0⟩)
        [⟨0x10000001, .l 2⟩, ⟨0x20000002, .i1 (-1)⟩] = .ok (results, some b) ∧
      accepted = acceptedOf ([⟨0x10000001, .l 2⟩, ⟨0x20000002, .i1 (-1)⟩].zip results) ∧
      b.buffer = some ([0, 1, 0, 0] ++ accepted.flatMap Setting.bytes
        ++ [7, 7, 7, 7, 7, 7, 7, 7, 7].drop b.length) := by
  obtain ⟨results, b, accepted, hrun, haccepted, hbuffer, -⟩ :=
    (valset_builder Platform.size32).2 [7, 7, 7, 7, 7, 7, 7, 7, 7] 9 1 ⟨none, 0, 0, 0⟩ _ _
      (Nat.le_refl 9) rfl [⟨0x10000001, .l 2⟩, ⟨0x20000002, .i1 (-1)⟩]
  exact ⟨results, b, accepted, hrun, haccepted, hbuffer⟩

end Ubx.Cfg
