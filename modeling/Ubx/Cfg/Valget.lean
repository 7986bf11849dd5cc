import Ubx.Cfg.Key
import Ubx.Lib.Machine
import Ubx.Stream.Parser

/-!
# The VALGET iterator and the typed getters, `src/ubx_cfg.c`

The reading side of a VALGET response: the records of the iterator and of an
item, `ubx_cfg_valget_iterator_init` and `ubx_cfg_valget_iterator_next` check by
check, and the eight typed getters. A getter is its storage class, its length and
how it reads the value array; what all of them do with these is `itemGet`.
-/

namespace Ubx.Cfg

open Lib Ubx.Stream

/-- `ubx_cfg_valget_iterator_t`; the payload is the object the pointer refers to. -/
structure UbxCfgValgetIterator where
  payload : Option (List UInt8)
  payloadLength : Nat
  offset : Nat
  layer : UInt8
  position : UInt16
  deriving DecidableEq, Repr

/-- `ubx_cfg_valget_item_t`; `value` has `UBX_CFG_VALUE_MAX_LENGTH` bytes. -/
structure UbxCfgValgetItem where
  key : UInt32
  storage : UbxCfgKeyStorage
  valueLength : UInt8
  value : Vector UInt8 8
  deriving DecidableEq, Repr

/-- `ubx_cfg_valget_iterator_init`: the result and the iterator. -/
def ubxCfgValgetIteratorInit (frame : Option UbxFrame) (iterator : Option UbxCfgValgetIterator) :
    Run (UbxCfgDecodeResult × Option UbxCfgValgetIterator) :=
  match frame with
  | none => return (.nullArgument, iterator)
  | some frame => do
    if iterator.isNone then
      return (.nullArgument, iterator)
    if frame.messageClass ≠ 0x06 ∨ frame.messageId ≠ 0x8B then
      return (.wrongMessage, iterator)
    if frame.payload.isNone then
      return (.nullArgument, iterator)
    if frame.payloadLength < 4 then
      return (.wrongLength, iterator)
    let version ← load frame.payload 0
    if version ≠ 0x01 then
      return (.wrongVersion, iterator)
    let layer ← load frame.payload 1
    if ubxCfgValgetLayerIsValid layer = false then
      return (.invalidLayer, iterator)
    let position ← ubxReadU16Le frame.payload 2
    return (.ok, iterator.map fun _ =>
      { payload := frame.payload
        payloadLength := frame.payloadLength.toNat
        offset := 4
        layer := layer
        position := position })

/-- `ubx_cfg_valget_iterator_next`: the result, the iterator and the item. -/
def ubxCfgValgetIteratorNext (P : Platform) (iterator : Option UbxCfgValgetIterator)
    (item : Option UbxCfgValgetItem) :
    Run (UbxCfgIterateResult × Option UbxCfgValgetIterator × Option UbxCfgValgetItem) :=
  match iterator, item with
  | some iterator, some item => do
    if iterator.payload.isNone ∨ iterator.offset > iterator.payloadLength then
      return (.invalidState, some iterator, some item)
    if iterator.offset = iterator.payloadLength then
      return (.done, some iterator, some item)
    if iterator.payloadLength - iterator.offset < 4 then
      return (.malformedItem, some iterator, some item)
    let key ← ubxReadU32Le iterator.payload iterator.offset
    let storage := ubxCfgKeyStorage key
    let valueLength := ubxCfgStorageValueLength storage
    if valueLength = 0 then
      return (.unsupportedStorageSize, some iterator, some item)
    let itemLength := P.sizeAdd 4 valueLength.toNat
    if iterator.payloadLength - iterator.offset < itemLength then
      return (.malformedItem, some iterator, some item)
    let value ← forUp 0 8 (fun index value => storeAt value index 0) item.value
    let value ← forUp 0 valueLength.toNat (fun index value => do
      let byte ← load iterator.payload (P.sizeAdd (P.sizeAdd iterator.offset 4) index)
      storeAt value index byte) value
    return (.item,
      some { iterator with offset := P.sizeAdd iterator.offset itemLength },
      some { key := key, storage := storage, valueLength := valueLength, value := value })
  | iterator, item => return (.nullArgument, iterator, item)

/-! ## The typed getters -/

/-- `ubx_cfg_valget_item_check`. -/
def ubxCfgValgetItemCheck (item : Option UbxCfgValgetItem) (expectedStorage : UbxCfgKeyStorage)
    (expectedLength : UInt8) : UbxCfgDecodeResult :=
  match item with
  | none => .nullArgument
  | some item =>
    if item.storage ≠ expectedStorage ∨ item.valueLength ≠ expectedLength then .keyTypeMismatch
    else .ok

/-- What the getters share: a caller's output is there, the item has the class
and the length of the getter, and `read` turns its value bytes into the output
or refuses them. -/
def itemGet {α : Type} (item : Option UbxCfgValgetItem) (expectedStorage : UbxCfgKeyStorage)
    (expectedLength : UInt8) (value : Option α)
    (read : Option (List UInt8) → Run (Except UbxCfgDecodeResult α)) :
    Run (UbxCfgDecodeResult × Option α) := do
  if value.isNone then
    return (.nullArgument, value)
  let result := ubxCfgValgetItemCheck item expectedStorage expectedLength
  if result ≠ .ok then
    return (result, value)
  match ← read (item.map fun item => item.value.toList) with
  | .error result => return (result, value)
  | .ok x => return (.ok, some x)

/-- `ubx_cfg_valget_item_get_l`. -/
def ubxCfgValgetItemGetL (item : Option UbxCfgValgetItem) (value : Option UInt8) :
    Run (UbxCfgDecodeResult × Option UInt8) :=
  itemGet item .l 1 value fun bytes => do
    let byte ← load bytes 0
    if byte > 1 then
      return .error .invalidValue
    return .ok byte

/-- `ubx_cfg_valget_item_get_u1`. -/
def ubxCfgValgetItemGetU1 (item : Option UbxCfgValgetItem) (value : Option UInt8) :
    Run (UbxCfgDecodeResult × Option UInt8) :=
  itemGet item .oneByte 1 value fun bytes => do
    let byte ← load bytes 0
    return .ok byte

/-- `ubx_cfg_valget_item_get_u2`. -/
def ubxCfgValgetItemGetU2 (item : Option UbxCfgValgetItem) (value : Option UInt16) :
    Run (UbxCfgDecodeResult × Option UInt16) :=
  itemGet item .twoBytes 2 value fun bytes => do
    let word ← ubxReadU16Le bytes 0
    return .ok word

/-- `ubx_cfg_valget_item_get_u4`. -/
def ubxCfgValgetItemGetU4 (item : Option UbxCfgValgetItem) (value : Option UInt32) :
    Run (UbxCfgDecodeResult × Option UInt32) :=
  itemGet item .fourBytes 4 value fun bytes => do
    let word ← ubxReadU32Le bytes 0
    return .ok word

/-- `ubx_cfg_valget_item_get_i1`: past `INT8_MAX` the value is
`-1 - (UINT8_MAX - raw_value)`. -/
def ubxCfgValgetItemGetI1 (item : Option UbxCfgValgetItem) (value : Option Int8) :
    Run (UbxCfgDecodeResult × Option Int8) :=
  itemGet item .oneByte 1 value fun bytes => do
    let rawValue ← load bytes 0
    if rawValue ≤ 127 then
      return .ok (Int8.ofInt rawValue.toNat)
    return .ok (Int8.ofInt (-1 - ((255 : Int) - rawValue.toNat)))

/-- `ubx_cfg_valget_item_get_i2`. -/
def ubxCfgValgetItemGetI2 (item : Option UbxCfgValgetItem) (value : Option Int16) :
    Run (UbxCfgDecodeResult × Option Int16) :=
  itemGet item .twoBytes 2 value fun bytes => do
    let word ← ubxReadI16Le bytes 0
    return .ok word

/-- `ubx_cfg_valget_item_get_i4`. -/
def ubxCfgValgetItemGetI4 (item : Option UbxCfgValgetItem) (value : Option Int32) :
    Run (UbxCfgDecodeResult × Option Int32) :=
  itemGet item .fourBytes 4 value fun bytes => do
    let word ← ubxReadI32Le bytes 0
    return .ok word

/-- `ubx_cfg_valget_item_get_e1`. -/
def ubxCfgValgetItemGetE1 (item : Option UbxCfgValgetItem) (value : Option UInt8) :
    Run (UbxCfgDecodeResult × Option UInt8) :=
  ubxCfgValgetItemGetU1 item value

end Ubx.Cfg
