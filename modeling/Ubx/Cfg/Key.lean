import Ubx.Internal
import Ubx.Lib.Machine

/-!
# Configuration keys and items, `src/ubx_cfg.c`

A configuration key says in bits 28..30 how wide its value is. `keyClass` is
that number and `classWidth` the table of widths; `ubxCfgKeyStorage` and
`ubxCfgStorageValueLength` are the C functions that both builders and the
iterator ask, and the lemmas beside them say that these are the same thing.

An `Item` is a key with value bytes of the width its key asks for, so that
there is no item with a value of the wrong width. `Item.bytes` is its wire
form, shared by the VALSET payload and the VALGET response. The wire form is
prefix-free (`Item.bytes_inj`): a payload is a list of items in one way at most.
-/

namespace Ubx.Cfg

open Lib

/-! ## The C enumerations -/

/-- `ubx_cfg_key_storage_t`, with the values that name no storage class. -/
inductive UbxCfgKeyStorage where
  | l
  | oneByte
  | twoBytes
  | fourBytes
  | eightBytes
  | other (value : Nat)
  deriving DecidableEq, Repr

/-- `ubx_cfg_build_result_t`. -/
inductive UbxCfgBuildResult where
  | ok
  | nullArgument
  | invalidLayer
  | invalidState
  | invalidValue
  | keyTypeMismatch
  | bufferTooSmall
  | tooManyItems
  deriving DecidableEq, Repr

/-- `ubx_cfg_decode_result_t`. -/
inductive UbxCfgDecodeResult where
  | ok
  | nullArgument
  | wrongMessage
  | wrongLength
  | wrongVersion
  | invalidLayer
  | invalidValue
  | keyTypeMismatch
  deriving DecidableEq, Repr

/-- `ubx_cfg_iterate_result_t`. -/
inductive UbxCfgIterateResult where
  | item
  | done
  | nullArgument
  | invalidState
  | malformedItem
  | unsupportedStorageSize
  deriving DecidableEq, Repr

/-! ## Accepted calls

Both builders answer every call with a `UbxCfgBuildResult`, and build what they
accepted. -/

section

variable {α : Type}

/-- What was handed to the calls that returned OK, in call order. -/
def acceptedOf (h : List (α × UbxCfgBuildResult)) : List α := kept (fun r => r = .ok) h

theorem acceptedOf_ok (h : List (α × UbxCfgBuildResult)) (a : α) :
    acceptedOf (h ++ [(a, .ok)]) = acceptedOf h ++ [a] :=
  kept_append_pos h a (decide_eq_true rfl)

theorem acceptedOf_ne (h : List (α × UbxCfgBuildResult)) (a : α) {r : UbxCfgBuildResult}
    (hr : r ≠ .ok) : acceptedOf (h ++ [(a, r)]) = acceptedOf h :=
  kept_append_neg h a fun hok => hr (of_decide_eq_true hok)

/-- Where all calls returned OK it is everything. -/
theorem acceptedOf_all {as : List α} {results : List UbxCfgBuildResult}
    (hlen : results.length = as.length) (hall : ∀ r ∈ results, r = .ok) :
    acceptedOf (as.zip results) = as :=
  kept_all hlen fun r hr => decide_eq_true (hall r hr)

end

/-! ## Storage classes -/

/-- The cast of a number to `ubx_cfg_key_storage_t`. -/
def UbxCfgKeyStorage.ofValue : Nat → UbxCfgKeyStorage
  | 1 => .l
  | 2 => .oneByte
  | 3 => .twoBytes
  | 4 => .fourBytes
  | 5 => .eightBytes
  | value => .other value

/-- `ubx_cfg_key_storage`. -/
def ubxCfgKeyStorage (key : UInt32) : UbxCfgKeyStorage :=
  .ofValue ((key >>> 28) &&& 7).toNat

/-- `ubx_cfg_storage_value_length`: 0 for a class without a width. -/
def ubxCfgStorageValueLength : UbxCfgKeyStorage → UInt8
  | .l => 1
  | .oneByte => 1
  | .twoBytes => 2
  | .fourBytes => 4
  | .eightBytes => 8
  | .other _ => 0

/-- `ubx_cfg_valget_layer_is_valid`. -/
def ubxCfgValgetLayerIsValid (layer : UInt8) : Bool :=
  layer = 0 ∨ layer = 1 ∨ layer = 2 ∨ layer = 7

/-- Bits 28..30 of a key. -/
def keyClass (key : UInt32) : Nat := key.toNat / 2 ^ 28 % 8

/-- The width of the values of a class, where it has one. -/
def classWidth : Nat → Option Nat
  | 1 => some 1
  | 2 => some 1
  | 3 => some 2
  | 4 => some 4
  | 5 => some 8
  | _ => none

theorem ubxCfgKeyStorage_eq (key : UInt32) : ubxCfgKeyStorage key = .ofValue (keyClass key) := by
  have hbits : ((key >>> 28) &&& 7).toNat = keyClass key := by
    rw [UInt32.toNat_and, UInt32.toNat_shiftRight, Nat.shiftRight_eq_div_pow]
    exact Nat.and_two_pow_sub_one_eq_mod _ 3
  rw [ubxCfgKeyStorage, hbits]

theorem keyClass_lt (key : UInt32) : keyClass key < 8 := Nat.mod_lt _ (by simp)

/-- The number behind a storage class. -/
def UbxCfgKeyStorage.toValue : UbxCfgKeyStorage → Nat
  | .l => 1
  | .oneByte => 2
  | .twoBytes => 3
  | .fourBytes => 4
  | .eightBytes => 5
  | .other value => value

theorem toValue_ofValue (k : Nat) : (UbxCfgKeyStorage.ofValue k).toValue = k := by
  unfold UbxCfgKeyStorage.ofValue
  split
  next => rfl
  next => rfl
  next => rfl
  next => rfl
  next => rfl
  next => rfl

theorem ofValue_inj {k k' : Nat} : UbxCfgKeyStorage.ofValue k = .ofValue k' ↔ k = k' :=
  ⟨fun h => by rw [← toValue_ofValue k, h, toValue_ofValue], fun h => h ▸ rfl⟩

/-- The C width table is `classWidth`, with 0 for no width. -/
theorem valueLength_ofValue (k : Nat) :
    (ubxCfgStorageValueLength (.ofValue k)).toNat = (classWidth k).getD 0 := by
  unfold UbxCfgKeyStorage.ofValue classWidth
  split
  next => rfl
  next => rfl
  next => rfl
  next => rfl
  next => rfl
  next => rfl

theorem classWidth_pos {k w : Nat} (h : classWidth k = some w) : 1 ≤ w ∧ w ≤ 8 := by
  unfold classWidth at h
  split at h
  next => cases h; exact ⟨Nat.le_refl _, by simp⟩
  next => cases h; exact ⟨Nat.le_refl _, by simp⟩
  next => cases h; exact ⟨by simp, by simp⟩
  next => cases h; exact ⟨by simp, by simp⟩
  next => cases h; exact ⟨by simp, by simp⟩
  next => exact nomatch h

theorem valueLength_toNat {k : Nat} {value : List UInt8} (h : classWidth k = some value.length) :
    (UInt8.ofNat value.length).toNat = value.length := by
  have h8 := (classWidth_pos h).2
  rw [UInt8.toNat_ofNat']
  omega

theorem valueLength_eq {k : Nat} {value : List UInt8} (h : classWidth k = some value.length) :
    ubxCfgStorageValueLength (.ofValue k) = UInt8.ofNat value.length := by
  apply UInt8.toNat_inj.mp
  rw [valueLength_ofValue, h, valueLength_toNat h]
  rfl

/-- The item counter of a builder that is not full does not wrap. -/
theorem toNat_count_succ {count : UInt8} {n : Nat} (hcount : count.toNat = n) (h : n < 64) :
    (count + 1).toNat = n + 1 := by
  rw [UInt8.toNat_add, hcount]
  exact Nat.mod_eq_of_lt (by show n + 1 < 256; omega)

/-! ## Items -/

/-- A key with value bytes of its width. -/
structure Item where
  key : UInt32
  value : List UInt8
  width : classWidth (keyClass key) = some value.length

/-- An item on the wire: the key, low byte first, then the value. -/
def Item.bytes (item : Item) : List UInt8 := leBytes 4 item.key.toNat ++ item.value

theorem Item.length_bytes (item : Item) : item.bytes.length = 4 + item.value.length := by
  rw [Item.bytes, List.length_append, length_leBytes]

theorem Item.length_value (item : Item) : 1 ≤ item.value.length ∧ item.value.length ≤ 8 :=
  classWidth_pos item.width

/-- The key in front of an item is read back. -/
theorem Item.key_eq (item : Item) (rest : List UInt8) :
    UInt32.ofNat (leValue ((item.bytes ++ rest).take 4)) = item.key := by
  have hkey : (item.bytes ++ rest).take 4 = leBytes 4 item.key.toNat := by
    rw [Item.bytes, List.append_assoc, List.take_left' (length_leBytes ..)]
  rw [hkey, leValue_leBytes_of_lt item.key.toNat_lt, UInt32.ofNat_toNat]

/-- The wire form is prefix-free. -/
theorem Item.bytes_inj {item item' : Item} {rest rest' : List UInt8}
    (h : item.bytes ++ rest = item'.bytes ++ rest') : item = item' ∧ rest = rest' := by
  have hkey : item.key = item'.key := by rw [← item.key_eq rest, h, item'.key_eq]
  have hlen : item.value.length = item'.value.length := by
    have := item.width.symm.trans (hkey ▸ item'.width)
    exact Option.some.inj this
  obtain ⟨hbytes, hrest⟩ := List.append_inj h (by rw [length_bytes, length_bytes, hlen])
  have hvalue := (List.append_inj hbytes (by rw [length_leBytes, length_leBytes])).2
  cases item
  cases item'
  simp only at hkey hvalue
  subst hkey hvalue
  exact ⟨rfl, hrest⟩

/-- Bytes in front of which an item stands. -/
def StartsItem (bytes : List UInt8) : Prop := ∃ (item : Item) (rest : List UInt8),
  bytes = item.bytes ++ rest

/-- A list of items ends where no item starts in one way only. -/
theorem items_unique :
    ∀ {items items' : List Item} {rest rest' : List UInt8}, ¬ StartsItem rest →
      ¬ StartsItem rest' → items.flatMap Item.bytes ++ rest = items'.flatMap Item.bytes ++ rest' →
      items = items' ∧ rest = rest'
  | [], [], _, _, _, _, h => ⟨rfl, h⟩
  | [], item :: items, _, _, hrest, _, h => by
    rw [List.flatMap_cons, List.append_assoc] at h
    exact absurd ⟨item, _, h⟩ hrest
  | item :: items, [], _, _, _, hrest', h => by
    rw [List.flatMap_cons, List.append_assoc] at h
    exact absurd ⟨item, _, h.symm⟩ hrest'
  | item :: items, item' :: items', _, _, hrest, hrest', h => by
    rw [List.flatMap_cons, List.flatMap_cons, List.append_assoc, List.append_assoc] at h
    obtain ⟨rfl, h'⟩ := Item.bytes_inj h
    obtain ⟨rfl, hrest⟩ := items_unique hrest hrest' h'
    exact ⟨rfl, hrest⟩

end Ubx.Cfg
