import Ubx.Cfg.Iterate

/-!
# What the typed getters return

An item that the iterator returned has been built from a key and value bytes of
the key's width, so all eight getters are one statement (`gets_decoded`): the
class of the key decides, and the value is that of the bytes. The signed values
are two's complement, also in the getter of `int8_t`, which is written
differently from the readers the others use.

`typed_getters` is about every item that any calls of the iterator return.
-/

namespace Ubx.Cfg

open Lib Ubx.Stream

/-! ## Two's complement -/

/-- The two's-complement reading of a `w`-bit number. -/
def twosComplement (w v : Nat) : Int := if 2 * v < 2 ^ w then v else (v : Int) - (2 ^ w : Nat)

theorem toInt_eq_twosComplement {w : Nat} (v : BitVec w) :
    v.toInt = twosComplement w v.toNat := BitVec.toInt_eq_toNat_cond v

/-- Both readings are the same number modulo `2^w`. -/
theorem twosComplement_emod {w v : Nat} (h : v < 2 ^ w) :
    twosComplement w v % (2 ^ w : Nat) = v := by
  have hmod : (v : Int) % (2 ^ w : Nat) = v := Int.emod_eq_of_lt (by omega) (by omega)
  unfold twosComplement
  split
  next => exact hmod
  next => rw [Int.sub_emod_right, hmod]

/-! ## One getter -/

/-- What is asked of a getter on an item: it returns OK if the class of the key
is the getter's and the value is one it takes, and then with a right value;
otherwise the caller's output stays. -/
def Gets {α : Type}
    (get : Option UbxCfgValgetItem → Option α → Run (UbxCfgDecodeResult × Option α))
    (item : UbxCfgValgetItem) (storageClass : Nat) (takes : Prop) (right : α → Prop) : Prop :=
  ∀ old, ∃ r new, get (some item) (some old) = .ok (r, some new) ∧
    (r = .ok ↔ keyClass item.key = storageClass ∧ takes) ∧
    (r = .ok → right new) ∧ (r ≠ .ok → new = old)

section

variable {α : Type} {read : Option (List UInt8) → Run (Except UbxCfgDecodeResult α)}
  {storage : UbxCfgKeyStorage} {length : UInt8} {y : Except UbxCfgDecodeResult α}

/-- What a getter does with an item of its class and length is up to `read`. -/
theorem itemGet_read {item : UbxCfgValgetItem} (hstorage : item.storage = storage)
    (hlength : item.valueLength = length) (hread : read (some item.value.toList) = .ok y)
    (old : α) :
    itemGet (some item) storage length (some old) read
      = .ok (match y with
        | .error result => (result, some old)
        | .ok x => (.ok, some x)) := by
  have hcheck : ubxCfgValgetItemCheck (some item) storage length = .ok := by
    show (if item.storage ≠ storage ∨ item.valueLength ≠ length then _ else _) = _
    rw [if_neg]
    intro hdiffers
    rcases hdiffers with h | h
    · exact h hstorage
    · exact h hlength
  unfold itemGet
  simp only [Option.isNone_some, Bool.false_eq_true, if_false, hcheck, ne_eq, not_true,
    Option.map_some, hread, ok_bind]
  cases y with
  | error result => rfl
  | ok x => rfl

/-- An item of another class is refused. -/
theorem itemGet_mismatch {item : UbxCfgValgetItem} (hstorage : item.storage ≠ storage) (old : α) :
    itemGet (some item) storage length (some old) read = .ok (.keyTypeMismatch, some old) := by
  have hcheck : ubxCfgValgetItemCheck (some item) storage length = .keyTypeMismatch :=
    if_pos (Or.inl hstorage)
  unfold itemGet
  simp only [Option.isNone_some, Bool.false_eq_true, if_false, hcheck]
  rfl

/-- **A getter on an iterated item.** What `read` makes of the value bytes is
all that is asked of a single getter. -/
theorem gets_decoded (item : Item) {k w : Nat} (hw : classWidth k = some w) {takes : Prop}
    {right : α → Prop}
    (hread : item.value.length = w →
      (∃ x, read (some item.decoded.value.toList) = .ok (.ok x) ∧ takes ∧ right x) ∨
      ∃ r, read (some item.decoded.value.toList) = .ok (.error r) ∧ r ≠ .ok ∧ ¬ takes) :
    Gets (fun item value => itemGet item (.ofValue k) (UInt8.ofNat w) value read) item.decoded k
      takes right := by
  intro old
  by_cases hk : keyClass item.key = k
  · subst hk
    have hlen : item.value.length = w := Option.some.inj (item.width.symm.trans hw)
    have hstorage : item.decoded.storage = .ofValue (keyClass item.key) :=
      ubxCfgKeyStorage_eq item.key
    have hlength : item.decoded.valueLength = UInt8.ofNat w := by rw [← hlen]; rfl
    rcases hread hlen with ⟨x, hx, htakes, hright⟩ | ⟨r, hr, hne, htakes⟩
    · exact ⟨.ok, x, itemGet_read hstorage hlength hx old, ⟨fun _ => ⟨rfl, htakes⟩, fun _ => rfl⟩,
        fun _ => hright, fun h => absurd rfl h⟩
    · exact ⟨r, old, itemGet_read hstorage hlength hr old,
        ⟨fun h => absurd h hne, fun h => absurd h.2 htakes⟩, fun h => absurd h hne, fun _ => rfl⟩
  · have hstorage : item.decoded.storage ≠ .ofValue k := by
      intro h
      exact hk (ofValue_inj.mp ((ubxCfgKeyStorage_eq item.key).symm.trans h))
    exact ⟨.keyTypeMismatch, old, itemGet_mismatch hstorage old,
      ⟨fun h => absurd h (by simp), fun h => absurd h.1 hk⟩, fun h => absurd h (by simp),
      fun _ => rfl⟩

end

/-! ## The value bytes -/

section

variable {item : Item}

/-- The value is the front of the array. -/
theorem Item.take_decoded {w : Nat} (hlen : item.value.length = w) :
    item.decoded.value.toList.take w = item.value := by
  rw [item.toList_decoded]
  exact List.take_left' hlen

/-- In front of the value array stands the first byte of the value. -/
theorem Item.front_decoded (item : Item) :
    byteAt item.decoded.value.toList 0 = byteAt item.value 0 := by
  have hpos := item.length_value
  rw [item.toList_decoded, byteAt, byteAt]
  exact List.getD_append _ _ _ _ (by omega)

/-- A value of one byte is read at the front of the array. -/
theorem Item.load_decoded (hlen : item.value.length = 1) :
    ∃ byte, load (some item.decoded.value.toList) 0 = .ok byte ∧ item.value = [byte] := by
  obtain ⟨byte, hbyte⟩ := List.length_eq_one_iff.mp hlen
  refine ⟨byte, ?_, hbyte⟩
  rw [item.toList_decoded, hbyte]
  rfl

theorem Item.read16_decoded (hlen : item.value.length = 2) :
    ubxReadU16Le (some item.decoded.value.toList) 0 = .ok (UInt16.ofNat (leValue item.value)) ∧
      ubxReadI16Le (some item.decoded.value.toList) 0
        = .ok (UInt16.ofNat (leValue item.value)).toInt16 := by
  have hfits : 0 + 2 ≤ item.decoded.value.toList.length := by rw [Vector.length_toList]; omega
  rw [ubxReadU16Le_ok hfits, ubxReadI16Le_ok hfits, List.drop_zero, Item.take_decoded hlen]
  exact ⟨rfl, rfl⟩

theorem Item.read32_decoded (hlen : item.value.length = 4) :
    ubxReadU32Le (some item.decoded.value.toList) 0 = .ok (UInt32.ofNat (leValue item.value)) ∧
      ubxReadI32Le (some item.decoded.value.toList) 0
        = .ok (UInt32.ofNat (leValue item.value)).toInt32 := by
  have hfits : 0 + 4 ≤ item.decoded.value.toList.length := by rw [Vector.length_toList]; omega
  rw [ubxReadU32Le_ok hfits, ubxReadI32Le_ok hfits, List.drop_zero, Item.take_decoded hlen]
  exact ⟨rfl, rfl⟩

/-- The value of some bytes fits in their width. -/
theorem toNat_leValue16 {bytes : List UInt8} (hlen : bytes.length = 2) :
    (UInt16.ofNat (leValue bytes)).toNat = leValue bytes := by
  rw [UInt16.toNat_ofNat']
  exact leValue_mod hlen

theorem toNat_leValue32 {bytes : List UInt8} (hlen : bytes.length = 4) :
    (UInt32.ofNat (leValue bytes)).toNat = leValue bytes := by
  rw [UInt32.toNat_ofNat']
  exact leValue_mod hlen

/-- `-1 - (UINT8_MAX - raw_value)` is two's complement too. -/
theorem int8_of_rawValue (rawValue : UInt8) :
    (if rawValue ≤ 127 then Int8.ofInt rawValue.toNat
      else Int8.ofInt (-1 - ((255 : Int) - rawValue.toNat))) = rawValue.toInt8 := by
  have hform : -1 - ((255 : Int) - rawValue.toNat) = (rawValue.toNat : Int) - 256 := by omega
  rw [hform, int8_of_value]

end

/-! ## The eight getters -/

/-- What each getter makes of an item whose value bytes are `value`. -/
structure GetsTyped (item : UbxCfgValgetItem) (value : List UInt8) : Prop where
  l : Gets ubxCfgValgetItemGetL item 1 (value = [0] ∨ value = [1]) fun x =>
    x.toNat = leValue value
  u1 : Gets ubxCfgValgetItemGetU1 item 2 True fun x => x.toNat = leValue value
  u2 : Gets ubxCfgValgetItemGetU2 item 3 True fun x => x.toNat = leValue value
  u4 : Gets ubxCfgValgetItemGetU4 item 4 True fun x => x.toNat = leValue value
  i1 : Gets ubxCfgValgetItemGetI1 item 2 True fun x => x.toInt = twosComplement 8 (leValue value)
  i2 : Gets ubxCfgValgetItemGetI2 item 3 True fun x => x.toInt = twosComplement 16 (leValue value)
  i4 : Gets ubxCfgValgetItemGetI4 item 4 True fun x => x.toInt = twosComplement 32 (leValue value)
  e1 : Gets ubxCfgValgetItemGetE1 item 2 True fun x => x.toNat = leValue value

theorem leValue_singleton (byte : UInt8) : leValue [byte] = byte.toNat := by
  rw [leValue_cons, leValue_nil]
  omega

theorem gets_l (item : Item) :
    Gets ubxCfgValgetItemGetL item.decoded 1 (item.value = [0] ∨ item.value = [1]) fun x =>
      x.toNat = leValue item.value := by
  refine gets_decoded item (k := 1) (w := 1) rfl fun hlen => ?_
  obtain ⟨byte, hload, hvalue⟩ := Item.load_decoded hlen
  rw [hload, ok_bind, hvalue, leValue_singleton]
  by_cases hgt : byte > 1
  · refine Or.inr ⟨.invalidValue, if_pos hgt, by simp, ?_⟩
    intro h
    rcases h with h | h
    · cases h
      exact absurd hgt (by decide)
    · cases h
      exact absurd hgt (by decide)
  · refine Or.inl ⟨byte, if_neg hgt, ?_, rfl⟩
    have hle : byte.toNat ≤ 1 := Nat.le_of_not_lt fun h => hgt (UInt8.lt_iff_toNat_lt.mpr h)
    rcases Nat.le_one_iff_eq_zero_or_eq_one.mp hle with h | h
    · exact Or.inl (by rw [UInt8.toNat_inj.mp (show byte.toNat = (0 : UInt8).toNat from h)])
    · exact Or.inr (by rw [UInt8.toNat_inj.mp (show byte.toNat = (1 : UInt8).toNat from h)])

theorem gets_u1 (item : Item) :
    Gets ubxCfgValgetItemGetU1 item.decoded 2 True fun x => x.toNat = leValue item.value := by
  refine gets_decoded item (k := 2) (w := 1) rfl fun hlen => Or.inl ?_
  obtain ⟨byte, hload, hvalue⟩ := Item.load_decoded hlen
  rw [hload, hvalue, leValue_singleton]
  exact ⟨byte, rfl, trivial, rfl⟩

theorem gets_i1 (item : Item) :
    Gets ubxCfgValgetItemGetI1 item.decoded 2 True fun x =>
      x.toInt = twosComplement 8 (leValue item.value) := by
  refine gets_decoded item (k := 2) (w := 1) rfl fun hlen => Or.inl ?_
  obtain ⟨byte, hload, hvalue⟩ := Item.load_decoded hlen
  rw [hload, hvalue, leValue_singleton, ok_bind]
  refine ⟨byte.toInt8, ?_, trivial, toInt_eq_twosComplement byte.toBitVec⟩
  rw [← int8_of_rawValue]
  split <;> rfl

theorem gets_u2 (item : Item) :
    Gets ubxCfgValgetItemGetU2 item.decoded 3 True fun x => x.toNat = leValue item.value := by
  refine gets_decoded item (k := 3) (w := 2) rfl fun hlen => Or.inl ?_
  rw [(Item.read16_decoded hlen).1]
  exact ⟨_, rfl, trivial, toNat_leValue16 hlen⟩

theorem gets_i2 (item : Item) :
    Gets ubxCfgValgetItemGetI2 item.decoded 3 True fun x =>
      x.toInt = twosComplement 16 (leValue item.value) := by
  refine gets_decoded item (k := 3) (w := 2) rfl fun hlen => Or.inl ?_
  rw [(Item.read16_decoded hlen).2]
  exact ⟨_, rfl, trivial, (toInt_eq_twosComplement _).trans (congrArg _ (toNat_leValue16 hlen))⟩

theorem gets_u4 (item : Item) :
    Gets ubxCfgValgetItemGetU4 item.decoded 4 True fun x => x.toNat = leValue item.value := by
  refine gets_decoded item (k := 4) (w := 4) rfl fun hlen => Or.inl ?_
  rw [(Item.read32_decoded hlen).1]
  exact ⟨_, rfl, trivial, toNat_leValue32 hlen⟩

theorem gets_i4 (item : Item) :
    Gets ubxCfgValgetItemGetI4 item.decoded 4 True fun x =>
      x.toInt = twosComplement 32 (leValue item.value) := by
  refine gets_decoded item (k := 4) (w := 4) rfl fun hlen => Or.inl ?_
  rw [(Item.read32_decoded hlen).2]
  exact ⟨_, rfl, trivial, (toInt_eq_twosComplement _).trans (congrArg _ (toNat_leValue32 hlen))⟩

/-- **Every getter on an iterated item.** -/
theorem Item.typed (item : Item) : GetsTyped item.decoded item.value where
  l := gets_l item
  u1 := gets_u1 item
  u2 := gets_u2 item
  u4 := gets_u4 item
  i1 := gets_i1 item
  i2 := gets_i2 item
  i4 := gets_i4 item
  e1 := gets_u1 item

/-- The signed and the unsigned getter of one width agree modulo `2^w`. -/
theorem Gets.agree {α β : Type} {toNat : α → Nat} {toInt : β → Int} {k k' v w : Nat}
    {getU : Option UbxCfgValgetItem → Option α → Run (UbxCfgDecodeResult × Option α)}
    {getI : Option UbxCfgValgetItem → Option β → Run (UbxCfgDecodeResult × Option β)}
    {item : UbxCfgValgetItem} (hu : Gets getU item k True fun x => toNat x = v)
    (hi : Gets getI item k' True fun x => toInt x = twosComplement w v)
    (hlt : ∀ x, toNat x < 2 ^ w) {old u : α} {old' i : β}
    (hgetu : getU (some item) (some old) = .ok (.ok, some u))
    (hgeti : getI (some item) (some old') = .ok (.ok, some i)) :
    toInt i % (2 ^ w : Nat) = toNat u := by
  obtain ⟨r, new, hget, -, hright, -⟩ := hu old
  rw [hgetu] at hget
  cases hget
  obtain ⟨r', new', hget', -, hright', -⟩ := hi old'
  rw [hgeti] at hget'
  cases hget'
  rw [hright' rfl, hright rfl]
  exact twosComplement_emod (hright rfl ▸ hlt u)

/-- A getter of the key's class gives the one right value. -/
theorem Gets.gives {α : Type} {k : Nat} {takes : Prop} {right : α → Prop} {value : α}
    {get : Option UbxCfgValgetItem → Option α → Run (UbxCfgDecodeResult × Option α)}
    {item : UbxCfgValgetItem} (h : Gets get item k takes right) (hk : keyClass item.key = k)
    (htakes : takes) (hone : ∀ x, right x → x = value) (old : α) :
    get (some item) (some old) = .ok (.ok, some value) := by
  obtain ⟨r, new, hget, hok, hright, -⟩ := h old
  have hr := hok.mpr ⟨hk, htakes⟩
  rw [hget, hr, hone new (hright hr)]

/-! ## Iterated items -/

/-- The iterators that a successful init on a frame and any calls of the
iterator after it lead to. -/
inductive Reached (P : Platform) (frame : UbxFrame) : UbxCfgValgetIterator → Prop
  | init {iterator it : UbxCfgValgetIterator}
      (h : ubxCfgValgetIteratorInit (some frame) (some iterator) = .ok (.ok, some it)) :
      Reached P frame it
  | next {it it' : UbxCfgValgetIterator} {out : UbxCfgValgetItem} {r : UbxCfgIterateResult}
      {out' : Option UbxCfgValgetItem} (hit : Reached P frame it)
      (h : ubxCfgValgetIteratorNext P (some it) (some out) = .ok (r, some it', out')) :
      Reached P frame it'

section

variable {P : Platform} {cells rest : List UInt8} {it : UbxCfgValgetIterator}
  {out : UbxCfgValgetItem}

theorem terminal_ne_item (rest : List UInt8) : terminal rest ≠ .item := by
  unfold terminal
  split
  next => simp
  next =>
    split
    next => simp
    next =>
      split
      next => simp
      next => simp

/-- A call returns the item in front, or nothing at all. -/
theorem next_cases (h : At cells it rest) {r : UbxCfgIterateResult}
    {it' : Option UbxCfgValgetIterator} {out' : Option UbxCfgValgetItem}
    (hnext : ubxCfgValgetIteratorNext P (some it) (some out) = .ok (r, it', out')) :
    (∃ (item : Item) (rest' : List UInt8), rest = item.bytes ++ rest' ∧ r = .item ∧
      it' = some (it.past [item]) ∧ out' = some item.decoded) ∨
    (r ≠ .item ∧ it' = some it) := by
  by_cases hstarts : StartsItem rest
  · obtain ⟨item, rest', rfl⟩ := hstarts
    rw [next_item h] at hnext
    cases hnext
    exact Or.inl ⟨item, rest', rfl, rfl, rfl, rfl⟩
  · rw [next_ends h hstarts] at hnext
    cases hnext
    exact Or.inr ⟨terminal_ne_item rest, rfl⟩

/-- A reached iterator stands somewhere in the payload. -/
theorem Reached.at {frame : UbxFrame} (hreadable : frame.Readable) (h : Reached P frame it) :
    ∃ cells rest, frame.payload = some cells ∧ it.payloadLength = frame.payloadLength.toNat ∧
      At cells it rest := by
  induction h with
  | init hinit =>
    obtain ⟨cells, hpayload, -, hlength, hat⟩ := init_ok hreadable hinit
    exact ⟨cells, _, hpayload, hlength, hat⟩
  | next _ hnext ih =>
    obtain ⟨cells, rest, hpayload, hlength, hat⟩ := ih
    rcases next_cases hat hnext with ⟨item, rest', rfl, -, hit', -⟩ | ⟨-, hit'⟩
    · cases hit'
      exact ⟨cells, rest', hpayload, hlength, hat.past⟩
    · cases hit'
      exact ⟨cells, rest, hpayload, hlength, hat⟩

/-- Where the item in front lies in the payload. -/
theorem At.item_bytes {item : Item} (h : At cells it (item.bytes ++ rest)) :
    it.offset + 4 + item.value.length ≤ it.payloadLength ∧
      (cells.drop it.offset).take 4 = leBytes 4 item.key.toNat ∧
      (cells.drop (it.offset + 4)).take item.value.length = item.value := by
  have hlen := h.length_rest
  rw [List.length_append, item.length_bytes] at hlen
  have hfront : (cells.drop it.offset).take (4 + item.value.length) = item.bytes := by
    rw [← item.length_bytes]
    calc (cells.drop it.offset).take item.bytes.length
        = ((cells.take it.payloadLength).drop it.offset).take item.bytes.length := by
          rw [List.drop_take, List.take_take, Nat.min_eq_left]
          rw [item.length_bytes]
          omega
      _ = item.bytes := by rw [h.rest_eq, List.take_left]
  refine ⟨by omega, ?_, ?_⟩
  · calc (cells.drop it.offset).take 4
        = ((cells.drop it.offset).take (4 + item.value.length)).take 4 := by
          rw [List.take_take, Nat.min_eq_left (by omega)]
      _ = leBytes 4 item.key.toNat := by
          rw [hfront, Item.bytes, List.take_left' (length_leBytes ..)]
  · calc (cells.drop (it.offset + 4)).take item.value.length
        = ((cells.drop it.offset).take (4 + item.value.length)).drop 4 := by
          rw [List.drop_take, Nat.add_sub_cancel_left, List.drop_drop]
      _ = item.value := by rw [hfront, Item.bytes, List.drop_left' (length_leBytes ..)]

end

/-- **The typed getters on iterated items.** An item that a call returns lies in
the payload at the iterator's offset: its key, then value bytes of the key's
width. Each getter returns OK exactly on the class of its type, and for `l` on a
value byte 0 or 1; then with the value of these bytes, unsigned or in two's
complement; and else the caller's output is unchanged. The two getters of one
width agree modulo `2^width`. -/
theorem typed_getters (P : Platform) {frame : UbxFrame} (hreadable : frame.Readable)
    {it : UbxCfgValgetIterator} {it' : Option UbxCfgValgetIterator} {out item : UbxCfgValgetItem}
    (hreached : Reached P frame it)
    (hnext : ubxCfgValgetIteratorNext P (some it) (some out) = .ok (.item, it', some item)) :
    ∃ cells w value, frame.payload = some cells ∧ classWidth (keyClass item.key) = some w ∧
      it.offset + 4 + w ≤ frame.payloadLength.toNat ∧
      (cells.drop it.offset).take 4 = leBytes 4 item.key.toNat ∧
      value = (cells.drop (it.offset + 4)).take w ∧
      GetsTyped item value ∧
      (∀ old old' u i, ubxCfgValgetItemGetU1 (some item) (some old) = .ok (.ok, some u) →
        ubxCfgValgetItemGetI1 (some item) (some old') = .ok (.ok, some i) →
        i.toInt % (2 ^ 8 : Nat) = u.toNat) ∧
      (∀ old old' u i, ubxCfgValgetItemGetU2 (some item) (some old) = .ok (.ok, some u) →
        ubxCfgValgetItemGetI2 (some item) (some old') = .ok (.ok, some i) →
        i.toInt % (2 ^ 16 : Nat) = u.toNat) ∧
      ∀ old old' u i, ubxCfgValgetItemGetU4 (some item) (some old) = .ok (.ok, some u) →
        ubxCfgValgetItemGetI4 (some item) (some old') = .ok (.ok, some i) →
        i.toInt % (2 ^ 32 : Nat) = u.toNat := by
  obtain ⟨cells, rest, hpayload, hlength, hat⟩ := hreached.at hreadable
  rcases next_cases hat hnext with ⟨front, rest', rfl, -, -, hitem⟩ | ⟨hne, -⟩
  · cases hitem
    obtain ⟨hfits, hkey, hvalue⟩ := hat.item_bytes
    have htyped := front.typed
    refine ⟨cells, front.value.length, front.value, hpayload, front.width, hlength ▸ hfits, hkey,
      hvalue.symm, htyped, ?_, ?_, ?_⟩
    · intro old old' u i
      exact htyped.u1.agree htyped.i1 (fun x => x.toNat_lt)
    · intro old old' u i
      exact htyped.u2.agree htyped.i2 (fun x => x.toNat_lt)
    · intro old old' u i
      exact htyped.u4.agree htyped.i4 (fun x => x.toNat_lt)
  · exact absurd rfl hne

/-- Two value bytes at the sign boundary, under a key with bit 31 set. -/
theorem typed_getters_boundary :
    ∃ cells w value, some [1, 0, 0, 0, 5, 0, 0, 0xB0, 0, 0x80] = some cells ∧
      classWidth (keyClass 0xB0000005) = some w ∧ 4 + 4 + w ≤ 10 ∧
      value = (cells.drop 8).take w ∧
      GetsTyped ⟨0xB0000005, .twoBytes, 2, #v[0, 0x80, 0, 0, 0, 0, 0, 0]⟩ value := by
  have hreadable : UbxFrame.Readable
      ⟨0x06, 0x8B, 10, some [1, 0, 0, 0, 5, 0, 0, 0xB0, 0, 0x80]⟩ := by
    intro cells h
    cases h
    exact Nat.le_refl 10
  have hinit : ubxCfgValgetIteratorInit
      (some ⟨0x06, 0x8B, 10, some [1, 0, 0, 0, 5, 0, 0, 0xB0, 0, 0x80]⟩)
      (some ⟨none, 0, 0, 0, 0⟩)
        = .ok (.ok, some ⟨some [1, 0, 0, 0, 5, 0, 0, 0xB0, 0, 0x80], 10, 4, 0, 0⟩) := rfl
  have hnext : ubxCfgValgetIteratorNext Platform.size32
      (some ⟨some [1, 0, 0, 0, 5, 0, 0, 0xB0, 0, 0x80], 10, 4, 0, 0⟩)
      (some ⟨0, .l, 0, Vector.replicate 8 9⟩)
        = .ok (.item, some ⟨some [1, 0, 0, 0, 5, 0, 0, 0xB0, 0, 0x80], 10, 10, 0, 0⟩,
          some ⟨0xB0000005, .twoBytes, 2, #v[0, 0x80, 0, 0, 0, 0, 0, 0]⟩) := rfl
  obtain ⟨cells, w, value, hpayload, hwidth, hfits, -, hvalue, htyped, -⟩ :=
    typed_getters Platform.size32 hreadable (.init hinit) hnext
  exact ⟨cells, w, value, hpayload, hwidth, hfits, hvalue, htyped⟩

end Ubx.Cfg
