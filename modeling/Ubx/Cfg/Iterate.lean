import Ubx.Cfg.Valget

/-!
# What the VALGET iterator accepts

`next_item` and `next_ends` say what one call of the iterator does in terms of
the bytes that are left: an item in front of them is returned and passed, and
where none starts the result is the `terminal` one and nothing changes.
`valget_grammar` is the whole run: the items of the payload, then the terminal
result forever, and that result says whether the payload is a list of items.
-/

namespace Ubx.Cfg

open Lib Ubx.Stream

/-! ## The grammar -/

/-- The key in front of some bytes. -/
def frontKey (bytes : List UInt8) : UInt32 := UInt32.ofNat (leValue (bytes.take 4))

/-- The result where no item starts. -/
def terminal (rest : List UInt8) : UbxCfgIterateResult :=
  if rest = [] then .done
  else if rest.length < 4 then .malformedItem
  else if classWidth (keyClass (frontKey rest)) = none then .unsupportedStorageSize
  else .malformedItem

theorem startsItem_of_width {bytes : List UInt8} {w : Nat}
    (hwidth : classWidth (keyClass (frontKey bytes)) = some w) (hlen : 4 + w ≤ bytes.length) :
    StartsItem bytes := by
  have htake : ((bytes.drop 4).take w).length = w := length_window hlen
  refine ⟨⟨frontKey bytes, (bytes.drop 4).take w, by rw [hwidth, htake]⟩, bytes.drop (4 + w), ?_⟩
  have hkey : leBytes 4 (frontKey bytes).toNat = bytes.take 4 := by
    have hfour : (bytes.take 4).length = 4 := by
      rw [List.length_take]
      omega
    rw [frontKey, UInt32.toNat_ofNat']
    exact leBytes_leValue_mod hfour
  rw [Item.bytes, hkey, List.append_assoc, ← List.drop_drop, List.take_append_drop,
    List.take_append_drop]

theorem frontKey_item (item : Item) (rest : List UInt8) :
    frontKey (item.bytes ++ rest) = item.key := item.key_eq rest

/-- Where no item starts, something is missing: the key, a width, or part of the value. -/
theorem not_startsItem_iff {bytes : List UInt8} :
    ¬ StartsItem bytes ↔ bytes.length < 4 ∨ classWidth (keyClass (frontKey bytes)) = none ∨
      ∃ w, classWidth (keyClass (frontKey bytes)) = some w ∧ bytes.length < 4 + w := by
  constructor
  · intro h
    cases hwidth : classWidth (keyClass (frontKey bytes)) with
    | none => exact Or.inr (Or.inl rfl)
    | some w =>
      refine Or.inr (Or.inr ⟨w, rfl, Nat.lt_of_not_le fun hlen => h ?_⟩)
      exact startsItem_of_width hwidth hlen
  · intro h hstarts
    obtain ⟨item, rest, rfl⟩ := hstarts
    rw [frontKey_item, item.width, List.length_append, item.length_bytes] at h
    rcases h with h | h | ⟨w, hw, hlt⟩
    · omega
    · exact nomatch h
    · cases hw
      omega

/-- Every byte list is a list of items and a rest in front of which none starts. -/
theorem items_exist (bytes : List UInt8) :
    ∃ (items : List Item) (rest : List UInt8),
      bytes = items.flatMap Item.bytes ++ rest ∧ ¬ StartsItem rest := by
  induction hn : bytes.length using Nat.strongRecOn generalizing bytes with
  | ind n ih =>
    by_cases h : StartsItem bytes
    · obtain ⟨item, tail, rfl⟩ := h
      have hlt : tail.length < n := by
        rw [← hn, List.length_append, item.length_bytes]
        omega
      obtain ⟨items, rest, rfl, hrest⟩ := ih tail.length hlt tail rfl
      exact ⟨item :: items, rest, by rw [List.flatMap_cons, List.append_assoc], hrest⟩
    · exact ⟨[], bytes, rfl, h⟩

/-- An item is at least five bytes. -/
theorem items_length :
    ∀ items : List Item, 5 * items.length ≤ (items.flatMap Item.bytes).length := by
  intro items
  induction items with
  | nil =>
    exact Nat.le_refl 0
  | cons item items ih =>
    have hvalue := item.length_value
    have hrest := ih
    rw [List.flatMap_cons, List.length_append, item.length_bytes, List.length_cons]
    omega

/-! ## One call -/

/-- The iterator stands in front of the bytes `rest` of a payload that is there. -/
structure At (cells : List UInt8) (it : UbxCfgValgetIterator) (rest : List UInt8) : Prop where
  payload : it.payload = some cells
  cells_le : it.payloadLength ≤ cells.length
  length_le : it.payloadLength ≤ 65535
  offset_le : it.offset ≤ it.payloadLength
  rest_eq : (cells.take it.payloadLength).drop it.offset = rest

/-- An item as the iterator returns it: the value array is filled up with zeros. -/
def Item.decoded (item : Item) : UbxCfgValgetItem :=
  { key := item.key
    storage := ubxCfgKeyStorage item.key
    valueLength := UInt8.ofNat item.value.length
    value := overwrite (Vector.replicate 8 0) item.value }

/-- The cells of the value array: the value, and zeros. -/
theorem Item.toList_decoded (item : Item) :
    item.decoded.value.toList = item.value ++ List.replicate (8 - item.value.length) 0 := by
  have hvalue := item.length_value
  rw [Item.decoded, toList_overwrite _ (by omega), Vector.toList_replicate, written,
    List.drop_replicate]

/-- The iterator behind some items. -/
def UbxCfgValgetIterator.past (it : UbxCfgValgetIterator) (items : List Item) :
    UbxCfgValgetIterator :=
  { it with offset := it.offset + (items.flatMap Item.bytes).length }

variable {P : Platform} {cells rest : List UInt8} {it : UbxCfgValgetIterator}
  {out : UbxCfgValgetItem}

theorem At.length_rest (h : At cells it rest) : rest.length = it.payloadLength - it.offset := by
  have hcells := h.cells_le
  rw [← h.rest_eq, List.length_drop, List.length_take]
  omega

/-- The iterator's state is valid. -/
theorem At.there (h : At cells it rest) :
    ¬(it.payload.isNone ∨ it.offset > it.payloadLength) := by
  intro hbad
  rw [h.payload] at hbad
  rcases hbad with hnone | hgt
  · exact not_null _ hnone
  · exact absurd h.offset_le (Nat.not_le.mpr hgt)

/-- The key in front is the one the iterator reads. -/
theorem At.read_key (h : At cells it rest) (hlen : 4 ≤ rest.length) :
    ubxReadU32Le it.payload it.offset = .ok (frontKey rest) := by
  have hrest := h.length_rest
  have hcells := h.cells_le
  rw [h.payload, ubxReadU32Le_ok (by omega), frontKey, ← h.rest_eq, List.drop_take, List.take_take,
    Nat.min_eq_left (by omega)]

theorem At.load (h : At cells it rest) {k : Nat} (hk : k < rest.length) :
    Lib.load it.payload (it.offset + k) = .ok rest[k] := by
  have hrest := h.length_rest
  have hcells := h.cells_le
  have hlt : it.offset + k < cells.length := by omega
  have hget : rest[k]? = cells[it.offset + k]? := by
    rw [← h.rest_eq, List.getElem?_drop, List.getElem?_take_of_lt (by omega)]
  rw [List.getElem?_eq_getElem hk, List.getElem?_eq_getElem hlt] at hget
  rw [h.payload, load_some hlt]
  exact congrArg Except.ok (Option.some.inj hget).symm

/-- The first loop clears the value array. -/
theorem clear_loop (value : Vector UInt8 8) :
    forUp 0 8 (fun index value => storeAt value index 0) value = .ok (Vector.replicate 8 0) := by
  have hzeros : overwrite value (List.replicate 8 0) = Vector.replicate 8 0 := by
    apply Vector.toList_inj.mp
    rw [overwrite_toList value List.length_replicate, Vector.toList_replicate]
  rw [← hzeros]
  refine forUp_storeAt value (w := List.replicate 8 0) (Nat.le_refl 8) ?_
  intro index hlt value
  rw [List.getElem_replicate]

/-- The second loop copies the value of the item in front. -/
theorem value_loop {item : Item} (h : At cells it (item.bytes ++ rest)) :
    forUp 0 item.value.length (fun index value => do
        let byte ← Lib.load it.payload (P.sizeAdd (P.sizeAdd it.offset 4) index)
        storeAt value index byte) (Vector.replicate 8 0) = .ok item.decoded.value := by
  have hlen := h.length_rest
  have hvalue := item.length_value
  have hmax := h.length_le
  rw [List.length_append, item.length_bytes] at hlen
  refine forUp_storeAt (Vector.replicate 8 0) (by omega) ?_
  intro index hlt value
  have hat : P.sizeAdd (P.sizeAdd it.offset 4) index = it.offset + (4 + index) := by
    have hstart : P.sizeAdd it.offset 4 = it.offset + 4 := P.sizeAdd_small (by omega)
    rw [hstart, P.sizeAdd_small (by omega), Nat.add_assoc]
  have hbyte : (item.bytes ++ rest)[4 + index]? = some item.value[index] := by
    rw [Item.bytes, List.append_assoc, List.getElem?_append_right (by simp), length_leBytes,
      Nat.add_sub_cancel_left, List.getElem?_append_left hlt, List.getElem?_eq_getElem hlt]
  have hin : 4 + index < (item.bytes ++ rest).length := by
    rw [List.length_append, item.length_bytes]
    omega
  rw [List.getElem?_eq_getElem hin] at hbyte
  rw [hat, h.load hin, ok_bind, Option.some.inj hbyte]

theorem Item.valueLength (item : Item) :
    ubxCfgStorageValueLength (ubxCfgKeyStorage item.key) = UInt8.ofNat item.value.length := by
  rw [ubxCfgKeyStorage_eq, valueLength_eq item.width]

theorem At.past {item : Item} (h : At cells it (item.bytes ++ rest)) :
    At cells (it.past [item]) rest := by
  have hlen := h.length_rest
  have hoff := h.offset_le
  rw [List.length_append] at hlen
  have hsingle : ([item].flatMap Item.bytes) = item.bytes := List.append_nil _
  refine ⟨h.payload, h.cells_le, h.length_le, ?_, ?_⟩
  · show it.offset + ([item].flatMap Item.bytes).length ≤ it.payloadLength
    rw [hsingle]
    omega
  · show (cells.take it.payloadLength).drop (it.offset + ([item].flatMap Item.bytes).length) = rest
    rw [hsingle, ← List.drop_drop, h.rest_eq, List.drop_left]

/-- **An item in front** is returned, and passed. -/
theorem next_item {item : Item} (h : At cells it (item.bytes ++ rest)) :
    ubxCfgValgetIteratorNext P (some it) (some out)
      = .ok (.item, some (it.past [item]), some item.decoded) := by
  have hlen := h.length_rest
  have hmax := h.length_le
  have hoff := h.offset_le
  have hvalue := item.length_value
  rw [List.length_append, item.length_bytes] at hlen
  have hwidth : (UInt8.ofNat item.value.length).toNat = item.value.length :=
    valueLength_toNat item.width
  have hnonzero : UInt8.ofNat item.value.length ≠ 0 := by
    intro hzero
    rw [hzero] at hwidth
    have hlength : 0 = item.value.length := hwidth
    omega
  -- offsets stay below 2^16, so no `size_t` sum wraps
  have hitem : P.sizeAdd 4 item.value.length = 4 + item.value.length := P.sizeAdd_small (by omega)
  have hnext : P.sizeAdd it.offset (4 + item.value.length)
      = it.offset + ([item].flatMap Item.bytes).length := by
    rw [P.sizeAdd_small (by omega), List.flatMap_singleton, item.length_bytes]
  unfold ubxCfgValgetIteratorNext
  dsimp only
  rw [if_neg h.there, if_neg (by omega), if_neg (by omega),
    h.read_key (by rw [List.length_append, item.length_bytes]; omega), ok_bind, frontKey_item,
    item.valueLength, if_neg hnonzero, hwidth, hitem, if_neg (by omega), clear_loop, ok_bind,
    value_loop h, ok_bind, hnext]
  rfl

/-- **Where no item starts** the terminal result is returned, and nothing changes. -/
theorem next_ends (h : At cells it rest) (hrest : ¬ StartsItem rest) :
    ubxCfgValgetIteratorNext P (some it) (some out) = .ok (terminal rest, some it, some out) := by
  have hlen := h.length_rest
  have hmax := h.length_le
  have hoff := h.offset_le
  unfold ubxCfgValgetIteratorNext terminal
  dsimp only
  rw [if_neg h.there]
  by_cases hnil : rest = []
  · subst hnil
    rw [if_pos rfl, if_pos (by rw [List.length_nil] at hlen; omega)]
    rfl
  · have hpos := List.length_pos_of_ne_nil hnil
    rw [if_neg hnil, if_neg (by omega)]
    by_cases h4 : rest.length < 4
    · rw [if_pos h4, if_pos (by omega)]
      rfl
    · rw [if_neg h4, if_neg (by omega), h.read_key (by omega), ok_bind]
      cases hwidth : classWidth (keyClass (frontKey rest)) with
      | none =>
        have hzero : ubxCfgStorageValueLength (ubxCfgKeyStorage (frontKey rest)) = 0 := by
          apply UInt8.toNat_inj.mp
          rw [ubxCfgKeyStorage_eq, valueLength_ofValue, hwidth]
          rfl
        rw [if_pos hzero, if_pos rfl]
        rfl
      | some w =>
        have hw := classWidth_pos hwidth
        have hlength : (ubxCfgStorageValueLength (ubxCfgKeyStorage (frontKey rest))).toNat = w := by
          rw [ubxCfgKeyStorage_eq, valueLength_ofValue, hwidth]
          rfl
        have hnonzero : ubxCfgStorageValueLength (ubxCfgKeyStorage (frontKey rest)) ≠ 0 := by
          intro hzero
          rw [hzero] at hlength
          have hw0 : 0 = w := hlength
          omega
        -- the key has a width, so it is the value that is cut short
        have hshort : rest.length < 4 + w :=
          Nat.lt_of_not_le fun hle => hrest (startsItem_of_width hwidth hle)
        rw [if_neg hnonzero, hlength, P.sizeAdd_small (by omega), if_pos (by omega), if_neg nofun]
        rfl

/-! ## Any number of calls -/

/-- One call; what it returns is the result with the iterator and the item as
the call leaves them. -/
def nextStep (P : Platform) (s : Option UbxCfgValgetIterator × Option UbxCfgValgetItem)
    (_ : Unit) :
    Run ((UbxCfgIterateResult × Option UbxCfgValgetIterator × Option UbxCfgValgetItem)
      × Option UbxCfgValgetIterator × Option UbxCfgValgetItem) := do
  let (result, iterator, item) ← ubxCfgValgetIteratorNext P s.1 s.2
  return ((result, iterator, item), (iterator, item))

/-- What the calls that return these items return. -/
def itemReturns : UbxCfgValgetIterator → List Item →
    List (UbxCfgIterateResult × Option UbxCfgValgetIterator × Option UbxCfgValgetItem)
  | _, [] => []
  | it, item :: items =>
    (.item, some (it.past [item]), some item.decoded) :: itemReturns (it.past [item]) items

/-- The caller's item after these items were returned in it. -/
def lastItem : UbxCfgValgetItem → List Item → UbxCfgValgetItem
  | out, [] => out
  | _, item :: items => lastItem item.decoded items

theorem past_cons (it : UbxCfgValgetIterator) (item : Item) (items : List Item) :
    (it.past [item]).past items = it.past (item :: items) := by
  simp only [UbxCfgValgetIterator.past, List.flatMap_cons, List.flatMap_nil, List.append_nil,
    List.length_append, Nat.add_assoc]

/-- The items in front are returned one by one. -/
theorem run_items :
    ∀ (items : List Item) (it : UbxCfgValgetIterator) (out : UbxCfgValgetItem),
      At cells it (items.flatMap Item.bytes ++ rest) →
      run (nextStep P) (some it, some out) (List.replicate items.length ())
          = .ok (itemReturns it items, some (it.past items), some (lastItem out items)) ∧
        At cells (it.past items) rest := by
  intro items
  induction items with
  | nil =>
    intro _ _ h
    exact ⟨rfl, h⟩
  | cons item items ih =>
    intro it out h
    rw [List.flatMap_cons, List.append_assoc] at h
    have hstep : nextStep P (some it, some out) ()
        = .ok ((.item, some (it.past [item]), some item.decoded),
          (some (it.past [item]), some item.decoded)) := by
      rw [nextStep, next_item h]
      rfl
    obtain ⟨hrun, hat⟩ := ih (it.past [item]) item.decoded h.past
    rw [past_cons] at hrun hat
    exact ⟨run_cons hstep hrun, hat⟩

/-- Where no item starts every call returns the same and changes nothing. -/
theorem run_ends (h : At cells it rest) (hrest : ¬ StartsItem rest) :
    ∀ n, run (nextStep P) (some it, some out) (List.replicate n ())
      = .ok (List.replicate n (terminal rest, some it, some out), some it, some out) := by
  intro n
  induction n with
  | zero =>
    rfl
  | succ n ih =>
    have hstep : nextStep P (some it, some out) ()
        = .ok ((terminal rest, some it, some out), (some it, some out)) := by
      rw [nextStep, next_ends h hrest]
      rfl
    exact run_cons hstep ih

/-- The first `n` calls: items as far as they go, then the terminal result. -/
theorem run_next {items : List Item} (h : At cells it (items.flatMap Item.bytes ++ rest))
    (hrest : ¬ StartsItem rest) (out : UbxCfgValgetItem) (n : Nat) :
    run (nextStep P) (some it, some out) (List.replicate n ())
      = .ok (itemReturns it (items.take n) ++ List.replicate (n - items.length)
          (terminal rest, some (it.past (items.take n)), some (lastItem out (items.take n))),
        some (it.past (items.take n)), some (lastItem out (items.take n))) := by
  -- the calls stop among the items, or go on behind the last one
  rcases Nat.le_total n items.length with hle | hge
  · have hsplit : items.flatMap Item.bytes ++ rest
        = (items.take n).flatMap Item.bytes ++ ((items.drop n).flatMap Item.bytes ++ rest) := by
      rw [← List.append_assoc, ← List.flatMap_append, List.take_append_drop]
    rw [hsplit] at h
    have hrun := (run_items (P := P) (items.take n) it out h).1
    rw [List.length_take, Nat.min_eq_left hle] at hrun
    rw [hrun, Nat.sub_eq_zero_of_le hle, List.replicate_zero, List.append_nil]
  · obtain ⟨hrun, hat⟩ := run_items (P := P) items it out h
    rw [List.take_of_length_le hge,
      show List.replicate n () = List.replicate items.length ()
        ++ List.replicate (n - items.length) () by
        rw [List.replicate_append_replicate, Nat.add_sub_cancel' hge]]
    exact run_append hrun (run_ends hat hrest _)

/-! ## The whole response -/

/-- The init refuses a frame without a payload, and leaves the iterator as it is. -/
theorem ubxCfgValgetIteratorInit_null {frame : UbxFrame} (hpayload : frame.payload = none)
    (iterator : Option UbxCfgValgetIterator) :
    ∃ result, result ≠ UbxCfgDecodeResult.ok ∧
      ubxCfgValgetIteratorInit (some frame) iterator = .ok (result, iterator) := by
  cases iterator with
  | none => exact ⟨.nullArgument, by simp, rfl⟩
  | some iterator =>
    unfold ubxCfgValgetIteratorInit
    dsimp only
    rw [if_neg (not_null iterator), hpayload]
    split
    next => exact ⟨.wrongMessage, by simp, rfl⟩
    next => exact ⟨.nullArgument, by simp, if_pos Option.isNone_none⟩

/-- What the init says of a payload that starts with `xs`. -/
theorem ubxCfgValgetIteratorInit_front {frame : UbxFrame} {xs : List UInt8}
    (hlen : frame.payloadLength.toNat = xs.length) (iterator : UbxCfgValgetIterator)
    (more : List UInt8) :
    ubxCfgValgetIteratorInit (some (frame.withPayload (some (xs ++ more)))) (some iterator)
      = .ok (if frame.messageClass ≠ 0x06 ∨ frame.messageId ≠ 0x8B then
            (.wrongMessage, some iterator)
          else if frame.payloadLength < 4 then (.wrongLength, some iterator)
          else if byteAt xs 0 ≠ 0x01 then (.wrongVersion, some iterator)
          else if ubxCfgValgetLayerIsValid (byteAt xs 1) = false then (.invalidLayer, some iterator)
          else (.ok, some ⟨some (xs ++ more), frame.payloadLength.toNat, 4, byteAt xs 1,
            u16At xs 2⟩)) := by
  unfold ubxCfgValgetIteratorInit
  dsimp only
  rw [if_neg nofun]
  show (if frame.messageClass ≠ 0x06 ∨ frame.messageId ≠ 0x8B then _ else _) = _
  split
  next => rfl
  next =>
    rw [UbxFrame.withPayload_payload, if_neg nofun]
    show (if frame.payloadLength < 4 then _ else _) = _
    split
    next => rfl
    next hshort =>
      have hfour : 4 ≤ xs.length := by
        rw [← hlen]
        exact UInt16.not_lt.mp hshort
      rw [readByte_front (by omega), ok_bind]
      split
      next => rfl
      next =>
        rw [readByte_front (by omega), ok_bind]
        split
        next => rfl
        next =>
          rw [readU16_front (by omega), ok_bind]
          rfl

/-- What gets past a check of init. -/
theorem checked {c : Prop} [Decidable c] {r : UbxCfgDecodeResult}
    {iterator it : Option UbxCfgValgetIterator}
    {rest : UbxCfgDecodeResult × Option UbxCfgValgetIterator}
    (h : (if c then (r, iterator) else rest) = (.ok, it)) (hr : r ≠ .ok) :
    ¬ c ∧ rest = (.ok, it) := by
  split at h
  next => exact absurd (congrArg Prod.fst h) hr
  next hc => exact ⟨hc, h⟩

/-- A successful init stands in front of everything behind the header. -/
theorem init_ok {frame : UbxFrame} {iterator : UbxCfgValgetIterator} (hreadable : frame.Readable)
    (hinit : ubxCfgValgetIteratorInit (some frame) (some iterator) = .ok (.ok, some it)) :
    ∃ cells, frame.payload = some cells ∧ it.offset = 4 ∧
      it.payloadLength = frame.payloadLength.toNat ∧
      At cells it ((cells.take frame.payloadLength.toNat).drop 4) := by
  cases hpayload : frame.payload with
  | none =>
    obtain ⟨result, hne, hnull⟩ := ubxCfgValgetIteratorInit_null hpayload (some iterator)
    rw [hnull] at hinit
    exact absurd (congrArg Prod.fst (Except.ok.inj hinit)) hne
  | some cells =>
    have hle := hreadable cells hpayload
    obtain ⟨hsplit, hlen⟩ := hreadable.split hpayload
    rw [hsplit, ubxCfgValgetIteratorInit_front hlen] at hinit
    obtain ⟨-, hinit⟩ := checked (Except.ok.inj hinit) nofun
    obtain ⟨hshort, hinit⟩ := checked hinit nofun
    obtain ⟨-, hinit⟩ := checked hinit nofun
    obtain ⟨-, hinit⟩ := checked hinit nofun
    cases hinit
    refine ⟨cells, rfl, rfl, rfl, ?_, hle, Nat.le_of_lt_succ frame.payloadLength.toNat_lt,
      UInt16.not_lt.mp hshort, rfl⟩
    exact congrArg some (List.take_append_drop ..)

/-- A returned item, written back: its key, then the value bytes it says it has. -/
def UbxCfgValgetItem.serialised (item : UbxCfgValgetItem) : List UInt8 :=
  leBytes 4 item.key.toNat ++ item.value.toList.take item.valueLength.toNat

theorem Item.serialised_decoded (item : Item) : item.decoded.serialised = item.bytes := by
  have hlen : item.decoded.valueLength.toNat = item.value.length := valueLength_toNat item.width
  rw [UbxCfgValgetItem.serialised, hlen, item.toList_decoded, List.take_left]
  rfl

theorem Item.decoded_padding (item : Item) :
    item.decoded.value.toList.drop item.decoded.valueLength.toNat
      = List.replicate (8 - item.decoded.valueLength.toNat) 0 := by
  have hlen : item.decoded.valueLength.toNat = item.value.length := valueLength_toNat item.width
  rw [hlen, item.toList_decoded, List.drop_left]

theorem serialised_items (items : List Item) :
    (items.map Item.decoded).flatMap UbxCfgValgetItem.serialised = items.flatMap Item.bytes := by
  rw [List.flatMap_map]
  exact congrArg (fun f => items.flatMap f) (funext Item.serialised_decoded)

theorem classWidth_none {k : Nat} (hk : k < 8) :
    classWidth k = none ↔ k = 0 ∨ k = 6 ∨ k = 7 := by
  unfold classWidth
  split
  next => simp
  next => simp
  next => simp
  next => simp
  next => simp
  next h1 h2 h3 h4 h5 =>
    simp only [imp_false] at h1 h2 h3 h4 h5
    simp only [true_iff]
    omega

theorem not_startsItem_nil : ¬ StartsItem [] :=
  not_startsItem_iff.mpr (Or.inl (Nat.zero_lt_succ 3))

theorem terminal_done {rest : List UInt8} : terminal rest = .done ↔ rest = [] := by
  unfold terminal
  constructor
  · intro h
    split at h
    next hnil => exact hnil
    next =>
      split at h
      next => exact nomatch h
      next =>
        split at h
        next => exact nomatch h
        next => exact nomatch h
  · intro h
    rw [if_pos h]

theorem terminal_unsupported {rest : List UInt8} :
    terminal rest = .unsupportedStorageSize ↔
      4 ≤ rest.length ∧ classWidth (keyClass (frontKey rest)) = none := by
  unfold terminal
  by_cases hnil : rest = []
  · subst hnil
    simp
  · rw [if_neg hnil]
    by_cases h4 : rest.length < 4
    · rw [if_pos h4]
      exact ⟨nofun, fun h => absurd h.1 (by omega)⟩
    · rw [if_neg h4]
      split
      next h => exact ⟨fun _ => ⟨by omega, h⟩, fun _ => rfl⟩
      next h => exact ⟨nofun, fun h' => absurd h'.2 h⟩

theorem terminal_malformed {rest : List UInt8} (hnil : rest ≠ []) (hrest : ¬ StartsItem rest) :
    terminal rest = .malformedItem ↔ rest.length < 4 ∨
      ∃ w, classWidth (keyClass (frontKey rest)) = some w ∧ rest.length < 4 + w := by
  unfold terminal
  rw [if_neg hnil]
  by_cases h4 : rest.length < 4
  · rw [if_pos h4]
    exact ⟨fun _ => Or.inl h4, fun _ => rfl⟩
  · rw [if_neg h4]
    split
    next hnone =>
      refine ⟨nofun, ?_⟩
      intro hcut
      rcases hcut with h | ⟨w, hw, -⟩
      · exact absurd h h4
      · rw [hnone] at hw
        exact nomatch hw
    next hsome =>
      refine ⟨fun _ => ?_, fun _ => rfl⟩
      -- the key is there and has a width, so the value must be short
      rcases not_startsItem_iff.mp hrest with h | h | h
      · exact absurd h h4
      · exact absurd h hsome
      · exact Or.inr h

/-- **The VALGET iterator accepts exactly its grammar.** On a frame that init
accepts, the payload behind the header is a list of items and a rest in front
of which none starts, and for every number of calls: they return the items and
then the terminal result `last`, which changes neither the iterator nor the
item; `last` says whether the rest is empty, and if not what it lacks; and what
was returned, written back, is what was passed. -/
theorem valget_grammar (P : Platform) {frame : UbxFrame} {iterator it : UbxCfgValgetIterator}
    {out : UbxCfgValgetItem} (hreadable : frame.Readable)
    (hinit : ubxCfgValgetIteratorInit (some frame) (some iterator) = .ok (.ok, some it)) :
    ∃ (cells rest : List UInt8) (items : List Item) (last : UbxCfgIterateResult),
      frame.payload = some cells ∧
      (cells.take frame.payloadLength.toNat).drop 4 = items.flatMap Item.bytes ++ rest ∧
      ¬ StartsItem rest ∧
      items.length ≤ (frame.payloadLength.toNat - 4) / 5 ∧
      (∀ n, run (nextStep P) (some it, some out) (List.replicate n ())
        = .ok (itemReturns it (items.take n) ++ List.replicate (n - items.length)
            (last, some (it.past (items.take n)), some (lastItem out (items.take n))),
          some (it.past (items.take n)), some (lastItem out (items.take n)))) ∧
      (last = .done ↔ ∃ items' : List Item,
        (cells.take frame.payloadLength.toNat).drop 4 = items'.flatMap Item.bytes) ∧
      (rest ≠ [] →
        (last = .unsupportedStorageSize ↔ 4 ≤ rest.length ∧
          (keyClass (frontKey rest) = 0 ∨ keyClass (frontKey rest) = 6 ∨
            keyClass (frontKey rest) = 7)) ∧
        (last = .malformedItem ↔ rest.length < 4 ∨
          ∃ w, classWidth (keyClass (frontKey rest)) = some w ∧ rest.length < 4 + w)) ∧
      (∀ n, ((items.take n).map Item.decoded).flatMap UbxCfgValgetItem.serialised
        = (cells.take (it.past (items.take n)).offset).drop 4) ∧
      ∀ item ∈ items, item.decoded.value.toList.drop item.decoded.valueLength.toNat
        = List.replicate (8 - item.decoded.valueLength.toNat) 0 := by
  obtain ⟨cells, hpayload, hoffset, -, hat⟩ := init_ok hreadable hinit
  obtain ⟨items, rest, hsplit, hrest⟩ := items_exist ((cells.take frame.payloadLength.toNat).drop 4)
  rw [hsplit] at hat
  have hbytes : (items.flatMap Item.bytes ++ rest).length = frame.payloadLength.toNat - 4 := by
    rw [← hsplit, List.length_drop, List.length_take, Nat.min_eq_left (hreadable cells hpayload)]
  refine ⟨cells, rest, items, terminal rest, hpayload, hsplit, hrest, ?_,
    run_next hat hrest out, ?_, ?_, ?_, fun item _ => item.decoded_padding⟩
  · have hfive := items_length items
    rw [List.length_append] at hbytes
    omega
  · rw [terminal_done]
    constructor
    · intro hnil
      subst hnil
      exact ⟨items, by rw [hsplit, List.append_nil]⟩
    · intro hlist
      obtain ⟨items', hitems'⟩ := hlist
      rw [hsplit, ← List.append_nil (items'.flatMap Item.bytes)] at hitems'
      exact (items_unique hrest not_startsItem_nil hitems').2
  · intro hnil
    rw [← classWidth_none (keyClass_lt _)]
    exact ⟨terminal_unsupported, terminal_malformed hnil hrest⟩
  · intro n
    rw [serialised_items]
    have hpassed : items.flatMap Item.bytes ++ rest = (items.take n).flatMap Item.bytes
        ++ ((items.drop n).flatMap Item.bytes ++ rest) := by
      rw [← List.append_assoc, ← List.flatMap_append, List.take_append_drop]
    have hle : ((items.take n).flatMap Item.bytes).length ≤ frame.payloadLength.toNat - 4 := by
      rw [← hbytes, hpassed, List.length_append]
      exact Nat.le_add_right ..
    show _ = (cells.take (it.offset + ((items.take n).flatMap Item.bytes).length)).drop 4
    rw [hoffset]
    generalize (items.take n).flatMap Item.bytes = passed at hpassed hle
    calc passed = (items.flatMap Item.bytes ++ rest).take passed.length := by
          rw [hpassed, List.take_left]
      _ = ((cells.take frame.payloadLength.toNat).drop 4).take passed.length := by rw [hsplit]
      _ = (cells.take (4 + passed.length)).drop 4 := by
          rw [List.drop_take, List.drop_take, List.take_take, Nat.min_eq_left hle,
            Nat.add_sub_cancel_left]

/-- One item of two value bytes, and a third key byte too few. -/
theorem valget_grammar_cut :
    ∃ (cells rest : List UInt8) (items : List Item) (last : UbxCfgIterateResult),
      some [1, 0, 0, 0, 5, 0, 0, 0x30, 7, 8, 9, 9, 9] = some cells ∧
      (cells.take 13).drop 4 = items.flatMap Item.bytes ++ rest ∧ ¬ StartsItem rest ∧
      items.length ≤ (13 - 4) / 5 ∧
      (last = .done ↔ ∃ items' : List Item,
        (cells.take 13).drop 4 = items'.flatMap Item.bytes) := by
  have hreadable : UbxFrame.Readable
      ⟨0x06, 0x8B, 13, some [1, 0, 0, 0, 5, 0, 0, 0x30, 7, 8, 9, 9, 9]⟩ := by
    intro cells h
    cases h
    exact Nat.le_refl 13
  have hinit : ubxCfgValgetIteratorInit
      (some ⟨0x06, 0x8B, 13, some [1, 0, 0, 0, 5, 0, 0, 0x30, 7, 8, 9, 9, 9]⟩)
      (some ⟨none, 0, 0, 0, 0⟩)
        = .ok (.ok, some ⟨some [1, 0, 0, 0, 5, 0, 0, 0x30, 7, 8, 9, 9, 9], 13, 4, 0, 0⟩) := rfl
  obtain ⟨cells, rest, items, last, hpayload, hsplit, hrest, hcount, -, hdone, -⟩ :=
    @valget_grammar Platform.size32 _ _ _ ⟨0, .l, 0, Vector.replicate 8 0⟩ hreadable hinit
  exact ⟨cells, rest, items, last, hpayload, hsplit, hrest, hcount, hdone⟩

end Ubx.Cfg
