import Ubx.Requests

/-!
# Settings read off and written back

A configuration that was read off a receiver, item by item, and is written back
with the builder. `readOff_iff` says what a getter's OK tells of an item: the
value has the item's bytes, whichever of the getters of its width it was. So what
is built again is the bytes that were passed, and `settings_restored` says when.

Not every item can be read off: the library has no getter for eight bytes, and
the one for a logical value takes no more than 1 (`readable_iff`).
-/

namespace Ubx.Requests

open Lib Ubx.Stream Ubx.Cfg

/-! ## One item -/

/-- The setting has the item's key, and its value from a getter that returned OK. -/
def ReadOff (item : UbxCfgValgetItem) (setting : Setting) : Prop :=
  setting.key = item.key ∧ setting.value.GotFrom item

/-- There is a getter that returns OK for the item. -/
def HasGetter (item : UbxCfgValgetItem) : Prop :=
  item.storage ≠ .eightBytes ∧ (item.storage = .l → byteAt item.value.toList 0 ≤ 1)

section

variable {α : Type} {k : Nat} {takes : Prop} {right : α → Prop} {x : α}
  {get : Option UbxCfgValgetItem → Option α → Run (UbxCfgDecodeResult × Option α)}

/-- What a getter's OK tells. -/
theorem gets_told {item : UbxCfgValgetItem} (h : Gets get item k takes right)
    (hget : ∀ old, get (some item) (some old) = .ok (.ok, some x)) :
    keyClass item.key = k ∧ takes ∧ right x := by
  obtain ⟨r, new, hrun, hok, hright, -⟩ := h x
  rw [hget] at hrun
  cases hrun
  obtain ⟨hclass, htakes⟩ := hok.mp rfl
  exact ⟨hclass, htakes, hright rfl⟩

end

/-- The width of an item's class is the length of its value. -/
theorem value_width {item : Item} {k w : Nat} (hclass : keyClass item.key = k)
    (hwidth : classWidth k = some w) : item.value.length = w := by
  have hlen := item.width
  rw [hclass, hwidth] at hlen
  exact (Option.some.inj hlen).symm

/-- A number that is the value of some bytes has these bytes. -/
theorem bytes_of_value {bytes : List UInt8} {n v : Nat} (hlen : bytes.length = n)
    (hv : v = leValue bytes) : leBytes n v = bytes := by
  rw [hv, ← hlen, leBytes_leValue]

/-- So has a number that is their value in two's complement. -/
theorem bytes_of_signed {bytes : List UInt8} {n w : Nat} {v : Int} (hlen : bytes.length = n)
    (hw : 2 ^ w = 256 ^ n) (hv : v = twosComplement w (leValue bytes)) :
    leBytes n (v % (2 ^ w : Nat)).toNat = bytes := by
  have hlt : leValue bytes < 2 ^ w := by
    rw [hw, ← hlen]
    exact leValue_lt bytes
  rw [hv, twosComplement_emod hlt, Int.toNat_natCast]
  exact bytes_of_value hlen rfl

/-- **What is read off an item** is a legal value of its key's class, with its bytes. -/
theorem readOff_iff (item : Item) (setting : Setting) :
    ReadOff item.decoded setting ↔
      setting.Typed ∧ setting.key = item.key ∧ setting.value.bytes = item.value := by
  constructor
  · intro hread
    obtain ⟨hkey, hgot⟩ := hread
    obtain ⟨key, value⟩ := setting
    have hkey' : key = item.key := hkey
    subst hkey'
    have h := item.typed
    have hdecoded : item.decoded.key = item.key := rfl
    cases value with
    | l v =>
      obtain ⟨hclass, htakes, hvalue⟩ := gets_told h.l hgot
      have hbytes := bytes_of_value (value_width hclass rfl) hvalue
      refine ⟨⟨?_, hclass⟩, rfl, hbytes⟩
      rcases htakes with hzero | hone
      · rw [hzero] at hvalue
        exact Or.inl (UInt8.toNat_inj.mp hvalue)
      · rw [hone] at hvalue
        exact Or.inr (UInt8.toNat_inj.mp hvalue)
    | u1 v =>
      obtain ⟨hclass, -, hvalue⟩ := gets_told h.u1 hgot
      exact ⟨⟨trivial, hclass⟩, rfl, bytes_of_value (value_width hclass rfl) hvalue⟩
    | e1 v =>
      obtain ⟨hclass, -, hvalue⟩ := gets_told h.e1 hgot
      exact ⟨⟨trivial, hclass⟩, rfl, bytes_of_value (value_width hclass rfl) hvalue⟩
    | u2 v =>
      obtain ⟨hclass, -, hvalue⟩ := gets_told h.u2 hgot
      exact ⟨⟨trivial, hclass⟩, rfl, bytes_of_value (value_width hclass rfl) hvalue⟩
    | u4 v =>
      obtain ⟨hclass, -, hvalue⟩ := gets_told h.u4 hgot
      exact ⟨⟨trivial, hclass⟩, rfl, bytes_of_value (value_width hclass rfl) hvalue⟩
    | i1 v =>
      obtain ⟨hclass, -, hvalue⟩ := gets_told h.i1 hgot
      exact ⟨⟨trivial, hclass⟩, rfl, bytes_of_signed (value_width hclass rfl) rfl hvalue⟩
    | i2 v =>
      obtain ⟨hclass, -, hvalue⟩ := gets_told h.i2 hgot
      exact ⟨⟨trivial, hclass⟩, rfl, bytes_of_signed (value_width hclass rfl) rfl hvalue⟩
    | i4 v =>
      obtain ⟨hclass, -, hvalue⟩ := gets_told h.i4 hgot
      exact ⟨⟨trivial, hclass⟩, rfl, bytes_of_signed (value_width hclass rfl) rfl hvalue⟩
  · intro hsetting
    obtain ⟨htyped, hkey, hbytes⟩ := hsetting
    have hitem : setting.item htyped = item := by
      cases item
      cases hkey
      cases hbytes
      rfl
    rw [← hitem]
    exact ⟨rfl, got_decoded setting htyped⟩

/-- **Which items can be read off**: those of four bytes and less, but of a logical
value only 0 and 1. -/
theorem readable_iff (item : Item) :
    (∃ setting, ReadOff item.decoded setting) ↔ HasGetter item.decoded := by
  have hstorage : item.decoded.storage = .ofValue (keyClass item.key) :=
    ubxCfgKeyStorage_eq item.key
  constructor
  · intro hread
    obtain ⟨setting, hread⟩ := hread
    obtain ⟨⟨hlegal, hclass⟩, hkey, hbytes⟩ := (readOff_iff item setting).mp hread
    rw [hkey] at hclass
    constructor
    · rw [hstorage, hclass]
      cases setting.value with
      | _ => exact nofun
    · intro hl
      rw [hstorage, show UbxCfgKeyStorage.l = .ofValue 1 from rfl, ofValue_inj, hclass] at hl
      rw [item.front_decoded, ← hbytes]
      -- of a logical value there is one byte, which is the value
      cases hvalue : setting.value with
      | l v =>
        rw [hvalue] at hlegal
        rcases hlegal with rfl | rfl
        · exact UInt8.zero_le
        · exact UInt8.le_refl 1
      | _ =>
        rw [hvalue] at hl
        exact nomatch hl
  · intro hgetter
    obtain ⟨hshort, hlogical⟩ := hgetter
    have hread : ∀ value : Value, value.Legal → keyClass item.key = value.keyClass →
        value.bytes = item.value → ∃ setting, ReadOff item.decoded setting :=
      fun value hlegal hclass hbytes =>
        ⟨⟨item.key, value⟩, (readOff_iff item _).mpr ⟨⟨hlegal, hclass⟩, rfl, hbytes⟩⟩
    have hclasses : keyClass item.key = 1 ∨ keyClass item.key = 2 ∨ keyClass item.key = 3 ∨
        keyClass item.key = 4 ∨ keyClass item.key = 5 := by
      have hlt := keyClass_lt item.key
      have hwidth := mt (classWidth_none hlt).mpr (by rw [item.width]; exact nofun)
      omega
    rcases hclasses with hclass | hclass | hclass | hclass | hclass
    · have hlen := value_width hclass rfl
      obtain ⟨b, hb⟩ := List.length_eq_one_iff.mp hlen
      have hle : byteAt item.decoded.value.toList 0 ≤ 1 :=
        hlogical (hstorage.trans (congrArg _ hclass))
      rw [item.front_decoded, hb] at hle
      have hle' : b.toNat ≤ 1 := UInt8.le_iff_toNat_le.mp hle
      refine hread (.l b) ?_ hclass (bytes_of_value hlen (by rw [hb, leValue_singleton]))
      rcases Nat.le_one_iff_eq_zero_or_eq_one.mp hle' with h | h
      · exact Or.inl (UInt8.toNat_inj.mp h)
      · exact Or.inr (UInt8.toNat_inj.mp h)
    · have hlen := value_width hclass rfl
      obtain ⟨b, hb⟩ := List.length_eq_one_iff.mp hlen
      exact hread (.u1 b) trivial hclass (bytes_of_value hlen (by rw [hb, leValue_singleton]))
    · have hlen := value_width hclass rfl
      exact hread (.u2 (UInt16.ofNat (leValue item.value))) trivial hclass
        (bytes_of_value hlen (toNat_leValue16 hlen))
    · have hlen := value_width hclass rfl
      exact hread (.u4 (UInt32.ofNat (leValue item.value))) trivial hclass
        (bytes_of_value hlen (toNat_leValue32 hlen))
    · rw [hstorage, hclass] at hshort
      exact absurd rfl hshort

/-! ## What the calls of the iterator returned -/

/-- The items among what the calls returned. -/
def returnedItems (returns : List (UbxCfgIterateResult × Option UbxCfgValgetIterator ×
    Option UbxCfgValgetItem)) : List UbxCfgValgetItem :=
  returns.filterMap fun (result, _, item) => if result = .item then item else none

theorem returnedItems_items :
    ∀ (items : List Item) (it : UbxCfgValgetIterator),
      returnedItems (itemReturns it items) = items.map Item.decoded := by
  intro items
  induction items with
  | nil =>
    intro _
    rfl
  | cons item items ih =>
    intro it
    exact congrArg (item.decoded :: ·) (ih (it.past [item]))

theorem itemReturns_results :
    ∀ (items : List Item) (it : UbxCfgValgetIterator),
      (itemReturns it items).map Prod.fst = List.replicate items.length .item := by
  intro items
  induction items with
  | nil =>
    intro _
    rfl
  | cons item items ih =>
    intro it
    exact congrArg (.item :: ·) (ih (it.past [item]))

theorem returnedItems_ended {last : UbxCfgIterateResult} (hlast : last ≠ .item)
    (it : Option UbxCfgValgetIterator) (out : Option UbxCfgValgetItem) :
    ∀ n, returnedItems (List.replicate n (last, it, out)) = [] := by
  intro n
  rw [returnedItems, List.filterMap_replicate_of_none]
  exact if_neg hlast

/-- Settings read off items one by one are legal, and have the bytes of the items. -/
theorem read_items {items : List Item} {settings : List Setting}
    (h : List.Forall₂ ReadOff (items.map Item.decoded) settings) :
    (∀ setting ∈ settings, setting.Typed) ∧
      settings.flatMap Setting.bytes = items.flatMap Item.bytes := by
  rw [List.forall₂_map_left_iff] at h
  induction h with
  | nil => exact ⟨fun _ h => (nomatch h), rfl⟩
  | @cons item setting _ _ hread _ ih =>
    obtain ⟨htyped, hkey, hbytes⟩ := (readOff_iff item setting).mp hread
    obtain ⟨hrest, hflat⟩ := ih
    constructor
    · intro s hs
      rcases List.mem_cons.mp hs with rfl | hs
      · exact htyped
      · exact hrest s hs
    · rw [List.flatMap_cons, List.flatMap_cons, hflat, Setting.bytes, hkey, hbytes]
      rfl

/-- A list can be read off if every item of it can. -/
theorem readable_list (items : List Item) :
    (∃ settings, List.Forall₂ ReadOff (items.map Item.decoded) settings) ↔
      ∀ item ∈ items.map Item.decoded, HasGetter item := by
  rw [List.forall_mem_map]
  induction items with
  | nil => exact ⟨fun _ _ h => (nomatch h), fun _ => ⟨[], .nil⟩⟩
  | cons item items ih =>
    rw [List.forall_mem_cons, ← ih, ← readable_iff]
    constructor
    · intro hread
      obtain ⟨settings, hread⟩ := hread
      cases hread with
      | cons hhead htail => exact ⟨⟨_, hhead⟩, _, htail⟩
    · intro hread
      obtain ⟨⟨setting, hhead⟩, settings, htail⟩ := hread
      exact ⟨setting :: settings, .cons hhead htail⟩

/-! ## Written back -/

/-- **Settings read off a response and written back.** After any number of calls of
the iterator, the items returned can all be read off if each has a getter that takes
it. Settings that were read off them, by whichever getters, are then built, all
calls OK, exactly where the layers are legal, there are 64 at most and there is room
for as many bytes as were passed; and what is built is these bytes behind a VALSET
header. They are the whole response once `DONE` was returned. -/
theorem settings_restored (P : Platform) {frame : UbxFrame} {iterator it it' : UbxCfgValgetIterator}
    {out : UbxCfgValgetItem} {out' : Option UbxCfgValgetItem} {n : Nat}
    (hreadable : frame.Readable)
    (hinit : ubxCfgValgetIteratorInit (some frame) (some iterator) = .ok (.ok, some it))
    {returns : List (UbxCfgIterateResult × Option UbxCfgValgetIterator × Option UbxCfgValgetItem)}
    (hrun : run (nextStep P) (some it, some out) (List.replicate n ())
      = .ok (returns, some it', out')) :
    ((∃ settings, List.Forall₂ ReadOff (returnedItems returns) settings) ↔
      ∀ item ∈ returnedItems returns, HasGetter item) ∧
    (∀ settings, List.Forall₂ ReadOff (returnedItems returns) settings →
      ∀ (Q : Platform) (layers : UInt8) (cells payload : List UInt8),
        (Request.valset layers settings).Builds Q cells payload ↔
          LayersOk layers ∧ settings.length ≤ 64 ∧ it'.offset ≤ cells.length ∧
            payload = [0, layers, 0, 0] ++ (frame.delivered.payload.take it'.offset).drop 4) ∧
    (.done ∈ returns.map Prod.fst → it'.offset = frame.payloadLength.toNat) := by
  obtain ⟨cells, hpayload, hoffset, hlength, hat⟩ := init_ok hreadable hinit
  obtain ⟨items, rest, hsplit, hrest⟩ := items_exist ((cells.take frame.payloadLength.toNat).drop 4)
  rw [hsplit] at hat
  rw [run_next hat hrest out n] at hrun
  cases hrun
  have hitems : returnedItems (itemReturns it (items.take n) ++ List.replicate (n - items.length)
      (terminal rest, some (it.past (items.take n)), some (lastItem out (items.take n))))
        = (items.take n).map Item.decoded := by
    rw [returnedItems, List.filterMap_append, ← returnedItems, ← returnedItems,
      returnedItems_items, returnedItems_ended (terminal_ne_item rest), List.append_nil]
  rw [hitems]
  refine ⟨readable_list _, ?_, ?_⟩
  · intro settings hread Q layers cells' payload
    obtain ⟨htyped, hbytes⟩ := read_items hread
    have hpast : (it.past (items.take n)).offset = 4 + ((items.take n).flatMap Item.bytes).length :=
      congrArg (· + _) hoffset
    -- the bytes passed are the front of what is behind the header
    have hpassed : (frame.delivered.payload.take (it.past (items.take n)).offset).drop 4
        = (items.take n).flatMap Item.bytes := by
      have hdelivered : frame.delivered.payload = cells.take frame.payloadLength.toNat := by
        rw [UbxFrame.delivered, hpayload]
        rfl
      have hitems : items.flatMap Item.bytes
          = (items.take n).flatMap Item.bytes ++ (items.drop n).flatMap Item.bytes := by
        rw [← List.flatMap_append, List.take_append_drop]
      rw [hdelivered, hpast, List.drop_take, hsplit, Nat.add_sub_cancel_left, hitems,
        List.append_assoc, List.take_left]
    have hcontent : content layers settings
        = [0, layers, 0, 0] ++ (items.take n).flatMap Item.bytes := by
      rw [content, hbytes]
    rw [builds_iff, hpassed, hpast]
    show (_ ∧ _ ∧ _) ∧ payload = content layers settings ∧ (content layers settings).length ≤ _ ↔ _
    rw [hcontent, List.length_append]
    constructor
    · intro hbuilds
      obtain ⟨⟨hlayers, hcount, -⟩, hbuilt, hroom⟩ := hbuilds
      exact ⟨hlayers, hcount, hroom, hbuilt⟩
    · intro htakes
      obtain ⟨hlayers, hcount, hroom, hbuilt⟩ := htakes
      exact ⟨⟨hlayers, hcount, htyped⟩, hbuilt, hroom⟩
  · intro hdone
    rw [List.map_append, itemReturns_results, List.map_replicate, List.mem_append] at hdone
    rcases hdone with hitem | hend
    · cases List.eq_of_mem_replicate hitem
    · obtain ⟨hcalls, hterminal⟩ := List.mem_replicate.mp hend
      -- nothing is left, so what was passed is everything
      have hnil := terminal_done.mp hterminal.symm
      have hend := (run_items (P := P) items it out hat).2
      have hleft := hend.length_rest
      have hbound := hend.offset_le
      rw [hnil, List.length_nil] at hleft
      rw [List.take_of_length_le (by omega), ← hlength]
      show (it.past items).offset = (it.past items).payloadLength
      omega

/-- A signed value and one of two bytes, read off and built again. -/
theorem settings_restored_two :
    (Request.valset 1 [⟨0x20000001, .i1 (-1)⟩, ⟨0x30000005, .u2 0x1234⟩]).Builds Platform.size32
      (List.replicate 15 0) [0, 1, 0, 0, 1, 0, 0, 0x20, 0xFF, 5, 0, 0, 0x30, 0x34, 0x12] := by
  have hreadable : UbxFrame.Readable ⟨6, 0x8B, 15,
      some [1, 0, 0, 0, 1, 0, 0, 0x20, 0xFF, 5, 0, 0, 0x30, 0x34, 0x12]⟩ := by
    intro cells hcells
    cases hcells
    exact Nat.le_refl 15
  have hinit : ubxCfgValgetIteratorInit
      (some ⟨6, 0x8B, 15, some [1, 0, 0, 0, 1, 0, 0, 0x20, 0xFF, 5, 0, 0, 0x30, 0x34, 0x12]⟩)
      (some ⟨none, 0, 0, 0, 0⟩)
        = .ok (.ok, some ⟨some [1, 0, 0, 0, 1, 0, 0, 0x20, 0xFF, 5, 0, 0, 0x30, 0x34, 0x12],
          15, 4, 0, 0⟩) := rfl
  have hrun : run (nextStep Platform.size32)
      (some ⟨some [1, 0, 0, 0, 1, 0, 0, 0x20, 0xFF, 5, 0, 0, 0x30, 0x34, 0x12], 15, 4, 0, 0⟩,
        some ⟨0, .l, 0, Vector.replicate 8 0⟩) (List.replicate 2 ())
      = .ok ([(.item,
            some ⟨some [1, 0, 0, 0, 1, 0, 0, 0x20, 0xFF, 5, 0, 0, 0x30, 0x34, 0x12], 15, 9, 0, 0⟩,
            some ⟨0x20000001, .oneByte, 1, #v[0xFF, 0, 0, 0, 0, 0, 0, 0]⟩),
          (.item,
            some ⟨some [1, 0, 0, 0, 1, 0, 0, 0x20, 0xFF, 5, 0, 0, 0x30, 0x34, 0x12], 15, 15, 0, 0⟩,
            some ⟨0x30000005, .twoBytes, 2, #v[0x34, 0x12, 0, 0, 0, 0, 0, 0]⟩)],
        some ⟨some [1, 0, 0, 0, 1, 0, 0, 0x20, 0xFF, 5, 0, 0, 0x30, 0x34, 0x12], 15, 15, 0, 0⟩,
        some ⟨0x30000005, .twoBytes, 2, #v[0x34, 0x12, 0, 0, 0, 0, 0, 0]⟩) := rfl
  obtain ⟨-, hbuilds, -⟩ := settings_restored Platform.size32 hreadable hinit hrun
  have hfirst : ReadOff ⟨0x20000001, .oneByte, 1, #v[0xFF, 0, 0, 0, 0, 0, 0, 0]⟩
      ⟨0x20000001, .i1 (-1)⟩ := ⟨rfl, fun _ => rfl⟩
  have hsecond : ReadOff ⟨0x30000005, .twoBytes, 2, #v[0x34, 0x12, 0, 0, 0, 0, 0, 0]⟩
      ⟨0x30000005, .u2 0x1234⟩ := ⟨rfl, fun _ => rfl⟩
  exact (hbuilds _ (.cons hfirst (.cons hsecond .nil)) _ 1 _ _).mpr
    ⟨by decide, by decide, by decide, rfl⟩

end Ubx.Requests
