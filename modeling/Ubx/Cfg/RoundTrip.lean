import Ubx.Cfg.Getters
import Ubx.Cfg.Valset
import Ubx.Stream.Frames

/-!
# Settings there and back

Settings that the VALSET builder accepted, put behind a VALGET response header,
encoded, fed to the parser and iterated, come out as they went in.
`configuration_round_trip` is that statement; the typed getters give back the
values exactly (`got_decoded`).
-/

namespace Ubx.Cfg

open Lib Ubx.Stream

/-! ## The getters -/

variable {P : Platform}

/-- The getter of the value's kind returns OK with that value, whatever was in
the caller's output. -/
def Value.GotFrom (item : UbxCfgValgetItem) : Value → Prop
  | .l value => ∀ old, ubxCfgValgetItemGetL (some item) (some old) = .ok (.ok, some value)
  | .u1 value => ∀ old, ubxCfgValgetItemGetU1 (some item) (some old) = .ok (.ok, some value)
  | .u2 value => ∀ old, ubxCfgValgetItemGetU2 (some item) (some old) = .ok (.ok, some value)
  | .u4 value => ∀ old, ubxCfgValgetItemGetU4 (some item) (some old) = .ok (.ok, some value)
  | .i1 value => ∀ old, ubxCfgValgetItemGetI1 (some item) (some old) = .ok (.ok, some value)
  | .i2 value => ∀ old, ubxCfgValgetItemGetI2 (some item) (some old) = .ok (.ok, some value)
  | .i4 value => ∀ old, ubxCfgValgetItemGetI4 (some item) (some old) = .ok (.ok, some value)
  | .e1 value => ∀ old, ubxCfgValgetItemGetE1 (some item) (some old) = .ok (.ok, some value)

/-- The item of a typed setting. -/
def Setting.item (setting : Setting) (h : setting.Typed) : Item :=
  ⟨setting.key, setting.value.bytes, by rw [h.2, setting.value.bytes_width]⟩

theorem Setting.item_bytes (setting : Setting) (h : setting.Typed) :
    (setting.item h).bytes = setting.bytes := rfl

/-- The bytes of a signed value are read back in two's complement. -/
theorem twosComplement_leBytes {n w : Nat} (hw : 2 ^ w = 256 ^ n) (v : BitVec w) :
    twosComplement w (leValue (leBytes n (v.toInt % 2 ^ w).toNat)) = v.toInt := by
  rw [toNat_of_toInt, leValue_leBytes_of_lt (hw ▸ v.isLt), toInt_eq_twosComplement]

/-- **A setting's item gives its value back.** -/
theorem got_decoded (setting : Setting) (h : setting.Typed) :
    setting.value.GotFrom (setting.item h).decoded := by
  have htyped : GetsTyped (setting.item h).decoded setting.value.bytes := (setting.item h).typed
  have hclass : keyClass (setting.item h).decoded.key = setting.value.keyClass := h.2
  have hlegal := h.1
  obtain ⟨key, value⟩ := setting
  generalize (Setting.item ⟨key, value⟩ h).decoded = item at htyped hclass
  cases value with
  | l v =>
    have htakes : (Value.l v).bytes = [0] ∨ (Value.l v).bytes = [1] := by
      rcases hlegal with rfl | rfl
      · exact Or.inl rfl
      · exact Or.inr rfl
    exact htyped.l.gives hclass htakes fun x hx =>
      UInt8.toNat_inj.mp (hx.trans (leValue_leBytes_of_lt v.toNat_lt))
  | u1 v =>
    exact htyped.u1.gives hclass trivial fun x hx =>
      UInt8.toNat_inj.mp (hx.trans (leValue_leBytes_of_lt v.toNat_lt))
  | e1 v =>
    exact htyped.e1.gives hclass trivial fun x hx =>
      UInt8.toNat_inj.mp (hx.trans (leValue_leBytes_of_lt v.toNat_lt))
  | u2 v =>
    exact htyped.u2.gives hclass trivial fun x hx =>
      UInt16.toNat_inj.mp (hx.trans (leValue_leBytes_of_lt v.toNat_lt))
  | u4 v =>
    exact htyped.u4.gives hclass trivial fun x hx =>
      UInt32.toNat_inj.mp (hx.trans (leValue_leBytes_of_lt v.toNat_lt))
  | i1 v =>
    exact htyped.i1.gives hclass trivial fun x hx =>
      Int8.toInt_inj.mp (hx.trans (twosComplement_leBytes rfl v.toBitVec))
  | i2 v =>
    exact htyped.i2.gives hclass trivial fun x hx =>
      Int16.toInt_inj.mp (hx.trans (twosComplement_leBytes rfl v.toBitVec))
  | i4 v =>
    exact htyped.i4.gives hclass trivial fun x hx =>
      Int32.toInt_inj.mp (hx.trans (twosComplement_leBytes rfl v.toBitVec))

/-! ## The response -/

/-- The items of typed settings. -/
def itemsOf (settings : List Setting) (h : ∀ setting ∈ settings, setting.Typed) : List Item :=
  settings.pmap Setting.item h

theorem itemsOf_bytes :
    ∀ (settings : List Setting) (h : ∀ setting ∈ settings, setting.Typed),
      (itemsOf settings h).flatMap Item.bytes = settings.flatMap Setting.bytes := by
  intro settings
  induction settings with
  | nil =>
    intro _
    rfl
  | cons setting settings ih =>
    intro h
    have hrest := ih (fun s hs => h s (List.mem_cons_of_mem _ hs))
    rw [itemsOf, List.pmap_cons, List.flatMap_cons, List.flatMap_cons, Setting.item_bytes]
    exact congrArg _ hrest

/-- The call returned this setting: its key, and a value that its getter gives back. -/
def Returned (setting : Setting)
    (ret : UbxCfgIterateResult × Option UbxCfgValgetIterator × Option UbxCfgValgetItem) : Prop :=
  ∃ it item, ret = (.item, some it, some item) ∧ item.key = setting.key ∧
    setting.value.GotFrom item

theorem returned_items :
    ∀ (settings : List Setting) (h : ∀ setting ∈ settings, setting.Typed)
      (it : UbxCfgValgetIterator),
      List.Forall₂ Returned settings (itemReturns it (itemsOf settings h)) := by
  intro settings
  induction settings with
  | nil =>
    intro _ _
    exact .nil
  | cons setting settings ih =>
    intro h it
    have hsetting := h setting (List.mem_cons_self ..)
    rw [itemsOf, List.pmap_cons, itemReturns]
    exact .cons ⟨_, _, rfl, rfl, got_decoded setting hsetting⟩ (ih _ _)

/-- The payload of a VALGET response: its header and the bytes of its items. -/
def valgetResponse (layer : UInt8) (position : UInt16) (items : List UInt8) : List UInt8 :=
  [1, layer] ++ leBytes 2 position.toNat ++ items

theorem length_valgetResponse (layer : UInt8) (position : UInt16) (items : List UInt8) :
    (valgetResponse layer position items).length = 4 + items.length := by
  rw [valgetResponse, List.length_append, List.length_append, length_leBytes]
  rfl

/-- Init accepts a response and stands in front of its items. -/
theorem init_response {frame : UbxFrame} {layer : UInt8} {position : UInt16} {items : List UInt8}
    (hlayer : layer = 0 ∨ layer = 1 ∨ layer = 2 ∨ layer = 7)
    (hframe : frame.delivered = ⟨0x06, 0x8B,
      UInt16.ofNat (valgetResponse layer position items).length,
      valgetResponse layer position items⟩)
    (hlen : (valgetResponse layer position items).length ≤ 65535)
    (iterator : UbxCfgValgetIterator) :
    ∃ cells it, ubxCfgValgetIteratorInit (some frame) (some iterator) = .ok (.ok, some it) ∧
      it.layer = layer ∧ it.position = position ∧ At cells it items := by
  have hne : valgetResponse layer position items ≠ [] := List.cons_ne_nil _ _
  -- the cells are the response, and whatever the buffer holds behind it
  obtain ⟨tail, hcells⟩ := UbxFrame.payload_of_delivered (congrArg Delivered.payload hframe) hne
  obtain ⟨c, i, l, payload⟩ := frame
  have hc : c = 0x06 := congrArg Delivered.messageClass hframe
  have hi : i = 0x8B := congrArg Delivered.messageId hframe
  have hlength : l = UInt16.ofNat (valgetResponse layer position items).length :=
    congrArg Delivered.payloadLength hframe
  dsimp only at hcells
  subst hc hi hlength hcells
  have hl : (UInt16.ofNat (valgetResponse layer position items).length).toNat
      = (valgetResponse layer position items).length := by
    rw [UInt16.toNat_ofNat']
    exact Nat.mod_eq_of_lt (Nat.lt_succ_of_le hlen)
  have hfour := length_valgetResponse layer position items
  have hversion : ¬ byteAt (valgetResponse layer position items) 0 ≠ 1 := not_not.mpr rfl
  have hposition : u16At (valgetResponse layer position items) 2 = position := u16At_eq rfl
  have hvalid : ¬ ubxCfgValgetLayerIsValid (byteAt (valgetResponse layer position items) 1)
      = false := by
    rw [show byteAt (valgetResponse layer position items) 1 = layer from rfl,
      show ubxCfgValgetLayerIsValid layer = true from decide_eq_true hlayer]
    exact Bool.noConfusion
  have hnotshort : ¬ UInt16.ofNat (valgetResponse layer position items).length < 4 := by
    rw [UInt16.lt_iff_toNat_lt, hl, hfour]
    show ¬ 4 + items.length < 4
    omega
  refine ⟨valgetResponse layer position items ++ tail,
    ⟨some (valgetResponse layer position items ++ tail),
      (valgetResponse layer position items).length, 4, layer, position⟩,
    ?_, rfl, rfl, rfl, ?_, hlen, ?_, ?_⟩
  · have hfront := @ubxCfgValgetIteratorInit_front
      ⟨0x06, 0x8B, UInt16.ofNat (valgetResponse layer position items).length, none⟩ _ hl
      iterator tail
    rw [if_neg (by simp), if_neg hnotshort, if_neg hversion, if_neg hvalid, hposition]
      at hfront
    refine hfront.trans ?_
    simp only [hl]
    rfl
  · rw [List.length_append]
    exact Nat.le_add_right ..
  · show 4 ≤ (valgetResponse layer position items).length
    omega
  · show ((valgetResponse layer position items ++ tail).take
      (valgetResponse layer position items).length).drop 4 = items
    rw [List.take_left]
    rfl

/-! ## End to end -/

/-- The item bytes of a builder all of whose calls were accepted. -/
theorem accepted_items {cells : List UInt8} {capacity : Nat} {layers : UInt8}
    {builder b₀ b : UbxCfgValsetBuilder} {buffer' : Option (List UInt8)}
    (hcells : capacity ≤ cells.length)
    (hbegin : ubxCfgValsetBegin (some builder) (some cells) capacity layers
      = .ok (.ok, some b₀, buffer'))
    {settings : List Setting} {results : List UbxCfgBuildResult}
    (hadd : run (ubxCfgValsetAdd P) (some b₀) settings = .ok (results, some b))
    (hall : ∀ r ∈ results, r = .ok) :
    ((b.buffer.getD []).take b.length).drop 4 = settings.flatMap Setting.bytes ∧
      ∀ setting ∈ settings, setting.Typed := by
  obtain ⟨results', b', hrun, hb⟩ := add_run (P := P) hcells (begin_ok hcells hbegin) settings
  rw [hadd] at hrun
  cases hrun
  rw [acceptedOf_all (run_length hadd) hall] at hb
  refine ⟨?_, hb.typed⟩
  rw [hb.buffer, hb.length_eq, Option.getD_some, take_written]
  rfl

/-- **The configuration round trip.** Settings that were all accepted by one
builder, sent back as a VALGET response: the parser delivers the response at
its last byte, init accepts it with its layer and position, and the iterator
returns every setting once, in order, each with its key and a value that the
getter of its kind gives back, and then `DONE` for good. -/
theorem configuration_round_trip {cells : List UInt8} {capacity : Nat} {layers : UInt8}
    {builder b₀ b : UbxCfgValsetBuilder} {buffer' : Option (List UInt8)}
    (hcells : capacity ≤ cells.length)
    (hbegin : ubxCfgValsetBegin (some builder) (some cells) capacity layers
      = .ok (.ok, some b₀, buffer'))
    {settings : List Setting} {results : List UbxCfgBuildResult}
    (hadd : run (ubxCfgValsetAdd P) (some b₀) settings = .ok (results, some b))
    (hall : ∀ r ∈ results, r = .ok) {layer : UInt8} {position : UInt16}
    (hlayer : layer = 0 ∨ layer = 1 ∨ layer = 2 ∨ layer = 7) {bytes : List UInt8}
    (henc : Encodes P 0x06 0x8B
      (valgetResponse layer position (((b.buffer.getD []).take b.length).drop 4)) bytes)
    {p : UbxParser} (hb : BufferInv p) (hs : p.state = .sync1)
    (hfit : (valgetResponse layer position (((b.buffer.getD []).take b.length).drop 4)).length
      ≤ p.payloadCapacity)
    {inputs : List (UInt8 × Option UbxFrame)} (hinputs : inputs.map Prod.fst = bytes)
    (hframes : ∀ input ∈ inputs, input.2.isSome) :
    ∃ outs frame p', run (feedStep P) (some p) inputs
        = .ok (outs ++ [(.frameComplete, some frame)], some p') ∧
      ∀ iterator : UbxCfgValgetIterator, ∃ it,
        ubxCfgValgetIteratorInit (some frame) (some iterator) = .ok (.ok, some it) ∧
        it.layer = layer ∧ it.position = position ∧
        ∀ (out : UbxCfgValgetItem) (calls : Nat),
          ∃ found finished s, run (nextStep P) (some it, some out)
              (List.replicate (settings.length + calls) ()) = .ok (found ++ finished, s) ∧
            List.Forall₂ Returned settings found ∧
            finished.map Prod.fst = List.replicate calls .done := by
  -- every call was accepted, so the items are the settings
  obtain ⟨hitems, htyped⟩ := accepted_items hcells hbegin hadd hall
  rw [hitems] at henc hfit
  obtain ⟨hlen, rfl⟩ := encodes_eq henc
  obtain ⟨outs, frame, p', hrun, hframe⟩ :=
    frame_delivered (P := P) hb hs hlen hfit hinputs hframes
  refine ⟨outs, frame, p', hrun, ?_⟩
  intro iterator
  obtain ⟨cells', it, hinit, hitlayer, hitposition, hat⟩ :=
    init_response hlayer hframe hlen iterator
  refine ⟨it, hinit, hitlayer, hitposition, ?_⟩
  intro out calls
  -- the payload is the items and nothing behind them, so the run ends with `DONE`
  rw [← itemsOf_bytes settings htyped, ← List.append_nil (List.flatMap _ _)] at hat
  have hcount : (itemsOf settings htyped).length = settings.length := List.length_pmap
  have hnext := run_next (P := P) hat not_startsItem_nil out (settings.length + calls)
  rw [hcount, Nat.add_sub_cancel_left, terminal_done.mpr rfl,
    List.take_of_length_le (by omega)] at hnext
  exact ⟨_, _, _, hnext, returned_items settings htyped it, List.map_replicate⟩

/-- A signed setting and one of two bytes, at position 5 of the RAM layer: three
calls return both and `DONE`. -/
theorem configuration_round_trip_two :
    ∃ outs frame p', run (feedStep Platform.size32)
        (some ⟨.sync1, some (List.replicate 16 0), 16, 0, 0, 0, 0, 0, 0, 0, 0⟩)
        (feeds (frameBytes 0x06 0x8B (valgetResponse 0 5
          [2, 0, 0, 0x20, 0xFF, 5, 0, 0, 0x30, 0x34, 0x12])) (some ⟨0, 0, 0, none⟩))
          = .ok (outs ++ [(.frameComplete, some frame)], some p') ∧
      ∃ it, ubxCfgValgetIteratorInit (some frame) (some ⟨none, 0, 0, 0, 0⟩)
          = .ok (.ok, some it) ∧ it.position = 5 ∧
        ∃ found finished s, run (nextStep Platform.size32)
            (some it, some ⟨0, .l, 0, Vector.replicate 8 9⟩) (List.replicate 3 ())
              = .ok (found ++ finished, s) ∧
          List.Forall₂ Returned [⟨0x20000002, .i1 (-1)⟩, ⟨0x30000005, .u2 0x1234⟩] found ∧
          finished.map Prod.fst = [.done] := by
  have hbegin : ubxCfgValsetBegin (some ⟨none, 0, 0, 0⟩) (some (List.replicate 15 7)) 15 1
      = .ok (.ok, some ⟨some ([0, 1, 0, 0] ++ List.replicate 11 7), 15, 4, 0⟩,
        some ([0, 1, 0, 0] ++ List.replicate 11 7)) := rfl
  have hadd : run (ubxCfgValsetAdd Platform.size32)
      (some ⟨some ([0, 1, 0, 0] ++ List.replicate 11 7), 15, 4, 0⟩)
      [⟨0x20000002, .i1 (-1)⟩, ⟨0x30000005, .u2 0x1234⟩]
      = .ok ([.ok, .ok], some
        ⟨some [0, 1, 0, 0, 2, 0, 0, 0x20, 0xFF, 5, 0, 0, 0x30, 0x34, 0x12], 15, 15, 2⟩) := rfl
  have hall : ∀ r ∈ List.replicate 2 UbxCfgBuildResult.ok, r = .ok :=
    fun r hr => List.eq_of_mem_replicate hr
  have hlen : (valgetResponse 0 5 [2, 0, 0, 0x20, 0xFF, 5, 0, 0, 0x30, 0x34, 0x12]).length
      ≤ 65535 := by decide
  have hbuffer : BufferInv ⟨.sync1, some (List.replicate 16 0), 16, 0, 0, 0, 0, 0, 0, 0, 0⟩ :=
    ⟨nofun, fun cells h => by
      cases h
      exact Nat.le_refl 16⟩
  obtain ⟨outs, frame, p', hrun, hinit⟩ := configuration_round_trip (Nat.le_refl 15) hbegin hadd
    hall (Or.inl rfl) (encodes_frameBytes 0x06 0x8B hlen (by decide)) hbuffer rfl (by decide)
    (map_fst_feeds _ (some ⟨0, 0, 0, none⟩)) (feeds_isSome _ _)
  obtain ⟨it, hit, -, hposition, hcalls⟩ := hinit ⟨none, 0, 0, 0, 0⟩
  exact ⟨outs, frame, p', hrun, it, hit, hposition, hcalls ⟨0, .l, 0, Vector.replicate 8 9⟩ 1⟩

end Ubx.Cfg
