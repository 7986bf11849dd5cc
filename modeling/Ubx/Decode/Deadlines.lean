import Ubx.Decode.Meaning
import Ubx.Decode.Safety
import Ubx.Stream.Lifetime

/-!
# Decoding while the parser goes on

A decoder's call reads the payload where it stands, in the buffer of a parser
that may have been fed since. So a call that is right at the delivery can be
wrong later on, and how much later is a matter of the first byte it reads: the
front bytes are overwritten first.

`ReadsFrom` says of what a call accepts and returns that it is a matter of the
bytes from `first` on, and that the byte at `first` is one it tells. From that
and `Exactly` follows the deadline of a call, `first + 6` bytes (`deadline`).
`decoded_while_fed` has one for every decoder of `decoders_mean`. Most read the
first byte of the payload; but a measurement and a word are only decoded against
the header from its count on, and a version extension for itself.
-/

namespace Ubx.Decode

open Lib Ubx.Stream

/-! ## What a call reads -/

section

variable {ρ α : Type}

/-- What is accepted and what is returned depends on the bytes from `first` on,
and tells the byte there. -/
structure ReadsFrom (accepts : List UInt8 → Prop) (value : List UInt8 → α) (first : Nat) :
    Prop where
  below : ∀ xs, accepts xs → first < xs.length
  depends : ∀ xs ys, xs.length = ys.length → xs.drop first = ys.drop first → accepts xs →
    accepts ys ∧ value ys = value xs
  tells : ∀ xs ys, xs.length = ys.length → accepts xs → accepts ys → value xs = value ys →
    xs[first]? = ys[first]?

/-- Whatever is read depends on all the bytes. -/
theorem ReadsFrom.whole {accepts : List UInt8 → Prop} {value : List UInt8 → α}
    (hbelow : ∀ xs, accepts xs → 0 < xs.length)
    (htells : ∀ xs ys, xs.length = ys.length → accepts xs → accepts ys → value xs = value ys →
      xs[0]? = ys[0]?) : ReadsFrom accepts value 0 where
  below := hbelow
  depends xs ys _ hdrop haccepts := by
    rw [List.drop_zero, List.drop_zero] at hdrop
    rw [← hdrop]
    exact ⟨haccepts, rfl⟩
  tells := htells

/-- A call that is accepted on a delivered frame returns the same later, whatever
was fed by then, if and only if that is no more than `first + 6` bytes. -/
def Deadline (P : Platform) (parser : Option UbxParser) (frame : UbxFrame)
    (call : UbxFrame → Run (ρ × Option α)) (ok : ρ) (first : Nat) : Prop :=
  ∀ value, call frame = .ok (ok, some value) → ∀ n,
    (∀ later returns p', fedCount later = n →
      run (ParserCall.exec P) parser later = .ok (returns, some p') →
      call (frame.withPayload p'.payloadBuffer) = .ok (ok, some value)) ↔ n ≤ first + 6

theorem Refuses.deadline {P : Platform} {parser : Option UbxParser} {frame : UbxFrame}
    {call : UbxFrame → Run (ρ × Option α)} {ok : ρ} {output : Option α} (first : Nat)
    (h : Refuses ok output (call frame)) : Deadline P parser frame call ok first :=
  fun _ hcall => absurd hcall h.not_ok

/-- A record decoder, at one index. -/
theorem ListsExactly.at {ι : Type} {outOfRange ok : ρ} {toNat : ι → Nat} {accepts : Prop}
    {call : ι → Option α → Run (ρ × Option α)} (count : Nat) (record : Nat → α)
    (h : ListsExactly ok outOfRange toNat accepts ((List.range count).map record) call)
    (hne : outOfRange ≠ ok) (k : ι) (output : α) :
    Exactly ok output (accepts ∧ toNat k < count) (record (toNat k)) (call k (some output)) where
  accepted := by
    intro hboth
    obtain ⟨haccepts, hk⟩ := hboth
    rw [h.accepted haccepts, List.getElem?_map, List.getElem?_range hk]
    rfl
  refused hnot := by
    by_cases haccepts : accepts
    · refine ⟨outOfRange, hne, ?_⟩
      have hk : ¬ toNat k < count := fun hk => hnot ⟨haccepts, hk⟩
      rw [h.accepted haccepts, List.getElem?_eq_none (by simpa using hk)]
    · exact h.refused haccepts k output

/-- A buffer that is large enough holds a payload. -/
theorem holds_front {frame : UbxFrame} {cells : List UInt8}
    (hle : frame.payloadLength.toNat ≤ cells.length) :
    Holds (frame.withPayload (some cells)) (cells.take frame.payloadLength.toNat) where
  length := by
    rw [List.length_take, Nat.min_eq_left hle]
    rfl
  payload := ⟨cells.drop frame.payloadLength.toNat, by rw [List.take_append_drop]; rfl⟩

end

/-- **The deadline of a call** is told by the first byte it reads. -/
theorem deadline {P : Platform} {p : UbxParser} {start : Option UbxParser} {capacity : Nat}
    {contents : Option (List UInt8)} {h : History} {ρ α : Type} {ok : ρ} {output : α}
    {accepts : List UInt8 → Prop} {value : List UInt8 → α} {first : Nat}
    {call : UbxFrame → Run (ρ × Option α)} {frame : UbxFrame} {cells : List UInt8}
    (hg : Good P start capacity contents h p) (hs : p.state = .sync1)
    (hbuffer : p.payloadBuffer = some cells) (hpayload : frame.payload = some cells)
    (hfits : frame.payloadLength.toNat ≤ p.payloadCapacity)
    (hexact : ∀ payload xs, Holds (frame.withPayload payload) xs →
      Exactly ok output (accepts xs) (value xs) (call (frame.withPayload payload)))
    (hreads : ReadsFrom accepts value first) : Deadline P (some p) frame call ok first := by
  intro v hcall n
  have hle : frame.payloadLength.toNat ≤ cells.length :=
    Nat.le_trans hfits (hg.buffer.cells cells hbuffer)
  have hself : frame = frame.withPayload (some cells) := by
    rw [← hpayload]
    rfl
  have hlength : ∀ ys : List UInt8, p.payloadCapacity ≤ ys.length →
      (cells.take frame.payloadLength.toNat).length
        = (ys.take frame.payloadLength.toNat).length := by
    intro ys hys
    rw [List.length_take, List.length_take, Nat.min_eq_left hle,
      Nat.min_eq_left (Nat.le_trans hfits hys)]
  rw [hself] at hcall
  obtain ⟨haccepts, rfl⟩ := (hexact _ _ (holds_front hle)).value_eq hcall
  constructor
  · intro hall
    by_contra hlate
    have hbelow := hreads.below _ haccepts
    rw [List.length_take, Nat.min_eq_left hle] at hbelow
    have hmax := frame.payloadLength.toNat_lt
    obtain ⟨x, hx⟩ := another_byte cells[first]?
    obtain ⟨later, returns, p', hcount, hrun, hcell⟩ := late_overwrite (P := P) hg.buffer hs
      (Nat.lt_of_lt_of_le hbelow hfits) (by omega) (Nat.lt_of_not_le hlate) x
    obtain ⟨cells', hcells', hcap, -⟩ := buffer_after hg hs hbuffer hrun
    have hsame := hall later returns p' hcount hrun
    rw [hcells'] at hsame hcell
    -- both are accepted with one value, so they have one byte there
    obtain ⟨haccepts', hvalue⟩ :=
      (hexact _ _ (holds_front (Nat.le_trans hfits hcap))).value_eq hsame
    have htells := hreads.tells _ _ (hlength cells' hcap) haccepts haccepts' hvalue
    rw [List.getElem?_take_of_lt hbelow, List.getElem?_take_of_lt hbelow] at htells
    exact hx (htells.trans hcell)
  · intro hn later returns p' hcount hrun
    obtain ⟨cells', hcells', hcap, hsame⟩ := buffer_after hg hs hbuffer hrun
    have hdrop : (cells.take frame.payloadLength.toNat).drop first
        = (cells'.take frame.payloadLength.toNat).drop first := by
      rw [List.drop_take, List.drop_take, hsame first (hcount ▸ hn)]
    obtain ⟨haccepts', hvalue⟩ := hreads.depends _ _ (hlength cells' hcap) hdrop haccepts
    rw [hcells', ← hvalue]
    exact (hexact _ _ (holds_front (Nat.le_trans hfits hcap))).accepted haccepts'

/-! ## The first bytes -/

section

variable {xs ys : List UInt8} {n m : Nat}

/-- What is the same from a place on is the same from any later one on. -/
theorem drop_later (hle : n ≤ m) (h : xs.drop n = ys.drop n) : xs.drop m = ys.drop m := by
  rw [← Nat.add_sub_of_le hle, ← List.drop_drop, h, List.drop_drop]

theorem byteAt_later (hle : n ≤ m) (h : xs.drop n = ys.drop n) : byteAt xs m = byteAt ys m := by
  rw [← Nat.add_sub_of_le hle, ← byteAt_drop, h, byteAt_drop]

/-- A field tells its first byte. -/
theorem field_tells (hm : 0 < m) (h : (xs.drop n).take m = (ys.drop n).take m) :
    xs[n]? = ys[n]? := by
  have hfront := congrArg (fun field => field[0]?) h
  rwa [List.getElem?_take_of_lt hm, List.getElem?_take_of_lt hm, List.getElem?_drop,
    List.getElem?_drop] at hfront

theorem byteAt_tells (hx : n + 1 ≤ xs.length) (hlen : xs.length = ys.length)
    (h : byteAt xs n = byteAt ys n) : xs[n]? = ys[n]? :=
  field_tells Nat.one_pos (by rw [← wireU8_at hx, h, wireU8_at (hlen ▸ hx)])

theorem u32At_tells (hx : n + 4 ≤ xs.length) (hlen : xs.length = ys.length)
    (h : u32At xs n = u32At ys n) : xs[n]? = ys[n]? :=
  field_tells (Nat.zero_lt_succ 3) (by rw [← wireU32_at hx, h, wireU32_at (hlen ▸ hx)])

theorem u64At_tells (hx : n + 8 ≤ xs.length) (hlen : xs.length = ys.length)
    (h : u64At xs n = u64At ys n) : xs[n]? = ys[n]? :=
  field_tells (Nat.zero_lt_succ 7) (by rw [← wireU64_at hx, h, wireU64_at (hlen ▸ hx)])

/-- An array tells the string that was copied to it. -/
theorem string_inj {k : Nat} {v w : List UInt8} (hv : v.length = k) (hw : w.length = k)
    {array : Vector UInt8 (k + 1)} (h : overwrite array (v ++ [0]) = overwrite array (w ++ [0])) :
    v = w := by
  have hlist := congrArg Vector.toList h
  rw [overwrite_toList _ (by rw [List.length_append, hv]; rfl),
    overwrite_toList _ (by rw [List.length_append, hw]; rfl)] at hlist
  exact List.append_cancel_right hlist

/-- Where the length and the header agree, so does a count behind them. -/
theorem count_tells {base width : Nat} (hwidth : 0 < width) (hn : n < base)
    (hx : xs.length = base + (byteAt xs n).toNat * width)
    (hy : ys.length = base + (byteAt ys n).toNat * width) (hlen : xs.length = ys.length) :
    xs[n]? = ys[n]? := by
  have hcount : (byteAt xs n).toNat * width = (byteAt ys n).toNat * width := by omega
  have hbyte : byteAt xs n = byteAt ys n :=
    UInt8.toNat_inj.mp (Nat.eq_of_mul_eq_mul_right hwidth hcount)
  exact byteAt_tells (by rw [hx]; omega) hlen hbyte

end

/-! ## What the decoders read -/

section

variable (c i : UInt8)

theorem ack_reads : ReadsFrom (AckShape c i) (UbxAck.ofPayload i) 0 :=
  .whole (fun xs h => by rw [h.2.2]; decide) fun xs ys hlen h _ hvalue =>
    byteAt_tells (by rw [h.2.2]; decide) hlen (congrArg UbxAck.acknowledgedClass hvalue)

theorem navPvt_reads : ReadsFrom (NavPvtShape c i) UbxNavPvt.ofPayload 0 :=
  .whole (fun xs h => by rw [h.2.2]; decide) fun xs ys hlen h _ hvalue =>
    u32At_tells (by rw [h.2.2]; decide) hlen (congrArg UbxNavPvt.iTow hvalue)

theorem timTp_reads : ReadsFrom (TimTpShape c i) UbxTimTp.ofPayload 0 :=
  .whole (fun xs h => by rw [h.2.2]; decide) fun xs ys hlen h _ hvalue =>
    u32At_tells (by rw [h.2.2]; decide) hlen (congrArg UbxTimTp.tow hvalue)

theorem monVer_reads : ReadsFrom (MonVerShape c i) UbxMonVer.ofPayload 0 := by
  refine .whole (fun xs h => by have hlen := h.2.2; omega) ?_
  intro xs ys hlen h _ hvalue
  have hbase : 40 ≤ xs.length := by
    rw [h.2.2]
    exact Nat.le_add_right 40 _
  rw [UbxMonVer.ofPayload, UbxMonVer.ofPayload, UbxMonVer.mk.injEq] at hvalue
  have hstring : xs.take 30 = ys.take 30 :=
    string_inj (by rw [List.length_take]; omega) (by rw [List.length_take]; omega) hvalue.1
  exact field_tells (n := 0) (Nat.zero_lt_succ 29) hstring

theorem monRxr_reads : ReadsFrom (MonRxrShape c i) (fun xs => ⟨byteAt xs 0⟩ : _ → UbxMonRxr) 0 :=
  .whole (fun xs h => by rw [h.2.2]; decide) fun xs ys hlen h _ hvalue =>
    byteAt_tells (by rw [h.2.2]) hlen (congrArg UbxMonRxr.flags hvalue)

theorem monComms_reads : ReadsFrom (MonCommsShape c i) UbxMonComms.ofPayload 0 :=
  .whole (fun xs h => by have hlen := h.2.2.2; omega) fun xs ys hlen hx hy _ =>
    byteAt_tells (by have hlen := hx.2.2.2; omega) hlen (hx.2.2.1.trans hy.2.2.1.symm)

theorem monRf_reads :
    ReadsFrom (MonRfShape c i) (fun xs => UbxMonRf.mk (byteAt xs 0) (byteAt xs 1)) 0 :=
  .whole (fun xs h => by have hlen := h.2.2.2; omega) fun xs ys hlen hx hy _ =>
    byteAt_tells (by have hlen := hx.2.2.2; omega) hlen (hx.2.2.1.trans hy.2.2.1.symm)

theorem rxmRawx_reads : ReadsFrom (RxmRawxShape c i) UbxRxmRawx.ofPayload 0 :=
  .whole (fun xs h => by have hlen := h.2.2.2; omega) fun xs ys hlen h _ hvalue =>
    u64At_tells (by have hlen := h.2.2.2; omega) hlen (congrArg UbxRxmRawx.receiverTow hvalue)

theorem rxmSfrbx_reads : ReadsFrom (RxmSfrbxShape c i) UbxRxmSfrbx.ofPayload 0 :=
  .whole (fun xs h => by have hlen := h.2.2.2; omega) fun xs ys hlen h _ hvalue =>
    byteAt_tells (by have hlen := h.2.2.2; omega) hlen (congrArg UbxRxmSfrbx.gnssId hvalue)

/-! The record decoders, at an index. -/

variable (k : Nat)

theorem monCommsPort_reads :
    ReadsFrom (fun xs => MonCommsShape c i xs ∧ k < (byteAt xs 1).toNat)
      (fun xs => UbxMonCommsPort.readAt xs (8 + k * 40)) 0 :=
  .whole (fun xs h => by have hlen := h.1.2.2.2; omega) fun xs ys hlen hx hy _ =>
    byteAt_tells (by have hlen := hx.1.2.2.2; omega) hlen (hx.1.2.2.1.trans hy.1.2.2.1.symm)

/-- An extension is read for itself. -/
theorem monVerExtension_reads :
    ReadsFrom (fun xs => MonVerShape c i xs ∧ k < (xs.length - 40) / 30)
      (fun xs => overwrite (Vector.replicate 31 0) ((xs.drop (40 + k * 30)).take 30 ++ [0]))
      (40 + k * 30) where
  below xs h := by
    have hlen := h.1.2.2
    omega
  depends xs ys hlen hdrop h := by
    rw [← hdrop, MonVerShape, ← hlen]
    exact ⟨h, rfl⟩
  tells xs ys hlen hx hy hvalue := by
    have hshape := hx.1.2.2
    have hcount := hx.2
    exact field_tells (Nat.zero_lt_succ 29)
      (string_inj (length_window (by omega)) (length_window (by omega)) hvalue)

/-- A measurement is read behind the count, which the length has to match. -/
theorem rxmRawxMeasurement_reads :
    ReadsFrom (fun xs => RxmRawxShape c i xs ∧ k < (byteAt xs 11).toNat)
      (fun xs => UbxRxmRawxMeasurement.ofPayload xs (16 + k * 32)) 11 where
  below xs h := by
    have hlen := h.1.2.2.2
    omega
  depends xs ys hlen hdrop h := by
    have hcount : byteAt ys 11 = byteAt xs 11 := byteAt_later (Nat.le_refl 11) hdrop.symm
    have hversion : byteAt ys 13 = byteAt xs 13 := byteAt_later (by decide) hdrop.symm
    rw [RxmRawxShape, hcount, hversion, ← hlen, ← measurementLayout_fst, ← measurementLayout_fst,
      drop_later (by omega) hdrop]
    exact ⟨h, rfl⟩
  tells xs ys hlen hx hy _ :=
    count_tells (Nat.zero_lt_succ 31) (by decide) hx.1.2.2.2 hy.1.2.2.2 hlen

/-- A word is read behind the count, which the length has to match. -/
theorem rxmSfrbxWord_reads :
    ReadsFrom (fun xs => RxmSfrbxShape c i xs ∧ k < (byteAt xs 4).toNat)
      (fun xs => u32At xs (8 + k * 4)) 4 where
  below xs h := by
    have hlen := h.1.2.2.2
    omega
  depends xs ys hlen hdrop h := by
    have hcount : byteAt ys 4 = byteAt xs 4 := byteAt_later (Nat.le_refl 4) hdrop.symm
    have hversion : byteAt ys 6 = byteAt xs 6 := byteAt_later (by decide) hdrop.symm
    rw [RxmSfrbxShape, hcount, hversion, ← hlen, u32At, u32At, drop_later (by omega) hdrop]
    exact ⟨h, rfl⟩
  tells xs ys hlen hx hy _ :=
    count_tells (Nat.zero_lt_succ 3) (by decide) hx.1.2.2.2 hy.1.2.2.2 hlen

end

/-! ## Every decoder -/

/-- The deadline of every call, with any index and any output. -/
structure DecodeDeadlines (P : Platform) (parser : Option UbxParser) (frame : UbxFrame) :
    Prop where
  ack : ∀ output,
    Deadline P parser frame (fun frame => ubxAckDecode (some frame) (some output)) .ok 0
  navPvt : ∀ output,
    Deadline P parser frame (fun frame => ubxNavPvtDecode (some frame) (some output)) .ok 0
  timTp : ∀ output,
    Deadline P parser frame (fun frame => ubxTimTpDecode (some frame) (some output)) .ok 0
  monVer : ∀ output,
    Deadline P parser frame (fun frame => ubxMonVerDecode (some frame) (some output)) .ok 0
  monVerExtension : ∀ index output, Deadline P parser frame
    (fun frame => ubxMonVerExtensionDecode (some frame) index (some output)) .ok
    (40 + index.toNat * 30)
  monRxr : ∀ output,
    Deadline P parser frame (fun frame => ubxMonRxrDecode (some frame) (some output)) .ok 0
  monComms : ∀ output,
    Deadline P parser frame (fun frame => ubxMonCommsDecode (some frame) (some output)) .ok 0
  monCommsPort : ∀ index output, Deadline P parser frame
    (fun frame => ubxMonCommsPortDecode (some frame) index (some output)) .ok 0
  monRf : ∀ output,
    Deadline P parser frame (fun frame => ubxMonRfDecode (some frame) (some output)) .ok 0
  rxmRawx : ∀ output,
    Deadline P parser frame (fun frame => ubxRxmRawxDecode (some frame) (some output)) .ok 0
  rxmRawxMeasurement : ∀ index output, Deadline P parser frame
    (fun frame => ubxRxmRawxMeasurementDecode (some frame) index (some output)) .ok 11
  rxmSfrbx : ∀ output,
    Deadline P parser frame (fun frame => ubxRxmSfrbxDecode (some frame) (some output)) .ok 0
  rxmSfrbxWord : ∀ index output, Deadline P parser frame
    (fun frame => ubxRxmSfrbxWordDecode (some frame) index (some output)) .ok 4

/-- A frame that is refused has nothing to lose. -/
theorem Refused.deadlines {P : Platform} {parser : Option UbxParser} {frame : UbxFrame}
    (h : Refused frame) : DecodeDeadlines P parser frame where
  ack output := (h.ack (some output)).deadline 0
  navPvt output := (h.navPvt (some output)).deadline 0
  timTp output := (h.timTp (some output)).deadline 0
  monVer output := (h.monVer (some output)).deadline 0
  monVerExtension index output := (h.monVerExtension index (some output)).deadline _
  monRxr output := (h.monRxr (some output)).deadline 0
  monComms output := (h.monComms (some output)).deadline 0
  monCommsPort index output := (h.monCommsPort index (some output)).deadline 0
  monRf output := (h.monRf (some output)).deadline 0
  rxmRawx output := (h.rxmRawx (some output)).deadline 0
  rxmRawxMeasurement index output := (h.rxmRawxMeasurement index (some output)).deadline 11
  rxmSfrbx output := (h.rxmSfrbx (some output)).deadline 0
  rxmSfrbxWord index output := (h.rxmSfrbxWord index (some output)).deadline 4

section

variable {P : Platform} {p : UbxParser} {start : Option UbxParser} {capacity : Nat}
  {contents : Option (List UInt8)} {h : History} {frame : UbxFrame} {cells : List UInt8}

/-- The calls on a payload that stands in the buffer of the parser. -/
theorem good_deadlines (hg : Good P start capacity contents h p) (hs : p.state = .sync1)
    (hbuffer : p.payloadBuffer = some cells) (hpayload : frame.payload = some cells)
    (hfits : frame.payloadLength.toNat ≤ p.payloadCapacity) :
    DecodeDeadlines P (some p) frame where
  ack output := deadline hg hs hbuffer hpayload hfits
    (fun _ _ hxs => ubxAckDecode_exactly hxs output) (ack_reads _ _)
  navPvt output := deadline hg hs hbuffer hpayload hfits
    (fun _ _ hxs => ubxNavPvtDecode_exactly hxs output) (navPvt_reads _ _)
  timTp output := deadline hg hs hbuffer hpayload hfits
    (fun _ _ hxs => ubxTimTpDecode_exactly hxs output) (timTp_reads _ _)
  monVer output := deadline hg hs hbuffer hpayload hfits
    (fun _ _ hxs => ubxMonVerDecode_exactly hxs output) (monVer_reads _ _)
  monVerExtension index output := deadline hg hs hbuffer hpayload hfits
    (fun _ _ hxs => (ubxMonVerExtensionDecode_exactly hxs).at _ _ (by simp) index output)
    (monVerExtension_reads _ _ index.toNat)
  monRxr output := deadline hg hs hbuffer hpayload hfits
    (fun _ _ hxs => ubxMonRxrDecode_exactly hxs output) (monRxr_reads _ _)
  monComms output := deadline hg hs hbuffer hpayload hfits
    (fun _ _ hxs => ubxMonCommsDecode_exactly hxs output) (monComms_reads _ _)
  monCommsPort index output := deadline hg hs hbuffer hpayload hfits
    (fun _ _ hxs => (ubxMonCommsPortDecode_exactly hxs).at _ _ (by simp) index output)
    (monCommsPort_reads _ _ index.toNat)
  monRf output := deadline hg hs hbuffer hpayload hfits
    (fun _ _ hxs => ubxMonRfDecode_exactly hxs output) (monRf_reads _ _)
  rxmRawx output := deadline hg hs hbuffer hpayload hfits
    (fun _ _ hxs => ubxRxmRawxDecode_exactly hxs output) (rxmRawx_reads _ _)
  rxmRawxMeasurement index output := deadline hg hs hbuffer hpayload hfits
    (fun _ _ hxs => (ubxRxmRawxMeasurementDecode_exactly hxs).at _ _ (by simp) index output)
    (rxmRawxMeasurement_reads _ _ index.toNat)
  rxmSfrbx output := deadline hg hs hbuffer hpayload hfits
    (fun _ _ hxs => ubxRxmSfrbxDecode_exactly hxs output) (rxmSfrbx_reads _ _)
  rxmSfrbxWord index output := deadline hg hs hbuffer hpayload hfits
    (fun _ _ hxs => (ubxRxmSfrbxWordDecode_exactly hxs).at _ _ (by simp) index output)
    (rxmSfrbxWord_reads _ _ index.toNat)

end

/-- **Decoding while feeding.** What a decoder reads off a delivered frame it
reads off it later, whatever was fed to the parser by then, for exactly as many
bytes as lie in front of the first it needs, and six more: six bytes for most, 17
for a measurement, 10 for a word, and `46 + 30 k` for version extension `k`. -/
theorem decoded_while_fed {P : Platform} {buffer : Option (List UInt8)} {capacity : Nat}
    (hbuf : BufferOk buffer capacity) {calls : List ParserCall} {returns : List ParserReturn}
    {p : UbxParser} (hreach : Reaches P buffer capacity calls returns p) {byte : UInt8}
    {old frame : UbxFrame} {parser : Option UbxParser}
    (hfeed : ubxParserFeed P (some p) byte (some old)
      = .ok ((.frameComplete, some frame), parser)) : DecodeDeadlines P parser frame := by
  obtain ⟨start, hg, -⟩ := hreach.good hbuf
  have hdelivered := delivered hbuf hreach hfeed
  obtain ⟨hs, hlength, hpayload, rfl⟩ := feed_complete hfeed
  have hfits : frame.payloadLength.toNat ≤ p.reset.payloadCapacity := by
    rw [hlength]
    exact hg.delivered_fits hs
  cases hcells : frame.payload with
  | none => exact (hdelivered.refused hcells).deadlines
  | some cells =>
    exact good_deadlines (good_reset hg) rfl (hpayload.symm.trans hcells) hcells hfits

/-- One word, with its count in byte 4. -/
theorem decoded_while_fed_word :
    ubxRxmSfrbxWordDecode (some ⟨2, 0x13, 12, some [1, 2, 0, 0, 1, 0, 2, 0, 4, 3, 2, 1]⟩) 0 (some 7)
      = .ok (.ok, some 0x01020304) ∧
    ∀ n, (∀ later returns p', fedCount later = n →
      run (ParserCall.exec Platform.size32)
        (some ⟨.sync1, some [1, 2, 0, 0, 1, 0, 2, 0, 4, 3, 2, 1], 12, 0, 0, 0, 0, 0, 0, 0, 0⟩) later
          = .ok (returns, some p') →
      ubxRxmSfrbxWordDecode (some (UbxFrame.withPayload
        ⟨2, 0x13, 12, some [1, 2, 0, 0, 1, 0, 2, 0, 4, 3, 2, 1]⟩ p'.payloadBuffer)) 0 (some 7)
          = .ok (.ok, some 0x01020304)) ↔ n ≤ 10 := by
  have hbuf : BufferOk (some (List.replicate 12 0)) 12 := fun cells h => by
    cases h
    exact Nat.le_refl 12
  have hreach : Reaches Platform.size32 (some (List.replicate 12 0)) 12
      ([0xB5, 0x62, 2, 0x13, 12, 0, 1, 2, 0, 0, 1, 0, 2, 0, 4, 3, 2, 1, 49].map
        fun b => .feed b none) (List.replicate 19 (.fed .inProgress none))
      ⟨.checksumB, some [1, 2, 0, 0, 1, 0, 2, 0, 4, 3, 2, 1], 12, 12, 2, 0x13, 12, 49, 57, 49, 0⟩ :=
    ⟨zeroParser, rfl⟩
  have hfeed : ubxParserFeed Platform.size32
      (some ⟨.checksumB, some [1, 2, 0, 0, 1, 0, 2, 0, 4, 3, 2, 1], 12, 12, 2, 0x13, 12, 49, 57, 49,
        0⟩) 57 (some ⟨0, 0, 0, none⟩)
        = .ok ((.frameComplete, some ⟨2, 0x13, 12, some [1, 2, 0, 0, 1, 0, 2, 0, 4, 3, 2, 1]⟩),
          some ⟨.sync1, some [1, 2, 0, 0, 1, 0, 2, 0, 4, 3, 2, 1], 12, 0, 0, 0, 0, 0, 0, 0, 0⟩) :=
    rfl
  exact ⟨rfl, (decoded_while_fed hbuf hreach hfeed).rxmSfrbxWord 0 7 0x01020304 rfl⟩

end Ubx.Decode
