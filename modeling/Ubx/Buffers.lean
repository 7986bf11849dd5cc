import Ubx.Telemetry

/-!
# How large a buffer has to be

A parser delivers the frames that its payload buffer holds, so a host that wants
to miss nothing of some kinds of messages needs a buffer for the largest of each.
`Kind.need` is that size: the fixed lengths of the fixed messages, and for the
counted ones the header and as many records as the count can say. Of two kinds
the library names it itself, `UBX_RXM_RAWX_MAX_PAYLOAD_LENGTH` and
`UBX_RXM_SFRBX_MAX_PAYLOAD_LENGTH`.

Nothing that means a message of a kind is longer (`meaning_length`), and one
message is that long (`Kind.largest_means`); so the sizes are exact
(`buffer_needed`).
-/

namespace Ubx.Decode

open Lib Ubx.Stream

/-- The kinds of messages of the catalogue. -/
inductive Kind where
  | ack
  | navPvt
  | timTp
  | monVer
  | monRxr
  | monComms
  | monRf
  | rxmRawx
  | rxmSfrbx
  deriving DecidableEq, Repr

def Reading.kind : Reading → Kind
  | .ack _ => .ack
  | .navPvt _ => .navPvt
  | .timTp _ => .timTp
  | .monVer _ _ => .monVer
  | .monRxr _ => .monRxr
  | .monComms _ _ => .monComms
  | .monRf _ => .monRf
  | .rxmRawx _ _ => .rxmRawx
  | .rxmSfrbx _ _ => .rxmSfrbx

/-- `UBX_RXM_RAWX_MAX_PAYLOAD_LENGTH`. -/
def ubxRxmRawxMaxPayloadLength : Nat := 8176

/-- `UBX_RXM_SFRBX_MAX_PAYLOAD_LENGTH`. -/
def ubxRxmSfrbxMaxPayloadLength : Nat := 1028

/-- The bytes of the longest payload of a kind. A version message is limited by
the 16 bits of a frame's length only. -/
def Kind.need : Kind → Nat
  | .ack => 2
  | .navPvt => 92
  | .timTp => 16
  | .monVer => 40 + 2183 * 30
  | .monRxr => 1
  | .monComms => 8 + 255 * 40
  | .monRf => 4 + 255 * 24
  | .rxmRawx => ubxRxmRawxMaxPayloadLength
  | .rxmSfrbx => ubxRxmSfrbxMaxPayloadLength

/-! ## No message is longer -/

/-- What a count of one byte can say. -/
theorem counted_length {xs : List UInt8} {n base width : Nat}
    (hlen : xs.length = base + (byteAt xs n).toNat * width) : xs.length ≤ base + 255 * width := by
  have hcount : (byteAt xs n).toNat ≤ 255 := Nat.le_of_lt_succ (byteAt xs n).toNat_lt
  rw [hlen]
  exact Nat.add_le_add_left (Nat.mul_le_mul_right width hcount) base

/-- **A payload that means a message** is no longer than its kind needs. -/
theorem meaning_length {c i : UInt8} {xs : List UInt8} (hmax : xs.length ≤ 65535) {r : Reading}
    (hmeaning : meaning c i xs = some r) : xs.length ≤ r.kind.need := by
  unfold meaning at hmeaning
  split at hmeaning
  next hshape =>
    cases hmeaning
    exact Nat.le_of_eq hshape.2.2
  next =>
  split at hmeaning
  next hshape =>
    cases hmeaning
    exact Nat.le_of_eq hshape.2.2
  next =>
  split at hmeaning
  next hshape =>
    cases hmeaning
    exact Nat.le_of_eq hshape.2.2
  next =>
  split at hmeaning
  next hshape =>
    cases hmeaning
    -- the extensions are what there is room for, so the bound is that of any frame
    have hlen := hshape.2.2
    show xs.length ≤ 40 + 2183 * 30
    omega
  next =>
  split at hmeaning
  next hshape =>
    cases hmeaning
    exact Nat.le_of_eq hshape.2.2
  next =>
  split at hmeaning
  next hshape =>
    cases hmeaning
    exact counted_length hshape.2.2.2
  next =>
  split at hmeaning
  next hshape =>
    cases hmeaning
    exact counted_length hshape.2.2.2
  next =>
  split at hmeaning
  next hshape =>
    cases hmeaning
    exact counted_length hshape.2.2.2
  next =>
  split at hmeaning
  next hshape =>
    cases hmeaning
    exact counted_length hshape.2.2.2
  next => cases hmeaning

/-! ## One message is that long -/

/-- Class, id and payload of a longest message: its count says as much as it can,
and what else it holds is zero. -/
def Kind.largest : Kind → UInt8 × UInt8 × List UInt8
  | .ack => (0x05, 0x01, List.replicate 2 0)
  | .navPvt => (0x01, 0x07, List.replicate 92 0)
  | .timTp => (0x0D, 0x01, List.replicate 16 0)
  | .monVer => (0x0A, 0x04, List.replicate 65530 0)
  | .monRxr => (0x0A, 0x21, List.replicate 1 0)
  | .monComms => (0x0A, 0x36, [0, 255] ++ List.replicate 10206 0)
  | .monRf => (0x0A, 0x38, [0, 255] ++ List.replicate 6122 0)
  | .rxmRawx => (0x02, 0x15, [0, 0, 0, 0, 0, 0, 0, 0, 0, 0, 0, 255, 0, 1] ++ List.replicate 8162 0)
  | .rxmSfrbx => (0x02, 0x13, [0, 0, 0, 0, 255, 0, 2] ++ List.replicate 1021 0)

theorem length_front (front : List UInt8) (n : Nat) :
    (front ++ List.replicate n 0).length = front.length + n := by
  rw [List.length_append, List.length_replicate]

theorem Kind.length_largest (k : Kind) : k.largest.2.2.length = k.need := by
  cases k with
  | ack => exact List.length_replicate
  | navPvt => exact List.length_replicate
  | timTp => exact List.length_replicate
  | monVer => exact List.length_replicate
  | monRxr => exact List.length_replicate
  | monComms => exact length_front ..
  | monRf => exact length_front ..
  | rxmRawx => exact length_front ..
  | rxmSfrbx => exact length_front ..

/-- It means a message of its kind. -/
theorem Kind.largest_means (k : Kind) :
    ∃ r, meaning k.largest.1 k.largest.2.1 k.largest.2.2 = some r ∧ r.kind = k := by
  have hlen := k.length_largest
  cases k with
  | ack => exact ⟨_, meaning_ack ⟨rfl, Or.inl rfl, hlen⟩, rfl⟩
  | navPvt => exact ⟨_, meaning_navPvt ⟨rfl, rfl, hlen⟩, rfl⟩
  | timTp => exact ⟨_, meaning_timTp ⟨rfl, rfl, hlen⟩, rfl⟩
  | monVer => exact ⟨_, meaning_monVer ⟨rfl, rfl, by rw [hlen]; rfl⟩, rfl⟩
  | monRxr => exact ⟨_, meaning_monRxr ⟨rfl, rfl, hlen⟩, rfl⟩
  | monComms => exact ⟨_, meaning_monComms ⟨rfl, rfl, rfl, hlen⟩, rfl⟩
  | monRf => exact ⟨_, meaning_monRf ⟨rfl, rfl, rfl, hlen⟩, rfl⟩
  | rxmRawx => exact ⟨_, meaning_rxmRawx ⟨rfl, rfl, rfl, hlen⟩, rfl⟩
  | rxmSfrbx => exact ⟨_, meaning_rxmSfrbx ⟨rfl, rfl, rfl, hlen⟩, rfl⟩

theorem Kind.need_le (k : Kind) : k.need ≤ 65530 := by
  cases k <;> decide

/-! ## The buffer -/

/-- The parser misses nothing of these kinds: of any stream of encoded messages
of them and noise every frame is delivered, in order, and read as what it means. -/
def Suffices (P : Platform) (p : UbxParser) (kinds : Kind → Prop) : Prop :=
  ∀ segments : List Segment, (∀ segment ∈ segments, segment.Valid P) →
    segments.IsChain Segment.Apart →
    (∀ c i payload, (c, i, payload) ∈ segments.filterMap carried →
      ∃ r, meaning c i payload = some r ∧ kinds r.kind) →
    ∀ inputs : List (UInt8 × Option UbxFrame),
      inputs.map Prod.fst = segments.flatMap Segment.bytes → (∀ input ∈ inputs, input.2.isSome) →
      ∃ outs p', run (feedStep P) (some p) inputs = .ok (outs, some p') ∧
        List.Forall₂ (fun frame m => ∀ r, Reads frame r ↔ meaning m.1 m.2.1 m.2.2 = some r)
          (deliveredFrames outs) (segments.filterMap carried)

variable {P : Platform} {p : UbxParser}

/-- A longest message that the buffer does not hold is missed. -/
theorem largest_missed (hP : 17 ≤ P.sizeBits) (hb : BufferInv p) (hs : p.state = .sync1)
    {kinds : Kind → Prop} {k : Kind} (hk : kinds k) (hsmall : p.payloadCapacity < k.need) :
    ¬ Suffices P p kinds := by
  intro hsuffices
  obtain ⟨r, hmeaning, hkind⟩ := k.largest_means
  have hlength := k.length_largest
  have hneed := k.need_le
  generalize k.largest = longest at hmeaning hlength
  obtain ⟨c, i, payload⟩ := longest
  have hlen : payload.length = k.need := hlength
  have hsize : 2 ^ 17 ≤ 2 ^ P.sizeBits := Nat.pow_le_pow_right (Nat.zero_lt_succ 1) hP
  have hencodes : Encodes P c i payload (frameBytes c i payload) :=
    encodes_frameBytes c i (by omega) (by omega)
  have hvalid : ∀ segment ∈ [Segment.encoded c i payload (frameBytes c i payload)],
      segment.Valid P := fun segment h => List.mem_singleton.mp h ▸ hencodes
  have hinputs := map_fst_feeds (frameBytes c i payload) (some ⟨0, 0, 0, none⟩)
  have hframes := feeds_isSome (frameBytes c i payload) ⟨0, 0, 0, none⟩
  rw [← List.append_nil (frameBytes c i payload)] at hinputs
  obtain ⟨outs, p', hrun, hread⟩ := hsuffices _ hvalid (.singleton _)
    (fun _ _ _ h => by
      cases List.mem_singleton.mp h
      exact ⟨r, hmeaning, hkind ▸ hk⟩) _ hinputs (by rwa [List.append_nil])
  obtain ⟨outs', q, hrun', hsent⟩ :=
    stream_delivers hP hb hs hvalid (.singleton _) hinputs (by rwa [List.append_nil])
  rw [hrun] at hrun'
  cases hrun'
  -- one message, and no frame
  have hone := hread.length_eq
  have hnone := congrArg List.length hsent
  have hlost : sent p.payloadCapacity (.encoded c i payload (frameBytes c i payload)) = none :=
    if_neg (by omega)
  rw [List.length_map, List.filterMap_cons_none hlost] at hnone
  rw [hnone] at hone
  cases hone

/-- **The buffer that is needed.** A parser misses nothing of some kinds of
messages if and only if its buffer is as large as each of them needs. -/
theorem buffer_needed (hP : 17 ≤ P.sizeBits) (hb : BufferInv p) (hs : p.state = .sync1)
    (kinds : Kind → Prop) : Suffices P p kinds ↔ ∀ k, kinds k → k.need ≤ p.payloadCapacity := by
  constructor
  · intro hsuffices k hk
    by_contra hsmall
    exact largest_missed hP hb hs hk (Nat.lt_of_not_le hsmall) hsuffices
  · intro hneed segments hvalid hapart hkinds inputs hinputs hframes
    refine carried_read hP hb hs hvalid hapart ?_ hinputs hframes
    intro c i payload hmem
    obtain ⟨r, hmeaning, hkind⟩ := hkinds c i payload hmem
    exact Nat.le_trans (meaning_length (carried_le hvalid hmem) hmeaning) (hneed r.kind hkind)

/-- Two bytes are enough for acknowledgements, and not for time pulses. -/
theorem buffer_needed_two :
    Suffices Platform.size32 zeroParser (· = .ack) ∧
      ¬ Suffices Platform.size32 zeroParser (· = .timTp) := by
  have hP : 17 ≤ Platform.size32.sizeBits := by decide
  refine ⟨?_, ?_⟩
  · refine (buffer_needed hP zeroParser_buffer rfl _).mpr ?_
    rintro k rfl
    exact Nat.le_refl 2
  · intro hsuffices
    have hle := (buffer_needed hP zeroParser_buffer rfl _).mp hsuffices .timTp rfl
    exact absurd hle (by decide)

end Ubx.Decode
