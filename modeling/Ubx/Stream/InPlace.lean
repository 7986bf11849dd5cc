import Ubx.Lib.Overlap
import Ubx.Stream.Encoder

/-!
# Encoding inside one object

`ubx_encode_frame` takes two pointers and asks nothing of where they point. A
caller that builds a payload in the buffer it is to be sent from passes two
places of one object. `ubxEncodeFrameWithin` is the C function on such a pair of
pointers: one memory, read and written through both.

The header is stored before the payload is read, so a payload that the header
or the copy runs over is lost. The checksum is formed of what stands in the
output, so the frame is a valid one all the same: nothing tells the receiver.

`encode_within` says what is sent for every position of the two, and which of
them are safe.
-/

namespace Ubx.Stream

open Lib

/-- `ubx_encode_frame` with a payload and an output in one object: the pointer
arguments are places of it, `none` for `NULL`. -/
def ubxEncodeFrameWithin (P : Platform) (messageClass messageId : UInt8) (payload : Option Nat)
    (payloadLength : Nat) (output : Option Nat) (outputCapacity : Nat)
    (outputLength : Option Nat) (memory : Option (List UInt8)) :
    Run (UbxEncodeResult × Option (List UInt8) × Option Nat) := do
  if outputLength.isNone then
    return (.nullArgument, memory, none)
  if output.isNone then
    return (.nullArgument, memory, some 0)
  if payloadLength > 0 ∧ payload.isNone then
    return (.payloadRequired, memory, some 0)
  if payloadLength > 65535 then
    return (.payloadTooLarge, memory, some 0)
  let requiredLength := P.sizeAdd payloadLength 8
  if outputCapacity < requiredLength then
    return (.bufferTooSmall, memory, some 0)
  let output ← deref output
  let memory ← store memory output 0xB5
  let memory ← store memory (output + 1) 0x62
  let memory ← store memory (output + 2) messageClass
  let memory ← store memory (output + 3) messageId
  let memory ← store memory (output + 4) (UInt8.ofNat (payloadLength &&& 0xFF))
  let memory ← store memory (output + 5) (UInt8.ofNat ((payloadLength >>> 8) &&& 0xFF))
  let memory ← forUp 0 payloadLength (fun index memory => do
    let payload ← deref payload
    let byte ← load memory (payload + index)
    store memory (output + P.sizeAdd 6 index) byte) memory
  let checksum ← forUp 2 (P.sizeAdd 6 payloadLength - 2) (fun index checksum => do
    let byte ← load memory (output + index)
    return ubxChecksumUpdate checksum byte) ((0, 0) : UInt8 × UInt8)
  let memory ← store memory (output + P.sizeAdd 6 payloadLength) checksum.1
  let memory ← store memory (output + P.sizeAdd (P.sizeAdd 6 payloadLength) 1) checksum.2
  return (.ok, memory, some requiredLength)

/-- The six bytes in front of a payload. -/
def frameHeader (messageClass messageId : UInt8) (payloadLength : Nat) : List UInt8 :=
  [0xB5, 0x62, messageClass, messageId, UInt8.ofNat payloadLength,
    UInt8.ofNat (payloadLength / 256)]

theorem frameBytes_header (c i : UInt8) (payload : List UInt8) :
    frameBytes c i payload = frameHeader c i payload.length ++ payload
      ++ [(Fletcher.sums (frameBody c i payload)).1]
      ++ [(Fletcher.sums (frameBody c i payload)).2] := by
  rw [List.append_assoc _ [_] [_]]
  rfl

section

variable {P : Platform} {c i : UInt8} {memory w : List UInt8} {s o len capacity n : Nat}

/-- The checksum loop reads back what was written from the output on. -/
theorem checksum_within {count : Nat} (hw : count + 2 = w.length) (ho : o ≤ memory.length) :
    forUp 2 count (fun index checksum => do
        let byte ← load (some (spliced memory o w)) (o + index)
        return ubxChecksumUpdate checksum byte) ((0, 0) : UInt8 × UInt8)
      = .ok (Fletcher.sums (w.drop 2)) := by
  have hsame : ∀ index (checksum : UInt8 × UInt8), 2 ≤ index → index < 2 + count →
      (load (some (spliced memory o w)) (o + index) >>= fun byte =>
          (pure (ubxChecksumUpdate checksum byte) : Run (UInt8 × UInt8)))
        = load (some (written [] w)) index >>= fun byte =>
          pure (ubxChecksumUpdate checksum byte) := by
    intro index checksum _ hlt
    have hindex : index < w.length := by omega
    have hread := spliced_inside hindex ho
    rw [List.getElem?_eq_getElem hindex] at hread
    rw [load_of_getElem? hread, load_written hindex]
  rw [forUp_congr count 2 _ hsame, checksum_loop hw]

/-- **What is sent**, wherever the payload lies: the header is in place when the
payload is read. -/
theorem ubxEncodeFrameWithin_ok (hs : s + len ≤ memory.length)
    (ho : o + capacity ≤ memory.length) (hlen : len ≤ 65535) (hcap : len + 8 ≤ capacity)
    (hfit : len + 8 < 2 ^ P.sizeBits) :
    ∃ payload, payload.length = len ∧
      (∀ k, k < len → payload[k]?
        = (spliced memory o (frameHeader c i len))[origin s (o + 6) k]?) ∧
      ubxEncodeFrameWithin P c i (some s) len (some o) capacity (some n) (some memory)
        = .ok (.ok, some (spliced memory o (frameBytes c i payload)), some (len + 8)) := by
  obtain ⟨hlow, hhigh⟩ := masked_bytes len
  have hheaderLength : (frameHeader c i len).length = 6 := rfl
  have hsplice : (spliced memory o (frameHeader c i len)).length = memory.length :=
    length_spliced (by rw [hheaderLength]; omega)
  obtain ⟨payload, hlength, horigin, hcopy⟩ :=
    @copyWithin_ok _ (spliced memory o (frameHeader c i len)) s (o + 6) len (hsplice ▸ hs)
      (by rw [hsplice]; omega)
  refine ⟨payload, hlength, horigin, ?_⟩
  have hroom : o + 6 + payload.length ≤ memory.length := by omega
  -- the copy goes on where the header ends
  have hloop : forUp 0 len (fun index memory => do
        let payload ← deref (some s)
        let byte ← load memory (payload + index)
        store memory (o + P.sizeAdd 6 index) byte) (some (spliced memory o (frameHeader c i len)))
      = .ok (some (spliced memory o (frameHeader c i len ++ payload))) := by
    rw [← spliced_append hroom, hheaderLength, ← hcopy, copyWithin]
    refine forUp_congr len 0 _ ?_
    intro index object _ hlt
    rw [deref_some, ok_bind, Platform.sizeAdd_eq (by omega), Nat.add_assoc]
  have hwritten : (frameHeader c i len ++ payload).length = len + 6 := by
    rw [List.length_append, hlength, hheaderLength, Nat.add_comm]
  have hbody : (frameHeader c i len ++ payload).drop 2 = frameBody c i payload := by
    rw [← hlength]
    rfl
  have hsync : store (some memory) o 0xB5 = .ok (some (spliced memory o [0xB5])) := by
    have hstore := @store_spliced _ memory [] o o rfl (by omega) 0xB5
    rwa [spliced_nil] at hstore
  have hheader : [0xB5] ++ [0x62] ++ [c] ++ [i] ++ [UInt8.ofNat len] ++ [UInt8.ofNat (len / 256)]
      = frameHeader c i len := rfl
  unfold ubxEncodeFrameWithin
  rw [if_neg (not_null n), if_neg (not_null o), if_neg (by simp), if_neg (by omega)]
  simp only [Platform.sizeAdd_eq hfit]
  rw [if_neg (by omega), deref_some, ok_bind, hlow, hhigh]
  rw [hsync, ok_bind, store_spliced (by rfl) (by omega), ok_bind,
    store_spliced (by rfl) (by omega), ok_bind, store_spliced (by rfl) (by omega), ok_bind,
    store_spliced (by rfl) (by omega), ok_bind, store_spliced (by rfl) (by omega), ok_bind]
  rw [hheader, hloop, ok_bind, Platform.sizeAdd_eq (by omega),
    checksum_within (by omega) (by omega), ok_bind, hbody,
    store_spliced (by omega) (by omega), ok_bind, Platform.sizeAdd_eq (by omega),
    store_spliced (by rw [List.length_append]; simp; omega) (by omega), ok_bind,
    frameBytes_header, hlength]
  rfl

/-- The frame says which payload it is of. -/
theorem frameBytes_inj {payload payload' : List UInt8} (hlen : payload.length = payload'.length)
    (h : frameBytes c i payload = frameBytes c i payload') : payload = payload' := by
  rw [frameBytes_header, frameBytes_header, hlen] at h
  simp only [List.append_assoc] at h
  exact (List.append_inj (List.append_cancel_left h) hlen).1

/-- A payload that neither the header nor the copy runs over is read as it was. -/
theorem payload_kept (ho : o + 6 ≤ memory.length)
    (h : len = 0 ∨ o + 6 ≤ s ∨ s + len ≤ o) {k : Nat} (hk : k < len) :
    (spliced memory o (frameHeader c i len))[origin s (o + 6) k]?
      = ((memory.drop s).take len)[k]? := by
  rw [List.getElem?_take_of_lt hk, List.getElem?_drop]
  rcases h with hzero | hbehind | hfront
  · omega
  · rw [origin_behind hbehind, spliced_behind]
    · show o + 6 ≤ s + k
      omega
    · exact ho
  · rw [origin_front (by omega), spliced_front (by omega) (by omega)]

/-- Any other payload is run over by the header, at its first cell or where the
output begins: there a byte of the header is read. -/
theorem payload_lost (hs : s < o + 6) (ho : o ≤ memory.length) :
    (spliced memory o (frameHeader c i len))[origin s (o + 6) (max s o - s)]?
      = (frameHeader c i len)[max s o - o]? := by
  have hat : o + (max s o - o) = s + (max s o - s) := by omega
  have hheader : max s o - o < (frameHeader c i len).length := by
    show max s o - o < 6
    omega
  rw [origin_front (by omega), ← hat, spliced_inside hheader ho]

end

/-- The call on places of one object does what it does on two objects with the
same contents: the output object, put back in its place, is what it leaves. -/
def ActsApart (P : Platform) (c i : UInt8) (s len o capacity n : Nat) (memory : List UInt8) :
    Prop :=
  ∃ output, ubxEncodeFrame P c i (some ((memory.drop s).take len)) len
      (some ((memory.drop o).take capacity)) capacity (some n)
        = .ok (.ok, some output, some (len + 8)) ∧
    ubxEncodeFrameWithin P c i (some s) len (some o) capacity (some n) (some memory)
      = .ok (.ok, some (spliced memory o output), some (len + 8))

section

variable {P : Platform} {c i : UInt8} {memory : List UInt8} {s o len capacity n : Nat}

/-- That is, it sends the payload that was there. -/
theorem actsApart_iff (hs : s + len ≤ memory.length) (ho : o + capacity ≤ memory.length)
    (hlen : len ≤ 65535) (hcap : len + 8 ≤ capacity) (hfit : len + 8 < 2 ^ P.sizeBits) :
    ActsApart P c i s len o capacity n memory ↔ ∀ k, k < len →
      (spliced memory o (frameHeader c i len))[origin s (o + 6) k]?
        = ((memory.drop s).take len)[k]? := by
  obtain ⟨payload, hlength, horigin, hwithin⟩ :=
    @ubxEncodeFrameWithin_ok P c i memory s o len capacity n hs ho hlen hcap hfit
  have hwindow : ((memory.drop s).take len).length = len := length_window hs
  have hoff : ((memory.drop o).take capacity).length = capacity := length_window ho
  have hsupplies : Supplies (some ((memory.drop s).take len)) ((memory.drop s).take len) :=
    fun k hk => load_some hk
  have hapart := @ubxEncodeFrame_ok P c i _ _ ((memory.drop o).take capacity) capacity n hsupplies
    (by omega) (by omega) (by omega) (by omega)
  rw [hwindow] at hapart
  have hback := @spliced_written _ memory (frameBytes c i ((memory.drop s).take len)) o capacity
    (by rw [length_frameBytes]; omega) ho
  constructor
  · rintro ⟨output, happart', hwithin'⟩ k hk
    rw [hapart] at happart'
    cases happart'
    rw [hwithin, hback] at hwithin'
    have hsame := spliced_inj (by omega) (by rw [length_frameBytes, length_frameBytes]; omega)
      (Option.some.inj (congrArg (fun out => out.2.1) (Except.ok.inj hwithin')))
    rw [← horigin k hk, frameBytes_inj (by omega) hsame]
  · intro hkept
    have hpayload : payload = (memory.drop s).take len := by
      apply List.ext_getElem?
      intro k
      rcases Nat.lt_or_ge k len with hk | hk
      · rw [horigin k hk, hkept k hk]
      · rw [List.getElem?_eq_none (by omega), List.getElem?_eq_none (by omega)]
    refine ⟨_, hapart, ?_⟩
    rw [hback, hwithin, hpayload]

end

/-- **Encoding in place.** Of a payload of `len` bytes at `s` and an output at
`o` of one object, whatever their positions: the call returns OK and leaves a
valid frame at the output, and nothing else changed. Where the payload starts in
front of its place in the frame, that is the frame of what the header and the
copy left of it, repeated with the distance of the two. The call does what it
does on separate objects, for every content, exactly where there is no payload,
or it lies at or behind its place in the frame, or in front of the output. -/
theorem encode_within (P : Platform) (c i : UInt8) {s len o capacity size : Nat}
    (hs : s + len ≤ size) (ho : o + capacity ≤ size) (hlen : len ≤ 65535)
    (hcap : len + 8 ≤ capacity) (hfit : len + 8 < 2 ^ P.sizeBits) :
    (∀ (memory : List UInt8) (n : Nat), memory.length = size → ∃ payload, payload.length = len ∧
      ubxEncodeFrameWithin P c i (some s) len (some o) capacity (some n) (some memory)
        = .ok (.ok, some (spliced memory o (frameBytes c i payload)), some (len + 8)) ∧
      (s < o + 6 → ∀ k, k < len → payload[k]?
        = (spliced memory o (frameHeader c i len))[s + k % (o + 6 - s)]?)) ∧
    ((∀ (memory : List UInt8) (n : Nat), memory.length = size →
        ActsApart P c i s len o capacity n memory) ↔
      len = 0 ∨ o + 6 ≤ s ∨ s + len ≤ o) := by
  refine ⟨?_, ?_, ?_⟩
  · rintro memory n rfl
    obtain ⟨payload, hlength, horigin, hrun⟩ :=
      @ubxEncodeFrameWithin_ok P c i memory s o len capacity n hs ho hlen hcap hfit
    refine ⟨payload, hlength, hrun, ?_⟩
    intro hfront k hk
    rw [horigin k hk, origin, if_pos hfront]
  · intro h
    by_contra hover
    -- a content that differs from the header where the header lies on it
    obtain ⟨x, hx⟩ : ∃ x, (frameHeader c i len)[max s o - o]? = some x :=
      ⟨_, List.getElem?_eq_getElem (by show max s o - o < 6; omega)⟩
    have hsize : (List.replicate size (x + 1)).length = size := List.length_replicate
    have hkept := (actsApart_iff (hsize.symm ▸ hs) (hsize.symm ▸ ho) hlen hcap hfit).mp
      (h (List.replicate size (x + 1)) 0 hsize) (max s o - s) (by omega)
    rw [payload_lost (by omega) (by omega), hx, List.getElem?_take_of_lt (by omega),
      List.getElem?_drop, List.getElem?_replicate_of_lt (by omega)] at hkept
    have hone : x + 0 = x + 1 := (UInt8.add_zero x).trans (Option.some.inj hkept)
    exact absurd (UInt8.add_right_inj x |>.mp hone) (by simp)
  · rintro h memory n rfl
    refine (actsApart_iff hs ho hlen hcap hfit).mpr ?_
    intro k hk
    exact payload_kept (by omega) h hk

/-- Two bytes behind room for a header, and two that the header runs over. -/
theorem encode_within_twelve :
    (∀ (memory : List UInt8) (n : Nat), memory.length = 12 →
      ActsApart Platform.size32 5 1 6 2 0 10 n memory) ∧
    ¬ ∀ (memory : List UInt8) (n : Nat), memory.length = 12 →
      ActsApart Platform.size32 5 1 4 2 0 10 n memory := by
  obtain ⟨-, hsafe⟩ := @encode_within Platform.size32 5 1 6 2 0 10 12 (by simp) (by simp)
    (by simp) (by simp) (by decide)
  obtain ⟨-, hover⟩ := @encode_within Platform.size32 5 1 4 2 0 10 12 (by simp) (by simp)
    (by simp) (by simp) (by decide)
  exact ⟨hsafe.mpr (Or.inr (Or.inl (by simp))), fun h => absurd (hover.mp h) (by simp)⟩

end Ubx.Stream
