import Ubx.Internal

/-!
# The frame encoder, `src/ubx_encoder.c`

`ubxEncodeFrame` is `ubx_encode_frame` with every store and every size sum of
the C function. `frameBytes` says what it is for: the wire form of a frame,

> `B5 62 | class id length-low length-high payload | sums of the middle part`.

`ubxEncodeFrame_ok` is the link: where the frame fits, the call returns OK,
writes `frameBytes` to the front of the output and leaves every later cell
alone. `encodes_eq` is the other direction: a call that returns OK had
a payload of at most 65535 bytes and room for the frame, and wrote just that.
-/

namespace Ubx.Stream

open Lib

/-- `ubx_encode_result_t`. -/
inductive UbxEncodeResult where
  | ok
  | nullArgument
  | payloadRequired
  | payloadTooLarge
  | bufferTooSmall
  deriving DecidableEq, Repr

/-- `ubx_encode_frame`. A pointer argument is the object it refers to, `none`
for `NULL`; the result carries the output object and `*output_length` as the
call leaves them. -/
def ubxEncodeFrame (P : Platform) (messageClass messageId : UInt8)
    (payload : Option (List UInt8)) (payloadLength : Nat) (output : Option (List UInt8))
    (outputCapacity : Nat) (outputLength : Option Nat) :
    Run (UbxEncodeResult × Option (List UInt8) × Option Nat) := do
  if outputLength.isNone then
    return (.nullArgument, output, none)
  -- from here on `*output_length` is 0 until the frame is complete
  if output.isNone then
    return (.nullArgument, output, some 0)
  if payloadLength > 0 ∧ payload.isNone then
    return (.payloadRequired, output, some 0)
  if payloadLength > 65535 then
    return (.payloadTooLarge, output, some 0)
  let requiredLength := P.sizeAdd payloadLength 8
  if outputCapacity < requiredLength then
    return (.bufferTooSmall, output, some 0)
  let output ← store output 0 0xB5
  let output ← store output 1 0x62
  let output ← store output 2 messageClass
  let output ← store output 3 messageId
  let output ← store output 4 (UInt8.ofNat (payloadLength &&& 0xFF))
  let output ← store output 5 (UInt8.ofNat ((payloadLength >>> 8) &&& 0xFF))
  let output ← forUp 0 payloadLength (fun index output => do
    let byte ← load payload index
    store output (P.sizeAdd 6 index) byte) output
  -- the bound of the second loop is a `size_t` sum too
  let checksum ← forUp 2 (P.sizeAdd 6 payloadLength - 2) (fun index checksum => do
    let byte ← load output index
    return ubxChecksumUpdate checksum byte) ((0, 0) : UInt8 × UInt8)
  let output ← store output (P.sizeAdd 6 payloadLength) checksum.1
  let output ← store output (P.sizeAdd (P.sizeAdd 6 payloadLength) 1) checksum.2
  return (.ok, output, some requiredLength)

/-! ## The wire form -/

/-- The checksummed middle part of a frame: class, id, length, payload. -/
def frameBody (messageClass messageId : UInt8) (payload : List UInt8) : List UInt8 :=
  [messageClass, messageId, UInt8.ofNat payload.length, UInt8.ofNat (payload.length / 256)]
    ++ payload

/-- A frame on the wire. -/
def frameBytes (messageClass messageId : UInt8) (payload : List UInt8) : List UInt8 :=
  [0xB5, 0x62] ++ frameBody messageClass messageId payload
    ++ [(Fletcher.sums (frameBody messageClass messageId payload)).1,
        (Fletcher.sums (frameBody messageClass messageId payload)).2]

theorem length_frameBody (c i : UInt8) (payload : List UInt8) :
    (frameBody c i payload).length = payload.length + 4 := by
  simp [frameBody]

theorem length_frameBytes (c i : UInt8) (payload : List UInt8) :
    (frameBytes c i payload).length = payload.length + 8 := by
  simp [frameBytes, length_frameBody]

/-- The two length bytes of a header. -/
theorem length_bytes {l1 l2 : UInt8} {n : Nat} (h : n = leValue [l1, l2]) :
    UInt8.ofNat n = l1 ∧ UInt8.ofNat (n / 256) = l2 := by
  have h1 := l1.toNat_lt
  have h2 := l2.toNat_lt
  simp only [leValue_cons, leValue_nil] at h
  constructor
  · apply UInt8.toNat_inj.mp
    rw [UInt8.toNat_ofNat']
    omega
  · apply UInt8.toNat_inj.mp
    rw [UInt8.toNat_ofNat']
    omega

theorem length_value_bytes {n : Nat} (h : n ≤ 65535) :
    leValue [UInt8.ofNat n, UInt8.ofNat (n / 256)] = n := by
  simp only [leValue_cons, leValue_nil, UInt8.toNat_ofNat']
  omega

theorem frameBody_eq (c i : UInt8) {l1 l2 : UInt8} {payload : List UInt8}
    (h : payload.length = leValue [l1, l2]) :
    frameBody c i payload = [c, i, l1, l2] ++ payload := by
  obtain ⟨h1, h2⟩ := length_bytes h
  rw [frameBody, h1, h2]

/-- The bytes a pointer argument supplies. -/
def Supplies (source : Option (List UInt8)) (payload : List UInt8) : Prop :=
  ∀ (i : Nat) (h : i < payload.length), load source i = .ok payload[i]

/-- An object that supplies bytes has cells for them. -/
theorem Supplies.length_le {cells payload : List UInt8} (h : Supplies (some cells) payload) :
    payload.length ≤ cells.length := by
  cases hn : payload.length with
  | zero => exact Nat.zero_le _
  | succ n =>
    obtain ⟨hlt, -⟩ := load_eq_ok.mp (h n (by omega))
    exact hlt

/-! ## What the encoder writes -/

/-- The copy loop appends the payload to what was written before it. -/
theorem copy_loop {P : Platform} {source : Option (List UInt8)} {payload cells w : List UInt8}
    (hsource : Supplies source payload) (hw : w.length = 6)
    (hfit : payload.length + 8 < 2 ^ P.sizeBits) (hcells : payload.length + 8 ≤ cells.length) :
    forUp 0 payload.length (fun index output => do
        let byte ← load source index
        store output (P.sizeAdd 6 index) byte) (some (written cells w))
      = .ok (some (written cells (w ++ payload))) := by
  obtain ⟨out, hrun, hout⟩ := forUp_inv
    (fun i out => out = some (written cells (w ++ payload.take i)))
    (fun index output => do
        let byte ← load source index
        store output (P.sizeAdd 6 index) byte) payload.length 0 (some (written cells w))
    (by rw [List.take_zero, List.append_nil]) (by
    intro i out _ hi hout
    subst hout
    have hlt : i < payload.length := by omega
    refine ⟨_, ?_, rfl⟩
    rw [hsource i hlt, ok_bind, Platform.sizeAdd_eq (by omega),
      store_written (by rw [List.length_append, List.length_take]; omega) (by omega),
      List.append_assoc, List.take_append_getElem hlt])
  rw [hrun, hout, Nat.zero_add, List.take_length]

/-- The checksum loop reads back everything written after the sync pair. -/
theorem checksum_loop {cells w : List UInt8} {count : Nat} (hw : count + 2 = w.length) :
    forUp 2 count (fun index checksum => do
        let byte ← load (some (written cells w)) index
        return ubxChecksumUpdate checksum byte) ((0, 0) : UInt8 × UInt8)
      = .ok (Fletcher.sums (w.drop 2)) := by
  obtain ⟨sums, hrun, hsums⟩ := forUp_inv
    (fun i sums => sums = Fletcher.sums ((w.drop 2).take (i - 2)))
    (fun index checksum => do
        let byte ← load (some (written cells w)) index
        return ubxChecksumUpdate checksum byte) count 2 (0, 0) rfl (by
    intro i sums h2 hi hsums
    subst hsums
    have hlt : i < w.length := by omega
    have hlt' : i - 2 < (w.drop 2).length := by rw [List.length_drop]; omega
    refine ⟨_, by rw [load_written hlt]; rfl, ?_⟩
    rw [ubxChecksumUpdate_sums, show i + 1 - 2 = i - 2 + 1 by omega,
      ← List.take_append_getElem hlt', List.getElem_drop]
    congr 4
    omega)
  rw [hrun, hsums, show 2 + count - 2 = (w.drop 2).length by rw [List.length_drop]; omega,
    List.take_length]

/-- The masks of the C code keep the low eight bits, as the casts do. -/
theorem masked_bytes (n : Nat) :
    UInt8.ofNat (n &&& 0xFF) = UInt8.ofNat n ∧
      UInt8.ofNat ((n >>> 8) &&& 0xFF) = UInt8.ofNat (n / 256) := by
  have hmask : ∀ m, UInt8.ofNat (m &&& 0xFF) = UInt8.ofNat m := by
    intro m
    apply UInt8.toNat_inj.mp
    rw [UInt8.toNat_ofNat', UInt8.toNat_ofNat', show 0xFF = 2 ^ 8 - 1 from rfl,
      Nat.and_two_pow_sub_one_eq_mod, Nat.mod_mod]
  exact ⟨hmask n, by rw [hmask, Nat.shiftRight_eq_div_pow]⟩

/-- **Exactness.** A frame that fits is written to the front of the output and
nothing else changes. -/
theorem ubxEncodeFrame_ok {P : Platform} {c i : UInt8} {source : Option (List UInt8)}
    {payload cells : List UInt8} {capacity n : Nat} (hsource : Supplies source payload)
    (hlen : payload.length ≤ 65535) (hfit : payload.length + 8 < 2 ^ P.sizeBits)
    (hcap : payload.length + 8 ≤ capacity) (hcells : capacity ≤ cells.length) :
    ubxEncodeFrame P c i source payload.length (some cells) capacity (some n)
      = .ok (.ok, some (written cells (frameBytes c i payload)), some (payload.length + 8)) := by
  have hsome : ¬(payload.length > 0 ∧ source.isNone) := by
    intro hmissing
    obtain ⟨hpos, hnone⟩ := hmissing
    rw [Option.isNone_iff_eq_none] at hnone
    subst hnone
    exact nomatch hsource 0 hpos
  obtain ⟨hlow, hhigh⟩ := masked_bytes payload.length
  change ubxEncodeFrame P c i source payload.length (some (written cells [])) capacity (some n) = _
  unfold ubxEncodeFrame
  rw [if_neg (by simp), if_neg (by simp), if_neg hsome, if_neg (by omega)]
  simp only [Platform.sizeAdd_eq hfit]
  rw [if_neg (by omega), hlow, hhigh]
  -- the six header bytes
  rw [store_written (by rfl) (by omega), ok_bind, store_written (by rfl) (by omega), ok_bind,
    store_written (by rfl) (by omega), ok_bind, store_written (by rfl) (by omega), ok_bind,
    store_written (by rfl) (by omega), ok_bind, store_written (by rfl) (by omega), ok_bind]
  -- the payload, the sums of everything behind the sync pair, and the sums themselves
  rw [copy_loop hsource (by rfl) hfit (by omega), ok_bind, Platform.sizeAdd_eq (by omega),
    checksum_loop (by simp; omega), ok_bind, store_written (by simp; omega) (by omega), ok_bind,
    Platform.sizeAdd_eq (by omega), store_written (by simp; omega) (by omega), ok_bind,
    List.append_assoc _ [_] [_]]
  rfl

/-! ## The tests in front of the stores -/

/-- A call passes the tests: the sum it compares with the capacity is formed in
`size_t`. -/
def Admitted (P : Platform) (source output : Option (List UInt8)) (len capacity : Nat) : Prop :=
  output ≠ none ∧ (source ≠ none ∨ len = 0) ∧ len ≤ 65535 ∧ P.sizeAdd len 8 ≤ capacity

theorem Admitted.source_there {P : Platform} {source output : Option (List UInt8)}
    {len capacity : Nat} (h : Admitted P source output len capacity) :
    ¬(len > 0 ∧ source.isNone) := by
  intro hmissing
  rcases h.2.1 with hsource | hzero
  · exact hsource (Option.isNone_iff_eq_none.mp hmissing.2)
  · exact absurd hmissing.1 (by omega)

/-- Any other call writes 0 to `*output_length` and nothing to the output. -/
theorem ubxEncodeFrame_refuses {P : Platform} {c i : UInt8} {source output : Option (List UInt8)}
    {len capacity n : Nat} (h : ¬ Admitted P source output len capacity) :
    ∃ r, r ≠ .ok ∧
      ubxEncodeFrame P c i source len output capacity (some n) = .ok (r, output, some 0) := by
  unfold ubxEncodeFrame
  rw [if_neg (not_null n)]
  cases output with
  | none => exact ⟨.nullArgument, by simp, if_pos rfl⟩
  | some cells =>
    rw [if_neg (not_null cells)]
    by_cases hsource : len > 0 ∧ source.isNone
    · exact ⟨.payloadRequired, by simp, if_pos hsource⟩
    · rw [if_neg hsource]
      by_cases hlen : len > 65535
      · exact ⟨.payloadTooLarge, by simp, if_pos hlen⟩
      · rw [if_neg hlen]
        have hcapacity : capacity < P.sizeAdd len 8 := by
          -- all other conditions hold
          refine Nat.lt_of_not_le fun hfits => h ⟨by simp, ?_, Nat.le_of_not_lt hlen, hfits⟩
          cases source with
          | none => exact Or.inr (by simpa using hsource)
          | some payload => exact Or.inl (by simp)
        exact ⟨.bufferTooSmall, by simp, if_pos hcapacity⟩

/-- So a call that returns OK passed them. -/
theorem admitted_of_ok {P : Platform} {c i : UInt8} {source output output' : Option (List UInt8)}
    {len capacity n : Nat} {n' : Option Nat}
    (h : ubxEncodeFrame P c i source len output capacity (some n) = .ok (.ok, output', n')) :
    Admitted P source output len capacity := by
  by_contra hrefused
  obtain ⟨r, hr, hrun⟩ := ubxEncodeFrame_refuses (c := c) (i := i) (n := n) hrefused
  rw [h] at hrun
  cases hrun
  exact hr rfl

/-! ## What a call behind the tests does -/

/-- The copy loop stores at every index `6 + i`, so a copy that returns was in
bounds at each of them. -/
theorem copy_loop_sized {P : Platform} {source : Option (List UInt8)} {n len : Nat}
    {output output' : Option (List UInt8)}
    (h : forUp 0 len (fun index output => do
        let byte ← load source index
        store output (P.sizeAdd 6 index) byte) output = .ok output') (hn : Sized n output) :
    Sized n output' ∧ ∀ i, i < len → P.sizeAdd 6 i < n := by
  obtain ⟨hn', hpass⟩ := forUp_pass (Sized n) _ (fun i s s' hs hn => by
    obtain ⟨byte, -, hstore⟩ := bind_eq_ok.mp hs
    exact (store_sized hstore hn).2) len 0 output output' h hn
  refine ⟨hn', ?_⟩
  intro i hi
  obtain ⟨t, t', ht, hbody⟩ := hpass i (Nat.zero_le _) (by omega)
  obtain ⟨byte, -, hstore⟩ := bind_eq_ok.mp hbody
  exact (store_sized hstore ht).1

/-- Behind the tests a call that returns is OK, and it stored the checksum and
each payload byte in bounds. -/
theorem ubxEncodeFrame_stores {P : Platform} {c i : UInt8} {source : Option (List UInt8)}
    {cells : List UInt8} {len capacity n : Nat} {r : UbxEncodeResult}
    {output' : Option (List UInt8)} {n' : Option Nat}
    (hadmitted : Admitted P source (some cells) len capacity)
    (h : ubxEncodeFrame P c i source len (some cells) capacity (some n) = .ok (r, output', n')) :
    r = .ok ∧ (∀ i, i < len → P.sizeAdd 6 i < cells.length) ∧ P.sizeAdd 6 len < cells.length ∧
      P.sizeAdd (P.sizeAdd 6 len) 1 < cells.length := by
  unfold ubxEncodeFrame at h
  rw [if_neg (not_null n), if_neg (not_null cells), if_neg hadmitted.source_there,
    if_neg (Nat.not_lt.mpr hadmitted.2.2.1)] at h
  dsimp only at h
  rw [if_neg (Nat.not_lt.mpr hadmitted.2.2.2)] at h
  -- every refusal is past; what is left are the accesses, in order
  obtain ⟨o0, h0, h⟩ := bind_eq_ok.mp h
  obtain ⟨o1, h1, h⟩ := bind_eq_ok.mp h
  obtain ⟨o2, h2, h⟩ := bind_eq_ok.mp h
  obtain ⟨o3, h3, h⟩ := bind_eq_ok.mp h
  obtain ⟨o4, h4, h⟩ := bind_eq_ok.mp h
  obtain ⟨o5, h5, h⟩ := bind_eq_ok.mp h
  obtain ⟨o6, h6, h⟩ := bind_eq_ok.mp h
  obtain ⟨sums, -, h⟩ := bind_eq_ok.mp h
  obtain ⟨o7, h7, h⟩ := bind_eq_ok.mp h
  obtain ⟨o8, h8, h⟩ := bind_eq_ok.mp h
  have s0 : Sized cells.length (some cells) := ⟨cells, rfl, rfl⟩
  have s5 := (store_sized h5 (store_sized h4 (store_sized h3 (store_sized h2 (store_sized h1
    (store_sized h0 s0).2).2).2).2).2).2
  obtain ⟨s6, hcopy⟩ := copy_loop_sized h6 s5
  obtain ⟨hA, s7⟩ := store_sized h7 s6
  cases h
  exact ⟨rfl, hcopy, hA, (store_sized h8 s7).1⟩

/-- An object of C has fewer than `2^w` cells, and a frame whose length wraps
would be stored up to the last index of a larger one. -/
theorem fits_of_returns {P : Platform} {c i : UInt8} {source : Option (List UInt8)}
    {cells : List UInt8} {len capacity n : Nat} {r : UbxEncodeResult}
    {output' : Option (List UInt8)} {n' : Option Nat}
    (hadmitted : Admitted P source (some cells) len capacity)
    (hsize : cells.length < 2 ^ P.sizeBits)
    (h : ubxEncodeFrame P c i source len (some cells) capacity (some n) = .ok (r, output', n')) :
    len + 8 < 2 ^ P.sizeBits := by
  have hlen := hadmitted.2.2.1
  obtain ⟨-, hcopy, hA, hB⟩ := ubxEncodeFrame_stores hadmitted h
  by_contra hwrap
  have h16 : P.sizeBits = 16 := by
    rcases Nat.eq_or_lt_of_le P.sizeBits_ge with h | h
    · exact h.symm
    · have := Nat.pow_le_pow_right Nat.two_pos h
      omega
  simp only [Platform.sizeAdd, h16] at hcopy hA hB hsize hwrap
  -- a long payload is stored up to that index, a shorter one has its checksum there
  by_cases h65530 : 65530 ≤ len
  · have := hcopy 65529 (by omega)
    omega
  · omega

/-- `bytes` is what a successful `ubx_encode_frame(messageClass, messageId,
payload, …)` wrote: some source object supplies the payload, the output has at
least the capacity the caller names, and its size is a `size_t`. -/
def Encodes (P : Platform) (messageClass messageId : UInt8) (payload bytes : List UInt8) : Prop :=
  ∃ (source : Option (List UInt8)) (cells cells' : List UInt8) (capacity n n' : Nat),
    Supplies source payload ∧ capacity ≤ cells.length ∧ cells.length < 2 ^ P.sizeBits ∧
    ubxEncodeFrame P messageClass messageId source payload.length (some cells) capacity (some n)
      = .ok (.ok, some cells', some n') ∧
    bytes = cells'.take n'

/-- **What a successful call wrote** is the frame's wire form, for every
`size_t`: no call whose frame length wraps returns (`fits_of_returns`). -/
theorem encodes_eq {P : Platform} {c i : UInt8} {payload bytes : List UInt8}
    (h : Encodes P c i payload bytes) :
    payload.length ≤ 65535 ∧ bytes = frameBytes c i payload := by
  obtain ⟨source, cells, cells', capacity, n, n', hsource, hcells, hsize, hrun, rfl⟩ := h
  have hadmitted := admitted_of_ok hrun
  have hlen := hadmitted.2.2.1
  have hcap := hadmitted.2.2.2
  have hfit := fits_of_returns hadmitted hsize hrun
  rw [Platform.sizeAdd_eq hfit] at hcap
  rw [ubxEncodeFrame_ok hsource hlen hfit hcap hcells] at hrun
  cases hrun
  refine ⟨hlen, ?_⟩
  rw [← length_frameBytes c i payload, take_written]

/-- Every payload that fits a frame has a call that writes it. -/
theorem encodes_frameBytes {P : Platform} (c i : UInt8) {payload : List UInt8}
    (hlen : payload.length ≤ 65535) (hfit : payload.length + 8 < 2 ^ P.sizeBits) :
    Encodes P c i payload (frameBytes c i payload) := by
  refine ⟨some payload, List.replicate (payload.length + 8) 0, _, payload.length + 8, 0, _,
    fun i h => load_some h, ?_, ?_, ubxEncodeFrame_ok (fun i h => load_some h) hlen hfit ?_ ?_, ?_⟩
  · rw [List.length_replicate]
  · rwa [List.length_replicate]
  · exact Nat.le_refl _
  · rw [List.length_replicate]
  · rw [← length_frameBytes c i payload, take_written]

end Ubx.Stream
