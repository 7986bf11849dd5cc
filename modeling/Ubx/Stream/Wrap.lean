import Ubx.Stream.Exact
import Ubx.Stream.Refine

/-!
# Lengths near the limit

The parser forms `payload_length + 2` and the encoder `payload_length + 8` in
`size_t`. Both sums fit where `size_t` has more than 16 bits. Where it has 16,
they wrap for the last lengths that a frame can name, and the guard of the
encoder against more than 65535 bytes is no help:

* from 65534 on the parser counts one byte at most to discard of a frame that
  does not fit, and is back in `SYNC_1` after the next one;
* from 65528 on the encoder compares the capacity with at most 7, and stores
  past it.

`size_sums_near_limit` gives the exact lengths and capacities, for every width.
-/

namespace Ubx.Stream

open Lib

variable {P : Platform} {p p' : UbxParser} {capacity len : Nat}

/-- A frame of `len` payload bytes that is reported as `OVERSIZE`, in any
session, is discarded with its checksum: exactly the next `len + 2` bytes,
whatever they are, are answered with `IN_PROGRESS` on the way to `SYNC_1`. -/
def Discards (P : Platform) (capacity len : Nat) : Prop :=
  ∀ (buffer : Option (List UInt8)) (payloadCapacity : Nat) (calls : List ParserCall)
    (returns : List ParserReturn) (p : UbxParser) (byte : UInt8) (frame out : Option UbxFrame)
    (p' : UbxParser),
    BufferOk buffer payloadCapacity → Reaches P buffer payloadCapacity calls returns p →
    p.payloadCapacity = capacity →
    ubxParserFeed P (some p) byte frame = .ok ((.oversize, out), some p') →
    p'.payloadLength.toNat = len →
    ∀ inputs : List (UInt8 × Option UbxFrame), inputs.length ≤ len + 2 →
      ∃ q, run (feedStep P) (some p') inputs
          = .ok (inputs.map fun input => (.inProgress, input.2), some q) ∧
        (q.state = .sync1 ↔ inputs.length = len + 2)

/-- A call that encodes `len` payload bytes returns, into an output that may have
no cell more than the capacity it is said to have. It is OK only if the frame
fits that capacity, and no cell from the capacity on is changed. -/
def EncodesWithin (P : Platform) (capacity len : Nat) : Prop :=
  ∀ (c i : UInt8) (source : Option (List UInt8)) (cells : List UInt8) (n : Nat),
    (∀ payload, source = some payload → len ≤ payload.length) → capacity ≤ cells.length →
    ∃ r cells' n',
      ubxEncodeFrame P c i source len (some cells) capacity (some n) = .ok (r, some cells', n') ∧
      (r = .ok → len + 8 ≤ capacity) ∧ cells'.drop capacity = cells.drop capacity

/-! ## What the parser discards -/

/-- The bytes that are counted are swallowed, and the last of them leads back to
`SYNC_1`. -/
theorem swallow_run (inputs : List (UInt8 × Option UbxFrame)) :
    ∀ p : UbxParser, p.state = .discard → 1 ≤ p.discardRemaining →
      inputs.length ≤ p.discardRemaining →
      ∃ q, run (feedStep P) (some p) inputs
          = .ok (inputs.map fun input => (.inProgress, input.2), some q) ∧
        (q.state = .sync1 ↔ inputs.length = p.discardRemaining) := by
  induction inputs with
  | nil =>
    intro p hs hpos _
    refine ⟨p, rfl, fun hsync => ?_, fun hzero => ?_⟩
    · rw [hs] at hsync
      cases hsync
    · rw [List.length_nil] at hzero
      omega
  | cons input inputs ih =>
    intro p hs hpos hle
    rw [List.length_cons] at hle ⊢
    obtain ⟨p', hfeed, -, -, hlast, hmore⟩ := feed_discard (P := P) hs input.1 input.2
    rcases Nat.lt_or_ge 1 p.discardRemaining with hleft | hleft
    · -- this byte is not the last one
      obtain ⟨hs', -, hcount⟩ := hmore hleft
      obtain ⟨q, hrun, hiff⟩ := ih p' hs' (by omega) (by omega)
      refine ⟨q, run_cons hfeed hrun, hiff.trans ?_⟩
      rw [hcount]
      omega
    · have hnil : inputs = [] := List.length_eq_zero_iff.mp (by omega)
      subst hnil
      refine ⟨p', run_cons hfeed rfl, fun _ => ?_, fun _ => hlast hleft⟩
      rw [List.length_nil]
      omega

/-- A count that does not wrap is the frame and its checksum. -/
theorem discards_of_fits (h : len ≤ capacity ∨ len + 2 < 2 ^ P.sizeBits) :
    Discards P capacity len := by
  intro buffer payloadCapacity calls returns p byte frame out p' _ _ hcap hfeed hlen inputs hle
  obtain ⟨_, hp', hfed⟩ := feed_inv hfeed
  cases hp'
  obtain ⟨hover, hs, hcount⟩ := hfed.oversize rfl
  rcases h with h | h
  · -- a frame that fits is not reported
    omega
  · rw [hlen, Platform.sizeAdd_eq h] at hcount
    obtain ⟨q, hrun, hiff⟩ := swallow_run (P := P) inputs p' hs (by omega) (by omega)
    exact ⟨q, hrun, by rwa [hcount] at hiff⟩

/-- A header up to the first length byte, in a session of its own. -/
theorem reaches_length2 (P : Platform) (capacity : Nat) (l1 : UInt8) :
    ∃ calls returns p, Reaches P (some (List.replicate capacity 0)) capacity calls returns p ∧
      p.state = .length2 ∧ p.payloadLength = l1.toUInt16 ∧ p.payloadCapacity = capacity :=
  ⟨[0xB5, 0x62, 0, 0, l1].map fun byte => .feed byte none, _, _, ⟨zeroParser, rfl⟩, rfl, rfl, rfl⟩

theorem replicate_ok (capacity : Nat) : BufferOk (some (List.replicate capacity 0)) capacity := by
  intro cells hcells
  cases hcells
  rw [List.length_replicate]

/-- A count that wraps is spent with the next byte. -/
theorem fits_of_discards (hlen : len ≤ 65535) (h : Discards P capacity len) :
    len ≤ capacity ∨ len + 2 < 2 ^ P.sizeBits := by
  by_contra hwrap
  have hsize := P.two_pow_ge
  have hvalue := length_value_bytes hlen
  obtain ⟨calls, returns, p, hreach, hs, hl, hcap⟩ := reaches_length2 P capacity (UInt8.ofNat len)
  obtain ⟨p', hfeed, hs', hlength, hcount, -, -⟩ := feed_oversize (P := P) hs hl
    (UInt8.ofNat (len / 256)) none (by rw [hvalue]; omega)
  rw [hvalue] at hlength hcount
  rw [Platform.sizeAdd_wraps (by omega) (by omega)] at hcount
  have hlen' : p'.payloadLength.toNat = len := by
    rw [hlength, UInt16.toNat_ofNat', Nat.mod_eq_of_lt (by omega)]
  obtain ⟨q, hrun, hiff⟩ := h _ _ _ _ _ _ _ _ _ (replicate_ok capacity) hreach hcap hfeed hlen'
    [(0, none)] (by rw [List.length_singleton]; omega)
  -- one byte, and the parser is in `SYNC_1`
  obtain ⟨p₁, hfeed₁, -, -, hlast, -⟩ := feed_discard (P := P) hs' 0 none
  cases (run_cons hfeed₁ rfl).symm.trans hrun
  have hone := hiff.mp (hlast (by omega))
  rw [List.length_singleton] at hone
  omega

/-! ## Where the encoder writes -/

/-- A frame whose length does not wrap is refused or stays inside the capacity. -/
theorem encodesWithin_of_fits (hlen : len ≤ 65535) (hfit : len + 8 < 2 ^ P.sizeBits) :
    EncodesWithin P capacity len := by
  intro c i source cells n hsource hcells
  by_cases hadmitted : Admitted P source (some cells) len capacity
  · obtain ⟨-, hthere, -, hcap⟩ := hadmitted
    rw [Platform.sizeAdd_eq hfit] at hcap
    obtain ⟨payload, hsupplies, rfl, -⟩ := supplies_source hsource hthere
    refine ⟨.ok, _, _, ubxEncodeFrame_ok hsupplies hlen hfit hcap hcells, fun _ => hcap, ?_⟩
    apply drop_written
    rw [length_frameBytes]
    exact hcap
  · obtain ⟨r, hr, hrun⟩ := ubxEncodeFrame_refuses (c := c) (i := i) (n := n) hadmitted
    exact ⟨r, cells, some 0, hrun, fun hok => absurd hok hr, rfl⟩

/-- So is one whose length wraps to more than the capacity. -/
theorem encodesWithin_of_small (hlen : len ≤ 65535)
    (hsmall : capacity + 2 ^ P.sizeBits < len + 8) : EncodesWithin P capacity len := by
  intro c i source cells n _ _
  have hsize := P.two_pow_ge
  have hrefused : ¬ Admitted P source (some cells) len capacity := by
    rintro ⟨-, -, -, hcap⟩
    rw [Platform.sizeAdd_wraps (by omega) (by omega)] at hcap
    omega
  obtain ⟨r, hr, hrun⟩ := ubxEncodeFrame_refuses (c := c) (i := i) (n := n) hrefused
  exact ⟨r, cells, some 0, hrun, fun hok => absurd hok hr, rfl⟩

/-- Any other frame passes the capacity test, and no object of C is large enough
for what is stored then. -/
theorem ubxEncodeFrame_wraps {c i : UInt8} {source : Option (List UInt8)} {cells : List UInt8}
    {n : Nat} (hadmitted : Admitted P source (some cells) len capacity)
    (hsize : cells.length < 2 ^ P.sizeBits) (hwrap : 2 ^ P.sizeBits ≤ len + 8) :
    ∃ fault, ubxEncodeFrame P c i source len (some cells) capacity (some n) = .error fault := by
  cases hrun : ubxEncodeFrame P c i source len (some cells) capacity (some n) with
  | error fault => exact ⟨fault, rfl⟩
  | ok returned =>
    have hfit := fits_of_returns hadmitted hsize hrun
    omega

/-- So the capacity it is stored to does not hold it. -/
theorem fits_of_encodesWithin (hlen : len ≤ 65535) (hcap : capacity < 2 ^ P.sizeBits)
    (h : EncodesWithin P capacity len) :
    len + 8 < 2 ^ P.sizeBits ∨ capacity + 2 ^ P.sizeBits < len + 8 := by
  by_contra hwrap
  have hsize := P.two_pow_ge
  have hadmitted : Admitted P (some (List.replicate len 0)) (some (List.replicate capacity 0)) len
      capacity := by
    refine ⟨by simp, Or.inl (by simp), hlen, ?_⟩
    rw [Platform.sizeAdd_wraps (by omega) (by omega)]
    omega
  obtain ⟨r, cells', n', hrun, -⟩ := h 0 0 (some (List.replicate len 0))
    (List.replicate capacity 0) 0 (replicate_ok len) (by rw [List.length_replicate])
  obtain ⟨fault, hfault⟩ := ubxEncodeFrame_wraps (c := 0) (i := 0) (n := 0) hadmitted
    (by rwa [List.length_replicate]) (by omega)
  rw [hfault] at hrun
  cases hrun

/-! ## The sums -/

/-- **The sums near the limit.** For every width of `size_t`, every length that a
frame can name and every capacity: the parser discards a frame that does not fit
together with its checksum exactly where `len + 2` does not wrap, and the encoder
stays inside the capacity exactly where `len + 8` does not wrap, or wraps to more
than the capacity. -/
theorem size_sums_near_limit (P : Platform) (len capacity : Nat) (hlen : len ≤ 65535)
    (hcap : capacity < 2 ^ P.sizeBits) :
    (Discards P capacity len ↔ len ≤ capacity ∨ len + 2 < 2 ^ P.sizeBits) ∧
    (EncodesWithin P capacity len ↔
      len + 8 < 2 ^ P.sizeBits ∨ capacity + 2 ^ P.sizeBits < len + 8) := by
  refine ⟨⟨fits_of_discards hlen, discards_of_fits⟩, fits_of_encodesWithin hlen hcap, fun h => ?_⟩
  rcases h with hfit | hsmall
  · exact encodesWithin_of_fits hlen hfit
  · exact encodesWithin_of_small hlen hsmall

/-- The longest frame that 16 bits still count, into four cells. -/
theorem size_sums_near_limit_65533 :
    Discards Platform.size16 4 65533 ∧ EncodesWithin Platform.size16 4 65533 := by
  obtain ⟨hdiscards, hencodes⟩ :=
    size_sums_near_limit Platform.size16 65533 4 (by omega) (by decide)
  exact ⟨hdiscards.mpr (Or.inr (by decide)), hencodes.mpr (Or.inr (by decide))⟩

/-- One byte more, and the parser is back in `SYNC_1` after a byte; a frame of
65528 bytes is stored to an output of none. -/
theorem size_sums_counterexample :
    ¬ Discards Platform.size16 2 65534 ∧ ¬ EncodesWithin Platform.size16 0 65528 := by
  constructor
  · intro h
    have hreach : Reaches Platform.size16 (some [0, 0]) 2
        ([0xB5, 0x62, 0, 0, 0xFE].map fun byte => .feed byte none)
        (List.replicate 5 (.fed .inProgress none))
        ⟨.length2, some [0, 0], 2, 0, 0, 0, 0xFE, 0xFE, 0xFE, 0, 0⟩ := ⟨zeroParser, rfl⟩
    have hfeed : ubxParserFeed Platform.size16
        (some ⟨.length2, some [0, 0], 2, 0, 0, 0, 0xFE, 0xFE, 0xFE, 0, 0⟩) 0xFF none
          = .ok ((.oversize, none),
            some ⟨.discard, some [0, 0], 2, 0, 0, 0, 0xFFFE, 0xFD, 0xFB, 0, 0⟩) := rfl
    obtain ⟨q, hrun, hiff⟩ := h _ _ _ _ _ _ _ _ _ twoCells_ok hreach rfl hfeed rfl [(0, none)]
      (by simp)
    cases hrun
    exact absurd (hiff.mp rfl) (by simp)
  · intro h
    obtain ⟨r, cells', n', hrun, -⟩ := h 0 0 (some (List.replicate 65528 0)) [] 0
      (replicate_ok 65528) (Nat.le_refl 0)
    have hfault : ubxEncodeFrame Platform.size16 0 0 (some (List.replicate 65528 0)) 65528
        (some []) 0 (some 0) = .error (.outOfBounds 0) := rfl
    rw [hfault] at hrun
    cases hrun

end Ubx.Stream
