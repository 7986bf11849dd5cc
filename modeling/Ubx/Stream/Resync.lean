import Ubx.Stream.Frames
import Ubx.Stream.History

/-!
# The parser cannot be locked up

What a frame in progress is owed is bounded: its bytes are at most 65542, the
longest frame short of its last byte (`Rep.length_le`). A byte either lengthens
the frame in progress or puts the parser back on the hunt, so after that many
bytes it hunts, whatever they are. `bounded_resync` is the statement for every
history.
-/

namespace Ubx.Stream

open Lib

variable {P : Platform} {p : UbxParser}

/-- Until the hunt starts again, the frame in progress grows by every byte. -/
theorem grows_or_hunts (capacity : Nat) :
    ∀ (bytes pending : List UInt8), 2 ≤ pending.length →
      (∃ n, n ≤ bytes.length ∧ (assembleAll capacity pending (bytes.take n)).2.length ≤ 1) ∨
        (assembleAll capacity pending bytes).2 = pending ++ bytes := by
  intro bs
  induction bs with
  | nil =>
    intro pending _
    exact Or.inr (List.append_nil pending).symm
  | cons b bs ih =>
    intro pending h
    have hone : (assembleAll capacity pending ((b :: bs).take 1)).2
        = (assemble capacity pending b).2 := by
      rw [List.take_succ_cons, List.take_zero, assembleAll_cons]
      rfl
    rcases assemble_next capacity pending b with hnil | ⟨-, hgrows | ⟨-, hsync⟩⟩
    · exact Or.inl ⟨1, Nat.le_add_left .., by rw [hone, hnil]; exact Nat.zero_le 1⟩
    · -- the byte was kept, and the rest decides
      have hlen : 2 ≤ (pending ++ [b]).length := by
        rw [List.length_append]
        omega
      rcases ih (pending ++ [b]) hlen with ⟨n, hn, hhunts⟩ | hend
      · refine Or.inl ⟨n + 1, Nat.succ_le_succ hn, ?_⟩
        rw [List.take_succ_cons, assembleAll_cons, hgrows]
        exact hhunts
      · refine Or.inr ?_
        rw [assembleAll_cons, hgrows]
        show (assembleAll capacity (pending ++ [b]) bs).2 = _
        rw [hend, List.append_assoc, List.singleton_append]
    · exact Or.inl ⟨1, Nat.le_add_left .., by rw [hone, hsync]; exact Nat.le_refl 1⟩

/-- Without a first sync byte nothing new starts. -/
theorem ends_or_grows (capacity : Nat) :
    ∀ (bytes pending : List UInt8), (∀ b ∈ bytes, b ≠ 0xB5) →
      (assembleAll capacity pending bytes).2 = [] ∨
        (pending ≠ [] ∧ (assembleAll capacity pending bytes).2 = pending ++ bytes)
  | [], [], _ => Or.inl rfl
  | [], x :: pending, _ => Or.inr ⟨nofun, (List.append_nil _).symm⟩
  | b :: bs, pending, hb => by
    have hb0 := hb b (List.mem_cons_self ..)
    have hstep : (assemble capacity pending b).2 = [] ∨
        (pending ≠ [] ∧ (assemble capacity pending b).2 = pending ++ [b]) := by
      match pending with
      | [] => exact Or.inl (if_neg hb0)
      | x :: rest =>
        rcases assemble_next capacity (x :: rest) b with hnil | ⟨-, hgrows | ⟨heq, -⟩⟩
        · exact Or.inl hnil
        · exact Or.inr ⟨nofun, hgrows⟩
        · exact absurd heq hb0
    have hbs : ∀ b' ∈ bs, b' ≠ 0xB5 := fun b' hb' => hb b' (List.mem_cons_of_mem _ hb')
    rw [assembleAll_cons]
    rcases hstep with hnil | ⟨hne, hgrows⟩
    · rw [hnil]
      rcases ends_or_grows capacity bs [] hbs with hend | ⟨hne, -⟩
      · exact Or.inl hend
      · exact absurd rfl hne
    · rw [hgrows]
      rcases ends_or_grows capacity bs (pending ++ [b]) hbs with hend | ⟨-, hend⟩
      · exact Or.inl hend
      · exact Or.inr ⟨hne, by rw [hend, List.append_assoc, List.singleton_append]⟩

/-- **What a frame in progress can hold**, for every 16-bit length. -/
theorem Rep.length_le {pending : List UInt8} (hr : Rep p pending) : pending.length ≤ 65542 := by
  cases hr with
  | @payload c i l1 l2 data _ _ _ hlt =>
    have hle := length_value_le l1 l2
    simp only [List.length_cons]
    omega
  | @checksumA c i l1 l2 data _ _ _ hlen =>
    have hle := length_value_le l1 l2
    simp only [List.length_cons]
    omega
  | @checksumB c i l1 l2 a data _ _ _ hlen =>
    have hle := length_value_le l1 l2
    simp only [List.length_cons, List.length_append, List.length_nil]
    omega
  | @discard c i l1 l2 junk _ _ _ hlt =>
    have hle := length_value_le l1 l2
    simp only [List.length_cons]
    omega
  | _ => exact Nat.le_of_ble_eq_true rfl

/-- With at most one byte pending the parser is hunting. -/
theorem Rep.hunting {pending : List UInt8} (hr : Rep p pending) (hlen : pending.length ≤ 1) :
    p.state = .sync1 ∨ p.state = .sync2 := by
  cases hr with
  | sync1 hs => exact Or.inl hs
  | sync2 hs => exact Or.inr hs
  | _ =>
    simp only [List.length_cons] at hlen
    omega

/-- **Bounded resynchronisation.** From every state that any history leads to,
65541 bytes, whatever they are, pass through a hunting state; and after 65542
or more without a first sync byte the parser is in `SYNC_1`, and reports the
next frame that fits. -/
theorem bounded_resync (hP : 17 ≤ P.sizeBits) {buffer : Option (List UInt8)} {capacity : Nat}
    (hbuf : BufferOk buffer capacity) {calls : List ParserCall} {returns : List ParserReturn}
    (hreach : Reaches P buffer capacity calls returns p) :
    (∀ inputs : List (UInt8 × Option UbxFrame), inputs.length = 65541 →
      ∃ n, n ≤ 65541 ∧ ∃ outs p', run (feedStep P) (some p) (inputs.take n) = .ok (outs, some p') ∧
        (p'.state = .sync1 ∨ p'.state = .sync2)) ∧
    ∀ inputs : List (UInt8 × Option UbxFrame), 65542 ≤ inputs.length →
      (∀ input ∈ inputs, input.1 ≠ 0xB5) →
      ∃ outs p', run (feedStep P) (some p) inputs = .ok (outs, some p') ∧ p'.state = .sync1 ∧
        ∀ (c i : UInt8) (payload bytes : List UInt8) (frame : UbxFrame),
          Encodes P c i payload bytes → payload.length ≤ capacityOf buffer capacity →
          ∃ outs' p'', run (feedStep P) (some p') (feeds bytes (some frame))
              = .ok (outs', some p'') ∧
            outs'.map observe = List.replicate (payload.length + 7) .inProgress
              ++ [.frameComplete (some ⟨c, i, UInt16.ofNat payload.length, payload⟩)] := by
  obtain ⟨start, hg, -⟩ := hreach.good hbuf
  obtain ⟨pending, hr⟩ := hg.rep hP
  constructor
  · intro inputs hlen
    by_cases hshort : pending.length ≤ 1
    · exact ⟨0, Nat.zero_le _, [], p, rfl, hr.hunting hshort⟩
    · rcases grows_or_hunts p.payloadCapacity (inputs.map Prod.fst) pending (by omega)
        with ⟨n, hn, hhunts⟩ | hend
      · obtain ⟨outs, p', hrun, -, hr', -⟩ := run_follows hP hg.buffer hr (inputs.take n)
        rw [List.map_take] at hr'
        rw [List.length_map, hlen] at hn
        exact ⟨n, hn, outs, p', hrun, hr'.hunting hhunts⟩
      · -- so many bytes are no frame in progress
        obtain ⟨outs, p', -, -, hr', -⟩ := run_follows hP hg.buffer hr inputs
        have hbound := hr'.length_le
        rw [hend, List.length_append, List.length_map] at hbound
        omega
  · intro inputs hlen hnoB5
    obtain ⟨outs, p', hrun, -, hr', hb', hcap'⟩ := run_follows hP hg.buffer hr inputs
    -- a frame that is still in progress would be too long for any length field
    have hnil : (assembleAll p.payloadCapacity pending (inputs.map Prod.fst)).2 = [] := by
      rcases ends_or_grows p.payloadCapacity (inputs.map Prod.fst) pending (fun b hb => by
        obtain ⟨input, hinput, rfl⟩ := List.mem_map.mp hb
        exact hnoB5 input hinput) with hnil | ⟨hne, hend⟩
      · exact hnil
      · have hbound := hr'.length_le
        have hpos := List.length_pos_of_ne_nil hne
        rw [hend, List.length_append, List.length_map] at hbound
        omega
    rw [hnil] at hr'
    have hs' : p'.state = .sync1 := by
      cases hr' with
      | sync1 hs => exact hs
    refine ⟨outs, p', hrun, hs', ?_⟩
    intro c i payload bytes frame henc hfit
    obtain ⟨hlen65535, rfl⟩ := encodes_eq henc
    obtain ⟨outs', p'', hrun', ⟨-, hreports⟩, -⟩ :=
      run_follows hP hb' hr' (feeds (frameBytes c i payload) (some frame))
    refine ⟨outs', p'', hrun', ?_⟩
    rw [← hg.capacity_eq, ← hcap'] at hfit
    rw [hreports (feeds_isSome _ _), map_fst_feeds,
      assembleAll_encoded _ (Or.inl rfl) c i hlen65535, frameReports_fits hfit]

/-- The longest frame there is, announced to a two-byte buffer: after any 65541
bytes, and after 65542 without a sync byte and an acknowledgement behind them. -/
theorem bounded_resync_longest :
    (∃ n, n ≤ 65541 ∧ ∃ outs p', run (feedStep Platform.size32)
        (some ⟨.discard, some [0, 0], 2, 0, 5, 1, 65535, 4, 0x14, 0, 65537⟩)
        ((List.replicate 65541 (0xB5, none)).take n) = .ok (outs, some p') ∧
      (p'.state = .sync1 ∨ p'.state = .sync2)) ∧
    ∃ outs p', run (feedStep Platform.size32)
        (some ⟨.discard, some [0, 0], 2, 0, 5, 1, 65535, 4, 0x14, 0, 65537⟩)
        (List.replicate 65542 (0xFF, none)) = .ok (outs, some p') ∧ p'.state = .sync1 ∧
      ∃ outs' p'', run (feedStep Platform.size32) (some p')
          (feeds (frameBytes 5 1 [6, 0x8A]) (some ⟨0, 0, 0, none⟩)) = .ok (outs', some p'') ∧
        outs'.map observe
          = List.replicate 9 .inProgress ++ [.frameComplete (some ⟨5, 1, 2, [6, 0x8A]⟩)] := by
  have hreach : Reaches Platform.size32 (some [0, 0]) 2
      ([0xB5, 0x62, 5, 1, 0xFF, 0xFF].map fun b => .feed b none)
      (List.replicate 5 (.fed .inProgress none) ++ [.fed .oversize none])
      ⟨.discard, some [0, 0], 2, 0, 5, 1, 65535, 4, 0x14, 0, 65537⟩ := ⟨zeroParser, rfl⟩
  obtain ⟨hhunts, hquiet⟩ := bounded_resync (by decide) twoCells_ok hreach
  have hnosync : ∀ input ∈ List.replicate 65542 ((0xFF : UInt8), (none : Option UbxFrame)),
      input.1 ≠ 0xB5 := by
    intro input hinput
    rw [List.eq_of_mem_replicate hinput]
    decide
  obtain ⟨outs, p', hrun, hs, hnext⟩ := hquiet _ (Nat.le_of_eq List.length_replicate.symm) hnosync
  exact ⟨hhunts _ List.length_replicate, outs, p', hrun, hs,
    hnext 5 1 [6, 0x8A] _ ⟨0, 0, 0, none⟩ (encodes_frameBytes 5 1 (by simp) (by decide))
      (Nat.le_refl 2)⟩

end Ubx.Stream
