import Mathlib.Data.List.Chain
import Ubx.Stream.Encoder
import Ubx.Stream.Refine

/-!
# Encoder to parser

What the parser makes of frames that `ubx_encode_frame` wrote.

`assembleAll_encoded` is the central fact: wherever the hunt stands, a frame on
the wire is reported once, at its last byte, or, when it does not fit, at the
last byte of its header.

* `stream_round_trip`: frames and noise in any order, and what is reported.
* `corruption_detected`: one changed byte, or two at an odd distance, and the
  checksum tells.
-/

namespace Ubx.Stream

open Lib

variable {P : Platform} {p : UbxParser}

/-! ## A frame on the wire -/

theorem assembleAll_sync (capacity : Nat) {pending : List UInt8} (h : Hunting pending)
    (bytes : List UInt8) :
    assembleAll capacity pending (0xB5 :: 0x62 :: bytes) =
      (.inProgress :: .inProgress :: (assembleAll capacity [0xB5, 0x62] bytes).1,
        (assembleAll capacity [0xB5, 0x62] bytes).2) := by
  rcases h with rfl | rfl
  · rfl
  · rfl

/-- A whole frame, from a hunt to the next one. -/
theorem assembleAll_whole (capacity : Nat) {pending : List UInt8} (h : Hunting pending)
    (c i l1 l2 : UInt8) {tail : List UInt8} (hlen : tail.length = leValue [l1, l2] + 2) :
    assembleAll capacity pending (0xB5 :: 0x62 :: c :: i :: l1 :: l2 :: tail) =
      (List.replicate 5 .inProgress ++ headerReport capacity (leValue [l1, l2])
          :: List.replicate (leValue [l1, l2] + 1) .inProgress
          ++ [lastReport capacity c i l1 l2 tail], []) := by
  rw [assembleAll_sync capacity h, assembleAll_header,
    assembleAll_frame _ _ _ _ _ (Nat.le_of_eq hlen.symm), ← hlen, List.take_length,
    List.drop_length]
  rfl

/-- A frame that fits is judged at its last byte. -/
theorem assembleAll_fits {capacity : Nat} {pending : List UInt8} (h : Hunting pending)
    (c i l1 l2 : UInt8) {tail : List UInt8} (hlen : tail.length = leValue [l1, l2] + 2)
    (hfit : leValue [l1, l2] ≤ capacity) :
    assembleAll capacity pending (0xB5 :: 0x62 :: c :: i :: l1 :: l2 :: tail) =
      (List.replicate (leValue [l1, l2] + 7) .inProgress ++ [judge c i l1 l2 tail], []) := by
  rw [assembleAll_whole capacity h c i l1 l2 hlen, headerReport, lastReport,
    if_neg (Nat.not_lt.mpr hfit), if_neg (Nat.not_lt.mpr hfit), replicate_append_cons,
    List.replicate_append_replicate, show 5 + 1 + (leValue [l1, l2] + 1) = leValue [l1, l2] + 7 by
      omega]

/-- One that does not is reported at the end of its header, and swallowed. -/
theorem assembleAll_over {capacity : Nat} {pending : List UInt8} (h : Hunting pending)
    (c i l1 l2 : UInt8) {tail : List UInt8} (hlen : tail.length = leValue [l1, l2] + 2)
    (hover : capacity < leValue [l1, l2]) :
    assembleAll capacity pending (0xB5 :: 0x62 :: c :: i :: l1 :: l2 :: tail) =
      (List.replicate 5 .inProgress
        ++ .oversize :: List.replicate (leValue [l1, l2] + 2) .inProgress, []) := by
  have hswallow : List.replicate (leValue [l1, l2] + 1) Report.inProgress ++ [.inProgress]
      = List.replicate (leValue [l1, l2] + 2) .inProgress := List.replicate_succ'.symm
  rw [assembleAll_whole capacity h c i l1 l2 hlen, headerReport, lastReport, if_pos hover,
    if_pos hover, List.append_assoc, List.cons_append, hswallow]

/-- What a frame of the encoder is reported as. -/
def frameReport (capacity : Nat) (c i : UInt8) (payload : List UInt8) : Report :=
  if payload.length ≤ capacity then
    .frameComplete (some ⟨c, i, UInt16.ofNat payload.length, payload⟩)
  else .oversize

/-- The reports on the bytes of a frame of the encoder. -/
def frameReports (capacity : Nat) (c i : UInt8) (payload : List UInt8) : List Report :=
  if payload.length ≤ capacity then
    List.replicate (payload.length + 7) .inProgress ++ [frameReport capacity c i payload]
  else
    List.replicate 5 .inProgress ++ frameReport capacity c i payload
      :: List.replicate (payload.length + 2) .inProgress

theorem frameBytes_eq (c i : UInt8) (payload : List UInt8) :
    frameBytes c i payload = 0xB5 :: 0x62 :: c :: i :: UInt8.ofNat payload.length
      :: UInt8.ofNat (payload.length / 256)
      :: (payload ++ [(Fletcher.sums (frameBody c i payload)).1]
          ++ [(Fletcher.sums (frameBody c i payload)).2]) := by
  rw [List.append_assoc]
  rfl

/-- **A frame of the encoder is reported as what it is**, wherever the hunt
stands when it comes. -/
theorem assembleAll_encoded (capacity : Nat) {pending : List UInt8} (h : Hunting pending)
    (c i : UInt8) {payload : List UInt8} (hlen : payload.length ≤ 65535) :
    assembleAll capacity pending (frameBytes c i payload)
      = (frameReports capacity c i payload, []) := by
  have hvalue := length_value_bytes hlen
  have htail : (payload ++ [(Fletcher.sums (frameBody c i payload)).1]
      ++ [(Fletcher.sums (frameBody c i payload)).2]).length
      = leValue [UInt8.ofNat payload.length, UInt8.ofNat (payload.length / 256)] + 2 := by
    rw [hvalue]
    simp
  rw [frameBytes_eq]
  unfold frameReports frameReport
  by_cases hfit : payload.length ≤ capacity
  · rw [assembleAll_fits h c i _ _ htail (by rwa [hvalue]), judge_eq hvalue.symm, hvalue,
      if_pos hfit, if_pos hfit]
    exact congrArg (fun r => (_ ++ [r], _)) (if_pos ⟨rfl, rfl⟩)
  · rw [assembleAll_over h c i _ _ htail (by rw [hvalue]; omega), hvalue, if_neg hfit, if_neg hfit]

/-- A report of a complete frame comes with the frame it shows. -/
theorem observe_complete {out : UbxParseResult × Option UbxFrame} {d : Delivered}
    (h : observe out = .frameComplete (some d)) :
    ∃ frame, out = (.frameComplete, some frame) ∧ frame.delivered = d := by
  obtain ⟨code, frame⟩ := out
  cases code with
  | frameComplete =>
    cases frame with
    | none => exact nomatch h
    | some frame =>
      cases h
      exact ⟨frame, rfl, rfl⟩
  | _ => exact nomatch h

/-- A frame of the encoder that fits never reports a frame too large. -/
theorem frameReports_fits {capacity : Nat} {c i : UInt8} {payload : List UInt8}
    (hfit : payload.length ≤ capacity) :
    frameReports capacity c i payload = List.replicate (payload.length + 7) .inProgress
      ++ [.frameComplete (some ⟨c, i, UInt16.ofNat payload.length, payload⟩)] := by
  rw [frameReports, if_pos hfit, frameReport, if_pos hfit]

/-- Bytes with one report, at the last of them, and not for a frame too large:
a parser that hunts shows it and hunts again, for any `size_t`. -/
theorem run_last_report (hb : BufferInv p) (hs : p.state = .sync1)
    {inputs : List (UInt8 × Option UbxFrame)} {n : Nat} {report : Report}
    (hreport : report ≠ .oversize)
    (htrace : assembleAll p.payloadCapacity [] (inputs.map Prod.fst)
      = (List.replicate n .inProgress ++ [report], [])) :
    ∃ outs p', run (feedStep P) (some p) inputs = .ok (outs, some p') ∧
      ShowAll inputs outs (List.replicate n .inProgress ++ [report]) ∧ p'.state = .sync1 := by
  have hfits : ∀ r ∈ (assembleAll p.payloadCapacity [] (inputs.map Prod.fst)).1,
      r ≠ .oversize := by
    intro r hr
    rw [htrace] at hr
    rcases List.mem_append.mp hr with h | h
    · rw [List.eq_of_mem_replicate h]
      exact nofun
    · rwa [List.mem_singleton.mp h]
  have hnot : ¬ Discarding p.payloadCapacity [] := fun ⟨_, _, _, _, _, h, _⟩ => nomatch h
  obtain ⟨outs, p', hrun, hshow, hr', -⟩ :=
    run_follows_fits (P := P) hb (.sync1 hs) hnot inputs hfits
  rw [htrace] at hshow hr'
  refine ⟨outs, p', hrun, hshow, ?_⟩
  cases hr' with
  | sync1 hs' => exact hs'

/-- **A frame of the encoder that fits is delivered** at its last byte. -/
theorem frame_delivered (hb : BufferInv p) (hs : p.state = .sync1) {c i : UInt8}
    {payload : List UInt8} (hlen : payload.length ≤ 65535)
    (hfit : payload.length ≤ p.payloadCapacity) {inputs : List (UInt8 × Option UbxFrame)}
    (hinputs : inputs.map Prod.fst = frameBytes c i payload)
    (hframes : ∀ input ∈ inputs, input.2.isSome) :
    ∃ outs frame p', run (feedStep P) (some p) inputs
        = .ok (outs ++ [(.frameComplete, some frame)], some p') ∧
      frame.delivered = ⟨c, i, UInt16.ofNat payload.length, payload⟩ := by
  have htrace := assembleAll_encoded p.payloadCapacity (Or.inl rfl) c i hlen
  rw [← hinputs, frameReports_fits hfit] at htrace
  obtain ⟨outs, p', hrun, ⟨-, hreports⟩, -⟩ := run_last_report (P := P) hb hs (by simp) htrace
  have hobserved := hreports hframes
  rw [List.map_eq_append_iff] at hobserved
  obtain ⟨outs', last, rfl, -, hlast⟩ := hobserved
  obtain ⟨out, rfl, hout⟩ := List.map_eq_singleton_iff.mp hlast
  obtain ⟨frame, rfl, hframe⟩ := observe_complete hout
  exact ⟨outs', frame, p', hrun, hframe⟩

/-! ## Frames and noise -/

/-- A piece of a stream: noise, or what a successful `ubx_encode_frame` wrote. -/
inductive Segment where
  | noise (bytes : List UInt8)
  | encoded (messageClass messageId : UInt8) (payload bytes : List UInt8)

def Segment.bytes : Segment → List UInt8
  | .noise bytes => bytes
  | .encoded _ _ _ bytes => bytes

/-- Noise has no sync pair; it may end in a first sync byte. -/
def Segment.Valid (P : Platform) : Segment → Prop
  | .noise bytes => ∀ k : Nat, ¬(bytes[k]? = some 0xB5 ∧ bytes[k + 1]? = some 0x62)
  | .encoded messageClass messageId payload bytes => Encodes P messageClass messageId payload bytes

/-- Not noise behind noise. -/
def Segment.Apart : Segment → Segment → Prop
  | .noise _, .noise _ => False
  | _, _ => True

/-- The one result of a frame; noise has none. -/
def Segment.result (capacity : Nat) : Segment → Option Report
  | .noise _ => none
  | .encoded messageClass messageId payload _ =>
    some (frameReport capacity messageClass messageId payload)

theorem findSync_none {bytes : List UInt8}
    (h : ∀ k : Nat, ¬(bytes[k]? = some 0xB5 ∧ bytes[k + 1]? = some 0x62)) :
    findSync bytes = none := by
  rw [findSync, List.find?_eq_none]
  intro k _ hk
  exact h k (of_decide_eq_true hk)

/-- The results in a list of reports. -/
def results (reports : List Report) : List Report :=
  reports.filter fun report => decide (report ≠ .inProgress)

theorem results_append (rs rs' : List Report) : results (rs ++ rs') = results rs ++ results rs' :=
  List.filter_append ..

theorem results_replicate (n : Nat) : results (List.replicate n .inProgress) = [] := by
  rw [results, List.filter_replicate]
  rfl

theorem frameReport_ne (capacity : Nat) (c i : UInt8) (payload : List UInt8) :
    frameReport capacity c i payload ≠ .inProgress := by
  unfold frameReport
  split
  next => exact nofun
  next => exact nofun

theorem results_frameReports (capacity : Nat) (c i : UInt8) (payload : List UInt8) :
    results (frameReports capacity c i payload) = [frameReport capacity c i payload] := by
  have hone : results [frameReport capacity c i payload] = [frameReport capacity c i payload] := by
    exact List.filter_cons_of_pos (decide_eq_true (frameReport_ne capacity c i payload))
  unfold frameReports
  split
  next => rw [results_append, results_replicate, List.nil_append, hone]
  next =>
    rw [results_append, results_replicate, List.nil_append, ← List.singleton_append,
      results_append, results_replicate, List.append_nil, hone]

/-- A frame of the encoder is not reported with a checksum error. -/
theorem segment_result_ne {capacity : Nat} {segment : Segment} {report : Report}
    (h : segment.result capacity = some report) : report.code ≠ .checksumError := by
  cases segment with
  | noise => exact nomatch h
  | encoded c i payload bytes =>
    cases h
    unfold frameReport
    split
    next => exact nofun
    next => exact nofun

/-- **A stream of segments** has the results of its frames, in order. Noise
starts where nothing is pending; a frame may follow a first sync byte. -/
theorem results_segments (capacity : Nat) :
    ∀ (segments : List Segment) (pending : List UInt8), Hunting pending →
      (∀ bytes, segments.head? = some (.noise bytes) → pending = []) →
      (∀ segment ∈ segments, segment.Valid P) → segments.IsChain Segment.Apart →
      results (assembleAll capacity pending (segments.flatMap Segment.bytes)).1
        = segments.filterMap (Segment.result capacity)
  | [], _, _, _, _, _ => rfl
  | .noise bytes :: rest, pending, _, hfirst, hvalid, hapart => by
    -- noise reports nothing, and the hunt goes on from its end
    have hnil := hfirst bytes rfl
    subst hnil
    have hquiet := hvalid (.noise bytes) (List.mem_cons_self ..)
    obtain ⟨hreports, hhunt⟩ :=
      assembleAll_hunt_none capacity bytes [] (Or.inl rfl) (findSync_none hquiet)
    have hrest : ∀ bytes', rest.head? = some (.noise bytes') →
        (assembleAll capacity [] bytes).2 = [] := by
      intro bytes' hhead
      exact absurd (hapart.rel_head? hhead) id
    rw [List.flatMap_cons, Segment.bytes, assembleAll_append, results_append, hreports,
      results_replicate, List.nil_append]
    exact results_segments capacity rest _ hhunt hrest
      (fun s hs => hvalid s (List.mem_cons_of_mem _ hs)) hapart.tail
  | .encoded c i payload bytes :: rest, pending, hhunt, _, hvalid, hapart => by
    -- a frame has one result, and leaves nothing pending
    obtain ⟨hlen, rfl⟩ := encodes_eq (hvalid (.encoded c i payload bytes) (List.mem_cons_self ..))
    have hresult : Segment.result capacity (.encoded c i payload (frameBytes c i payload))
        = some (frameReport capacity c i payload) := rfl
    rw [List.flatMap_cons, Segment.bytes, assembleAll_append,
      assembleAll_encoded capacity hhunt c i hlen, results_append, results_frameReports,
      List.singleton_append,
      List.filterMap_cons_some hresult]
    exact congrArg _ (results_segments capacity rest [] (Or.inl rfl) (fun _ _ => rfl)
      (fun s hs => hvalid s (List.mem_cons_of_mem _ hs)) hapart.tail)

/-- The result codes among the codes of a list of reports. -/
theorem filter_codes (reports : List Report) :
    (reports.map Report.code).filter (fun code => decide (code ≠ .inProgress))
      = (results reports).map Report.code := by
  rw [results, List.filter_map]
  congr 1
  apply List.filter_congr
  intro report _
  cases report with
  | _ => rfl

/-- **Encoder to parser over whole streams.** One result a frame, in order, and
none for noise: the frame itself where it fits the capacity, `OVERSIZE` where
it does not, and never a checksum error. -/
theorem stream_round_trip (hP : 17 ≤ P.sizeBits) (hb : BufferInv p) (hs : p.state = .sync1)
    {segments : List Segment} (hvalid : ∀ segment ∈ segments, segment.Valid P)
    (hapart : segments.IsChain Segment.Apart) {inputs : List (UInt8 × Option UbxFrame)}
    (hinputs : inputs.map Prod.fst = segments.flatMap Segment.bytes) :
    ∃ outs p', run (feedStep P) (some p) inputs = .ok (outs, some p') ∧
      (outs.map Prod.fst).filter (fun code => decide (code ≠ .inProgress))
        = (segments.filterMap (Segment.result p.payloadCapacity)).map Report.code ∧
      .checksumError ∉ outs.map Prod.fst ∧
      ((∀ input ∈ inputs, input.2.isSome) → results (outs.map observe)
        = segments.filterMap (Segment.result p.payloadCapacity)) := by
  obtain ⟨outs, p', hrun, ⟨hcodes, hreports⟩, -⟩ := run_follows hP hb (.sync1 hs) inputs
  have hresults := results_segments p.payloadCapacity segments [] (Or.inl rfl) (fun _ _ => rfl)
    hvalid hapart
  rw [hinputs] at hcodes hreports
  have hfilter : (outs.map Prod.fst).filter (fun code => decide (code ≠ .inProgress))
      = (segments.filterMap (Segment.result p.payloadCapacity)).map Report.code := by
    rw [hcodes, filter_codes, hresults]
  refine ⟨outs, p', hrun, hfilter, fun hmem => ?_, fun hframes => ?_⟩
  · have herror : UbxParseResult.checksumError
        ∈ (segments.filterMap (Segment.result p.payloadCapacity)).map Report.code := by
      rw [← hfilter, List.mem_filter]
      exact ⟨hmem, rfl⟩
    obtain ⟨report, hreport, hcode⟩ := List.mem_map.mp herror
    obtain ⟨segment, -, hresult⟩ := List.mem_filterMap.mp hreport
    exact segment_result_ne hresult hcode
  · rw [hreports hframes, hresults]

/-- Noise that ends in a first sync byte, a frame that fits two bytes, and one
that does not. -/
theorem stream_round_trip_three :
    ∃ outs p', run (feedStep Platform.size32) (some zeroParser)
        (feeds ([0, 0xB5] ++ frameBytes 5 1 [0x2A] ++ frameBytes 5 0 [1, 2, 3])
          (some ⟨0, 0, 0, none⟩)) = .ok (outs, some p') ∧
      results (outs.map observe) = [.frameComplete (some ⟨5, 1, 1, [0x2A]⟩), .oversize] := by
  have hvalid : ∀ segment ∈ [Segment.noise [0, 0xB5],
      .encoded 5 1 [0x2A] (frameBytes 5 1 [0x2A]),
      .encoded 5 0 [1, 2, 3] (frameBytes 5 0 [1, 2, 3])], segment.Valid Platform.size32 := by
    intro segment hsegment
    rcases List.mem_cons.mp hsegment with rfl | hsegment
    · intro k hk
      match k with
      | 0 => exact absurd hk.1 (by simp)
      | 1 => exact absurd hk.2 (by simp)
      | k + 2 => exact nomatch hk.1
    · rcases List.mem_cons.mp hsegment with rfl | hsegment
      · exact encodes_frameBytes 5 1 (by decide) (by decide)
      · rw [List.mem_singleton.mp hsegment]
        exact encodes_frameBytes 5 0 (by decide) (by decide)
  obtain ⟨outs, p', hrun, -, -, hreports⟩ := stream_round_trip (P := Platform.size32) (by decide)
    zeroParser_buffer rfl hvalid (by simp [Segment.Apart]) (map_fst_feeds _ (some ⟨0, 0, 0, none⟩))
  exact ⟨outs, p', hrun, hreports (feeds_isSome _ _)⟩

/-! ## Changed frames -/

/-- Where a changed frame's sums and checksum bytes differ, its last byte is
answered with a checksum error, and the hunt starts again. -/
theorem assembleAll_bad {capacity n : Nat} {body : List UInt8} {a b : UInt8} (hn : n ≤ 65535)
    (hlen : body.length = n + 4) (h2 : body[2]? = some (UInt8.ofNat n))
    (h3 : body[3]? = some (UInt8.ofNat (n / 256))) (hfit : n ≤ capacity)
    (hsums : Fletcher.sums body ≠ (a, b)) :
    assembleAll capacity [] ([0xB5, 0x62] ++ body ++ [a, b])
      = (List.replicate (n + 7) .inProgress ++ [.checksumError], []) := by
  match body, h2, h3 with
  | c :: i :: l1 :: l2 :: data, h2, h3 =>
    have hl1 : l1 = UInt8.ofNat n := Option.some.inj h2
    have hl2 : l2 = UInt8.ofNat (n / 256) := Option.some.inj h3
    have hvalue : leValue [l1, l2] = n := by rw [hl1, hl2, length_value_bytes hn]
    have hdata : data.length = leValue [l1, l2] := by
      rw [hvalue]
      exact Nat.succ.inj (Nat.succ.inj (Nat.succ.inj (Nat.succ.inj hlen)))
    have hwhole := assembleAll_fits (Or.inl rfl) c i l1 l2
      (show (data ++ [a] ++ [b]).length = leValue [l1, l2] + 2 by simp [hdata])
      (hvalue.symm ▸ hfit)
    rw [judge_eq hdata, hvalue, if_neg] at hwhole
    · rw [List.append_assoc] at hwhole
      exact hwhole
    · intro hsame
      obtain ⟨ha, hb⟩ := hsame
      exact hsums (Prod.ext ha.symm hb.symm)

/-- Positions of the class, the id and the payload in a frame. -/
def BodyPosition (n k : Nat) : Prop := k = 2 ∨ k = 3 ∨ (6 ≤ k ∧ k < n + 6)

/-- The frame `bytes`, of payload length `n`, with one byte of its class, id,
payload or checksum replaced by another value, or two of its class, id and
payload at an odd distance. -/
def Corrupted (n : Nat) (bytes altered : List UInt8) : Prop :=
  (∃ (k : Nat) (x : UInt8), (BodyPosition n k ∨ k = n + 6 ∨ k = n + 7) ∧ bytes[k]? ≠ some x ∧
    altered = bytes.set k x) ∨
  ∃ (j k : Nat) (x y : UInt8), BodyPosition n j ∧ BodyPosition n k ∧ j < k ∧ (k - j) % 2 = 1 ∧
    bytes[j]? ≠ some x ∧ bytes[k]? ≠ some y ∧ altered = (bytes.set j x).set k y

theorem BodyPosition.index {n k : Nat} (h : BodyPosition n k) :
    ∃ m, k = m + 2 ∧ m < n + 4 ∧ m ≠ 2 ∧ m ≠ 3 := by
  refine ⟨k - 2, ?_⟩
  rcases h with rfl | rfl | ⟨h6, hlt⟩
  · omega
  · omega
  · omega

section
open scoped UInt8.CommRing

/-- One changed byte changes the sums. -/
theorem sums_set {body : List UInt8} {m : Nat} {x : UInt8} (hlt : m < body.length)
    (hx : body[m]? ≠ some x) : Fletcher.sums (body.set m x) ≠ Fletcher.sums body := by
  intro heq
  refine Fletcher.sums_set_ne hlt (fun hsame => hx ?_) (congrArg Prod.fst heq)
  rw [List.getElem?_eq_getElem hlt, hsame]

/-- So do two at an odd distance. -/
theorem sums_set_set {body : List UInt8} {m m' : Nat} {x y : UInt8} (hlt : m < m')
    (hlt' : m' < body.length) (hodd : (m' - m) % 2 = 1) (hx : body[m]? ≠ some x) :
    Fletcher.sums ((body.set m x).set m' y) ≠ Fletcher.sums body := by
  refine Fletcher.sums_set_set_ne hlt hlt' (fun hsame => hx ?_) (isUnit_of_odd hodd)
  rw [List.getElem?_eq_getElem (Nat.lt_trans hlt hlt'), hsame]

end

theorem frame_set {body tail : List UInt8} {m : Nat} (hlt : m < body.length) (x : UInt8) :
    ([0xB5, 0x62] ++ body ++ tail).set (m + 2) x = [0xB5, 0x62] ++ body.set m x ++ tail := by
  rw [List.append_assoc, List.append_assoc]
  show 0xB5 :: 0x62 :: (body ++ tail).set m x = _
  rw [List.set_append_left _ _ hlt]
  rfl

theorem frame_getElem? {body tail : List UInt8} {m : Nat} (hlt : m < body.length) :
    ([0xB5, 0x62] ++ body ++ tail)[m + 2]? = body[m]? := by
  rw [List.append_assoc]
  show (body ++ tail)[m]? = _
  rw [List.getElem?_append_left hlt]

theorem frameBody_lengths (c i : UInt8) (payload : List UInt8) :
    (frameBody c i payload)[2]? = some (UInt8.ofNat payload.length) ∧
      (frameBody c i payload)[3]? = some (UInt8.ofNat (payload.length / 256)) :=
  ⟨rfl, rfl⟩

/-- Every such change is answered with a checksum error at the last byte. -/
theorem assembleAll_corrupted {capacity : Nat} {c i : UInt8} {payload altered : List UInt8}
    (hlen : payload.length ≤ 65535) (hfit : payload.length ≤ capacity)
    (halt : Corrupted payload.length (frameBytes c i payload) altered) :
    assembleAll capacity [] altered
      = (List.replicate (payload.length + 7) .inProgress ++ [.checksumError], []) := by
  have hbody := length_frameBody c i payload
  obtain ⟨hb2, hb3⟩ := frameBody_lengths c i payload
  have hpre : ([0xB5, 0x62] ++ frameBody c i payload).length = payload.length + 6 := by
    rw [List.length_append, hbody]
    exact Nat.add_comm ..
  unfold frameBytes at halt
  rcases halt with ⟨k, x, hk, hx, rfl⟩ | ⟨j, k, x, y, hj, hk, hjk, hodd, hx, hy, rfl⟩
  · rcases hk with hk | rfl | rfl
    · -- a byte of the body, and not of the length
      obtain ⟨m, rfl, hm, hm2, hm3⟩ := hk.index
      rw [← hbody] at hm
      rw [frame_getElem? hm] at hx
      rw [frame_set hm]
      refine assembleAll_bad hlen (by rw [List.length_set, hbody]) ?_ ?_ hfit (sums_set hm hx)
      · rw [List.getElem?_set_ne hm2, hb2]
      · rw [List.getElem?_set_ne hm3, hb3]
    · -- the first checksum byte
      rw [List.getElem?_append_right hpre.le, hpre, Nat.sub_self] at hx
      rw [List.set_append_right _ _ hpre.le, hpre, Nat.sub_self]
      exact assembleAll_bad hlen hbody hb2 hb3 hfit
        fun heq => hx (congrArg some (congrArg Prod.fst heq))
    · -- the second
      rw [List.getElem?_append_right (Nat.le_succ_of_le hpre.le), hpre,
        Nat.add_sub_cancel_left (payload.length + 6) 1] at hx
      rw [List.set_append_right _ _ (Nat.le_succ_of_le hpre.le), hpre,
        Nat.add_sub_cancel_left (payload.length + 6) 1]
      exact assembleAll_bad hlen hbody hb2 hb3 hfit
        fun heq => hx (congrArg some (congrArg Prod.snd heq))
  · -- two bytes of the body; the length bytes are still the frame's
    obtain ⟨m, rfl, hm, hm2, hm3⟩ := hj.index
    obtain ⟨m', rfl, hm', hm2', hm3'⟩ := hk.index
    rw [← hbody] at hm hm'
    rw [frame_getElem? hm] at hx
    rw [frame_set hm, frame_set (by rwa [List.length_set])]
    refine assembleAll_bad hlen ?_ ?_ ?_ hfit (sums_set_set (by omega) hm' (by omega) hx)
    · rw [List.length_set, List.length_set, hbody]
    · rw [List.getElem?_set_ne hm2', List.getElem?_set_ne hm2, hb2]
    · rw [List.getElem?_set_ne hm3', List.getElem?_set_ne hm3, hb3]

/-- **Corruption is detected.** A parser that hunts, and whose capacity holds the
payload, answers every byte of a frame so changed with `IN_PROGRESS`, the last
with `CHECKSUM_ERROR`, and hunts again: the frame is never reported. -/
theorem corruption_detected (hb : BufferInv p) (hs : p.state = .sync1) {c i : UInt8}
    {payload bytes altered : List UInt8} (henc : Encodes P c i payload bytes)
    (hfit : payload.length ≤ p.payloadCapacity) (halt : Corrupted payload.length bytes altered)
    {inputs : List (UInt8 × Option UbxFrame)} (hinputs : inputs.map Prod.fst = altered) :
    ∃ outs p', run (feedStep P) (some p) inputs = .ok (outs, some p') ∧
      outs.map Prod.fst
        = List.replicate (payload.length + 7) .inProgress ++ [.checksumError] ∧
      .frameComplete ∉ outs.map Prod.fst ∧ p'.state = .sync1 := by
  obtain ⟨hlen, rfl⟩ := encodes_eq henc
  have htrace := assembleAll_corrupted hlen hfit halt
  rw [← hinputs] at htrace
  obtain ⟨outs, p', hrun, ⟨hcodes, -⟩, hs'⟩ := run_last_report (P := P) hb hs (by simp) htrace
  rw [List.map_append, List.map_replicate] at hcodes
  refine ⟨outs, p', hrun, hcodes, ?_, hs'⟩
  rw [hcodes]
  intro hmem
  rcases List.mem_append.mp hmem with h | h
  · exact nomatch List.eq_of_mem_replicate h
  · exact nomatch List.mem_singleton.mp h

/-- The two payload bytes of a frame exchanged. -/
theorem corruption_detected_exchange :
    ∃ outs p', run (feedStep Platform.size32) (some zeroParser)
        (feeds (((frameBytes 5 1 [0x2A, 7]).set 6 7).set 7 0x2A) none) = .ok (outs, some p') ∧
      outs.map Prod.fst = List.replicate 9 .inProgress ++ [.checksumError] ∧
      .frameComplete ∉ outs.map Prod.fst ∧ p'.state = .sync1 :=
  have hlen : [0x2A, (7 : UInt8)].length ≤ 65535 := by simp
  have henc := encodes_frameBytes (P := Platform.size32) 5 1 hlen (by decide)
  have halt : Corrupted 2 (frameBytes 5 1 [0x2A, 7]) _ :=
    Or.inr ⟨6, 7, 7, 0x2A, Or.inr (Or.inr (by simp)), Or.inr (Or.inr (by simp)), by simp,
      by decide, by decide, by decide, rfl⟩
  corruption_detected zeroParser_buffer rfl henc (Nat.le_refl 2) halt (map_fst_feeds _ none)

end Ubx.Stream
