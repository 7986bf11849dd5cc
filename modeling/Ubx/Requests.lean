import Ubx.Cfg.RoundTrip
import Ubx.Cfg.Sessions
import Ubx.Lib.Words
import Ubx.Rxm.Pmreq
import Ubx.Telemetry

/-!
# From the builders to the wire

The other direction: what a host asks of a receiver. A `Request` is a batch of
settings, a VALGET request or a backup request. `builds_iff` says which of them
the builders build, into which buffers, and that what they build is the request's
payload. `payload_determines` says that the payload is the request, but for what
kind of value a setting was given as. `requests_arrive` takes them through the
encoder, a stream with noise, and the parser.
-/

namespace Ubx.Requests

open Lib Ubx.Stream Ubx.Cfg Ubx.Rxm

/-- What a host asks of a receiver. -/
inductive Request where
  | valset (layers : UInt8) (settings : List Setting)
  | valget (layer : UInt8) (position : UInt16) (keys : List UInt32)
  | backup (request : UbxRxmPmreqBackup)

/-- A buffer of all of these cells. -/
theorem whole_buffer (cells : List UInt8) :
    ∀ cells', some cells = some cells' → cells.length ≤ cells'.length := by
  intro cells' h
  cases h
  exact Nat.le_refl _

namespace Request

def messageClass : Request → UInt8
  | .valset _ _ => 0x06
  | .valget _ _ _ => 0x06
  | .backup _ => 0x02

def messageId : Request → UInt8
  | .valset _ _ => 0x8A
  | .valget _ _ _ => 0x8B
  | .backup _ => 0x41

def payload : Request → List UInt8
  | .valset layers settings => content layers settings
  | .valget layer position keys => request layer position keys
  | .backup request => backupPayload request

/-- What the checks of the builders ask of a request. -/
def Legal : Request → Prop
  | .valset layers settings =>
    LayersOk layers ∧ settings.length ≤ 64 ∧ ∀ setting ∈ settings, setting.Typed
  | .valget layer _ keys => layer ∈ [0, 1, 2, (7 : UInt8)] ∧ keys.length ≤ 64
  | .backup request => request.Legal

/-- All of the calls that build the request, into a buffer of these cells and with a
builder that had none before, return OK; they leave `payload` at its front. -/
def Builds (P : Platform) (cells payload : List UInt8) : Request → Prop
  | .valset layers settings => ∃ start results b built, start.buffer = none ∧
      run (valsetCall P) (some start)
        (.begin ⟨some cells, cells.length, layers, whole_buffer cells⟩ :: settings.map .add)
          = .ok (results, some b) ∧
      (∀ r ∈ results, r = .ok) ∧ b.buffer = some built ∧ payload = built.take b.length
  | .valget layer position keys => ∃ start results b built, start.buffer = none ∧
      run (requestCall P) (some start)
        (.begin ⟨some cells, cells.length, layer, position, whole_buffer cells⟩ :: keys.map .add)
          = .ok (results, some b) ∧
      (∀ r ∈ results, r = .ok) ∧ b.buffer = some built ∧ payload = built.take b.length
  | .backup request => ∃ old built n,
      ubxRxmPmreqBuildBackup (some request) (some cells) cells.length (some old)
        = .ok (.ok, some built, some n) ∧ payload = built.take n

end Request

/-! ## What is built -/

/-- Results that are all OK are no objections. -/
theorem all_ok_iff {objections : List (Option UbxCfgBuildResult)}
    (h : ∀ e, some e ∈ objections → e ≠ .ok) :
    (∀ r ∈ objections.map returned, r = .ok) ↔ ∀ r ∈ objections, r = none := by
  constructor
  · intro hall r hr
    cases r with
    | none => rfl
    | some e => exact absurd (hall _ (List.mem_map_of_mem hr)) (h e hr)
  · intro hall r hr
    obtain ⟨o, ho, rfl⟩ := List.mem_map.mp hr
    rw [hall o ho]
    rfl

theorem sound_iff (setting : Setting) : valsetRules.Sound setting ↔ setting.Typed := by
  unfold Rules.Sound Setting.Typed
  refine and_congr fault_eq_none ?_
  exact Rules.errorIf_eq_none.trans not_not

variable {P : Platform} {cells payload : List UInt8}

/-- The builder takes a batch of settings exactly when it is legal and there is room
for it. -/
theorem valset_whole (layers : UInt8) (settings : List Setting) :
    (valsetRules.bar ⟨some cells, cells.length, layers, whole_buffer cells⟩ = none ∧
      valsetRules.Within ⟨some cells, cells.length, layers, whole_buffer cells⟩ settings) ↔
    (Request.valset layers settings).Legal ∧ (content layers settings).length ≤ cells.length := by
  rw [valset_bar_iff, length_content_rules]
  constructor
  · intro htakes
    obtain ⟨⟨-, hlayers, -⟩, hwithin⟩ := htakes
    exact ⟨⟨hlayers, hwithin.count, fun s hs => (sound_iff s).mp (hwithin.sound s hs)⟩,
      hwithin.bytes⟩
  · intro hlegal
    obtain ⟨⟨hlayers, hcount, htyped⟩, hroom⟩ := hlegal
    have hheader : 4 ≤ valsetRules.bytes settings := Nat.le_add_right _ _
    exact ⟨⟨nofun, hlayers, Nat.le_trans hheader hroom⟩, hcount, hroom,
      fun s hs => (sound_iff s).mpr (htyped s hs)⟩

theorem valget_whole (layer : UInt8) (position : UInt16) (keys : List UInt32) :
    (requestRules.bar ⟨some cells, cells.length, layer, position, whole_buffer cells⟩ = none ∧
      requestRules.Within ⟨some cells, cells.length, layer, position, whole_buffer cells⟩ keys) ↔
    (Request.valget layer position keys).Legal ∧
      (request layer position keys).length ≤ cells.length := by
  rw [request_bar_iff, length_request, ← request_bytes]
  constructor
  · intro htakes
    obtain ⟨⟨-, hlayer, -⟩, hwithin⟩ := htakes
    exact ⟨⟨hlayer, hwithin.count⟩, hwithin.bytes⟩
  · intro hlegal
    obtain ⟨⟨hlayer, hcount⟩, hroom⟩ := hlegal
    have hheader : 4 ≤ requestRules.bytes keys := Nat.le_add_right _ _
    exact ⟨⟨nofun, hlayer, Nat.le_trans hheader hroom⟩, hcount, hroom,
      fun _ _ => ⟨rfl, rfl⟩⟩

/-- The calls for a batch of settings all return OK exactly when the builder takes it. -/
theorem valset_builds (P : Platform) (cells : List UInt8) (layers : UInt8)
    (settings : List Setting) (start : UbxCfgValsetBuilder) (hnull : start.buffer = none) :
    ∃ results b, run (valsetCall P) (some start)
        (.begin ⟨some cells, cells.length, layers, whole_buffer cells⟩ :: settings.map .add)
          = .ok (results, some b) ∧
      ((∀ r ∈ results, r = .ok) ↔ (Request.valset layers settings).Legal ∧
        (content layers settings).length ≤ cells.length) ∧
      ((∀ r ∈ results, r = .ok) →
        ∃ built, b.buffer = some built ∧ content layers settings = built.take b.length) := by
  obtain ⟨b, hrun, -, hholds⟩ := valset_session P start
    (.begin ⟨some cells, cells.length, layers, whole_buffer cells⟩ :: settings.map .add) hnull
  have hok := all_ok_iff fun _ => valsetRules_errors.trace
    (.begin ⟨some cells, cells.length, layers, whole_buffer cells⟩ :: settings.map .add) none
  refine ⟨_, b, hrun, ?_, fun hall => ?_⟩
  · rw [hok, valsetRules.whole_accepted_iff, valset_whole]
  · obtain ⟨_, -, hbuffer, hlength, -⟩ :=
      hholds _ _ (valsetRules.whole_accepted_end (hok.mp hall))
    refine ⟨_, hbuffer, ?_⟩
    rw [hlength, ← length_content_rules layers, List.take_left]

/-- So do those for a VALGET request. -/
theorem valget_builds (P : Platform) (cells : List UInt8) (layer : UInt8) (position : UInt16)
    (keys : List UInt32) (start : UbxCfgValgetBuilder) (hnull : start.buffer = none) :
    ∃ results b, run (requestCall P) (some start)
        (.begin ⟨some cells, cells.length, layer, position, whole_buffer cells⟩ :: keys.map .add)
          = .ok (results, some b) ∧
      ((∀ r ∈ results, r = .ok) ↔ (Request.valget layer position keys).Legal ∧
        (request layer position keys).length ≤ cells.length) ∧
      ((∀ r ∈ results, r = .ok) →
        ∃ built, b.buffer = some built ∧ request layer position keys = built.take b.length) := by
  obtain ⟨b, hrun, -, hholds⟩ := request_session P start
    (.begin ⟨some cells, cells.length, layer, position, whole_buffer cells⟩ :: keys.map .add) hnull
  have hok := all_ok_iff fun _ => requestRules_errors.trace
    (.begin ⟨some cells, cells.length, layer, position, whole_buffer cells⟩ :: keys.map .add) none
  refine ⟨_, b, hrun, ?_, fun hall => ?_⟩
  · rw [hok, requestRules.whole_accepted_iff, valget_whole]
  · obtain ⟨_, -, hbuffer, hlength, -⟩ :=
      hholds _ _ (requestRules.whole_accepted_end (hok.mp hall))
    refine ⟨_, hbuffer, ?_⟩
    rw [hlength, request_bytes, ← length_request layer position, List.take_left]

/-- **What the builders build**: the legal requests, in a buffer with room for their
payload, and nothing else but that payload. -/
theorem builds_iff (r : Request) :
    r.Builds P cells payload ↔
      r.Legal ∧ payload = r.payload ∧ r.payload.length ≤ cells.length := by
  cases r with
  | valset layers settings =>
    constructor
    · intro hbuilt
      obtain ⟨start, results, b, built, hnull, hrun, hall, hbuilt, rfl⟩ := hbuilt
      obtain ⟨results', b', hrun', hiff, hbuilds⟩ :=
        valset_builds P cells layers settings start hnull
      cases hrun.symm.trans hrun'
      obtain ⟨built', hbuilt', hpayload⟩ := hbuilds hall
      cases hbuilt.symm.trans hbuilt'
      exact ⟨(hiff.mp hall).1, hpayload.symm, (hiff.mp hall).2⟩
    · intro hlegal
      obtain ⟨hlegal, rfl, hroom⟩ := hlegal
      obtain ⟨results, b, hrun, hiff, hbuilds⟩ :=
        valset_builds P cells layers settings ⟨none, 0, 0, 0⟩ rfl
      obtain ⟨built, hbuilt, hpayload⟩ := hbuilds (hiff.mpr ⟨hlegal, hroom⟩)
      exact ⟨_, results, b, built, rfl, hrun, hiff.mpr ⟨hlegal, hroom⟩, hbuilt, hpayload⟩
  | valget layer position keys =>
    constructor
    · intro hbuilt
      obtain ⟨start, results, b, built, hnull, hrun, hall, hbuilt, rfl⟩ := hbuilt
      obtain ⟨results', b', hrun', hiff, hbuilds⟩ :=
        valget_builds P cells layer position keys start hnull
      cases hrun.symm.trans hrun'
      obtain ⟨built', hbuilt', hpayload⟩ := hbuilds hall
      cases hbuilt.symm.trans hbuilt'
      exact ⟨(hiff.mp hall).1, hpayload.symm, (hiff.mp hall).2⟩
    · intro hlegal
      obtain ⟨hlegal, rfl, hroom⟩ := hlegal
      obtain ⟨results, b, hrun, hiff, hbuilds⟩ :=
        valget_builds P cells layer position keys ⟨none, 0, 0, 0⟩ rfl
      obtain ⟨built, hbuilt, hpayload⟩ := hbuilds (hiff.mpr ⟨hlegal, hroom⟩)
      exact ⟨_, results, b, built, rfl, hrun, hiff.mpr ⟨hlegal, hroom⟩, hbuilt, hpayload⟩
  | backup request =>
    constructor
    · intro hbuilt
      obtain ⟨old, built, n, hbuild, rfl⟩ := hbuilt
      by_cases h : 16 ≤ cells.length ∧ request.Legal
      · rw [backup_accepts (Nat.le_refl _) h.1 h.2] at hbuild
        cases hbuild
        exact ⟨h.2, take_written cells (backupPayload request), h.1⟩
      · obtain ⟨r, hr, hrefuses⟩ := @backup_refuses cells _ old _ h
        cases hbuild.symm.trans hrefuses
        exact absurd rfl hr
    · intro hlegal
      obtain ⟨hlegal, rfl, hroom⟩ := hlegal
      have hbuild := @backup_accepts cells _ 0 _ (Nat.le_refl _) hroom hlegal
      exact ⟨0, _, 16, hbuild, (take_written cells (backupPayload request)).symm⟩

/-! ## The payload is the request -/

/-- What of a setting goes on the wire. -/
def wireSetting (setting : Setting) : UInt32 × List UInt8 := (setting.key, setting.value.bytes)

/-- The same request, but for the kinds that values were given as. -/
def Request.Same : Request → Request → Prop
  | .valset layers settings, .valset layers' settings' =>
    layers = layers' ∧ settings.map wireSetting = settings'.map wireSetting
  | .valget layer position keys, .valget layer' position' keys' =>
    layer = layer' ∧ position = position' ∧ keys = keys'
  | .backup request, .backup request' => request = request'
  | _, _ => False

theorem items_delimited : SelfDelimiting Item.bytes where
  spell_ne item := List.ne_nil_of_length_pos (by rw [item.length_bytes]; omega)
  word_eq h := (Item.bytes_inj h).1

theorem keys_delimited : SelfDelimiting fun key : UInt32 => leBytes 4 key.toNat where
  spell_ne key := List.ne_nil_of_length_pos (by rw [length_leBytes]; omega)
  word_eq {key key' _ _} h := by
    have hbytes := (List.append_inj h (by rw [length_leBytes, length_leBytes])).1
    exact UInt32.toNat_inj.mp (leBytes_inj key.toNat_lt key'.toNat_lt hbytes)

/-- The items of settings are what goes on the wire. -/
theorem itemsOf_wire (settings : List Setting) (h : ∀ setting ∈ settings, setting.Typed) :
    (itemsOf settings h).map (fun item => (item.key, item.value)) = settings.map wireSetting := by
  unfold itemsOf
  rw [List.map_pmap]
  exact @List.pmap_eq_map _ _ Setting.Typed wireSetting settings h

theorem content_determines {layers layers' : UInt8} {settings settings' : List Setting}
    (h : ∀ setting ∈ settings, setting.Typed) (h' : ∀ setting ∈ settings', setting.Typed)
    (heq : content layers settings = content layers' settings') :
    layers = layers' ∧ settings.map wireSetting = settings'.map wireSetting := by
  unfold content at heq
  obtain ⟨hheader, hitems⟩ := List.append_inj heq rfl
  have hlayers : layers = layers' := by simpa using hheader
  rw [← itemsOf_bytes settings h, ← itemsOf_bytes settings' h'] at hitems
  have hsame := words_unique items_delimited hitems
  refine ⟨hlayers, ?_⟩
  rw [← itemsOf_wire settings h, ← itemsOf_wire settings' h', hsame]

theorem request_determines {layer layer' : UInt8} {position position' : UInt16}
    {keys keys' : List UInt32}
    (heq : request layer position keys = request layer' position' keys') :
    layer = layer' ∧ position = position' ∧ keys = keys' := by
  unfold request at heq
  obtain ⟨hfront, hkeys⟩ := List.append_inj heq rfl
  obtain ⟨hheader, hposition⟩ := List.append_inj hfront rfl
  have hlayer : layer = layer' := by simpa using hheader
  refine ⟨hlayer, ?_, words_unique keys_delimited hkeys⟩
  exact UInt16.toNat_inj.mp (leBytes_inj position.toNat_lt position'.toNat_lt hposition)

/-- **The payload is the request**, among legal requests. -/
theorem payload_determines {r r' : Request} (h : r.Legal) (h' : r'.Legal)
    (hid : r.messageId = r'.messageId) (hpayload : r.payload = r'.payload) : r.Same r' := by
  cases r with
  | valset layers settings =>
    cases r' with
    | valset layers' settings' => exact content_determines h.2.2 h'.2.2 hpayload
    | valget => cases hid
    | backup => cases hid
  | valget layer position keys =>
    cases r' with
    | valset => cases hid
    | valget layer' position' keys' => exact request_determines hpayload
    | backup => cases hid
  | backup request =>
    cases r' with
    | valset => cases hid
    | valget => cases hid
    | backup request' => exact backupPayload_inj h h' hpayload

/-! ## Streams of requests -/

def Request.delivered (r : Request) : Delivered :=
  ⟨r.messageClass, r.messageId, UInt16.ofNat r.payload.length, r.payload⟩

/-- The frame is the request's, and no other legal request's. -/
def Asks (frame : UbxFrame) (r : Request) : Prop :=
  frame.delivered = r.delivered ∧
    ∀ r' : Request, r'.Legal → r'.messageId = frame.messageId →
      r'.payload = frame.delivered.payload → r'.Same r

theorem asks_of_delivered {frame : UbxFrame} {r : Request} (h : r.Legal)
    (hdelivered : frame.delivered = r.delivered) : Asks frame r := by
  refine ⟨hdelivered, ?_⟩
  intro r' h' hid hpayload
  have hid' : frame.messageId = r.messageId := congrArg Delivered.messageId hdelivered
  have hpayload' : frame.delivered.payload = r.payload := congrArg Delivered.payload hdelivered
  exact payload_determines h' h (hid.trans hid') (hpayload.trans hpayload')

/-- Requests that were built are legal, and what was built are their payloads. -/
theorem built_payloads {requests : List Request} {payloads : List (List UInt8)}
    (h : List.Forall₂ (fun r payload => ∃ cells, r.Builds P cells payload) requests payloads) :
    payloads = requests.map Request.payload ∧ ∀ r ∈ requests, r.Legal := by
  induction h with
  | nil => exact ⟨rfl, fun _ hr => nomatch hr⟩
  | cons hhead _ ih =>
    obtain ⟨cells, hbuilds⟩ := hhead
    obtain ⟨hlegal, rfl, -⟩ := builds_iff _ |>.mp hbuilds
    obtain ⟨rfl, hrest⟩ := ih
    refine ⟨rfl, fun r hr => ?_⟩
    rcases List.mem_cons.mp hr with rfl | hr
    · exact hlegal
    · exact hrest r hr

/-- **Requests arrive.** The builders build the legal requests, in any buffer with
room for them, and no others. Requests that were built, encoded and sent with noise
between them to a parser whose buffer holds them are delivered as one frame each,
in order, and of all legal requests the frame is that one's alone. -/
theorem requests_arrive (P : Platform) :
    (∀ (r : Request) (cells payload : List UInt8), r.Builds P cells payload ↔
      r.Legal ∧ payload = r.payload ∧ r.payload.length ≤ cells.length) ∧
    ∀ (p : UbxParser) (requests : List Request) (payloads : List (List UInt8))
        (segments : List Segment) (inputs : List (UInt8 × Option UbxFrame)),
      17 ≤ P.sizeBits → BufferInv p → p.state = .sync1 →
      List.Forall₂ (fun r payload => ∃ cells, r.Builds P cells payload) requests payloads →
      (∀ payload ∈ payloads, payload.length ≤ p.payloadCapacity) →
      (∀ segment ∈ segments, segment.Valid P) → segments.IsChain Segment.Apart →
      segments.filterMap Decode.carried = List.zipWith
        (fun r payload => (r.messageClass, r.messageId, payload)) requests payloads →
      inputs.map Prod.fst = segments.flatMap Segment.bytes →
      (∀ input ∈ inputs, input.2.isSome) →
      ∃ outs p', run (feedStep P) (some p) inputs = .ok (outs, some p') ∧
        List.Forall₂ Asks (Decode.deliveredFrames outs) requests := by
  refine ⟨fun r cells payload => builds_iff r, ?_⟩
  intro p requests payloads segments inputs hP hb hs hbuilt hfit hvalid hapart hcarried hinputs
    hframes
  obtain ⟨rfl, hlegal⟩ := built_payloads hbuilt
  have htriples : segments.filterMap Decode.carried
      = requests.map fun r => (r.messageClass, r.messageId, r.payload) := by
    rw [hcarried, List.zipWith_map_right, List.zipWith_self]
  obtain ⟨outs, p', hrun, hsent⟩ :=
    Decode.stream_delivers hP hb hs hvalid hapart hinputs hframes
  have hfits : ∀ c i payload, (c, i, payload) ∈ segments.filterMap Decode.carried →
      payload.length ≤ p.payloadCapacity := by
    intro c i payload hmem
    rw [htriples] at hmem
    obtain ⟨r, hr, heq⟩ := List.mem_map.mp hmem
    cases heq
    exact hfit _ (List.mem_map_of_mem hr)
  have hdelivered : (Decode.deliveredFrames outs).map UbxFrame.delivered
      = requests.map Request.delivered := by
    rw [hsent, Decode.sent_carried hfits, htriples, List.map_map]
    rfl
  have hpairs : List.Forall₂ (fun frame r => frame.delivered = Request.delivered r)
      (Decode.deliveredFrames outs) requests := Decode.pairs_of_map hdelivered
  refine ⟨outs, p', hrun, List.forall₂_iff_zip.mpr ⟨hpairs.length_eq, fun hzip => ?_⟩⟩
  exact asks_of_delivered (hlegal _ (List.of_mem_zip hzip).2)
    ((List.forall₂_iff_zip.mp hpairs).2 hzip)

/-- A setting for the RAM, and a request for its key, in buffers of nine cells. -/
theorem requests_arrive_two :
    ∃ outs p', run (feedStep Platform.size32) (some ⟨.sync1, some (List.replicate 9 0), 9, 0, 0, 0,
          0, 0, 0, 0, 0⟩)
        (feeds (frameBytes 6 0x8A [0, 1, 0, 0, 1, 0, 0, 0x20, 3] ++ [0]
          ++ frameBytes 6 0x8B [0, 0, 0, 0, 1, 0, 0, 0x20]) (some ⟨0, 0, 0, none⟩))
          = .ok (outs, some p') ∧
      List.Forall₂ Asks (Decode.deliveredFrames outs)
        [.valset 1 [⟨0x20000001, .u1 3⟩], .valget 0 0 [0x20000001]] := by
  obtain ⟨hbuilds, harrive⟩ := requests_arrive Platform.size32
  have hvalset : (Request.valset 1 [⟨0x20000001, .u1 3⟩]).Legal := by
    refine ⟨⟨Nat.le_refl 1, by simp⟩, by simp, fun setting hsetting => ?_⟩
    rw [List.mem_singleton.mp hsetting]
    exact ⟨trivial, rfl⟩
  have hvalget : (Request.valget 0 0 [0x20000001]).Legal := ⟨by simp, by simp⟩
  have hbuilt : List.Forall₂
      (fun r payload => ∃ cells, Request.Builds Platform.size32 cells payload r)
      [.valset 1 [⟨0x20000001, .u1 3⟩], .valget 0 0 [0x20000001]]
      [[0, 1, 0, 0, 1, 0, 0, 0x20, 3], [0, 0, 0, 0, 1, 0, 0, 0x20]] :=
    .cons ⟨List.replicate 9 0, (hbuilds _ _ _).mpr ⟨hvalset, rfl, Nat.le_refl 9⟩⟩
      (.cons ⟨List.replicate 9 0, (hbuilds _ _ _).mpr ⟨hvalget, rfl, Nat.le_succ 8⟩⟩ .nil)
  have hfit : ∀ payload ∈ [[0, 1, 0, 0, 1, 0, 0, 0x20, (3 : UInt8)], [0, 0, 0, 0, 1, 0, 0, 0x20]],
      payload.length ≤ 9 := by
    simp
  have hvalid : ∀ segment ∈ [Segment.encoded 6 0x8A [0, 1, 0, 0, 1, 0, 0, 0x20, 3]
        (frameBytes 6 0x8A [0, 1, 0, 0, 1, 0, 0, 0x20, 3]), .noise [0],
      .encoded 6 0x8B [0, 0, 0, 0, 1, 0, 0, 0x20] (frameBytes 6 0x8B [0, 0, 0, 0, 1, 0, 0, 0x20])],
      segment.Valid Platform.size32 := by
    intro segment hsegment
    rcases List.mem_cons.mp hsegment with rfl | hsegment
    · exact encodes_frameBytes 6 0x8A (by simp) (by simp [Platform.size32])
    · rcases List.mem_cons.mp hsegment with rfl | hsegment
      · rintro (_ | k) ⟨hfirst, hsecond⟩
        · cases hsecond
        · cases hfirst
      · rw [List.mem_singleton.mp hsegment]
        exact encodes_frameBytes 6 0x8B (by simp) (by simp [Platform.size32])
  have hbuffer : BufferInv ⟨.sync1, some (List.replicate 9 0), 9, 0, 0, 0, 0, 0, 0, 0, 0⟩ := by
    refine ⟨nofun, fun cells hcells => ?_⟩
    cases hcells
    exact Nat.le_refl 9
  exact harrive _ _ _ _ _ (by simp [Platform.size32]) hbuffer rfl hbuilt hfit hvalid
    (by simp [Segment.Apart]) rfl (map_fst_feeds _ (some ⟨0, 0, 0, none⟩)) (feeds_isSome _ _)

end Ubx.Requests
