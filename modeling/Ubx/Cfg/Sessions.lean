import Ubx.Cfg.Request
import Ubx.Cfg.Valset
import Ubx.Lib.Batch

/-!
# Sessions with the two builders

What the VALSET and the VALGET request builder are for is the same: a batch of
items within bounds. `valsetRules` and `requestRules` say which bounds, and with
which results a begin or an item is refused; nothing of them knows of a buffer,
of counters or of the width of `size_t`.

`valset_step` and `request_step` are one call, of a begin or of an adder.
`builders_refine` is every session: begins that succeed or fail, on any buffers,
with adders in between, before and after.
-/

namespace Ubx.Cfg

open Lib

/-! ## The rules -/

/-- A call of `ubx_cfg_valset_begin`, with a buffer that has the cells it is said
to have. -/
structure ValsetBegin where
  buffer : Option (List UInt8)
  capacity : Nat
  layers : UInt8
  cells : ∀ cells, buffer = some cells → capacity ≤ cells.length

/-- A call of `ubx_cfg_valget_begin`. -/
structure ValgetBegin where
  buffer : Option (List UInt8)
  capacity : Nat
  layer : UInt8
  position : UInt16
  cells : ∀ cells, buffer = some cells → capacity ≤ cells.length

/-- Why a begin is refused. -/
def barred (buffer : Option (List UInt8)) (layerOk : Prop) [Decidable layerOk] (capacity : Nat) :
    Option UbxCfgBuildResult :=
  (errorIf (buffer = none) .nullArgument).or
    ((errorIf (¬ layerOk) .invalidLayer).or (errorIf (capacity < 4) .bufferTooSmall))

theorem barred_eq_none {buffer : Option (List UInt8)} {layerOk : Prop} [Decidable layerOk]
    {capacity : Nat} :
    barred buffer layerOk capacity = none ↔ buffer ≠ none ∧ layerOk ∧ 4 ≤ capacity := by
  unfold barred
  rw [Option.or_eq_none_iff, Option.or_eq_none_iff, Rules.errorIf_eq_none, Rules.errorIf_eq_none,
    Rules.errorIf_eq_none, not_not, Nat.not_lt]

/-- A set of RAM, BBR and flash that is not empty. -/
def LayersOk (layers : UInt8) : Prop := 1 ≤ layers.toNat ∧ layers.toNat ≤ 7

instance (layers : UInt8) : Decidable (LayersOk layers) :=
  inferInstanceAs (Decidable (_ ∧ _))

/-- A value that no key takes. -/
def Value.fault : Value → Option UbxCfgBuildResult
  | .l value => errorIf (1 < value.toNat) .invalidValue
  | _ => none

def valsetRules : Rules ValsetBegin Setting UbxCfgBuildResult where
  bar b := barred b.buffer (LayersOk b.layers) b.capacity
  capacity := ValsetBegin.capacity
  header := 4
  limit := 64
  size setting := setting.bytes.length
  fault setting := setting.value.fault
  clash setting := errorIf (keyClass setting.key ≠ setting.value.keyClass) .keyTypeMismatch
  idle := .invalidState
  full := .tooManyItems
  short := .bufferTooSmall
  room _ h := (barred_eq_none.mp h).2.2

def requestRules : Rules ValgetBegin UInt32 UbxCfgBuildResult where
  bar b := barred b.buffer (b.layer ∈ [0, 1, 2, (7 : UInt8)]) b.capacity
  capacity := ValgetBegin.capacity
  header := 4
  limit := 64
  size _ := 4
  fault _ := none
  clash _ := none
  idle := .invalidState
  full := .tooManyItems
  short := .bufferTooSmall
  room _ h := (barred_eq_none.mp h).2.2

theorem valset_bar_iff {b : ValsetBegin} :
    valsetRules.bar b = none ↔ b.buffer ≠ none ∧ LayersOk b.layers ∧ 4 ≤ b.capacity := by
  show barred b.buffer (LayersOk b.layers) b.capacity = none ↔ _
  exact barred_eq_none

theorem request_bar_iff {b : ValgetBegin} :
    requestRules.bar b = none ↔
      b.buffer ≠ none ∧ b.layer ∈ [0, 1, 2, (7 : UInt8)] ∧ 4 ≤ b.capacity := by
  show barred b.buffer (b.layer ∈ [0, 1, 2, (7 : UInt8)]) b.capacity = none ↔ _
  exact barred_eq_none

/-! ## Sessions -/

/-- A call in a session with a VALSET builder. -/
def valsetCall (P : Platform) (builder : Option UbxCfgValsetBuilder) :
    BatchCall ValsetBegin Setting → Run (UbxCfgBuildResult × Option UbxCfgValsetBuilder)
  | .begin b => do
    let (result, builder, _) ← ubxCfgValsetBegin builder b.buffer b.capacity b.layers
    return (result, builder)
  | .add setting => ubxCfgValsetAdd P builder setting

/-- A call in a session with a VALGET request builder. -/
def requestCall (P : Platform) (builder : Option UbxCfgValgetBuilder) :
    BatchCall ValgetBegin UInt32 → Run (UbxCfgBuildResult × Option UbxCfgValgetBuilder)
  | .begin b => do
    let (result, builder, _) ← ubxCfgValgetBegin builder b.buffer b.capacity b.layer b.position
    return (result, builder)
  | .add key => ubxCfgValgetAddKey P builder key

/-- What a call returns: the objection, if there is one. -/
def returned (objection : Option UbxCfgBuildResult) : UbxCfgBuildResult := objection.getD .ok

/-- The builder holds the batch; until one is begun it is what it was. -/
def ValsetHolds (start : UbxCfgValsetBuilder) (builder : Option UbxCfgValsetBuilder) :
    Option (ValsetBegin × List Setting) → Prop
  | none => builder = some start
  | some (begun, settings) => ∃ b cells, builder = some b ∧ begun.buffer = some cells ∧
      Built cells begun.capacity begun.layers settings b

def RequestHolds (start : UbxCfgValgetBuilder) (builder : Option UbxCfgValgetBuilder) :
    Option (ValgetBegin × List UInt32) → Prop
  | none => builder = some start
  | some (begun, keys) => ∃ b cells, builder = some b ∧ begun.buffer = some cells ∧
      Requested cells begun.capacity begun.layer begun.position keys b

/-! ## Begins -/

/-- The first of the three objections. -/
theorem barred_eq_some {buffer : Option (List UInt8)} {layerOk : Prop} [Decidable layerOk]
    {capacity : Nat} {e : UbxCfgBuildResult} (h : barred buffer layerOk capacity = some e) :
    (buffer = none ∧ e = .nullArgument) ∨
    (buffer ≠ none ∧ ¬ layerOk ∧ e = .invalidLayer) ∨
    (buffer ≠ none ∧ layerOk ∧ capacity < 4 ∧ e = .bufferTooSmall) := by
  unfold barred at h
  rcases Option.or_eq_some_iff.mp h with h | ⟨hbuffer, h⟩
  · obtain ⟨hnull, rfl⟩ := Rules.errorIf_eq_some.mp h
    exact Or.inl ⟨hnull, rfl⟩
  · have hthere := Rules.errorIf_eq_none.mp hbuffer
    rcases Option.or_eq_some_iff.mp h with h | ⟨hlayer, h⟩
    · obtain ⟨hbad, rfl⟩ := Rules.errorIf_eq_some.mp h
      exact Or.inr (Or.inl ⟨hthere, hbad, rfl⟩)
    · obtain ⟨hshort, rfl⟩ := Rules.errorIf_eq_some.mp h
      exact Or.inr (Or.inr ⟨hthere, not_not.mp (Rules.errorIf_eq_none.mp hlayer), hshort, rfl⟩)

theorem barred_ne {buffer : Option (List UInt8)} {layerOk : Prop} [Decidable layerOk]
    {capacity : Nat} {e : UbxCfgBuildResult} (h : barred buffer layerOk capacity = some e) :
    e ≠ .ok := by
  rcases barred_eq_some h with ⟨-, rfl⟩ | ⟨-, -, rfl⟩ | ⟨-, -, -, rfl⟩
  · exact nofun
  · exact nofun
  · exact nofun

theorem requestRules_errors : requestRules.Errors (· ≠ .ok) :=
  ⟨fun _ _ h => barred_ne h, nofun, nofun, nofun, nofun, nofun⟩

/-- The mask test of `ubx_cfg_valset_begin`. -/
theorem layers_mask (layers : UInt8) :
    layers = 0 ∨ layers &&& ~~~(0x07 : UInt8) ≠ 0 ↔ ¬ LayersOk layers := by
  have hall : ∀ n : Fin 256, UInt8.ofNat n.val = 0 ∨
      UInt8.ofNat n.val &&& ~~~(0x07 : UInt8) ≠ 0 ↔ ¬ (1 ≤ n.val ∧ n.val ≤ 7) := by
    decide +kernel
  have hone := hall ⟨layers.toNat, layers.toNat_lt⟩
  rwa [UInt8.ofNat_toNat] at hone

theorem valsetBegin_barred {b : ValsetBegin} {e : UbxCfgBuildResult}
    (h : valsetRules.bar b = some e) (builder : UbxCfgValsetBuilder) :
    ubxCfgValsetBegin (some builder) b.buffer b.capacity b.layers
      = .ok (e, some builder, b.buffer) := by
  unfold ubxCfgValsetBegin
  rcases barred_eq_some h with ⟨hnull, rfl⟩ | ⟨hthere, hbad, rfl⟩ | ⟨hthere, hlayers, hshort, rfl⟩
  · rw [hnull]
    rfl
  · obtain ⟨cells, hcells⟩ := Option.ne_none_iff_exists'.mp hthere
    rw [hcells, if_neg (by simp), if_pos ((layers_mask _).mpr hbad)]
    rfl
  · obtain ⟨cells, hcells⟩ := Option.ne_none_iff_exists'.mp hthere
    rw [hcells, if_neg (by simp), if_neg (fun hbad => (layers_mask _).mp hbad hlayers),
      if_pos hshort]
    rfl

theorem valsetBegin_begins {b : ValsetBegin} (h : valsetRules.bar b = none)
    (builder : UbxCfgValsetBuilder) :
    ∃ cells b₀ buffer', b.buffer = some cells ∧
      ubxCfgValsetBegin (some builder) b.buffer b.capacity b.layers
        = .ok (.ok, some b₀, buffer') ∧
      Built cells b.capacity b.layers [] b₀ := by
  obtain ⟨hthere, hlayers, hroom⟩ := valset_bar_iff.mp h
  obtain ⟨cells, hcells⟩ := Option.ne_none_iff_exists'.mp hthere
  have hfit := b.cells cells hcells
  have hbegin : ∃ b₀ buffer', ubxCfgValsetBegin (some builder) (some cells) b.capacity b.layers
      = .ok (.ok, some b₀, buffer') := by
    unfold ubxCfgValsetBegin
    rw [if_neg (by simp), if_neg (fun hbad => (layers_mask _).mp hbad hlayers),
      if_neg (Nat.not_lt.mpr hroom), ← written_nil cells,
      store_written (by rfl) (by omega), ok_bind, store_written (by rfl) (by omega), ok_bind,
      store_written (by rfl) (by omega), ok_bind, store_written (by rfl) (by omega), ok_bind]
    exact ⟨_, _, rfl⟩
  obtain ⟨b₀, buffer', hbegin⟩ := hbegin
  rw [hcells]
  exact ⟨cells, b₀, buffer', rfl, hbegin, begin_ok hfit hbegin⟩

theorem layer_valid (layer : UInt8) :
    ubxCfgValgetLayerIsValid layer = false ↔ ¬ layer ∈ [0, 1, 2, (7 : UInt8)] := by
  unfold ubxCfgValgetLayerIsValid
  simp

theorem requestBegin_barred {b : ValgetBegin} {e : UbxCfgBuildResult}
    (h : requestRules.bar b = some e) (builder : UbxCfgValgetBuilder) :
    ubxCfgValgetBegin (some builder) b.buffer b.capacity b.layer b.position
      = .ok (e, some builder, b.buffer) := by
  unfold ubxCfgValgetBegin
  rcases barred_eq_some h with ⟨hnull, rfl⟩ | ⟨hthere, hbad, rfl⟩ | ⟨hthere, hlayer, hshort, rfl⟩
  · rw [hnull]
    rfl
  · obtain ⟨cells, hcells⟩ := Option.ne_none_iff_exists'.mp hthere
    rw [hcells, if_neg (by simp), if_pos ((layer_valid _).mpr hbad)]
    rfl
  · obtain ⟨cells, hcells⟩ := Option.ne_none_iff_exists'.mp hthere
    rw [hcells, if_neg (by simp), if_neg (fun hbad => (layer_valid _).mp hbad hlayer),
      if_pos hshort]
    rfl

theorem requestBegin_begins {b : ValgetBegin} (h : requestRules.bar b = none)
    (builder : UbxCfgValgetBuilder) :
    ∃ cells b₀ buffer', b.buffer = some cells ∧
      ubxCfgValgetBegin (some builder) b.buffer b.capacity b.layer b.position
        = .ok (.ok, some b₀, buffer') ∧
      Requested cells b.capacity b.layer b.position [] b₀ := by
  obtain ⟨hthere, hlayer, hroom⟩ := request_bar_iff.mp h
  obtain ⟨cells, hcells⟩ := Option.ne_none_iff_exists'.mp hthere
  have hfit := b.cells cells hcells
  have hbegin : ∃ b₀ buffer',
      ubxCfgValgetBegin (some builder) (some cells) b.capacity b.layer b.position
        = .ok (.ok, some b₀, buffer') := by
    unfold ubxCfgValgetBegin
    rw [if_neg (by simp), if_neg (fun hbad => (layer_valid _).mp hbad hlayer),
      if_neg (Nat.not_lt.mpr hroom), ← written_nil cells, store_written (by rfl) (by omega),
      ok_bind, store_written (by rfl) (by omega), ok_bind,
      ubxWriteU16Le_written (by rfl) (by omega), ok_bind]
    exact ⟨_, _, rfl⟩
  obtain ⟨b₀, buffer', hbegin⟩ := hbegin
  rw [hcells]
  exact ⟨cells, b₀, buffer', rfl, hbegin, requestBegin_ok hfit hbegin⟩

/-! ## Adders -/

variable {P : Platform} {cells : List UInt8} {capacity : Nat}

/-- Only a logical value can have a fault. -/
theorem fault_eq_none {value : Value} : value.fault = none ↔ value.Legal := by
  cases value with
  | l value =>
    show errorIf (1 < value.toNat) _ = none ↔ value = 0 ∨ value = 1
    rw [Rules.errorIf_eq_none, Nat.not_lt, Nat.le_one_iff_eq_zero_or_eq_one]
    exact or_congr (@UInt8.toNat_inj value 0) (@UInt8.toNat_inj value 1)
  | _ => exact ⟨fun _ => trivial, fun _ => rfl⟩

theorem fault_eq_some {value : Value} {e : UbxCfgBuildResult} (h : value.fault = some e) :
    ¬ value.Legal ∧ e = .invalidValue := by
  refine ⟨fun hlegal => ?_, ?_⟩
  · rw [fault_eq_none.mpr hlegal] at h
    cases h
  · cases value with
    | l value => exact (Rules.errorIf_eq_some.mp h).2.symm
    | _ => exact nomatch h

theorem valsetRules_errors : valsetRules.Errors (· ≠ .ok) := by
  refine ⟨fun _ _ h => barred_ne h, fun _ _ h => ?_, fun _ _ h => ?_, nofun, nofun, nofun⟩
  · rw [(fault_eq_some h).2]
    exact nofun
  · rw [← (Rules.errorIf_eq_some.mp h).2]
    exact nofun

/-- Nothing can be added before a batch is begun. -/
theorem add_idle {b : UbxCfgValsetBuilder} (hnull : b.buffer = none) (setting : Setting) :
    ubxCfgValsetAdd P (some b) setting
      = .ok (returned (setting.value.fault.or (some .invalidState)), some b) := by
  cases hfault : setting.value.fault with
  | some e =>
    obtain ⟨hillegal, rfl⟩ := fault_eq_some hfault
    exact ubxCfgValsetAdd_illegal _ hillegal
  | none =>
    rw [ubxCfgValsetAdd_legal _ (fault_eq_none.mp hfault)]
    unfold ubxCfgValsetAddRaw
    simp only [hnull]
    rfl

theorem length_content_rules (layers : UInt8) (settings : List Setting) :
    (content layers settings).length = valsetRules.bytes settings := by
  unfold content Rules.bytes
  rw [List.length_append, List.length_flatMap]
  rfl

/-- **An objection is the result**, and nothing changes. -/
theorem add_objects {layers : UInt8} {settings : List Setting} {b : UbxCfgValsetBuilder}
    (hb : Built cells capacity layers settings b) {setting : Setting} {e : UbxCfgBuildResult}
    (h : valsetRules.verdict capacity settings setting = some e) :
    ubxCfgValsetAdd P (some b) setting = .ok (e, some b) := by
  unfold Rules.verdict at h
  rcases Option.or_eq_some_iff.mp h with h | ⟨hfault, h⟩
  · obtain ⟨hillegal, rfl⟩ := fault_eq_some h
    exact ubxCfgValsetAdd_illegal _ hillegal
  · have hlength := hb.length_eq.trans (length_content_rules layers settings)
    have hwidth := setting.value.bytes_width
    have h8 := (classWidth_pos hwidth).2
    rw [ubxCfgValsetAdd_legal _ (fault_eq_none.mp hfault)]
    unfold ubxCfgValsetAddRaw
    simp only [hb.buffer, hb.capacity_eq, ubxCfgKeyStorage_eq, valueLength_toNat hwidth,
      Option.isNone_some, Bool.false_eq_true, if_false]
    rw [if_neg (Nat.not_lt.mpr hb.fits)]
    rcases Option.or_eq_some_iff.mp h with h | ⟨hplace, h⟩
    · -- as many items as there may be
      obtain ⟨hfull, rfl⟩ := Rules.errorIf_eq_some.mp h
      have hcount : b.itemCount ≥ 64 := UInt8.le_iff_toNat_le.mpr (hb.count ▸ hfull)
      rw [if_pos hcount]
      rfl
    · have hplace' := Rules.errorIf_eq_none.mp hplace
      have hcount : ¬ b.itemCount ≥ 64 := fun hge =>
        hplace' (hb.count ▸ UInt8.le_iff_toNat_le.mp hge)
      rw [if_neg hcount]
      rcases Option.or_eq_some_iff.mp h with h | ⟨hclash, h⟩
      · obtain ⟨hclass, rfl⟩ := Rules.errorIf_eq_some.mp h
        rw [if_pos fun heq => hclass (ofValue_inj.mp heq)]
        rfl
      · -- the key goes with the value, so the item is too long
        obtain ⟨hshort, rfl⟩ := Rules.errorIf_eq_some.mp h
        have hclass := not_not.mp (Rules.errorIf_eq_none.mp hclash)
        have hsize : valsetRules.size setting = 4 + setting.value.bytes.length :=
          setting.length_bytes
        rw [hclass, if_neg (not_not.mpr rfl), valueLength_eq hwidth, if_neg (not_not.mpr rfl),
          P.sizeAdd_small (by omega), if_pos (by omega)]
        rfl

/-- Without an objection the setting is added. -/
theorem add_adds (hcells : capacity ≤ cells.length) {layers : UInt8} {settings : List Setting}
    {b : UbxCfgValsetBuilder} (hb : Built cells capacity layers settings b) {setting : Setting}
    (h : valsetRules.verdict capacity settings setting = none) :
    ∃ b', ubxCfgValsetAdd P (some b) setting = .ok (.ok, some b') ∧
      Built cells capacity layers (settings ++ [setting]) b' := by
  obtain ⟨⟨hfault, hclash⟩, hcount, hroom⟩ := valsetRules.verdict_eq_none.mp h
  have hlength := hb.length_eq.trans (length_content_rules layers settings)
  have hsize : valsetRules.size setting = 4 + setting.value.bytes.length := setting.length_bytes
  refine add_accepts hcells hb ⟨fault_eq_none.mp hfault, hcount, ?_, by omega⟩
  exact not_not.mp (Rules.errorIf_eq_none.mp hclash)

/-- **One call of a VALSET session.** -/
theorem valset_step {start : UbxCfgValsetBuilder} (hnull : start.buffer = none)
    {builder : Option UbxCfgValsetBuilder} {batch : Option (ValsetBegin × List Setting)}
    (h : ValsetHolds start builder batch) (call : BatchCall ValsetBegin Setting) :
    ∃ builder', valsetCall P builder call
        = .ok (returned (valsetRules.session batch call).1, builder') ∧
      ValsetHolds start builder' (valsetRules.session batch call).2 := by
  cases call with
  | begin begun =>
    have hthere : ∃ b, builder = some b := by
      match batch with
      | none => exact ⟨start, h⟩
      | some (_, _) =>
        obtain ⟨b, _, hb, -⟩ := h
        exact ⟨b, hb⟩
    obtain ⟨b, rfl⟩ := hthere
    unfold valsetCall
    cases hbar : valsetRules.bar begun with
    | some e =>
      rw [valsetRules.session_bars hbar]
      dsimp only
      rw [valsetBegin_barred hbar b]
      exact ⟨_, rfl, h⟩
    | none =>
      obtain ⟨cells, b₀, buffer', hcells, hbegin, hbuilt⟩ := valsetBegin_begins hbar b
      rw [valsetRules.session_begins hbar]
      dsimp only
      rw [hbegin]
      exact ⟨_, rfl, b₀, cells, rfl, hcells, hbuilt⟩
  | add setting =>
    match batch with
    | none =>
      obtain rfl : builder = some start := h
      exact ⟨_, add_idle hnull setting, rfl⟩
    | some (begun, settings) =>
      obtain ⟨b, cells, rfl, hcells, hbuilt⟩ := h
      cases hverdict : valsetRules.verdict begun.capacity settings setting with
      | some e =>
        rw [valsetRules.session_refuses hverdict]
        exact ⟨_, add_objects hbuilt hverdict, b, cells, rfl, hcells, hbuilt⟩
      | none =>
        obtain ⟨b', hadd, hbuilt'⟩ :=
          add_adds (P := P) (begun.cells cells hcells) hbuilt hverdict
        rw [valsetRules.session_accepts hverdict]
        exact ⟨_, hadd, b', cells, rfl, hcells, hbuilt'⟩

theorem request_bytes (keys : List UInt32) : requestRules.bytes keys = 4 + 4 * keys.length := by
  unfold Rules.bytes
  show 4 + (keys.map fun _ => 4).sum = _
  rw [List.map_const', List.sum_replicate, Nat.mul_comm]
  rfl

/-- The objection to one more key is a matter of their number. -/
theorem request_verdict {keys : List UInt32} (hle : keys.length ≤ 64) (key : UInt32) :
    returned (requestRules.verdict capacity keys key) = nextResult capacity keys.length := by
  unfold returned Rules.verdict nextResult errorIf
  show ((if 64 ≤ keys.length then some UbxCfgBuildResult.tooManyItems else none).or
    (if capacity < requestRules.bytes keys + 4 then some _ else none)).getD _ = _
  rw [request_bytes]
  by_cases hfull : keys.length = 64
  · rw [if_pos hfull, if_pos (by omega)]
    rfl
  · rw [if_neg hfull, if_neg (by omega)]
    split
    next hshort =>
      rw [if_pos (by omega)]
      rfl
    next hfits =>
      rw [if_neg (by omega)]
      rfl

/-- **One call of a VALGET request session.** -/
theorem request_step {start : UbxCfgValgetBuilder} (hnull : start.buffer = none)
    {builder : Option UbxCfgValgetBuilder} {batch : Option (ValgetBegin × List UInt32)}
    (h : RequestHolds start builder batch) (call : BatchCall ValgetBegin UInt32) :
    ∃ builder', requestCall P builder call
        = .ok (returned (requestRules.session batch call).1, builder') ∧
      RequestHolds start builder' (requestRules.session batch call).2 := by
  cases call with
  | begin begun =>
    have hthere : ∃ b, builder = some b := by
      match batch with
      | none => exact ⟨start, h⟩
      | some (_, _) =>
        obtain ⟨b, _, hb, -⟩ := h
        exact ⟨b, hb⟩
    obtain ⟨b, rfl⟩ := hthere
    unfold requestCall
    cases hbar : requestRules.bar begun with
    | some e =>
      rw [requestRules.session_bars hbar]
      dsimp only
      rw [requestBegin_barred hbar b]
      exact ⟨_, rfl, h⟩
    | none =>
      obtain ⟨cells, b₀, buffer', hcells, hbegin, hrequested⟩ := requestBegin_begins hbar b
      rw [requestRules.session_begins hbar]
      dsimp only
      rw [hbegin]
      exact ⟨_, rfl, b₀, cells, rfl, hcells, hrequested⟩
  | add key =>
    match batch with
    | none =>
      obtain rfl : builder = some start := h
      refine ⟨_, ?_, rfl⟩
      unfold requestCall ubxCfgValgetAddKey
      simp only [hnull]
      rfl
    | some (begun, keys) =>
      obtain ⟨b, cells, rfl, hcells, hrequested⟩ := h
      obtain ⟨b', hadd, hok, hne⟩ :=
        addKey_step (P := P) (begun.cells cells hcells) hrequested key
      have hnext := @request_verdict begun.capacity keys hrequested.count_le key
      cases hverdict : requestRules.verdict begun.capacity keys key with
      | some e =>
        rw [hverdict] at hnext
        rw [requestRules.session_refuses hverdict]
        rw [← hnext] at hadd hne
        obtain rfl := hne (requestRules_errors.verdict hverdict)
        exact ⟨_, hadd, b', cells, rfl, hcells, hrequested⟩
      | none =>
        rw [hverdict] at hnext
        rw [requestRules.session_accepts hverdict]
        rw [← hnext] at hadd hok
        exact ⟨_, hadd, b', cells, rfl, hcells, hok rfl⟩

/-! ## Whole sessions -/

/-- A VALSET session returns what the rules say, and the builder holds the batch. -/
theorem valset_session (P : Platform) (start : UbxCfgValsetBuilder)
    (calls : List (BatchCall ValsetBegin Setting)) (hnull : start.buffer = none) :
    ∃ b, run (valsetCall P) (some start) calls
        = .ok ((trace valsetRules.session none calls).1.map returned, some b) ∧
      ((trace valsetRules.session none calls).2 = none → b = start) ∧
      ∀ begun settings, (trace valsetRules.session none calls).2 = some (begun, settings) →
        ∃ cells, begun.buffer = some cells ∧
          b.buffer = some (content begun.layers settings ++ cells.drop b.length) ∧
          b.length = valsetRules.bytes settings ∧ b.itemCount.toNat = settings.length ∧
          b.capacity = begun.capacity ∧ valsetRules.Within begun settings := by
  obtain ⟨builder, hrun, hholds⟩ := run_refines (f := returned) (R := ValsetHolds start)
    (fun _ _ call h => valset_step (P := P) hnull h call) calls (some start) none rfl
  have hwithin := valsetRules.session_within calls none (fun _ _ h => nomatch h)
  cases hbatch : (trace valsetRules.session none calls).2 with
  | none =>
    rw [hbatch] at hholds
    obtain rfl : builder = some start := hholds
    exact ⟨start, hrun, fun _ => rfl, fun _ _ h => nomatch h⟩
  | some batch =>
    obtain ⟨begun, settings⟩ := batch
    rw [hbatch] at hholds
    obtain ⟨b, cells, rfl, hcells, hbuilt⟩ := hholds
    refine ⟨b, hrun, nofun, fun begun' settings' heq => ?_⟩
    cases heq
    refine ⟨cells, hcells, ?_, ?_, hbuilt.count, hbuilt.capacity_eq, hwithin _ _ hbatch⟩
    · rw [hbuilt.buffer, hbuilt.length_eq, written]
    · rw [hbuilt.length_eq, length_content_rules]

/-- So does a VALGET request session. -/
theorem request_session (P : Platform) (start : UbxCfgValgetBuilder)
    (calls : List (BatchCall ValgetBegin UInt32)) (hnull : start.buffer = none) :
    ∃ b, run (requestCall P) (some start) calls
        = .ok ((trace requestRules.session none calls).1.map returned, some b) ∧
      ((trace requestRules.session none calls).2 = none → b = start) ∧
      ∀ begun keys, (trace requestRules.session none calls).2 = some (begun, keys) →
        ∃ cells, begun.buffer = some cells ∧
          b.buffer = some (request begun.layer begun.position keys ++ cells.drop b.length) ∧
          b.length = requestRules.bytes keys ∧ b.keyCount.toNat = keys.length ∧
          b.capacity = begun.capacity ∧ requestRules.Within begun keys := by
  obtain ⟨builder, hrun, hholds⟩ := run_refines (f := returned) (R := RequestHolds start)
    (fun _ _ call h => request_step (P := P) hnull h call) calls (some start) none rfl
  have hwithin := requestRules.session_within calls none (fun _ _ h => nomatch h)
  cases hbatch : (trace requestRules.session none calls).2 with
  | none =>
    rw [hbatch] at hholds
    obtain rfl : builder = some start := hholds
    exact ⟨start, hrun, fun _ => rfl, fun _ _ h => nomatch h⟩
  | some batch =>
    obtain ⟨begun, keys⟩ := batch
    rw [hbatch] at hholds
    obtain ⟨b, cells, rfl, hcells, hrequested⟩ := hholds
    refine ⟨b, hrun, nofun, fun begun' keys' heq => ?_⟩
    cases heq
    refine ⟨cells, hcells, ?_, ?_, hrequested.count, hrequested.capacity_eq,
      hwithin _ _ hbatch⟩
    · rw [hrequested.buffer, written, length_request, hrequested.length_eq]
    · rw [hrequested.length_eq, request_bytes]

/-- **The builders are batches.** In a session of begins and adders in any order,
from a builder whose buffer is `NULL`, on any platform: every call returns what
the rules say, and the builder holds the last batch begun, its payload at the
front of the buffer of that begin and nothing else of the buffer changed; where
no begin has succeeded the builder is what it was. -/
theorem builders_refine (P : Platform) :
    (∀ (start : UbxCfgValsetBuilder) (calls : List (BatchCall ValsetBegin Setting)),
      start.buffer = none → ∃ b,
        run (valsetCall P) (some start) calls
          = .ok ((trace valsetRules.session none calls).1.map returned, some b) ∧
        ((trace valsetRules.session none calls).2 = none → b = start) ∧
        ∀ begun settings, (trace valsetRules.session none calls).2 = some (begun, settings) →
          ∃ cells, begun.buffer = some cells ∧
            b.buffer = some (content begun.layers settings ++ cells.drop b.length) ∧
            b.length = valsetRules.bytes settings ∧ b.itemCount.toNat = settings.length ∧
            b.capacity = begun.capacity ∧ valsetRules.Within begun settings) ∧
    (∀ (start : UbxCfgValgetBuilder) (calls : List (BatchCall ValgetBegin UInt32)),
      start.buffer = none → ∃ b,
        run (requestCall P) (some start) calls
          = .ok ((trace requestRules.session none calls).1.map returned, some b) ∧
        ((trace requestRules.session none calls).2 = none → b = start) ∧
        ∀ begun keys, (trace requestRules.session none calls).2 = some (begun, keys) →
          ∃ cells, begun.buffer = some cells ∧
            b.buffer = some (request begun.layer begun.position keys ++ cells.drop b.length) ∧
            b.length = requestRules.bytes keys ∧ b.keyCount.toNat = keys.length ∧
            b.capacity = begun.capacity ∧ requestRules.Within begun keys) :=
  ⟨valset_session P, request_session P⟩

/-- A setting before there is a batch, a begin without a buffer and one with nine
cells, then a value, a key and a length that are refused around one that is not. -/
theorem builders_refine_nine :
    (∃ b, run (valsetCall Platform.size32) (some ⟨none, 0, 0, 0⟩)
        [.add ⟨0x20000001, .u1 3⟩, .begin ⟨none, 9, 1, nofun⟩,
          .begin ⟨some (List.replicate 9 7), 9, 1, fun _ h => Option.some.inj h ▸ Nat.le_refl 9⟩,
          .add ⟨0x10000001, .l 2⟩, .add ⟨0x20000001, .u1 3⟩, .add ⟨0x20000001, .u2 3⟩,
          .add ⟨0x20000001, .u1 4⟩]
        = .ok ([.invalidState, .nullArgument, .ok, .invalidValue, .ok, .keyTypeMismatch,
          .bufferTooSmall], some b) ∧ b.itemCount.toNat = 1) ∧
    ∃ b, run (requestCall Platform.size32) (some ⟨none, 0, 0, 0⟩) [.add 5]
      = .ok ([.invalidState], some b) := by
  obtain ⟨hvalset, hrequest⟩ := builders_refine Platform.size32
  refine ⟨?_, ?_⟩
  · obtain ⟨b, hrun, -, hholds⟩ := hvalset ⟨none, 0, 0, 0⟩
      [.add ⟨0x20000001, .u1 3⟩, .begin ⟨none, 9, 1, nofun⟩,
        .begin ⟨some (List.replicate 9 7), 9, 1, fun _ h => Option.some.inj h ▸ Nat.le_refl 9⟩,
        .add ⟨0x10000001, .l 2⟩, .add ⟨0x20000001, .u1 3⟩, .add ⟨0x20000001, .u2 3⟩,
        .add ⟨0x20000001, .u1 4⟩] rfl
    obtain ⟨-, -, -, -, hcount, -⟩ := hholds _ _ rfl
    exact ⟨b, hrun, hcount⟩
  · obtain ⟨b, hrun, -⟩ := hrequest ⟨none, 0, 0, 0⟩ [.add 5] rfl
    exact ⟨b, hrun⟩

end Ubx.Cfg
