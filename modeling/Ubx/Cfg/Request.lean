import Ubx.Cfg.Key

/-!
# The VALGET request builder, `src/ubx_cfg.c`

A request is a header of four bytes and keys of four bytes. `Requested` is the
invariant of a builder: its buffer holds the header and the keys accepted so
far, and is otherwise what it was. All of its counters follow from the number of
these keys, so that number alone decides what the next call returns
(`addKey_step`). `request_builder` is the whole run.
-/

namespace Ubx.Cfg

open Lib

/-- `ubx_cfg_valget_builder_t`; the buffer is the object the pointer refers to. -/
structure UbxCfgValgetBuilder where
  buffer : Option (List UInt8)
  capacity : Nat
  length : Nat
  keyCount : UInt8
  deriving DecidableEq, Repr

/-- `ubx_cfg_valget_begin`: the result, the builder and the caller's buffer. -/
def ubxCfgValgetBegin (builder : Option UbxCfgValgetBuilder) (buffer : Option (List UInt8))
    (capacity : Nat) (layer : UInt8) (position : UInt16) :
    Run (UbxCfgBuildResult × Option UbxCfgValgetBuilder × Option (List UInt8)) := do
  if builder.isNone ∨ buffer.isNone then
    return (.nullArgument, builder, buffer)
  if ubxCfgValgetLayerIsValid layer = false then
    return (.invalidLayer, builder, buffer)
  if capacity < 4 then
    return (.bufferTooSmall, builder, buffer)
  let buffer ← store buffer 0 0x00
  let buffer ← store buffer 1 layer
  let buffer ← ubxWriteU16Le buffer 2 position
  return (.ok, builder.map fun _ => ⟨buffer, capacity, 4, 0⟩, buffer)

/-- `ubx_cfg_valget_add_key`: the result and the builder. -/
def ubxCfgValgetAddKey (P : Platform) (builder : Option UbxCfgValgetBuilder) (key : UInt32) :
    Run (UbxCfgBuildResult × Option UbxCfgValgetBuilder) :=
  match builder with
  | none => return (.nullArgument, none)
  | some builder => do
    if builder.buffer.isNone then
      return (.invalidState, some builder)
    if builder.length > builder.capacity then
      return (.invalidState, some builder)
    if builder.keyCount ≥ 64 then
      return (.tooManyItems, some builder)
    if builder.capacity - builder.length < 4 then
      return (.bufferTooSmall, some builder)
    let buffer ← ubxWriteU32Le builder.buffer builder.length key
    return (.ok, some
      { builder with
        buffer := buffer
        length := P.sizeAdd builder.length 4
        keyCount := builder.keyCount + 1 })

/-! ## What a builder holds -/

/-- A request: version 0, the layer, the position, then the keys. -/
def request (layer : UInt8) (position : UInt16) (keys : List UInt32) : List UInt8 :=
  [0, layer] ++ leBytes 2 position.toNat ++ keys.flatMap fun key => leBytes 4 key.toNat

theorem request_append (layer : UInt8) (position : UInt16) (keys : List UInt32) (key : UInt32) :
    request layer position (keys ++ [key])
      = request layer position keys ++ leBytes 4 key.toNat := by
  rw [request, List.flatMap_append, ← List.append_assoc, List.flatMap_singleton]
  rfl

theorem length_request (layer : UInt8) (position : UInt16) (keys : List UInt32) :
    (request layer position keys).length = 4 + 4 * keys.length := by
  induction keys with
  | nil => rfl
  | cons key keys ih =>
    have hcons : (request layer position (key :: keys)).length
        = 4 + (request layer position keys).length := by
      simp only [request, List.flatMap_cons, List.length_append, length_leBytes]
      omega
    rw [hcons, ih, List.length_cons]
    omega

/-- The builder holds these keys, in a buffer that was `cells`. -/
structure Requested (cells : List UInt8) (capacity : Nat) (layer : UInt8) (position : UInt16)
    (keys : List UInt32) (b : UbxCfgValgetBuilder) : Prop where
  buffer : b.buffer = some (written cells (request layer position keys))
  capacity_eq : b.capacity = capacity
  length_eq : b.length = 4 + 4 * keys.length
  count : b.keyCount.toNat = keys.length
  count_le : keys.length ≤ 64
  fits : b.length ≤ capacity

/-- What the next call returns, by the number of keys. -/
def nextResult (capacity count : Nat) : UbxCfgBuildResult :=
  if count = 64 then .tooManyItems
  else if capacity < 4 + 4 * (count + 1) then .bufferTooSmall
  else .ok

variable {P : Platform} {cells : List UInt8} {capacity : Nat} {layer : UInt8} {position : UInt16}
  {keys : List UInt32} {b : UbxCfgValgetBuilder}

theorem Requested.there (hb : Requested cells capacity layer position keys b) :
    ¬ b.buffer.isNone = true := by
  rw [hb.buffer]
  exact not_null _

/-- The key count is the number of keys. -/
theorem Requested.full_iff (hb : Requested cells capacity layer position keys b) :
    b.keyCount ≥ 64 ↔ keys.length = 64 := by
  have hle := hb.count_le
  constructor
  · intro hge
    have hge' : 64 ≤ b.keyCount.toNat := UInt8.le_iff_toNat_le.mp hge
    rw [hb.count] at hge'
    omega
  · intro hfull
    apply UInt8.le_iff_toNat_le.mpr
    rw [hb.count, hfull]
    exact Nat.le_refl 64

/-! ## One call -/

/-- A key that is accepted is written behind the others. -/
theorem addKey_accepts (hcells : capacity ≤ cells.length)
    (hb : Requested cells capacity layer position keys b) (hcount : keys.length ≠ 64)
    (hroom : 4 + 4 * (keys.length + 1) ≤ capacity) (key : UInt32) :
    ∃ b', ubxCfgValgetAddKey P (some b) key = .ok (.ok, some b') ∧
      Requested cells capacity layer position (keys ++ [key]) b' := by
  have hlength := hb.length_eq
  have hle := hb.count_le
  have hnext : P.sizeAdd b.length 4 = b.length + 4 := P.sizeAdd_small (by omega)
  have hat : b.length = (request layer position keys).length := by
    rw [length_request, hlength]
  have hwrite : ubxWriteU32Le b.buffer b.length key
      = .ok (some (written cells (request layer position (keys ++ [key])))) := by
    rw [hb.buffer, request_append, ubxWriteU32Le_written hat (by omega)]
  refine ⟨{ b with
    buffer := some (written cells (request layer position (keys ++ [key])))
    length := b.length + 4
    keyCount := b.keyCount + 1 }, ?_, ?_⟩
  · unfold ubxCfgValgetAddKey
    dsimp only
    rw [if_neg hb.there, hb.capacity_eq, if_neg (Nat.not_lt.mpr hb.fits),
      if_neg (mt hb.full_iff.mp hcount), if_neg (by omega), hwrite, ok_bind, hnext]
    rfl
  · have hlen : (keys ++ [key]).length = keys.length + 1 := by
      rw [List.length_append, List.length_singleton]
    refine ⟨rfl, hb.capacity_eq, ?_, ?_, ?_, ?_⟩
    · show b.length + 4 = _
      rw [hlen]
      omega
    · rw [hlen]
      exact toNat_count_succ hb.count (by omega)
    · rw [hlen]
      omega
    · show b.length + 4 ≤ capacity
      omega

/-- A key that is refused changes nothing. -/
theorem addKey_refuses (hb : Requested cells capacity layer position keys b)
    (hnext : nextResult capacity keys.length ≠ .ok) (key : UInt32) :
    ubxCfgValgetAddKey P (some b) key = .ok (nextResult capacity keys.length, some b) := by
  have hlength := hb.length_eq
  have hfits := hb.fits
  unfold ubxCfgValgetAddKey
  dsimp only
  rw [if_neg hb.there, hb.capacity_eq, if_neg (Nat.not_lt.mpr hb.fits)]
  unfold nextResult at hnext ⊢
  by_cases hfull : keys.length = 64
  · rw [if_pos (hb.full_iff.mpr hfull), if_pos hfull]
    rfl
  · rw [if_neg hfull] at hnext ⊢
    rw [if_neg (mt hb.full_iff.mp hfull)]
    by_cases hroom : capacity < 4 + 4 * (keys.length + 1)
    · rw [if_pos hroom, if_pos (by omega)]
      rfl
    · rw [if_neg hroom] at hnext
      exact absurd rfl hnext

/-- **One call**: the number of keys decides. -/
theorem addKey_step (hcells : capacity ≤ cells.length)
    (hb : Requested cells capacity layer position keys b) (key : UInt32) :
    ∃ b', ubxCfgValgetAddKey P (some b) key
        = .ok (nextResult capacity keys.length, some b') ∧
      (nextResult capacity keys.length = .ok →
        Requested cells capacity layer position (keys ++ [key]) b') ∧
      (nextResult capacity keys.length ≠ .ok → b' = b) := by
  by_cases hnext : nextResult capacity keys.length = .ok
  · have hcount : keys.length ≠ 64 := by
      intro hfull
      rw [nextResult, if_pos hfull] at hnext
      cases hnext
    have hroom : ¬ capacity < 4 + 4 * (keys.length + 1) := by
      intro hshort
      rw [nextResult, if_neg hcount, if_pos hshort] at hnext
      cases hnext
    obtain ⟨b', hadd, hb'⟩ := addKey_accepts (P := P) hcells hb hcount (by omega) key
    exact ⟨b', by rw [hnext]; exact hadd, fun _ => hb', fun hne => absurd hnext hne⟩
  · exact ⟨b, addKey_refuses hb hnext key, fun hok => absurd hok hnext, fun _ => rfl⟩

/-! ## Runs -/

/-- **Every run** returns and keeps `Requested`. -/
theorem addKey_run (hcells : capacity ≤ cells.length)
    (hb : Requested cells capacity layer position [] b) (calls : List UInt32) :
    ∃ results b', run (ubxCfgValgetAddKey P) (some b) calls = .ok (results, some b') ∧
      Requested cells capacity layer position (acceptedOf (calls.zip results)) b' := by
  have hstep : ∀ h s key,
      (∃ b', s = some b' ∧ Requested cells capacity layer position (acceptedOf h) b') →
      ∃ r s', ubxCfgValgetAddKey P s key = .ok (r, s') ∧
        ∃ b', s' = some b' ∧
          Requested cells capacity layer position (acceptedOf (h ++ [(key, r)])) b' := by
    intro h s key hs
    obtain ⟨b', rfl, hb'⟩ := hs
    obtain ⟨b'', hadd, hok, hne⟩ := addKey_step (P := P) hcells hb' key
    refine ⟨_, _, hadd, b'', rfl, ?_⟩
    by_cases hr : nextResult capacity (acceptedOf h).length = .ok
    · rw [hr, acceptedOf_ok]
      exact hok hr
    · rw [acceptedOf_ne h key hr, hne hr]
      exact hb'
  obtain ⟨results, s, hrun, b', rfl, hb'⟩ := run_inv _ hstep calls [] (some b) ⟨b, rfl, hb⟩
  exact ⟨results, b', hrun, hb'⟩

/-- A successful begin leaves the bare header. -/
theorem requestBegin_ok {builder b₀ : UbxCfgValgetBuilder} {buffer' : Option (List UInt8)}
    (hcells : capacity ≤ cells.length)
    (h : ubxCfgValgetBegin (some builder) (some cells) capacity layer position
      = .ok (.ok, some b₀, buffer')) : Requested cells capacity layer position [] b₀ := by
  unfold ubxCfgValgetBegin at h
  simp only [Option.isNone_some, Bool.false_eq_true, or_self, if_false] at h
  split at h
  next => cases h
  next =>
    split at h
    next => cases h
    next hcap =>
      rw [← written_nil cells, store_written (by rfl) (by omega), ok_bind,
        store_written (by rfl) (by omega), ok_bind,
        ubxWriteU16Le_written (by rfl) (by omega), ok_bind] at h
      cases h
      refine ⟨?_, rfl, rfl, rfl, Nat.zero_le 64, Nat.le_of_not_lt hcap⟩
      rw [request, List.flatMap_nil, List.append_nil]
      rfl

/-- A begin that fails changes nothing. -/
theorem requestBegin_fails {builder builder' : Option UbxCfgValgetBuilder}
    {buffer buffer' : Option (List UInt8)} {r : UbxCfgBuildResult}
    (h : ubxCfgValgetBegin builder buffer capacity layer position = .ok (r, builder', buffer'))
    (hr : r ≠ .ok) : builder' = builder ∧ buffer' = buffer := by
  unfold ubxCfgValgetBegin at h
  split at h
  next =>
    cases h
    exact ⟨rfl, rfl⟩
  next =>
    split at h
    next =>
      cases h
      exact ⟨rfl, rfl⟩
    next =>
      split at h
      next =>
        cases h
        exact ⟨rfl, rfl⟩
      next =>
        obtain ⟨_, -, h⟩ := bind_eq_ok.mp h
        obtain ⟨_, -, h⟩ := bind_eq_ok.mp h
        obtain ⟨_, -, h⟩ := bind_eq_ok.mp h
        cases h
        exact absurd rfl hr

/-- **The VALGET request builder over whole runs.** After a successful begin,
whatever keys are added: the buffer holds the header and the keys of the
accepted calls, and behind them what it held before; length and key count are
those of the keys, within their bounds; what the next call returns is decided by
the number of keys and the capacity; and a call that does not return OK changes
nothing. Nor does a begin that fails. -/
theorem request_builder (P : Platform) :
    (∀ (builder builder' : Option UbxCfgValgetBuilder) (buffer buffer' : Option (List UInt8))
        (capacity : Nat) (layer : UInt8) (position : UInt16) (r : UbxCfgBuildResult),
      ubxCfgValgetBegin builder buffer capacity layer position = .ok (r, builder', buffer') →
      r ≠ .ok → builder' = builder ∧ buffer' = buffer) ∧
    ∀ (cells : List UInt8) (capacity : Nat) (layer : UInt8) (position : UInt16)
        (builder b₀ : UbxCfgValgetBuilder) (buffer' : Option (List UInt8)),
      capacity ≤ cells.length →
      ubxCfgValgetBegin (some builder) (some cells) capacity layer position
        = .ok (.ok, some b₀, buffer') →
      ∀ calls : List UInt32, ∃ results b keys,
        run (ubxCfgValgetAddKey P) (some b₀) calls = .ok (results, some b) ∧
        keys = acceptedOf (calls.zip results) ∧
        b.keyCount.toNat = keys.length ∧ b.length = 4 + 4 * b.keyCount.toNat ∧
        b.length ≤ capacity ∧ b.keyCount.toNat ≤ 64 ∧
        b.buffer = some ([0, layer] ++ leBytes 2 position.toNat
          ++ keys.flatMap (fun key => leBytes 4 key.toNat) ++ cells.drop b.length) ∧
        ∀ key, ∃ r b', ubxCfgValgetAddKey P (some b) key = .ok (r, some b') ∧
          r = (if keys.length = 64 then .tooManyItems
            else if capacity < 4 + 4 * (keys.length + 1) then .bufferTooSmall
            else .ok) ∧
          (r ≠ .ok → b' = b) := by
  refine ⟨fun _ _ _ _ _ _ _ _ => requestBegin_fails, ?_⟩
  intro cells capacity layer position builder b₀ buffer' hcells hbegin calls
  obtain ⟨results, b, hrun, hb⟩ :=
    addKey_run (P := P) hcells (requestBegin_ok hcells hbegin) calls
  have hcount := hb.count
  refine ⟨results, b, _, hrun, rfl, hcount, ?_, hb.fits, ?_, ?_, ?_⟩
  · rw [hcount]
    exact hb.length_eq
  · rw [hcount]
    exact hb.count_le
  · rw [hb.buffer, hb.length_eq, written, length_request]
    rfl
  · intro key
    obtain ⟨b', hadd, -, hne⟩ := addKey_step (P := P) hcells hb key
    exact ⟨_, b', hadd, rfl, hne⟩

/-- Two keys for a buffer of ten cells, which has room for one; and a begin with
no builder. -/
theorem request_builder_ten :
    (∃ results b keys, run (ubxCfgValgetAddKey Platform.size32)
        (some ⟨some [0, 7, 1, 2, 9, 9, 9, 9, 9, 9], 10, 4, 0⟩) [0x10000001, 0x20000002]
          = .ok (results, some b) ∧
      keys = acceptedOf ([(0x10000001 : UInt32), 0x20000002].zip results) ∧
      b.buffer = some ([0, 7] ++ leBytes 2 (513 : UInt16).toNat
        ++ keys.flatMap (fun key => leBytes 4 key.toNat)
        ++ (List.replicate 10 9).drop b.length)) ∧
    (none : Option UbxCfgValgetBuilder) = none ∧ some [1, 2] = some [(1 : UInt8), 2] := by
  obtain ⟨hfails, hruns⟩ := request_builder Platform.size32
  constructor
  · obtain ⟨results, b, keys, hrun, hkeys, -, -, -, -, hbuffer, -⟩ :=
      hruns (List.replicate 10 9) 10 7 513 ⟨none, 0, 0, 0⟩ _ _ (Nat.le_refl 10) rfl
        [0x10000001, 0x20000002]
    exact ⟨results, b, keys, hrun, hkeys, hbuffer⟩
  · exact hfails none _ (some [1, 2]) _ 2 9 0 .nullArgument rfl (by simp)

end Ubx.Cfg
