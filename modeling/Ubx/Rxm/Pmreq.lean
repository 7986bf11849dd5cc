import Ubx.Internal

/-!
# The backup request, `src/ubx_rxm.c`

`ubx_rxm_pmreq_build_backup` makes all of its checks before it writes anything.
`Legal` is what they ask of a request, and `backupPayload` the sixteen bytes of
one; these bytes determine the request (`backupPayload_inj`).
-/

namespace Ubx.Rxm

open Lib

/-- `ubx_rxm_pmreq_backup_t`. -/
structure UbxRxmPmreqBackup where
  duration : UInt32
  wakeupSources : UInt32
  force : UInt8
  deriving DecidableEq, Repr

/-- `ubx_rxm_pmreq_build_result_t`. -/
inductive UbxRxmPmreqBuildResult where
  | ok
  | nullArgument
  | bufferTooSmall
  | invalidDuration
  | invalidForce
  | invalidWakeupSources
  deriving DecidableEq, Repr

/-- `UBX_RXM_PMREQ_WAKEUP_MASK`. -/
def ubxRxmPmreqWakeupMask : UInt32 := 0x08 ||| 0x20 ||| 0x40 ||| 0x80

/-- `ubx_rxm_pmreq_build_backup`: the result, the payload and its length. -/
def ubxRxmPmreqBuildBackup (request : Option UbxRxmPmreqBackup) (payload : Option (List UInt8))
    (capacity : Nat) (payloadLength : Option Nat) :
    Run (UbxRxmPmreqBuildResult × Option (List UInt8) × Option Nat) :=
  match payloadLength with
  | none => return (.nullArgument, payload, none)
  | some _ =>
    match request with
    | none => return (.nullArgument, payload, some 0)
    | some request => do
      if payload.isNone then
        return (.nullArgument, payload, some 0)
      if capacity < 16 then
        return (.bufferTooSmall, payload, some 0)
      if request.duration > 1036800000 then
        return (.invalidDuration, payload, some 0)
      if request.force > 1 then
        return (.invalidForce, payload, some 0)
      if request.wakeupSources &&& ~~~ubxRxmPmreqWakeupMask ≠ 0 then
        return (.invalidWakeupSources, payload, some 0)
      let flags : UInt32 := if request.force ≠ 0 then 0x02 ||| 0x04 else 0x02
      let payload ← store payload 0 0x00
      let payload ← store payload 1 0
      let payload ← store payload 2 0
      let payload ← store payload 3 0
      let payload ← ubxWriteU32Le payload 4 request.duration
      let payload ← ubxWriteU32Le payload 8 flags
      let payload ← ubxWriteU32Le payload 12 request.wakeupSources
      return (.ok, payload, some 16)

/-! ## What the checks ask -/

/-- A request that the receiver takes. -/
structure UbxRxmPmreqBackup.Legal (request : UbxRxmPmreqBackup) : Prop where
  duration : request.duration.toNat ≤ 1036800000
  force : request.force.toNat ≤ 1
  /-- no wakeup source outside of bits 3, 5, 6 and 7 -/
  wakeup : ∀ k, request.wakeupSources.toNat.testBit k = true → k = 3 ∨ k = 5 ∨ k = 6 ∨ k = 7

/-- A number has no bit outside of a mask exactly when its bits are bits of the mask. -/
theorem and_not_eq_zero {w : Nat} {x mask : BitVec w} :
    x &&& ~~~mask = 0#w ↔ ∀ k, x.getLsbD k = true → mask.getLsbD k = true := by
  constructor
  · intro h k hx
    have hk := BitVec.lt_of_getLsbD hx
    have hbit := congrArg (fun v => v.getLsbD k) h
    simpa [hx, hk] using hbit
  · intro h
    apply BitVec.eq_of_getLsbD_eq
    intro k hk
    rw [BitVec.getLsbD_and, BitVec.getLsbD_not, BitVec.getLsbD_zero]
    cases hx : x.getLsbD k with
    | false => rfl
    | true => simp [h k hx]

/-- The bits of the wakeup mask. -/
theorem wakeupMask_bit {k : Nat} :
    ubxRxmPmreqWakeupMask.toBitVec.getLsbD k = true ↔ k = 3 ∨ k = 5 ∨ k = 6 ∨ k = 7 := by
  constructor
  · intro h
    have hall : ∀ k < 32, ubxRxmPmreqWakeupMask.toBitVec.getLsbD k = true →
        k = 3 ∨ k = 5 ∨ k = 6 ∨ k = 7 := by decide
    exact hall k (BitVec.lt_of_getLsbD h) h
  · intro h
    rcases h with rfl | rfl | rfl | rfl
    · rfl
    · rfl
    · rfl
    · rfl

theorem wakeup_check (sources : UInt32) :
    sources &&& ~~~ubxRxmPmreqWakeupMask = 0 ↔
      ∀ k, sources.toNat.testBit k = true → k = 3 ∨ k = 5 ∨ k = 6 ∨ k = 7 := by
  have hbits : sources &&& ~~~ubxRxmPmreqWakeupMask = 0 ↔
      sources.toBitVec &&& ~~~ubxRxmPmreqWakeupMask.toBitVec = 0#32 := UInt32.toBitVec_inj.symm
  rw [hbits, and_not_eq_zero]
  constructor
  · intro h k hk
    exact wakeupMask_bit.mp (h k hk)
  · intro h k hk
    exact wakeupMask_bit.mpr (h k hk)

/-! ## What is built -/

/-- The task flags: backup, and force where it is asked for. -/
def backupFlags (request : UbxRxmPmreqBackup) : UInt32 :=
  if request.force ≠ 0 then 0x02 ||| 0x04 else 0x02

/-- The payload of a request: version 0, three reserved bytes, three words. -/
def backupPayload (request : UbxRxmPmreqBackup) : List UInt8 :=
  [0, 0, 0, 0] ++ leBytes 4 request.duration.toNat ++ leBytes 4 (backupFlags request).toNat
    ++ leBytes 4 request.wakeupSources.toNat

theorem length_backupPayload (request : UbxRxmPmreqBackup) :
    (backupPayload request).length = 16 := rfl

theorem backupFlags_toNat {request : UbxRxmPmreqBackup} (h : request.Legal) :
    (backupFlags request).toNat = 2 + 4 * request.force.toNat := by
  unfold backupFlags
  rcases Nat.le_one_iff_eq_zero_or_eq_one.mp h.force with hforce | hforce
  · rw [UInt8.toNat_inj.mp (show request.force.toNat = (0 : UInt8).toNat from hforce)]
    rfl
  · rw [UInt8.toNat_inj.mp (show request.force.toNat = (1 : UInt8).toNat from hforce)]
    rfl

/-- The words of the payload. -/
theorem backupPayload_words (request : UbxRxmPmreqBackup) :
    u32At (backupPayload request) 4 = request.duration ∧
      u32At (backupPayload request) 8 = backupFlags request ∧
      u32At (backupPayload request) 12 = request.wakeupSources :=
  ⟨u32At_eq rfl, u32At_eq rfl, u32At_eq rfl⟩

/-- The payload determines a legal request. -/
theorem backupPayload_inj {request request' : UbxRxmPmreqBackup} (h : request.Legal)
    (h' : request'.Legal) (heq : backupPayload request = backupPayload request') :
    request = request' := by
  obtain ⟨hduration, hflags, hwakeup⟩ := backupPayload_words request
  obtain ⟨hduration', hflags', hwakeup'⟩ := backupPayload_words request'
  rw [heq] at hduration hflags hwakeup
  have hforce : request.force = request'.force := by
    have hsame : (backupFlags request).toNat = (backupFlags request').toNat :=
      congrArg UInt32.toNat (hflags.symm.trans hflags')
    rw [backupFlags_toNat h, backupFlags_toNat h'] at hsame
    apply UInt8.toNat_inj.mp
    omega
  cases request
  cases request'
  rw [UbxRxmPmreqBackup.mk.injEq]
  exact ⟨hduration.symm.trans hduration', hwakeup.symm.trans hwakeup', hforce⟩

variable {cells : List UInt8} {capacity old : Nat} {request : UbxRxmPmreqBackup}

/-- The checks of the code are those of `Legal`. -/
theorem legal_iff : request.Legal ↔ ¬ request.duration > 1036800000 ∧ ¬ request.force > 1 ∧
    request.wakeupSources &&& ~~~ubxRxmPmreqWakeupMask = 0 := by
  have hduration : ¬ request.duration > 1036800000 ↔ request.duration.toNat ≤ 1036800000 :=
    UInt32.not_lt.trans UInt32.le_iff_toNat_le
  have hforce : ¬ request.force > 1 ↔ request.force.toNat ≤ 1 :=
    UInt8.not_lt.trans UInt8.le_iff_toNat_le
  rw [hduration, hforce, wakeup_check]
  exact ⟨fun h => ⟨h.duration, h.force, h.wakeup⟩, fun h => ⟨h.1, h.2.1, h.2.2⟩⟩

/-- A legal request is built at the front of the buffer. -/
theorem backup_accepts (hcells : capacity ≤ cells.length) (hroom : 16 ≤ capacity)
    (h : request.Legal) :
    ubxRxmPmreqBuildBackup (some request) (some cells) capacity (some old)
      = .ok (.ok, some (written cells (backupPayload request)), some 16) := by
  obtain ⟨hduration, hforce, hwakeup⟩ := legal_iff.mp h
  have hzero : store (some cells) 0 0x00 = .ok (some (written cells [0x00])) :=
    @store_written _ cells [] 0 rfl (by omega) 0x00
  unfold ubxRxmPmreqBuildBackup
  dsimp only
  rw [if_neg (not_null _), if_neg (by omega), if_neg hduration, if_neg hforce,
    if_neg (not_not.mpr hwakeup), hzero, ok_bind, store_written (by rfl) (by omega), ok_bind,
    store_written (by rfl) (by omega), ok_bind, store_written (by rfl) (by omega), ok_bind,
    ubxWriteU32Le_written (by rfl) (by omega), ok_bind,
    ubxWriteU32Le_written (by rfl) (by omega), ok_bind,
    ubxWriteU32Le_written (by rfl) (by omega), ok_bind]
  rfl

/-- Anything else is refused before the first store. -/
theorem backup_refuses (h : ¬ (16 ≤ capacity ∧ request.Legal)) :
    ∃ r, r ≠ .ok ∧ ubxRxmPmreqBuildBackup (some request) (some cells) capacity (some old)
      = .ok (r, some cells, some 0) := by
  unfold ubxRxmPmreqBuildBackup
  dsimp only
  rw [if_neg (not_null _)]
  by_cases hroom : capacity < 16
  · exact ⟨.bufferTooSmall, by simp, if_pos hroom⟩
  rw [if_neg hroom]
  by_cases hduration : request.duration > 1036800000
  · exact ⟨.invalidDuration, by simp, if_pos hduration⟩
  rw [if_neg hduration]
  by_cases hforce : request.force > 1
  · exact ⟨.invalidForce, by simp, if_pos hforce⟩
  rw [if_neg hforce]
  by_cases hwakeup : request.wakeupSources &&& ~~~ubxRxmPmreqWakeupMask = 0
  · exact absurd ⟨Nat.le_of_not_lt hroom, legal_iff.mpr ⟨hduration, hforce, hwakeup⟩⟩ h
  · exact ⟨.invalidWakeupSources, by simp, if_pos hwakeup⟩

/-- What an accepted call left in the first sixteen cells. -/
theorem backup_built (hcells : capacity ≤ cells.length) {built : List UInt8} {length : Option Nat}
    (hbuild : ubxRxmPmreqBuildBackup (some request) (some cells) capacity (some old)
      = .ok (.ok, some built, length)) :
    request.Legal ∧ built.take 16 = backupPayload request := by
  by_cases h : 16 ≤ capacity ∧ request.Legal
  · rw [backup_accepts hcells h.1 h.2] at hbuild
    cases hbuild
    exact ⟨h.2, take_written cells (backupPayload request)⟩
  · obtain ⟨r, hr, hrefuses⟩ := @backup_refuses cells _ old _ h
    rw [hbuild] at hrefuses
    cases hrefuses
    exact absurd rfl hr

/-- **The backup request.** Every call returns. It returns OK exactly for a
legal request and a payload with room for it; then sixteen cells are written,
from which the three words of the request are read back, so the payload
determines the request. Any other call leaves length 0 and the payload as it
was. -/
theorem backup_build :
    (∀ (request : Option UbxRxmPmreqBackup) (payload : Option (List UInt8)) (capacity old : Nat),
      (∀ cells, payload = some cells → capacity ≤ cells.length) →
      ∃ r payload' length, ubxRxmPmreqBuildBackup request payload capacity (some old)
          = .ok (r, payload', some length) ∧
        (r = .ok ↔ ∃ q cells, request = some q ∧ payload = some cells ∧ 16 ≤ capacity ∧
          q.Legal) ∧
        (r = .ok → length = 16 ∧ ∃ q cells built flags, request = some q ∧
          payload = some cells ∧ payload' = some built ∧ built.length = cells.length ∧
          built.drop 16 = cells.drop 16 ∧
          ubxReadU32Le (some built) 4 = .ok q.duration ∧
          ubxReadU32Le (some built) 8 = .ok flags ∧ flags.toNat = 2 + 4 * q.force.toNat ∧
          ubxReadU32Le (some built) 12 = .ok q.wakeupSources) ∧
        (r ≠ .ok → length = 0 ∧ payload' = payload)) ∧
    ∀ (q q' : UbxRxmPmreqBackup) (cells cells' built built' : List UInt8)
        (capacity capacity' old old' : Nat) (length length' : Option Nat),
      capacity ≤ cells.length → capacity' ≤ cells'.length →
      ubxRxmPmreqBuildBackup (some q) (some cells) capacity (some old)
        = .ok (.ok, some built, length) →
      ubxRxmPmreqBuildBackup (some q') (some cells') capacity' (some old')
        = .ok (.ok, some built', length') →
      built.take 16 = built'.take 16 → q = q' := by
  constructor
  · intro request payload capacity old hcapacity
    cases request with
    | none =>
      refine ⟨.nullArgument, payload, 0, rfl, ⟨by simp, ?_⟩, by simp, fun _ => ⟨rfl, rfl⟩⟩
      intro haccepts
      obtain ⟨_, _, hq, -⟩ := haccepts
      cases hq
    | some q =>
      cases payload with
      | none =>
        refine ⟨.nullArgument, none, 0, rfl, ⟨by simp, ?_⟩, by simp, fun _ => ⟨rfl, rfl⟩⟩
        intro haccepts
        obtain ⟨_, _, -, hcells, -⟩ := haccepts
        cases hcells
      | some cells =>
        by_cases h : 16 ≤ capacity ∧ q.Legal
        · have hcells := hcapacity cells rfl
          obtain ⟨hduration, hflags, hwakeup⟩ := backupPayload_words q
          refine ⟨.ok, _, 16, backup_accepts hcells h.1 h.2,
            ⟨fun _ => ⟨q, cells, rfl, rfl, h.1, h.2⟩, fun _ => rfl⟩, fun _ => ⟨rfl, q, cells, _,
            backupFlags q, rfl, rfl, rfl, ?_, ?_, ?_, ?_, backupFlags_toNat h.2, ?_⟩,
            fun hne => absurd rfl hne⟩
          · exact length_written (Nat.le_trans h.1 hcells)
          · exact List.drop_left' (length_backupPayload q)
          · rw [written, readU32_front (by rw [length_backupPayload]; omega), hduration]
          · rw [written, readU32_front (by rw [length_backupPayload]; omega), hflags]
          · rw [written, readU32_front (by rw [length_backupPayload]), hwakeup]
        · obtain ⟨r, hr, hrefuses⟩ := @backup_refuses cells _ old _ h
          refine ⟨r, some cells, 0, hrefuses, ⟨fun hok => absurd hok hr, ?_⟩,
            fun hok => absurd hok hr, fun _ => ⟨rfl, rfl⟩⟩
          intro haccepts
          obtain ⟨_, _, hq, hcells, haccepts⟩ := haccepts
          cases hq
          exact absurd haccepts h
  · intro q q' cells cells' built built' capacity capacity' old old' length length' hcells hcells'
      hbuild hbuild' hsame
    obtain ⟨hlegal, hbuilt⟩ := backup_built hcells hbuild
    obtain ⟨hlegal', hbuilt'⟩ := backup_built hcells' hbuild'
    rw [hbuilt, hbuilt'] at hsame
    exact backupPayload_inj hlegal hlegal' hsame

/-- The longest backup that EXTINT0 ends, forced, in a buffer of seventeen cells. -/
theorem backup_build_extint :
    (∃ r payload' length, ubxRxmPmreqBuildBackup (some ⟨1036800000, 0x20, 1⟩)
        (some (List.replicate 17 9)) 17 (some 3) = .ok (r, payload', some length) ∧
      (r = .ok ↔ ∃ (q : UbxRxmPmreqBackup) (cells : List UInt8),
        some ⟨1036800000, 0x20, 1⟩ = some q ∧ some (List.replicate 17 9) = some cells ∧
        16 ≤ 17 ∧ q.Legal)) ∧
    (⟨7, 0, 0⟩ : UbxRxmPmreqBackup) = ⟨7, 0, 0⟩ := by
  obtain ⟨hcalls, hinj⟩ := backup_build
  constructor
  · obtain ⟨r, payload', length, hbuild, hok, -⟩ := hcalls (some ⟨1036800000, 0x20, 1⟩)
      (some (List.replicate 17 9)) 17 3 (by intro cells h; cases h; exact Nat.le_refl 17)
    exact ⟨r, payload', length, hbuild, hok⟩
  · exact hinj ⟨7, 0, 0⟩ ⟨7, 0, 0⟩ (List.replicate 16 9) (List.replicate 16 8) _ _ 16 16 0 0 _ _
      (Nat.le_refl 16) (Nat.le_refl 16) rfl rfl rfl

end Ubx.Rxm
