import Ubx.Lib.Confined
import Ubx.Stream.Parser

/-!
# Reading a payload

What the message decoders share. `decodeInto` is the prologue and the epilogue
of the UBX-MON and UBX-RXM decoders: the caller's output is there, the message's
validator accepts the frame, and only then is the output written.

`ReadsWithin` is the property this directory is about: a decoder reads of a
frame's payload nothing but the `payload_length` bytes the frame says it has.
-/

namespace Ubx.Decode

open Lib Ubx.Stream

variable {xs : List UInt8}

/-- The test of a frame's class and id is passed. -/
theorem right_message {frame : UbxFrame} {messageClass messageId : UInt8}
    (hclass : frame.messageClass = messageClass) (hid : frame.messageId = messageId) :
    ¬(frame.messageClass ≠ messageClass ∨ frame.messageId ≠ messageId) := by
  intro hdiffers
  rcases hdiffers with h | h
  · exact h hclass
  · exact h hid

/-- What a validator asks of a frame that is there. -/
theorem readable_some {frame : UbxFrame} (h : frame.Readable) : ∀ f ∈ some frame, f.Readable := by
  intro f hf
  cases hf
  exact h

/-- The decoders with a validator: a `NULL` output and what `validate` refuses
leave the output as it is, and so does what `read` refuses; else the output is
what `read` makes of it. -/
def decodeInto {ρ κ α : Type} (nullArgument ok : ρ) (output : Option α)
    (validate : Run (Except ρ κ)) (read : κ → α → Run (Except ρ α)) : Run (ρ × Option α) :=
  match output with
  | none => return (nullArgument, none)
  | some out => do
    match ← validate with
    | .error result => return (result, some out)
    | .ok checked =>
      match ← read checked out with
      | .error result => return (result, some out)
      | .ok out => return (ok, some out)

section

variable {ρ κ α : Type} {nullArgument ok : ρ} {output : Option α}

/-- A decoder is confined if its validator is, and its reads on what that accepts. -/
theorem decodeInto_confined {validate : Option (List UInt8) → Run (Except ρ κ)}
    {read : Option (List UInt8) → κ → α → Run (Except ρ α)} (hvalidate : Confined xs validate)
    (hread : ∀ checked out, validate (some xs) = .ok (.ok checked) →
      Confined xs fun payload => read payload checked out) :
    Confined xs fun payload =>
      decodeInto nullArgument ok output (validate payload) (read payload) := by
  cases output with
  | none => exact .pure _
  | some out =>
    refine .bind hvalidate ?_
    intro verdict hverdict
    cases verdict with
    | error result => exact .pure _
    | ok checked =>
      refine .bind (hread checked out hverdict) ?_
      intro fields _
      cases fields with
      | error result => exact .pure _
      | ok out => exact .pure _

/-- A frame that the validator refuses leaves the output as it is. -/
theorem decodeInto_error {result : ρ} {out : α} {read : κ → α → Run (Except ρ α)} :
    decodeInto nullArgument ok (some out) (.ok (.error result)) read = .ok (result, some out) := rfl

/-- So it is not decoded. -/
theorem decodeInto_not_ok {result : ρ} {out : α} {output : Option α}
    {validate : Run (Except ρ κ)} {read : κ → α → Run (Except ρ α)}
    (hrefuse : validate = .ok (.error result)) (hresult : result ≠ ok) :
    decodeInto nullArgument ok (some out) validate read ≠ .ok (ok, output) := by
  intro h
  rw [hrefuse, decodeInto_error] at h
  exact hresult (congrArg Prod.fst (Except.ok.inj h))

/-- A frame that the validator accepts is left to the reads. -/
theorem decodeInto_read {checked : κ} {out out' : α} {read : κ → α → Run (Except ρ α)}
    (h : read checked out = .ok (.ok out')) :
    decodeInto nullArgument ok (some out) (.ok (.ok checked)) read = .ok (ok, some out') := by
  show (read checked out >>= _) = _
  rw [h]
  rfl

theorem decodeInto_readError {checked : κ} {result : ρ} {out : α}
    {read : κ → α → Run (Except ρ α)} (h : read checked out = .ok (.error result)) :
    decodeInto nullArgument ok (some out) (.ok (.ok checked)) read = .ok (result, some out) := by
  show (read checked out >>= _) = _
  rw [h]
  rfl

/-- The output is written last, so any result but OK leaves it as it was. -/
theorem decodeInto_untouched {output' : Option α} {validate : Run (Except ρ κ)}
    {read : κ → α → Run (Except ρ α)} {r : ρ}
    (h : decodeInto nullArgument ok output validate read = .ok (r, output')) (hr : r ≠ ok) :
    output' = output := by
  unfold decodeInto at h
  split at h
  next =>
    cases h
    rfl
  next out =>
    obtain ⟨verdict, -, h⟩ := bind_eq_ok.mp h
    cases verdict with
    | error result =>
      cases h
      rfl
    | ok checked =>
      obtain ⟨fields, -, h⟩ := bind_eq_ok.mp h
      cases fields with
      | error result =>
        cases h
        rfl
      | ok out =>
        cases h
        exact absurd rfl hr

/-- A frame that the validator refuses is not read, and the output stays. -/
theorem decodeInto_refused {result : ρ} {read : κ → α → Run (Except ρ α)} :
    ∃ r, (r = nullArgument ∨ r = result) ∧
      decodeInto nullArgument ok output (.ok (.error result)) read = .ok (r, output) := by
  cases output with
  | none => exact ⟨nullArgument, Or.inl rfl, rfl⟩
  | some out => exact ⟨result, Or.inr rfl, decodeInto_error⟩

end

/-- A frame with these payload bytes; the buffer may hold more behind them. -/
def frameOf (messageClass messageId : UInt8) (bytes more : List UInt8) : UbxFrame where
  messageClass := messageClass
  messageId := messageId
  payloadLength := UInt16.ofNat bytes.length
  payload := some (bytes ++ more)

theorem frameOf_length {messageClass messageId : UInt8} {bytes : List UInt8}
    (h : bytes.length ≤ 65535) (more : List UInt8) :
    (frameOf messageClass messageId bytes more).payloadLength.toNat = bytes.length := by
  rw [frameOf, UInt16.toNat_ofNat']
  exact Nat.mod_eq_of_lt (Nat.lt_succ_of_le h)

theorem frameOf_readable {messageClass messageId : UInt8} {bytes : List UInt8}
    (h : bytes.length ≤ 65535) (more : List UInt8) :
    (frameOf messageClass messageId bytes more).Readable := by
  intro cells hcells
  cases hcells
  rw [frameOf_length h, List.length_append]
  exact Nat.le_add_right _ _

/-- A record below the count lies in the payload. -/
theorem record_fits {header count record i total : Nat} (htotal : total = header + count * record)
    (hi : i < count) : header + i * record + record ≤ total := by
  have hle : (i + 1) * record ≤ count * record := Nat.mul_le_mul_right record hi
  rw [Nat.add_mul, Nat.one_mul] at hle
  omega

/-- What gets past a refusal. -/
theorem refuse_eq_ok {ρ κ : Type} {c : Prop} [Decidable c] {result : ρ} {rest : Except ρ κ}
    {checked : κ} :
    (if c then .error result else rest) = .ok checked ↔ ¬ c ∧ rest = .ok checked := by
  by_cases hc : c
  · rw [if_pos hc]
    exact ⟨nofun, fun h => absurd hc h.1⟩
  · rw [if_neg hc]
    exact ⟨fun h => ⟨hc, h⟩, And.right⟩

/-- A record decoder goes with the decoder of the header: it returns OK exactly
when that does and the index is below the count that it reports; else it returns
the header's error, or `indexOutOfRange`, and leaves the output as it was. -/
def IndexAgrees {ρ α β : Type} (ok indexOutOfRange : ρ) (count : α → Nat) (index : Nat)
    (output : Option β) (header : Run (ρ × Option α)) (record : Run (ρ × Option β)) : Prop :=
  ∃ r h r' output', header = .ok (r, some h) ∧ record = .ok (r', output') ∧
    (r' = ok ↔ r = ok ∧ index < count h) ∧ (r ≠ ok → r' = r) ∧
    (r = ok → r' ≠ ok → r' = indexOutOfRange) ∧ (r' ≠ ok → output' = output)

section

variable {ρ κ α β : Type} {nullArgument ok indexOutOfRange : ρ} {count : α → Nat} {index : Nat}

/-- Both decoders begin with the same validator, so they refuse the same frames. -/
theorem agrees_refused {r : ρ} {header : α} {output : β} {readHeader : κ → α → Run (Except ρ α)}
    {readRecord : κ → β → Run (Except ρ β)} (hr : r ≠ ok) :
    IndexAgrees ok indexOutOfRange count index (some output)
      (decodeInto nullArgument ok (some header) (.ok (.error r)) readHeader)
      (decodeInto nullArgument ok (some output) (.ok (.error r)) readRecord) := by
  refine ⟨r, header, r, some output, decodeInto_error, decodeInto_error, ?_, fun _ => rfl, ?_, ?_⟩
  · exact ⟨fun h => absurd h hr, fun h => absurd h.1 hr⟩
  · intro h
    exact absurd h hr
  · intro _
    rfl

/-- On a frame that they accept the index decides. -/
theorem agrees_accepted {output : Option β} {header : Run (ρ × Option α)}
    {record : Run (ρ × Option β)} {h : α} (hne : indexOutOfRange ≠ ok)
    (hheader : header = .ok (ok, some h))
    (hbelow : index < count h → ∃ out, record = .ok (ok, some out))
    (habove : count h ≤ index → record = .ok (indexOutOfRange, output)) :
    IndexAgrees ok indexOutOfRange count index output header record := by
  by_cases hindex : index < count h
  · obtain ⟨out, hout⟩ := hbelow hindex
    refine ⟨ok, h, ok, some out, hheader, hout, ?_, ?_, ?_, ?_⟩
    · exact ⟨fun _ => ⟨rfl, hindex⟩, fun _ => rfl⟩
    · exact fun _ => rfl
    · exact fun _ h => absurd rfl h
    · exact fun h => absurd rfl h
  · have hrecord := habove (Nat.le_of_not_lt hindex)
    refine ⟨ok, h, indexOutOfRange, output, hheader, hrecord, ?_, ?_, ?_, ?_⟩
    · exact ⟨fun h => absurd h hne, fun h => absurd h.2 hindex⟩
    · exact fun h => absurd rfl h
    · exact fun _ _ => rfl
    · exact fun _ => rfl

end

/-- `decode` reads of the frame's payload only the bytes below `payload_length`:
it returns, so no access is made through `NULL` or out of bounds, and it returns
the same where other bytes, or none, follow those. -/
def ReadsWithin {β : Type} (frame : UbxFrame) (decode : UbxFrame → Run β) : Prop :=
  ∃ result, decode frame = .ok result ∧ ∀ cells, frame.payload = some cells → ∀ more,
    decode (frame.withPayload (some (cells.take frame.payloadLength.toNat ++ more))) = .ok result

/-- The frames that a parser delivers: the payload has the length it is said to
have, and a `NULL` payload has none. -/
structure Delivered (frame : UbxFrame) : Prop where
  null : frame.payload = none → frame.payloadLength = 0
  readable : frame.Readable

/-- What a decoder has to satisfy to be run on delivered frames. -/
theorem Delivered.readsWithin {β : Type} {frame : UbxFrame} {decode : UbxFrame → Run β}
    (h : Delivered frame)
    (hnull : frame.payload = none → frame.payloadLength = 0 → ∃ r, decode frame = .ok r)
    (hconfined : ∀ xs : List UInt8, frame.payloadLength.toNat = xs.length →
      Confined xs fun payload => decode (frame.withPayload payload)) :
    ReadsWithin frame decode := by
  cases hpayload : frame.payload with
  | none =>
    obtain ⟨r, hr⟩ := hnull hpayload (h.null hpayload)
    exact ⟨r, hr, fun cells hcells => nomatch hpayload.symm.trans hcells⟩
  | some cells =>
    -- the front is the payload; what else the buffer holds is `more`
    obtain ⟨hsplit, hlen⟩ := h.readable.split hpayload
    obtain ⟨r, hr⟩ := hconfined _ hlen
    refine ⟨r, ?_, fun cells' hcells more => ?_⟩
    · rw [hsplit]
      exact hr _
    · rw [hpayload] at hcells
      rw [← Option.some.inj hcells]
      exact hr more

/-- The same for a decoder with a validator, which refuses a `NULL` payload. -/
theorem Delivered.decodeInto_readsWithin {ρ κ α : Type} {nullArgument ok : ρ} {output : Option α}
    {frame : UbxFrame} {validate : UbxFrame → Run (Except ρ κ)}
    {read : UbxFrame → κ → α → Run (Except ρ α)} (h : Delivered frame)
    (hnull : frame.payload = none → ∃ result, validate frame = .ok (.error result))
    (hconfined : ∀ xs : List UInt8, frame.payloadLength.toNat = xs.length →
      Confined xs fun payload => decodeInto nullArgument ok output
        (validate (frame.withPayload payload)) (read (frame.withPayload payload))) :
    ReadsWithin frame fun frame =>
      decodeInto nullArgument ok output (validate frame) (read frame) := by
  refine h.readsWithin (fun hpayload _ => ?_) hconfined
  obtain ⟨result, hrefused⟩ := hnull hpayload
  rw [hrefused]
  obtain ⟨r, -, hr⟩ := decodeInto_refused
  exact ⟨_, hr⟩

end Ubx.Decode
