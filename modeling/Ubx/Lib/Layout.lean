import Mathlib.Algebra.BigOperators.Group.List.Basic
import Mathlib.Algebra.GroupWithZero.Nat
import Mathlib.Data.List.SplitLengths

/-!
# Records as consecutive fields

A record on a wire is its fields one behind the other, each of its own width. A
`Layout` is that: the fields of a record, their widths, and a decoder that finds
each field where the widths in front of it put it. Its laws are fields of the
structure, and what follows from them is that serialising and decoding undo
each other:

* `Layout.ofBytes_bytes`: decoding the serialised record returns the record;
* `Layout.bytes_ofBytes`: serialising what was decoded returns the bytes.

The fields of a record are the `List.splitLengths` of its cells at its widths.

`Layout.records` is a list of records of one layout without anything in
between. Record `k` stands at `k * width` (`ofBytes_records`), and cutting any
bytes into windows of that width loses nothing (`records_windows`).
-/

namespace Lib

variable {α β : Type}

/-- One piece is the front. -/
theorem splitLengths_one (w : Nat) (xs : List β) : [w].splitLengths xs = [xs.take w] := by
  rw [List.splitLengths_cons, List.splitLengths_nil]

/-- The pieces of the widths given make up the front. -/
theorem flatten_splitLengths_take :
    ∀ (ws : List Nat) (xs : List β), (ws.splitLengths xs).flatten = xs.take ws.sum := by
  intro ws
  induction ws with
  | nil =>
    intro xs
    rw [List.splitLengths_nil, List.flatten_nil, List.sum_nil, List.take_zero]
  | cons w ws ih =>
    intro xs
    rw [List.splitLengths_cons, List.flatten_cons, ih, List.sum_cons, List.take_add]

/-- Splitting at the joints gives the pieces back. -/
theorem splitLengths_flatten :
    ∀ (pieces : List (List β)) (more : List β),
      (pieces.map List.length).splitLengths (pieces.flatten ++ more) = pieces := by
  intro pieces
  induction pieces with
  | nil =>
    intro _
    rfl
  | cons piece pieces ih =>
    intro more
    rw [List.map_cons, List.flatten_cons, List.append_assoc, List.splitLengths_cons, List.take_left,
      List.drop_left, ih]

/-- How records of type `α` lie in a list of cells. -/
structure Layout (α β : Type) where
  /-- the widths of the fields, in order -/
  widths : List Nat
  /-- the fields of a record, in order -/
  fields : α → List (List β)
  /-- the record that some cells start with -/
  ofBytes : List β → α
  widths_fields : ∀ a, (fields a).map List.length = widths
  fields_inj : ∀ a b, fields a = fields b → a = b
  fields_ofBytes : ∀ xs, widths.sum ≤ xs.length → fields (ofBytes xs) = widths.splitLengths xs

namespace Layout

variable (L : Layout α β)

/-- The width of a record. -/
def width : Nat := L.widths.sum

/-- A record on the wire. -/
def bytes (a : α) : List β := (L.fields a).flatten

@[simp] theorem length_bytes (a : α) : (L.bytes a).length = L.width := by
  rw [bytes, List.length_flatten, L.widths_fields, width]

/-- **Decoding undoes serialising**, whatever follows the record. -/
theorem ofBytes_bytes (a : α) (more : List β) : L.ofBytes (L.bytes a ++ more) = a := by
  apply L.fields_inj
  have hfits : L.widths.sum ≤ (L.bytes a ++ more).length := by
    rw [List.length_append, length_bytes]
    exact Nat.le_add_right _ _
  rw [L.fields_ofBytes _ hfits, ← L.widths_fields a]
  exact splitLengths_flatten (L.fields a) more

/-- **Serialising undoes decoding**: no cell of the record is lost. -/
theorem bytes_ofBytes {xs : List β} (h : L.width ≤ xs.length) :
    L.bytes (L.ofBytes xs) = xs.take L.width := by
  rw [bytes, L.fields_ofBytes xs h, flatten_splitLengths_take]
  rfl

/-- The cells behind a record do not show in it. -/
theorem ofBytes_take {xs : List β} (h : L.width ≤ xs.length) :
    L.ofBytes (xs.take L.width) = L.ofBytes xs := by
  have hback := L.ofBytes_bytes (L.ofBytes xs) []
  rwa [List.append_nil, L.bytes_ofBytes h] at hback

/-! ## Lists of records -/

/-- Records one behind the other. -/
def records (as : List α) : List β := as.flatMap L.bytes

@[simp] theorem length_records (as : List α) : (L.records as).length = as.length * L.width := by
  induction as with
  | nil =>
    rw [List.length_nil, Nat.zero_mul]
    rfl
  | cons a as ih =>
    rw [records, List.flatMap_cons, List.length_append, length_bytes, List.length_cons,
      Nat.succ_mul, Nat.add_comm, ← ih]
    rfl

theorem records_append (as bs : List α) : L.records (as ++ bs) = L.records as ++ L.records bs :=
  List.flatMap_append

/-- Behind the first `k` records are the others. -/
theorem drop_records {as : List α} {k : Nat} (h : k ≤ as.length) (more : List β) :
    (L.records as ++ more).drop (k * L.width) = L.records (as.drop k) ++ more := by
  have hfront : (L.records (as.take k)).length = k * L.width := by
    rw [length_records, List.length_take, Nat.min_eq_left h]
  have hsplit : L.records as = L.records (as.take k) ++ L.records (as.drop k) := by
    rw [← records_append, List.take_append_drop]
  rw [hsplit, List.append_assoc, List.drop_left' hfront]

/-- **Record `k`** is decoded from where its number says. -/
theorem ofBytes_records {as : List α} {k : Nat} (h : k < as.length) (more : List β) :
    L.ofBytes ((L.records as ++ more).drop (k * L.width)) = as[k] := by
  have hcons : L.records (as.drop k) = L.bytes as[k] ++ L.records (as.drop (k + 1)) := by
    rw [List.drop_eq_getElem_cons h]
    rfl
  rw [drop_records L (Nat.le_of_lt h), hcons, List.append_assoc, ofBytes_bytes]

/-- The same with something of a known length in front of the records. -/
theorem ofBytes_behind {front : List β} {n : Nat} (hfront : front.length = n) {as : List α}
    {k : Nat} (h : k < as.length) :
    L.ofBytes ((front ++ L.records as).drop (n + k * L.width)) = as[k] := by
  have hrecord := L.ofBytes_records h []
  rw [List.append_nil] at hrecord
  rw [← List.drop_drop, List.drop_left' hfront, hrecord]

theorem records_inj {as bs : List α} (hlen : as.length = bs.length)
    (h : L.records as = L.records bs) : as = bs := by
  apply List.ext_getElem hlen
  intro k hk hk'
  rw [← L.ofBytes_records hk [], h, L.ofBytes_records hk']

/-- Windows of one width, side by side, are what they were cut from. -/
theorem range_windows (xs : List β) (w : Nat) :
    ∀ n, (List.range n).flatMap (fun k => (xs.drop (k * w)).take w) = xs.take (n * w) := by
  intro n
  induction n with
  | zero =>
    rw [Nat.zero_mul, List.take_zero]
    rfl
  | succ n ih =>
    rw [List.range_succ, List.flatMap_append, ih, List.flatMap_singleton, Nat.succ_mul,
      List.take_add]

/-- **Nothing is lost**: the records of all windows are the cells they were read from. -/
theorem records_windows {xs : List β} {n : Nat} (h : n * L.width ≤ xs.length) :
    L.records ((List.range n).map fun k => L.ofBytes (xs.drop (k * L.width)))
      = xs.take (n * L.width) := by
  rw [records, List.flatMap_map, ← range_windows xs L.width n]
  apply List.flatMap_congr
  intro k hk
  have hle : (k + 1) * L.width ≤ n * L.width :=
    Nat.mul_le_mul_right _ (List.mem_range.mp hk)
  rw [Nat.succ_mul] at hle
  exact L.bytes_ofBytes (by rw [List.length_drop]; omega)

end Layout

end Lib
