/-
  File:      Swayward/Ipc/Ids.lean
  Subject:   THE IDENTIFIERS CLIENTS SEE (`ipc/tree/ids.rs`).

  Outputs, workspaces, containers and windows are counted apart inside the compositor. Towards
  clients each kind has a range of one hundred million numbers. Workspaces, containers and windows
  keep their own number in it; an output has the hash of its name.

  * `idFrom_inj`    -- small numbers stay apart;
  * `stableHash_lt` -- an output's number lies below those of the workspaces.
-/
import Mathlib.Data.Nat.Notation
import Mathlib.Tactic.Common
import Mathlib.Algebra.Order.Ring.Int
import Swayward.Layout.Name

namespace Swayward.Ipc

/-- `ROOT_ID` -/
def rootId : ℤ := 1

/-- `SCRATCH_OUTPUT_ID`, which is `i32::MAX` -/
def scratchOutputId : ℤ := 2147483647

/-- `SCRATCH_WORKSPACE_ID` -/
def scratchWorkspaceId : ℤ := 2147483646

/-- `ID_NAMESPACE_SIZE` -/
def idNamespaceSize : ℕ := 100000000

/-! ## 1. The hash of a name -/

/-- The value of a 64-bit word read as a signed number. -/
def wrapI64 (n : ℤ) : ℤ := (n + 2 ^ 63) % 2 ^ 64 - 2 ^ 63

/-- `stable_hash`, of the bytes of a name; `%` keeps the sign as in the source. -/
def stableHash (bytes : List UInt8) : ℤ :=
  (bytes.foldl (fun hash byte => wrapI64 (wrapI64 (hash * 31) + byte.toNat)) 0).tmod idNamespaceSize

/-- The bytes of a name. -/
def nameBytes (name : Name) : List UInt8 := name.flatMap String.utf8EncodeChar

/-- `output_id` -/
def outputId (name : Name) : ℤ := 100000000 + stableHash (nameBytes name)

theorem stableHash_lt (bytes : List UInt8) : stableHash bytes < 100000000 :=
  Int.tmod_lt_of_pos _ (by decide)

/-! ## 2. Numbers in their ranges -/

/-- The number of an identifier in the range that starts at `base`. -/
def idFrom (base : ℤ) (id : ℕ) : ℤ := base + (id % idNamespaceSize : ℕ)

/-- `workspace_id` -/
def workspaceId (id : ℕ) : ℤ := idFrom 200000000 id

/-- `container_id` -/
def containerId (id : ℕ) : ℤ := idFrom 300000000 id

/-- `window_id` -/
def windowId (id : ℕ) : ℤ := idFrom 400000000 id

theorem le_idFrom (base : ℤ) (id : ℕ) : base ≤ idFrom base id := by
  unfold idFrom
  omega

theorem idFrom_lt (base : ℤ) (id : ℕ) : idFrom base id < base + 100000000 := by
  have h : id % idNamespaceSize < idNamespaceSize := Nat.mod_lt _ (by decide)
  unfold idFrom idNamespaceSize at *
  omega

/-- **Small identifiers stay apart.** -/
theorem idFrom_inj {base : ℤ} {a b : ℕ} (ha : a < idNamespaceSize) (hb : b < idNamespaceSize)
    (h : idFrom base a = idFrom base b) : a = b := by
  unfold idFrom at h
  rw [Nat.mod_eq_of_lt ha, Nat.mod_eq_of_lt hb] at h
  omega

end Swayward.Ipc
