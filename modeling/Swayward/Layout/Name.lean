/-
  File:      Swayward/Layout/Name.lean
  Subject:   NAMES: comparing them up to ASCII case, and the number at their head.

  A workspace has a name, a number or both; what clients see is its name, or else its number
  written out (`sway_name`). The functions here are the ones every path that creates or looks up a
  workspace goes through:

  * `eqIgnoreAsciiCase` and `lower`           -- when two names are the same;
  * `parseWorkspaceNum`, `numberText`         -- the number at the head of a name, and back;
  * `swayIdentityFromName`, `swayWorkspaceIdentity` -- the identity a new workspace gets.
-/
import Mathlib.Data.Int.Notation
import Mathlib.Data.List.Perm.Subperm
import Mathlib.Data.List.TakeWhile
import Mathlib.Order.Basic

namespace Swayward

/-- A name, as its characters. -/
abbrev Name := List Char

/-- Any other text: a command, a mark, a message. -/
abbrev Text := List Char

instance : LawfulBEq Text := inferInstance

namespace Name

/-! ## 1. Case -/

/-- `to_ascii_lowercase`. -/
def lower (name : Name) : Name := name.map Char.toLower

/-- `eq_ignore_ascii_case`. -/
def eqIgnoreAsciiCase (a b : Name) : Bool := a.lower == b.lower

/-! ## 2. Numbers -/

/-- `i32::MAX`. -/
def maxNumber : ℕ := 2147483647

/-- `number.to_string()`. -/
def numberText (number : ℕ) : Name := Nat.toDigits 10 number

/-- The digits a name starts with. -/
def leadingDigits (name : Name) : Name := name.takeWhile Char.isDigit

/-- The number a name starts with; digits that do not fit into an `i32` are no number. -/
def parseWorkspaceNum (name : Name) : Option ℕ :=
  let digits := name.leadingDigits
  if digits.isEmpty then
    none
  else
    let number := Nat.ofDigitChars 10 digits 0
    if number ≤ maxNumber then some number else none

/-- `sway_workspace_num`: `-1` for a name without a number. -/
def swayWorkspaceNum (name : Name) : ℤ := (name.parseWorkspaceNum.map Int.ofNat).getD (-1)

/-- Whether `name` starts with the digits `target` starts with, and no further digit. -/
def workspaceNameMatchesNumber (name target : Name) : Bool :=
  let digits := target.leadingDigits
  digits.isPrefixOf name && !(name.drop digits.length).head?.any Char.isDigit

end Name

/-! ## 3. Identities -/

/-- A name, a number, or both. -/
structure Identity where
  name : Option Name := none
  number : Option ℕ := none
  deriving DecidableEq

namespace Identity

/-- The name clients see. -/
def swayName (identity : Identity) : Option Name :=
  identity.name.or (identity.number.map Name.numberText)

end Identity

/-- Where a workspace command goes. -/
inductive WorkspaceTarget
  | current
  | backAndForth
  | next
  | prev
  | nextOnOutput
  | prevOnOutput
  | number (name : Name)
  | name (name : Name)
  deriving DecidableEq

/-- The identity of a workspace created by name: its number, and the name too unless it is exactly
    that number. -/
def swayIdentityFromName (name : Name) : Identity :=
  let number := name.parseWorkspaceNum
  { name := if number.all (name != Name.numberText ·) then some name else none
    number := number }

/-- `Err` texts of `sway_workspace_identity`. -/
inductive IdentityError
  /-- `invalid workspace number '{name}'` -/
  | invalidNumber (name : Name)
  /-- `relative workspace target cannot be created` -/
  | relative
  deriving DecidableEq

def swayWorkspaceIdentity : WorkspaceTarget → Except IdentityError Identity
  | .number name =>
    match name.parseWorkspaceNum with
    | some number =>
      .ok { name := if name != Name.numberText number then some name else none
            number := some number }
    | none => .error (.invalidNumber name)
  | .name name => .ok (swayIdentityFromName name)
  | _ => .error .relative

/-- The text a target names a workspace by. -/
def WorkspaceTarget.text : WorkspaceTarget → Option Name
  | .number value => some value
  | .name value => some value
  | _ => none

/-- Whether a workspace of this identity is the one `target` names (`workspace_matches_target`). -/
def Identity.matchesTarget (identity : Identity) : WorkspaceTarget → Bool
  | .number value => identity.swayName.any (·.workspaceNameMatchesNumber value)
  | .name value => identity.swayName.any (·.eqIgnoreAsciiCase value)
  | _ => false

/-- The digits at the head of a name are followed by no digit. -/
theorem Name.workspaceNameMatchesNumber_self (name : Name) :
    name.workspaceNameMatchesNumber name = true := by
  induction name with
  | nil => rfl
  | cons c name ih =>
    unfold workspaceNameMatchesNumber leadingDigits at ih ⊢
    rw [List.takeWhile_cons]
    split
    · simpa using ih
    · rename_i hc
      simpa using hc

/-- **A workspace is found by the command that created it**: it shows the text of the command, and
    both forms of the command find it by that text. -/
theorem created_matches {target : WorkspaceTarget} {identity : Identity}
    (h : swayWorkspaceIdentity target = .ok identity) :
    ∃ name, target.text = some name ∧ identity.swayName = some name ∧
      identity.matchesTarget (.name name) = true ∧
      identity.matchesTarget (.number name) = true := by
  obtain ⟨name, htext, hname⟩ : ∃ name, target.text = some name ∧
      identity = swayIdentityFromName name := by
    cases target with
    | name name => exact ⟨name, rfl, (Except.ok.inj h).symm⟩
    | number name =>
      refine ⟨name, rfl, ?_⟩
      unfold swayIdentityFromName
      rw [swayWorkspaceIdentity] at h
      cases hnumber : name.parseWorkspaceNum with
      | none => rw [hnumber] at h; cases h
      | some number => rw [hnumber] at h; exact (Except.ok.inj h).symm
    | _ => cases h
  have hshown : identity.swayName = some name := by
    rw [hname, swayIdentityFromName, Identity.swayName]
    cases name.parseWorkspaceNum with
    | none => rfl
    | some number => by_cases e : name = Name.numberText number <;> simp [e]
  simp only [Identity.matchesTarget, hshown, Option.any_some]
  exact ⟨name, htext, rfl, beq_self_eq_true _, name.workspaceNameMatchesNumber_self⟩

theorem created_matches_padded :
    ∃ name, (⟨some ['0', '7'], some 7⟩ : Identity).matchesTarget (.number name) = true := by
  have h : swayWorkspaceIdentity (.number ['0', '7']) = .ok ⟨some ['0', '7'], some 7⟩ := by decide
  obtain ⟨name, -, -, -, hnumber⟩ := created_matches h
  exact ⟨name, hnumber⟩

end Swayward
