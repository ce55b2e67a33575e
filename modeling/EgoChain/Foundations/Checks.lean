import Mathlib.Algebra.Order.Ring.Int

/-!
# Checks in sequence

A validator makes one check after the other and ends with the first that fails.
The lemmas turn a success into the conjunction of what was checked.
-/

namespace EgoChain.Foundations

variable {ε α β : Type}

/-- Go on if the condition holds. -/
def ensure (condition : Prop) [Decidable condition] (error : ε) : Except ε Unit :=
  if condition then .ok () else .error error

/-- Go on with the value if there is one. -/
def need (value : Option α) (error : ε) : Except ε α :=
  match value with
  | some found => .ok found
  | none => .error error

/-- Make the check only under a condition. -/
def provided (condition : Prop) [Decidable condition] (check : Except ε Unit) : Except ε Unit :=
  if condition then check else .ok ()

/-- Make the check on every member in order. -/
def checkAll (check : α → Except ε Unit) : List α → Except ε Unit
  | [] => .ok ()
  | value :: rest => do
      check value
      checkAll check rest

variable {first : Except ε α} {result : β}

theorem bind_eq_ok_iff {next : α → Except ε β} :
    (first >>= next) = .ok result ↔ ∃ value, first = .ok value ∧ next value = .ok result := by
  cases first with
  | error error =>
    constructor
    · intro failed
      cases failed
    · rintro ⟨value, failed, -⟩
      cases failed
  | ok value =>
    constructor
    · intro passed
      exact ⟨value, rfl, passed⟩
    · rintro ⟨other, same, passed⟩
      cases same
      exact passed

theorem unit_bind_eq_ok_iff {first : Except ε Unit} {next : Unit → Except ε β} :
    (first >>= next) = .ok result ↔ first = .ok () ∧ next () = .ok result := by
  rw [bind_eq_ok_iff]
  constructor
  · rintro ⟨passed, here, later⟩
    exact ⟨here, later⟩
  · rintro ⟨here, later⟩
    exact ⟨(), here, later⟩

variable {result : Unit} {condition : Prop} {error : ε}

theorem ensure_eq_ok_iff [Decidable condition] : ensure condition error = .ok result ↔ condition := by
  unfold ensure
  split <;> simp [*]

/-- A check written as a branch. -/
theorem refuse_eq_ok_iff [Decidable condition] {rest : Except ε α} {result : α} :
    (if condition then .error error else rest) = .ok result ↔ ¬ condition ∧ rest = .ok result := by
  split <;> simp [*]

theorem provided_eq_ok_iff [Decidable condition] {check : Except ε Unit} :
    provided condition check = .ok result ↔ (condition → check = .ok ()) := by
  unfold provided
  split <;> simp [*]

theorem need_eq_ok_iff {value : Option α} {found : α} :
    need value error = .ok found ↔ value = some found := by
  cases value <;> simp [need]

theorem mapError_eq_ok_iff {δ : Type} {change : ε → δ} {value : α} :
    first.mapError change = .ok value ↔ first = .ok value := by
  cases first <;> simp [Except.mapError]

theorem checkAll_eq_ok_iff {check : α → Except ε Unit} {values : List α} :
    checkAll check values = .ok result ↔ ∀ value ∈ values, check value = .ok () := by
  induction values with
  | nil => simp [checkAll]
  | cons value rest ih =>
    rw [checkAll, unit_bind_eq_ok_iff, List.forall_mem_cons, ih]

end EgoChain.Foundations
