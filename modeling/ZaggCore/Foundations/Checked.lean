import Mathlib

/-! # Calls that can fail

A call returns, throws, or fails one of its assertions. `Keeps P` says that it fails no assertion and
returns, if it returns, something with the property `P`; the rules below go through a call statement by
statement. -/

namespace ZaggCore.Foundations
set_option autoImplicit false
set_option maxHeartbeats 250000

/-- How a call can end otherwise than by returning. -/
inductive Failure where
  | assertion (condition : String)
  | exception (what : String)
  deriving DecidableEq, Repr

abbrev Checked (α : Type) := Except Failure α

namespace Checked

variable {α β : Type}

def assert (p : Prop) [Decidable p] (condition : String) : Checked Unit :=
  if p then .ok () else .error (.assertion condition)

def raise (what : String) : Checked α := .error (.exception what)

def Keeps (P : α → Prop) : Checked α → Prop
  | .ok a => P a
  | .error (.exception _) => True
  | .error (.assertion _) => False

/-- What is returned, if anything is, has the property. -/
def IfOk (x : Checked α) (P : α → Prop) : Prop :=
  match x with
  | .ok a => P a
  | .error _ => True

instance (x : Checked α) (P : α → Prop) [DecidablePred P] : Decidable (IfOk x P) :=
  match x with
  | .ok a => inferInstanceAs (Decidable (P a))
  | .error _ => .isTrue trivial

variable {P Q : α → Prop} {R : β → Prop}

theorem keeps_ok {a : α} (h : P a) : Keeps P (.ok a) := h

theorem keeps_raise {what : String} : Keeps P (raise what) := trivial

theorem assert_of {p : Prop} [Decidable p] (hp : p) (condition : String) : assert p condition = .ok () :=
  if_pos hp

theorem assert_bind {p : Prop} [Decidable p] (hp : p) (condition : String) (f : Unit → Checked β) :
    (assert p condition >>= f) = f () := by
  rw [assert_of hp]
  rfl

theorem Keeps.mono {x : Checked α} (h : Keeps P x) (hPQ : ∀ a, P a → Q a) : Keeps Q x := by
  match x, h with
  | .ok a, h => exact hPQ a h
  | .error (.exception _), _ => trivial

theorem Keeps.bind {x : Checked α} {f : α → Checked β} (hx : Keeps P x)
    (hf : ∀ a, P a → Keeps R (f a)) : Keeps R (x >>= f) := by
  match x, hx with
  | .ok a, hx => exact hf a hx
  | .error (.exception _), _ => trivial

theorem Keeps.assert {p : Prop} [Decidable p] (hp : p) {condition : String} {f : Unit → Checked β}
    (hf : Keeps R (f ())) : Keeps R (Checked.assert p condition >>= f) := by
  rw [assert_bind hp]
  exact hf

theorem Keeps.ne_assertion {x : Checked α} (h : Keeps P x) (condition : String) :
    x ≠ .error (.assertion condition) := by
  rintro rfl
  exact h

theorem Keeps.of_ok {x : Checked α} {a : α} (h : Keeps P x) (hx : x = .ok a) : P a := by
  subst hx
  exact h

end Checked

end ZaggCore.Foundations
