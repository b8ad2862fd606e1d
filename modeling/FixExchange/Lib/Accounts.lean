/-
# Accounts of quantities

An account follows a quantity that is spent bit by bit, and that may be set anew in between:
how much has been spent in total, and how much of it before the quantity was set for the last
time.  What is open is the quantity less what has been spent since.
-/
import Mathlib.Logic.Function.Basic
import Mathlib.Tactic

/-- What has been spent of a quantity. -/
structure Account where
  /-- The quantity, as it was set for the last time. -/
  qty : ℤ
  /-- What has been spent in total. -/
  spent : ℤ
  /-- What had been spent when the quantity was set for the last time. -/
  earlier : ℤ
deriving DecidableEq, Repr

namespace Account

/-- The account without a quantity. -/
def blank : Account := ⟨0, 0, 0⟩

/-- What is open of the quantity. -/
def openQty (a : Account) : ℤ := a.qty - (a.spent - a.earlier)

/-- Set the quantity. -/
def renew (a : Account) (q : ℤ) : Account := ⟨q, a.spent, a.spent⟩

/-- Spend some of it. -/
def spend (a : Account) (n : ℤ) : Account := { a with spent := a.spent + n }

variable (a : Account) (q n : ℤ)

@[simp] lemma renew_qty : (a.renew q).qty = q := rfl
@[simp] lemma renew_spent : (a.renew q).spent = a.spent := rfl
@[simp] lemma renew_earlier : (a.renew q).earlier = a.spent := rfl
@[simp] lemma spend_qty : (a.spend n).qty = a.qty := rfl
@[simp] lemma spend_spent : (a.spend n).spent = a.spent + n := rfl
@[simp] lemma spend_earlier : (a.spend n).earlier = a.earlier := rfl

/-- All of a quantity that has just been set is open. -/
@[simp] lemma renew_openQty : (a.renew q).openQty = q := by
  simp [openQty]

@[simp] lemma spend_openQty : (a.spend n).openQty = a.openQty - n := by
  simp only [openQty, spend_qty, spend_spent, spend_earlier]
  omega

/-- What is not open has been spent, exactly when nothing had been spent of an earlier
quantity. -/
lemma spent_iff : a.qty - a.openQty = a.spent ↔ a.earlier = 0 := by
  rw [openQty]
  omega

end Account

/-- Accounts by key. -/
abbrev Accounts (K : Type*) := K → Account

namespace Accounts

variable {K : Type*} [DecidableEq K] {A : Accounts K} {k k' : K} {q n : ℤ}

/-- No account has a quantity. -/
def blank : Accounts K := fun _ => Account.blank

/-- Set the quantity of an account. -/
def renew (A : Accounts K) (k : K) (q : ℤ) : Accounts K := Function.update A k ((A k).renew q)

/-- Spend from an account. -/
def spend (A : Accounts K) (k : K) (n : ℤ) : Accounts K := Function.update A k ((A k).spend n)

@[simp] lemma renew_self : A.renew k q k = (A k).renew q := Function.update_self ..
@[simp] lemma spend_self : A.spend k n k = (A k).spend n := Function.update_self ..

lemma renew_of_ne (h : k' ≠ k) : A.renew k q k' = A k' := Function.update_of_ne h ..
lemma spend_of_ne (h : k' ≠ k) : A.spend k n k' = A k' := Function.update_of_ne h ..

/-- Changes of two accounts can be exchanged. -/
lemma renew_renew (h : k ≠ k') (n : ℤ) : (A.renew k q).renew k' n = (A.renew k' n).renew k q := by
  rw [renew, renew_of_ne h.symm, renew, renew, renew_of_ne h, renew, Function.update_comm h]

@[inherit_doc renew_renew]
lemma spend_renew (h : k ≠ k') : (A.renew k q).spend k' n = (A.spend k' n).renew k q := by
  rw [spend, renew_of_ne h.symm, renew, renew, spend_of_ne h, spend, Function.update_comm h]

end Accounts
