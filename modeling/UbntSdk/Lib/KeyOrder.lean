/-
UbntSdk.Lib.KeyOrder — a strict order completed by keys.

Where two elements are not related, `NotBehind` compares their keys. For keys that
tell the elements apart the whole is transitive exactly when no key lies between
those of two related elements in the wrong order, unless its element is related to
one of them (`notBehind_trans_iff`).

Nothing in this module names a program.
-/
import Mathlib.Algebra.Order.Ring.Int
import Mathlib.Order.Basic
import Mathlib.Order.Defs.LinearOrder
import Mathlib.Tactic.Common

namespace UbntSdk.Lib

variable {α β : Type*} [LinearOrder β]

/-- `a` need not stand behind `b`: it is not above `b`, and it is below `b` or has no
greater key. -/
def NotBehind (R : α → α → Prop) (key : α → β) (a b : α) : Prop :=
  ¬R a b ∧ (R b a ∨ key a ≤ key b)

/-- No element that is related to neither has its key between those of two related
ones that are in the wrong order. -/
def NoStraddle (R : α → α → Prop) (key : α → β) (S : α → Prop) : Prop :=
  ∀ a b m, S a → S b → S m → R a b → key a < key m → key m < key b →
    R m a ∨ R a m ∨ R m b ∨ R b m

variable {R : α → α → Prop} {key : α → β} {S : α → Prop}

theorem notBehind_trans (htrans : ∀ a b c, S a → S b → S c → R a b → R b c → R a c)
    (hkey : ∀ a b, S a → S b → key a = key b → a = b) (hno : NoStraddle R key S) {a b c : α}
    (ha : S a) (hb : S b) (hc : S c) (hab : NotBehind R key a b) (hbc : NotBehind R key b c) :
    NotBehind R key a c := by
  obtain ⟨hnab, hab⟩ := hab
  obtain ⟨hnbc, hbc⟩ := hbc
  have hnac : ¬R a c := by
    intro hac
    have hnba : ¬R b a := fun h => hnbc (htrans b a c hb ha hc h hac)
    have hncb : ¬R c b := fun h => hnab (htrans a c b ha hc hb hac h)
    have hlt₁ : key a < key b := lt_of_le_of_ne (hab.resolve_left hnba) fun h =>
      hnbc (hkey a b ha hb h ▸ hac)
    have hlt₂ : key b < key c := lt_of_le_of_ne (hbc.resolve_left hncb) fun h =>
      hnab (hkey b c hb hc h ▸ hac)
    rcases hno a c b ha hc hb hac hlt₁ hlt₂ with h | h | h | h
    · exact hnba h
    · exact hnab h
    · exact hnbc h
    · exact hncb h
  refine ⟨hnac, ?_⟩
  by_contra hnot
  obtain ⟨hnca, hca⟩ := not_or.mp hnot
  have hca : key c < key a := not_le.mp hca
  rcases hab with hba | hab
  · rcases hbc with hcb | hbc
    · exact hnca (htrans c b a hc hb ha hcb hba)
    · have hlt : key b < key c := lt_of_le_of_ne hbc fun h => hnca (hkey b c hb hc h ▸ hba)
      rcases hno b a c hb ha hc hba hlt hca with h | h | h | h
      · exact hnca (htrans c b a hc hb ha h hba)
      · exact hnbc h
      · exact hnca h
      · exact hnac h
  · rcases hbc with hcb | hbc
    · have hlt : key a < key b := lt_of_le_of_ne hab fun h => hnca (hkey a b ha hb h ▸ hcb)
      rcases hno c b a hc hb ha hcb hca hlt with h | h | h | h
      · exact hnac h
      · exact hnca h
      · exact hnab h
      · exact hnca (htrans c b a hc hb ha hcb h)
    · exact absurd (hab.trans hbc) (not_le.mpr hca)

theorem notBehind_trans_iff
    (htrans : ∀ a b c, S a → S b → S c → R a b → R b c → R a c)
    (hkey : ∀ a b, S a → S b → key a = key b → a = b) :
    (∀ a b c, S a → S b → S c → NotBehind R key a b → NotBehind R key b c →
      NotBehind R key a c) ↔ NoStraddle R key S := by
  constructor
  · intro h a b m ha hb hm hab hlt₁ hlt₂
    by_contra hnot
    obtain ⟨hma, ham, hmb, hbm⟩ : ¬R m a ∧ ¬R a m ∧ ¬R m b ∧ ¬R b m := by
      simpa only [not_or] using hnot
    have hcycle := h a m b ha hm hb ⟨ham, .inr hlt₁.le⟩ ⟨hmb, .inr hlt₂.le⟩
    exact hcycle.1 hab
  · intro hno a b c ha hb hc
    exact notBehind_trans htrans hkey hno ha hb hc

end UbntSdk.Lib
