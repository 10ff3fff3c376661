/-
# Objects in disjoint regions of memory

A memory is a function on addresses.  Objects live in regions that do not overlap, and what value
an object has is decided by the cells of its region.  An update that writes to one region only
changes one object: this is the frame rule that lets a program on memory be read as a program on
the values of its objects.
-/
import Mathlib.Data.Nat.Notation
import Mathlib.Logic.Function.Basic
import Mathlib.Tactic.Lemma

namespace Regions

/-- Regions that do not overlap. -/
structure Layout (ρ : Type*) where
  start : ρ → ℕ
  size : ρ → ℕ
  apart : ∀ r r', r ≠ r' → start r + size r ≤ start r' ∨ start r' + size r' ≤ start r

variable {ρ α V : Type*}

/-- The address belongs to the region. -/
def Layout.Mem (L : Layout ρ) (r : ρ) (a : ℕ) : Prop := L.start r ≤ a ∧ a < L.start r + L.size r

lemma Layout.not_mem_of_ne {L : Layout ρ} {r r' : ρ} {a : ℕ} (hne : r' ≠ r) (ha : L.Mem r' a) :
    ¬L.Mem r a := by
  rintro ⟨hle, hlt⟩
  obtain ⟨hle', hlt'⟩ := ha
  rcases L.apart r' r hne with h | h <;> omega

/-- How values are stored in the regions: a memory that agrees on a region stores the same. -/
structure Representation (L : Layout ρ) (α V : Type*) where
  holds : ρ → V → (ℕ → α) → Prop
  congr : ∀ {r : ρ} {v : V} {mem mem' : ℕ → α}, holds r v mem →
    (∀ a, L.Mem r a → mem' a = mem a) → holds r v mem'

namespace Representation

variable {L : Layout ρ} (R : Representation L α V)

/-- Every region holds its value. -/
def Represents (s : ρ → V) (mem : ℕ → α) : Prop := ∀ r, R.holds r (s r) mem

variable {R} {s : ρ → V} {mem mem' : ℕ → α} {r : ρ} {v : V}

lemma Represents.congr (h : R.Represents s mem) (hmem : ∀ a, mem' a = mem a) :
    R.Represents s mem' := fun r => R.congr (h r) fun a _ => hmem a

/-- The frame rule. -/
theorem Represents.update [DecidableEq ρ] (h : R.Represents s mem) (hv : R.holds r v mem')
    (hframe : ∀ a, ¬L.Mem r a → mem' a = mem a) :
    R.Represents (Function.update s r v) mem' := by
  intro r'
  rcases eq_or_ne r' r with rfl | hne
  · rw [Function.update_self]
    exact hv
  · rw [Function.update_of_ne hne]
    exact R.congr (h r') fun a ha => hframe a (Layout.not_mem_of_ne hne ha)

end Representation

end Regions
