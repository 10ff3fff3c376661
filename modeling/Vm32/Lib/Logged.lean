/-
# Computations that report events

A `Logged ε α` is a value together with the events that were reported while it was computed,
oldest first.  An instrumented program is written in this monad next to the program itself: its
value is the result of the program, and a property of all events is proved along the structure
of the program by the rules for `Every`.
-/
import Mathlib.Tactic

universe u

/-- A value and the events reported on the way to it. -/
structure Logged (ε : Type*) (α : Type u) where
  value : α
  log : List ε

namespace Logged

variable {ε : Type*} {α β : Type u}

instance : Monad (Logged ε) where
  pure a := ⟨a, []⟩
  bind x f := ⟨(f x.value).value, x.log ++ (f x.value).log⟩

/-- Report one event. -/
def tell (e : ε) : Logged ε PUnit := ⟨⟨⟩, [e]⟩

section Value

@[simp] lemma value_pure (a : α) : (pure a : Logged ε α).value = a := rfl

@[simp] lemma value_bind (x : Logged ε α) (f : α → Logged ε β) :
    (x >>= f).value = (f x.value).value := rfl

@[simp] lemma value_tell (e : ε) : (tell e).value = ⟨⟩ := rfl

@[simp] lemma value_ite (p : Prop) [Decidable p] (x y : Logged ε α) :
    (if p then x else y).value = if p then x.value else y.value :=
  apply_ite Logged.value p x y

end Value

section Log

@[simp] lemma log_pure (a : α) : (pure a : Logged ε α).log = [] := rfl

lemma tell_bind (e : ε) (f : PUnit → Logged ε β) :
    tell e >>= f = ⟨(f ⟨⟩).value, e :: (f ⟨⟩).log⟩ := rfl

/-- A computation that goes on from a value, with the events so far. -/
lemma mk_bind (a : α) (log : List ε) (f : α → Logged ε β) :
    (⟨a, log⟩ : Logged ε α) >>= f = ⟨(f a).value, log ++ (f a).log⟩ := rfl

end Log

/-- Every event of the computation satisfies `P`. -/
def Every (P : ε → Prop) (x : Logged ε α) : Prop := ∀ e ∈ x.log, P e

section Every

variable {P : ε → Prop} {x y : Logged ε α} {f : α → Logged ε β}

@[simp] lemma every_pure (a : α) : Every P (pure a) := by
  rintro e ⟨⟩

@[simp] lemma every_tell (e : ε) : Every P (tell e) ↔ P e := by
  simp [Every, tell]

/-- The second computation is judged at the value of the first one only. -/
@[simp] lemma every_bind : Every P (x >>= f) ↔ Every P x ∧ Every P (f x.value) :=
  List.forall_mem_append

@[simp] lemma every_ite (p : Prop) [Decidable p] :
    Every P (if p then x else y) ↔ (p → Every P x) ∧ (¬p → Every P y) := by
  split_ifs with hp <;> simp [hp]

end Every

end Logged
