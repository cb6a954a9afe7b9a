import Mathlib.Algebra.BigOperators.Group.Finset.Basic
import Mathlib.Algebra.BigOperators.Group.List.Basic
import Mathlib.Algebra.BigOperators.Group.Finset.Piecewise

/-!
Additions into memory, each made by a load and a later store. A worker has a list of additions to
make and, between the load and the store of the first of them, the value that it read. What is in
memory and what is still owed have a constant sum as long as no one else stores at a place between
the two.
-/

namespace SextantTree.SplitAdd

variable {L V : Type}

section

variable [DecidableEq L] [AddCommMonoid V]

/-- What a list of additions adds at a place. -/
def owed (todo : List (L × V)) (l : L) : V := (todo.map fun x => if x.1 = l then x.2 else 0).sum

@[simp] lemma owed_nil (l : L) : owed ([] : List (L × V)) l = 0 := rfl

lemma owed_cons (x : L × V) (todo : List (L × V)) (l : L) :
    owed (x :: todo) l = (if x.1 = l then x.2 else 0) + owed todo l := by
  simp [owed]

lemma owed_append (xs ys : List (L × V)) (l : L) :
    owed (xs ++ ys) l = owed xs l + owed ys l := by
  simp [owed]

end

/-- The additions to make, and the value loaded for the first of them. -/
structure Worker (L V : Type) where
  todo : List (L × V)
  reg : Option V := none

def Worker.load (mem : L → V) (w : Worker L V) : Option (Worker L V) :=
  match w.todo, w.reg with
  | (l, _) :: _, none => some { w with reg := some (mem l) }
  | _, _ => none

/-- The second half: what was read, plus the addend, is written. -/
def Worker.store [DecidableEq L] [Add V] (mem : L → V) (w : Worker L V) : Option ((L → V) × Worker L V) :=
  match w.todo, w.reg with
  | (l, v) :: todo, some r => some (Function.update mem l (r + v), { todo })
  | _, _ => none

/-- A value that was read is still in memory. -/
def Worker.Fresh (mem : L → V) (w : Worker L V) : Prop :=
  ∀ r ∈ w.reg, ∃ x todo, w.todo = x :: todo ∧ r = mem x.1

lemma Worker.fresh_of_none {mem : L → V} {w : Worker L V} (h : w.reg = none) : w.Fresh mem := by
  intro r hr
  rw [h] at hr
  cases hr

lemma Worker.load_spec {mem : L → V} {w w' : Worker L V} (h : w.load mem = some w') :
    w'.todo = w.todo ∧ w'.Fresh mem := by
  unfold Worker.load at h
  split at h
  · rename_i l v todo htodo _
    cases h
    refine ⟨rfl, fun r hr => ⟨(l, v), todo, htodo, ?_⟩⟩
    cases hr
    rfl
  · cases h

variable [AddCommMonoid V]

lemma Worker.store_spec [DecidableEq L] {mem mem' : L → V} {w w' : Worker L V} (hw : w.Fresh mem)
    (h : w.store mem = some (mem', w')) :
    w'.reg = none ∧ ∀ l, mem' l + owed w'.todo l = mem l + owed w.todo l := by
  unfold Worker.store at h
  split at h
  · rename_i l₀ v todo r htodo hreg
    cases h
    refine ⟨rfl, fun l => ?_⟩
    obtain ⟨x, todo', hx, rfl⟩ := hw r hreg
    rw [htodo] at hx ⊢
    cases hx
    rw [owed_cons]
    by_cases hl : l₀ = l
    · subst hl
      rw [Function.update_self, if_pos rfl, add_assoc]
    · rw [Function.update_of_ne (Ne.symm hl), if_neg hl, zero_add]
  · cases h

lemma sum_update {β : Type} (f : β → V) (g : ℕ → β) {i n : ℕ} (hi : i < n) (b : β) :
    ∑ j ∈ Finset.range n, f (Function.update g i b j) + f (g i) =
      ∑ j ∈ Finset.range n, f (g j) + f b := by
  have hi' : i ∈ Finset.range n := Finset.mem_range.mpr hi
  have hcomp : ∀ j, f (Function.update g i b j) = Function.update (f ∘ g) i (f b) j :=
    fun j => congrFun (Function.comp_update f g i b) j
  rw [Finset.sum_congr rfl fun j _ => hcomp j, Finset.sum_update_of_mem hi',
    ← Finset.add_sum_erase _ _ hi', Finset.sdiff_singleton_eq_erase]
  simp only [Function.comp_apply]
  ac_rfl

end SextantTree.SplitAdd
