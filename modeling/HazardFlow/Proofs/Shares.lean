import Mathlib.Data.List.Perm.Basic

/-!
# Shares of one entry

What a list has in all is what one of its entries has and what the others have. Changing that entry
leaves what the others have.
-/

namespace HazardFlow

variable {α β : Type} {l : List α} {k : Nat} {a : α}

/-- What all entries of a list have is what one of them has and what the others have, whatever is
made of that one. -/
theorem exists_flatMap_modify (f : α → List β) (h : l[k]? = some a) :
    ∃ others : List β, (l.flatMap f).Perm (f a ++ others) ∧
      ∀ change : α → α, ((l.modify k change).flatMap f).Perm (f (change a) ++ others) := by
  induction l generalizing k with
  | nil => simp at h
  | cons x l ih =>
    cases k with
    | zero =>
      rw [List.getElem?_cons_zero, Option.some.injEq] at h
      subst h
      exact ⟨l.flatMap f, .refl _, fun change => .refl _⟩
    | succ k =>
      rw [List.getElem?_cons_succ] at h
      obtain ⟨others, hbefore, hafter⟩ := ih h
      refine ⟨f x ++ others, ?_, fun change => ?_⟩
      · rw [List.flatMap_cons]
        exact (hbefore.append_left _).trans (List.perm_append_comm_assoc ..)
      · rw [List.modify_succ_cons, List.flatMap_cons]
        exact ((hafter change).append_left _).trans (List.perm_append_comm_assoc ..)

/-- One entry of a list may also be replaced. -/
theorem exists_flatMap_set (f : α → List β) (h : l[k]? = some a) :
    ∃ others : List β, (l.flatMap f).Perm (f a ++ others) ∧
      ∀ b, ((l.set k b).flatMap f).Perm (f b ++ others) := by
  obtain ⟨others, hbefore, hafter⟩ := exists_flatMap_modify f h
  refine ⟨others, hbefore, fun b => ?_⟩
  rw [List.set_eq_modify]
  exact hafter fun _ => b

/-- A list of names is what stands under one of them and what stands under the others. -/
theorem perm_lookup {l : List (String × β)} (hnames : (l.map Prod.fst).Nodup) (name : String) :
    (l.map Prod.snd).Perm
      ((l.lookup name).toList ++ (l.filter fun entry => entry.1 != name).map Prod.snd) := by
  induction l with
  | nil => exact .refl _
  | cons entry l ih =>
    obtain ⟨other, b⟩ := entry
    obtain ⟨hnew, hrest⟩ := List.nodup_cons.mp hnames
    by_cases heq : name = other
    · subst heq
      have hkept : (l.filter fun entry => entry.1 != name) = l := by
        refine List.filter_eq_self.mpr fun entry hentry => bne_iff_ne.mpr fun heq => hnew ?_
        have hmem : entry.1 ∈ l.map Prod.fst := List.mem_map_of_mem hentry
        rwa [heq] at hmem
      rw [List.lookup_cons_self, List.filter_cons_of_neg (by simp), hkept]
      exact .refl _
    · have hother : (other != name) = true := bne_iff_ne.mpr (Ne.symm heq)
      rw [List.lookup_cons, beq_false_of_ne heq,
        List.filter_cons_of_pos (p := fun entry : String × β => entry.1 != name) hother]
      exact ((ih hrest).cons b).trans List.perm_middle.symm

end HazardFlow
