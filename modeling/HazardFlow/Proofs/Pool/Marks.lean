import HazardFlow.Memory.Page
import Mathlib.Data.List.FinRange
import Mathlib.Data.List.Nodup

/-!
# Marked slots

The slots of a page that are handed out, as a list of addresses. Claiming a slot adds one entry to
the list, and clearing a mark takes one entry away. Where a page lies decides which addresses its
slots have: they follow one another at the stride, so that an address names one slot at most.
-/

namespace HazardFlow.Page

variable {p q : Page} {i j : Fin slotsPerPage} {a : Address}

/-- The addresses of the slots that are handed out. -/
def marked (p : Page) : List Address :=
  ((List.finRange slotsPerPage).filter fun i => p.occupied.get i).map
    fun i : Fin slotsPerPage => p.slot i

/-- An address is marked when it is that of a slot handed out. -/
theorem mem_marked : a ∈ p.marked ↔ ∃ i : Fin slotsPerPage, p.occupied.get i = true ∧
    p.slot i = a := by
  simp [marked]

/-- As many slots are marked as are handed out. -/
theorem length_marked (p : Page) : p.marked.length = p.occupancy := by
  have hlist : p.occupied.toList = (List.finRange slotsPerPage).map p.occupied.get := by
    apply List.ext_getElem (by simp)
    intro k hk _
    rw [Vector.getElem_toList, List.getElem_map, List.getElem_finRange]
    rfl
  unfold occupancy marked
  rw [← Vector.count_toList, hlist, List.length_map, List.count_eq_countP, List.countP_map,
    List.countP_eq_length_filter]
  congr 1
  exact List.filter_congr fun i _ => (beq_true _).symm

/-- Slots follow one another at the stride. -/
theorem slot_inj (hstride : 0 < p.stride) (h : p.slot i = p.slot j) : i = j := by
  unfold slot at h
  have hmul : i.val * p.stride = j.val * p.stride := Nat.add_left_cancel h
  exact Fin.ext (Nat.eq_of_mul_eq_mul_right hstride hmul)

/-- The bytes of a slot, up to the next one, lie in its page. -/
theorem slot_add_stride_le (p : Page) (i : Fin slotsPerPage) :
    p.slot i + p.stride ≤ p.base + p.bytes := by
  have hi : i.val.succ ≤ slotsPerPage := i.isLt
  have hmul := Nat.mul_le_mul_right p.stride hi
  rw [Nat.succ_mul, Nat.mul_comm slotsPerPage] at hmul
  unfold slot bytes
  rw [Nat.add_assoc]
  exact Nat.add_le_add_left hmul p.base

/-- Two slots of a page do not overlap. -/
theorem slot_add_stride_le_slot (p : Page) (h : i < j) : p.slot i + p.stride ≤ p.slot j := by
  have hij : i.val.succ ≤ j.val := h
  have hmul := Nat.mul_le_mul_right p.stride hij
  rw [Nat.succ_mul] at hmul
  unfold slot
  rw [Nat.add_assoc]
  exact Nat.add_le_add_left hmul p.base

/-- The slot that starts at the address of a slot is that slot. -/
theorem slotAt_slot (hstride : 0 < p.stride) (i : Fin slotsPerPage) :
    p.slotAt (p.slot i) = some i := by
  have hoffset : p.slot i - p.base = i.val * p.stride := Nat.add_sub_cancel_left ..
  have hdiv : i.val * p.stride / p.stride = i.val := Nat.mul_div_cancel _ hstride
  unfold slotAt
  simp only [hoffset, hdiv, Nat.mul_mod_left, i.isLt, dite_true, if_true]

/-- A page whose end is an address can be asked for the addresses that it holds. -/
theorem contains_eq (h : p.base + p.bytes ≤ maxWord) (a : Address) :
    p.contains a = .ok (p.base ≤ a && a < p.base + p.bytes) := by
  unfold contains
  rw [if_neg (Nat.not_lt.mpr h)]

/-- Where a page lies, whatever is marked in it. -/
def frame (p : Page) : Address × Nat := (p.base, p.stride)

/-- A mark does not move a page. -/
@[simp] theorem frame_mark (p : Page) (i : Fin slotsPerPage) (taken : Bool) :
    (p.mark i taken).frame = p.frame := rfl

/-- A mark changes one slot. -/
theorem get_mark (p : Page) (i j : Fin slotsPerPage) (taken : Bool) :
    (p.mark i taken).occupied.get j = if i = j then taken else p.occupied.get j := by
  change (p.occupied.set i taken)[j.val] = if i = j then taken else p.occupied[j.val]
  rw [Vector.getElem_set]
  simp only [Fin.ext_iff]

/-- The addresses of a page's slots are listed once. -/
theorem nodup_marked (hstride : 0 < p.stride) : p.marked.Nodup :=
  ((List.nodup_finRange slotsPerPage).filter _).map fun _ _ h => slot_inj hstride h

/-- Marking a free slot adds its address. -/
theorem perm_marked_mark (hstride : 0 < p.stride) (hfree : p.occupied.get i = false) :
    (p.mark i true).marked.Perm (p.slot i :: p.marked) := by
  have hnew : p.slot i ∉ p.marked := fun hmem => by
    obtain ⟨j, hj, heq⟩ := mem_marked.mp hmem
    rw [slot_inj hstride heq, hfree] at hj
    cases hj
  refine (List.perm_ext_iff_of_nodup (nodup_marked (by exact hstride))
    (List.nodup_cons.mpr ⟨hnew, nodup_marked hstride⟩)).mpr fun a => ?_
  rw [mem_marked, List.mem_cons, mem_marked]
  constructor
  · rintro ⟨j, hj, rfl⟩
    rw [get_mark] at hj
    split at hj
    · next hij => exact Or.inl (by rw [hij]; rfl)
    · exact Or.inr ⟨j, hj, rfl⟩
  · rintro (rfl | ⟨j, hj, rfl⟩)
    · exact ⟨i, by rw [get_mark, if_pos rfl], rfl⟩
    · exact ⟨j, by rw [get_mark]; split <;> simp [hj], rfl⟩

/-- A page after a mark was cleared, with the mark set again. -/
theorem mark_mark (h : p.occupied.get i = true) : (p.mark i false).mark i true = p := by
  have hsame : (p.occupied.set i false).set i true = p.occupied := by
    apply Vector.ext
    intro k hk
    rw [Vector.getElem_set, Vector.getElem_set]
    split
    · next hik =>
      subst hik
      exact h.symm
    · rfl
  unfold mark
  rw [hsame]

/-- Clearing the mark of a slot takes its address away. -/
theorem perm_marked_clear (hstride : 0 < p.stride) (h : p.occupied.get i = true) :
    p.marked.Perm (p.slot i :: (p.mark i false).marked) := by
  have hfree : (p.mark i false).occupied.get i = false := by rw [get_mark, if_pos rfl]
  have hperm := perm_marked_mark (p := p.mark i false) hstride hfree
  rwa [mark_mark h] at hperm

/-- The first free slot is free. -/
theorem get_firstFree (h : p.firstFree = some i) : p.occupied.get i = false := by
  have hfind : p.occupied.find? (!·) = _ := Vector.find?_eq_map_findFinIdx?_getElem
  unfold firstFree at h
  rw [h, Option.map_some] at hfind
  have hclear : (!p.occupied.get i) = true := Vector.find?_some hfind
  simpa using hclear

/-- Claiming marks a free slot and answers its address. -/
theorem claim_spec (hstride : 0 < p.stride) (h : p.claim = some (q, a)) :
    q.frame = p.frame ∧ q.marked.Perm (a :: p.marked) := by
  unfold claim at h
  obtain ⟨i, hi, heq⟩ := Option.map_eq_some_iff.mp h
  obtain ⟨rfl, rfl⟩ := Prod.mk.inj heq
  exact ⟨frame_mark p i true, perm_marked_mark hstride (get_firstFree hi)⟩

end HazardFlow.Page
