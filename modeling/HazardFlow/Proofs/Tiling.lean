import HazardFlow.Span.Cursor
import Mathlib.Data.List.Perm.Basic

/-!
# Tilings of spans

Spans tile another one when each of its indices lies in exactly one of them, and no other index in
any. A cursor that splits replaces its span by two that tile it, neither shorter than the grain.
-/

namespace HazardFlow

namespace Span

/-- Whether an index lies in a span. -/
def has (s : Span) (x : Nat) : Bool := s.start ≤ x && x < s.stop

theorem has_iff {s : Span} {x : Nat} : s.has x = true ↔ s.start ≤ x ∧ x < s.stop := by
  unfold has
  rw [Bool.and_eq_true, decide_eq_true_eq, decide_eq_true_eq]

/-- Every index of the span lies in exactly one of the pieces, and no other index in any. -/
def Tiles (pieces : List Span) (span : Span) : Prop :=
  ∀ x : Nat, pieces.countP (·.has x) = if span.has x then 1 else 0

namespace Tiles

variable {pieces pieces' : List Span} {span : Span}

/-- A span tiles itself. -/
theorem singleton (span : Span) : Tiles [span] span := fun _ => List.countP_singleton

/-- The order of the pieces does not matter. -/
theorem perm (h : Tiles pieces span) (hperm : pieces'.Perm pieces) : Tiles pieces' span :=
  fun x => (hperm.countP_eq _).trans (h x)

/-- A piece may be cut in two. -/
theorem cut {low middle high : Nat} (h : Tiles (⟨low, high⟩ :: pieces) span)
    (hlow : low ≤ middle) (hhigh : middle ≤ high) :
    Tiles (⟨low, middle⟩ :: ⟨middle, high⟩ :: pieces) span := fun x => by
  rw [← h x]
  simp only [List.countP_cons, has_iff]
  rcases Nat.lt_or_ge x middle with hx | hx
  · have hright : ¬ (middle ≤ x ∧ x < high) := by omega
    have hleft : (low ≤ x ∧ x < middle) ↔ (low ≤ x ∧ x < high) := by omega
    simp only [hleft, if_neg hright, Nat.add_zero]
  · have hleft : ¬ (low ≤ x ∧ x < middle) := by omega
    have hright : (middle ≤ x ∧ x < high) ↔ (low ≤ x ∧ x < high) := by omega
    simp only [hright, if_neg hleft, Nat.add_zero]

/-- An index that two pieces share would be counted twice. -/
theorem pairwise (h : Tiles pieces span) :
    pieces.Pairwise fun piece other => ∀ x : Nat, piece.has x = true → other.has x = false := by
  have hle (x : Nat) : pieces.countP (·.has x) ≤ 1 := by
    rw [h x]
    split <;> omega
  clear h
  induction pieces with
  | nil => exact List.Pairwise.nil
  | cons piece rest ih =>
    refine List.Pairwise.cons (fun other hother x hx => ?_) (ih fun x => ?_)
    · by_contra hboth
      have hcount := hle x
      have hpos : 0 < rest.countP (·.has x) :=
        List.countP_pos_iff.mpr ⟨other, hother, Bool.of_not_eq_false hboth⟩
      rw [List.countP_cons, if_pos hx] at hcount
      omega
    · have hcount := hle x
      rw [List.countP_cons] at hcount
      omega

/-- The pieces cover the span and nothing else. -/
theorem exists_has_iff (h : Tiles pieces span) (x : Nat) :
    (∃ piece ∈ pieces, piece.has x = true) ↔ span.has x = true := by
  rw [← List.countP_pos_iff, h x]
  split
  · next hx => exact iff_of_true Nat.one_pos hx
  · next hx => exact iff_of_false (Nat.lt_irrefl 0) hx

end Tiles

end Span

/-- A cursor that splits cuts what it covers in two, and leaves at least its grain on either side. -/
theorem Cursor.split_spec {c piece rest : Cursor} (h : c.split = some (piece, rest)) :
    piece.next = c.next ∧ piece.stop = rest.next ∧ rest.stop = c.stop ∧ piece.grain = c.grain ∧
      rest.grain = c.grain ∧ c.grain ≤ piece.remaining.length ∧
        c.grain ≤ rest.remaining.length := by
  unfold split at h
  dsimp only at h
  split at h
  · next hwide =>
    obtain ⟨rfl, rfl⟩ := Prod.mk.inj (Option.some.inj h)
    exact ⟨rfl, rfl, rfl, rfl, rfl, hwide.1, hwide.2⟩
  · cases h

end HazardFlow
