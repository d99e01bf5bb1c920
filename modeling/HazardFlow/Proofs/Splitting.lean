import HazardFlow.Proofs.Tiling
import HazardFlow.Word
import Mathlib.Algebra.Group.Action.Defs
import Mathlib.Algebra.Order.BigOperators.Group.List
import Mathlib.Algebra.Order.Group.Nat
import Mathlib.Algebra.Order.Monoid.Canonical.Defs
import Mathlib.Algebra.Ring.Nat

/-!
# How far a range can be split

A cursor splits in the middle of what it covers, and the cursors that come of it split in turn, in
any order. Nothing is lost or covered twice by that. As no half is ever shorter than the grain, a
span cannot be split into more cursors than it has grains, so splitting comes to an end. It is at
its end when every cursor covers less than two grains.
-/

namespace HazardFlow.Cursor

variable {c d piece rest : Cursor} {cursors cursors' : List Cursor} {order : List Nat} {k : Nat}

/-- The numbers of the two halves of a cursor are those of a halved length. -/
theorem split_eq (c : Cursor) : c.split =
    if c.grain ≤ c.remaining.length / 2 then
      some (⟨c.next, c.remaining.middle, c.grain, c.remaining.start_le_middle, c.grain_pos⟩,
        ⟨c.remaining.middle, c.stop, c.grain, Span.middle_le_stop c.next_le_stop, c.grain_pos⟩)
    else none := by
  have hle := c.next_le_stop
  have hlower : c.remaining.middle - c.next = c.remaining.length / 2 := Nat.add_sub_cancel_left ..
  have hupper : c.remaining.length / 2 ≤ c.stop - c.remaining.middle := by
    simp only [Span.middle, Span.length, remaining]
    omega
  have hiff : (c.grain ≤ c.remaining.middle - c.next ∧ c.grain ≤ c.stop - c.remaining.middle) ↔
      c.grain ≤ c.remaining.length / 2 := by
    rw [hlower]
    exact ⟨And.left, fun h => ⟨h, Nat.le_trans h hupper⟩⟩
  unfold split
  dsimp only
  simp only [hiff]

theorem split_eq_none_iff : c.split = none ↔ c.remaining.length / 2 < c.grain := by
  rw [split_eq]
  split
  · next hwide => exact iff_of_false (Option.some_ne_none _) (Nat.not_lt.mpr hwide)
  · next hnarrow => exact iff_of_true rfl (Nat.lt_of_not_le hnarrow)

/-- A cursor is the one that is made over what it covers. -/
theorem ofSpan_remaining (c : Cursor) : ofSpan c.remaining c.grain = .ok c := by
  unfold ofSpan
  rw [dif_pos c.grain_pos]
  exact dif_pos c.next_le_stop

/-- What words compute for the middle of a cursor is its middle. -/
theorem toNat_middle (hword : c.stop ≤ maxWord) :
    (UInt64.ofNat c.next + (UInt64.ofNat c.stop - UInt64.ofNat c.next) / 2).toNat =
      c.remaining.middle := by
  have hle := c.next_le_stop
  have hsize : c.stop < 2 ^ 64 := Nat.lt_of_le_of_lt hword (by decide)
  have hnext : (UInt64.ofNat c.next).toNat = c.next :=
    UInt64.toNat_ofNat_of_lt (Nat.lt_of_le_of_lt hle hsize)
  have hstop : (UInt64.ofNat c.stop).toNat = c.stop := UInt64.toNat_ofNat_of_lt hsize
  have hlength : (UInt64.ofNat c.stop - UInt64.ofNat c.next).toNat = c.stop - c.next := by
    rw [UInt64.toNat_sub_of_le _ _ (by rwa [UInt64.le_iff_toNat_le, hnext, hstop]), hnext, hstop]
  rw [UInt64.toNat_add, UInt64.toNat_div, hlength, hnext]
  change (c.next + (c.stop - c.next) / 2) % 2 ^ 64 = c.next + (c.stop - c.next) / 2
  omega

/-- A cursor refuses to split just when half of what it covers is less than its grain. Otherwise it
hands out the lower half and keeps the rest. -/
structure HalvesExactly (c : Cursor) : Prop where
  refuses_iff : c.split = none ↔ c.remaining.length / 2 < c.grain
  refused : c.split = none → c.perform .split = (c, .noSpan)
  made : ∀ piece rest : Cursor, c.split = some (piece, rest) →
    c.perform .split = (rest, .span piece.remaining) ∧
      ofSpan piece.remaining c.grain = .ok piece ∧
      c.remaining.halve = .ok (piece.remaining, rest.remaining) ∧
      piece.remaining = ⟨c.next, c.next + c.remaining.length / 2⟩ ∧
      rest.remaining = ⟨c.next + c.remaining.length / 2, c.stop⟩ ∧ rest.grain = c.grain ∧
      c.grain ≤ piece.remaining.length ∧ piece.remaining.length ≤ rest.remaining.length ∧
      rest.remaining.length ≤ piece.remaining.length + 1
  /-- No number on the way exceeds a word. -/
  toNat_middle : (UInt64.ofNat c.next + (UInt64.ofNat c.stop - UInt64.ofNat c.next) / 2).toNat =
    c.next + c.remaining.length / 2

theorem halvesExactly (hword : c.stop ≤ maxWord) : c.HalvesExactly where
  refuses_iff := split_eq_none_iff
  refused hnone := by simp only [perform, hnone]
  made piece rest hsplit := by
    have hperform : c.perform .split = (rest, .span piece.remaining) := by
      simp only [perform, hsplit]
    rw [split_eq] at hsplit
    split at hsplit
    · next hwide =>
      cases hsplit
      have hle := c.next_le_stop
      refine ⟨hperform, ofSpan_remaining _, if_pos hle, rfl, rfl, rfl, ?_⟩
      simp only [Span.middle, Span.length, remaining] at hwide ⊢
      omega
    · cases hsplit
  toNat_middle := Cursor.toNat_middle hword

/-- Splits the cursor at some position, if it can be. The detached piece goes behind all cursors. -/
def splitAt (cursors : List Cursor) (k : Nat) : Option (List Cursor) :=
  cursors[k]?.bind fun c => c.split.map fun (piece, rest) => cursors.set k rest ++ [piece]

/-- Makes splits in turn. -/
def splitAll (cursors : List Cursor) (order : List Nat) : Option (List Cursor) :=
  order.foldlM splitAt cursors

/-- One cursor has been replaced by its halves. -/
theorem perm_of_splitAt (h : splitAt cursors k = some cursors') :
    ∃ d piece rest others, d.split = some (piece, rest) ∧ cursors.Perm (d :: others) ∧
      cursors'.Perm (piece :: rest :: others) := by
  obtain ⟨d, hd, hsplit⟩ := Option.bind_eq_some_iff.mp h
  obtain ⟨⟨piece, rest⟩, hhalves, rfl⟩ := Option.map_eq_some_iff.mp hsplit
  obtain ⟨hlt, rfl⟩ := List.getElem?_eq_some_iff.mp hd
  refine ⟨_, piece, rest, cursors.eraseIdx k, hhalves,
    (List.getElem_cons_eraseIdx_perm hlt).symm, ?_⟩
  have hset := List.set_perm_cons_eraseIdx hlt rest
  exact (List.perm_append_singleton piece _).trans (hset.cons piece)

/-- Cursors that came of splitting one cursor. -/
structure Divides (c : Cursor) (cursors : List Cursor) : Prop where
  tiles : Span.Tiles (cursors.map remaining) c.remaining
  /-- They cover as many indices as it did. -/
  sum : (cursors.map fun d => d.remaining.length).sum = c.remaining.length
  grain : ∀ d ∈ cursors, d.grain = c.grain
  stop : ∀ d ∈ cursors, d.stop ≤ c.stop
  wide : cursors = [c] ∨ ∀ d ∈ cursors, c.grain ≤ d.remaining.length

namespace Divides

theorem refl (c : Cursor) : c.Divides [c] where
  tiles := Span.Tiles.singleton c.remaining
  sum := List.sum_singleton
  grain := by simp
  stop := by simp
  wide := .inl rfl

/-- There are no more cursors than grains. -/
theorem length_le (h : c.Divides cursors) :
    cursors.length ≤ max 1 (c.remaining.length / c.grain) := by
  obtain rfl | hwide := h.wide
  · exact Nat.le_max_left ..
  · have hsum := List.card_nsmul_le_sum (cursors.map fun d => d.remaining.length) c.grain
      (List.forall_mem_map.mpr hwide)
    rw [h.sum, List.length_map, smul_eq_mul] at hsum
    exact Nat.le_trans ((Nat.le_div_iff_mul_le c.grain_pos).mpr hsum) (Nat.le_max_right ..)

/-- The order of the cursors does not matter. -/
theorem perm (h : c.Divides cursors) (hperm : cursors'.Perm cursors) : c.Divides cursors' where
  tiles := h.tiles.perm (hperm.map remaining)
  sum := (hperm.map _).sum_eq.trans h.sum
  grain d hd := h.grain d (hperm.mem_iff.mp hd)
  stop d hd := h.stop d (hperm.mem_iff.mp hd)
  wide := by
    obtain rfl | hwide := h.wide
    · exact .inl (List.perm_singleton.mp hperm)
    · exact .inr fun d hd => hwide d (hperm.mem_iff.mp hd)

/-- A cursor may be replaced by its halves. -/
theorem cut (h : c.Divides (d :: cursors)) (hsplit : d.split = some (piece, rest)) :
    c.Divides (piece :: rest :: cursors) := by
  obtain ⟨hnext, hmiddle, hstop, hpiece, hrest, hlower, hupper⟩ := split_spec hsplit
  obtain ⟨hgrain, hgrains⟩ := List.forall_mem_cons.mp h.grain
  obtain ⟨hinside, hstops⟩ := List.forall_mem_cons.mp h.stop
  have hfirst : piece.remaining = ⟨d.next, rest.next⟩ := by
    rw [← hnext, ← hmiddle]
    rfl
  have hsecond : rest.remaining = ⟨rest.next, d.stop⟩ := by
    rw [← hstop]
    rfl
  have hlow : d.next ≤ rest.next := by
    rw [← hnext, ← hmiddle]
    exact piece.next_le_stop
  have hhigh : rest.next ≤ d.stop := hstop ▸ rest.next_le_stop
  refine ⟨?_, ?_, ?_, ?_, .inr ?_⟩
  · have htiles := h.tiles.cut hlow hhigh
    rwa [← hfirst, ← hsecond] at htiles
  · have hsum := h.sum
    rw [List.map_cons, List.sum_cons] at hsum
    rw [List.map_cons, List.map_cons, List.sum_cons, List.sum_cons, hfirst, hsecond, ← hsum,
      ← Nat.add_assoc]
    simp only [Span.length, remaining]
    omega
  · exact List.forall_mem_cons.mpr ⟨hpiece.trans hgrain,
      List.forall_mem_cons.mpr ⟨hrest.trans hgrain, hgrains⟩⟩
  · exact List.forall_mem_cons.mpr ⟨hmiddle ▸ Nat.le_trans hhigh hinside,
      List.forall_mem_cons.mpr ⟨hstop ▸ hinside, hstops⟩⟩
  · rw [← hgrain]
    refine List.forall_mem_cons.mpr ⟨hlower, List.forall_mem_cons.mpr ⟨hupper, ?_⟩⟩
    obtain hsingle | hwide := h.wide
    -- The only cursor was split, and there are no others.
    · obtain ⟨-, rfl⟩ := List.cons.inj hsingle
      exact List.forall_mem_nil _
    · rw [hgrain]
      exact (List.forall_mem_cons.mp hwide).2

/-- One more split. -/
theorem splitAt (h : c.Divides cursors) (hsplit : splitAt cursors k = some cursors') :
    c.Divides cursors' ∧ cursors'.length = cursors.length + 1 := by
  obtain ⟨d, piece, rest, others, hhalves, hbefore, hafter⟩ := perm_of_splitAt hsplit
  refine ⟨((h.perm hbefore.symm).cut hhalves).perm hafter, ?_⟩
  rw [hafter.length_eq, hbefore.length_eq, List.length_cons, List.length_cons, List.length_cons]

/-- Any splits in turn. -/
theorem splitAll (h : c.Divides cursors) (hsplit : splitAll cursors order = some cursors') :
    c.Divides cursors' ∧ cursors'.length = cursors.length + order.length := by
  induction order generalizing cursors with
  | nil =>
    cases hsplit
    exact ⟨h, rfl⟩
  | cons k order ih =>
    obtain ⟨next, hfirst, hlater⟩ := Option.bind_eq_some_iff.mp hsplit
    obtain ⟨hnext, hlength⟩ := h.splitAt hfirst
    obtain ⟨hfinal, hall⟩ := ih hnext hlater
    rw [hlength] at hall
    exact ⟨hfinal, hall.trans (by rw [List.length_cons]; omega)⟩

/-- However cursors have been split, some more splits bring them to an end. -/
theorem exists_end {cursors : List Cursor} (h : c.Divides cursors) : ∃ more last,
    Cursor.splitAll cursors more = some last ∧ ∀ d ∈ last, d.split = none := by
  by_cases hend : ∀ d ∈ cursors, d.split = none
  · exact ⟨[], cursors, rfl, hend⟩
  · obtain ⟨d, hd, hsplit⟩ : ∃ d ∈ cursors, d.split ≠ none := by
      simpa only [not_forall, exists_prop] using hend
    obtain ⟨k, hk⟩ := List.getElem?_of_mem hd
    obtain ⟨⟨piece, rest⟩, hhalves⟩ := Option.ne_none_iff_exists'.mp hsplit
    have hstep : Cursor.splitAt cursors k = some (cursors.set k rest ++ [piece]) := by
      unfold Cursor.splitAt
      rw [hk, Option.bind_some, hhalves]
      rfl
    obtain ⟨hnext, hlength⟩ := h.splitAt hstep
    have hroom := hnext.length_le
    obtain ⟨more, last, hmore, hlast⟩ := hnext.exists_end
    refine ⟨k :: more, last, ?_, hlast⟩
    change (Cursor.splitAt cursors k).bind (fun next => Cursor.splitAll next more) = some last
    rw [hstep]
    exact hmore
termination_by max 1 (c.remaining.length / c.grain) - cursors.length
decreasing_by omega

end Divides

/-- What becomes of a span whose cursor is split in some order. -/
structure DividesWithin (span : Span) (grain : Nat) (order : List Nat) (cursors : List Cursor) :
    Prop where
  halves : ∀ d ∈ cursors, d.grain = grain ∧ d.HalvesExactly
  tiles : Span.Tiles (cursors.map remaining) span
  /-- There is one cursor more than splits, and not more of them than grains. -/
  length : cursors.length = order.length + 1
  length_le : cursors.length ≤ max 1 (span.length / grain)
  /-- Splitting comes to an end from here, however it goes on, and it can be brought there. -/
  ends : ∃ more last, splitAll cursors more = some last ∧ ∀ d ∈ last, d.split = none
  short : (∀ d ∈ cursors, d.split = none) → ∀ d ∈ cursors, d.remaining.length < 2 * grain

/-- This is so for the cursor over any ordered span of words and for any order of splits. -/
theorem dividesWithin_splitAll {span : Span} {grain : Nat} (hspan : span.start ≤ span.stop)
    (hgrain : 0 < grain) (hword : span.stop ≤ maxWord) :
    ∃ c, ofSpan span grain = .ok c ∧ c.remaining = span ∧
      ∀ (order : List Nat) (cursors : List Cursor), splitAll [c] order = some cursors →
        DividesWithin span grain order cursors := by
  let c : Cursor := ⟨span.start, span.stop, grain, hspan, hgrain⟩
  refine ⟨c, c.ofSpan_remaining, rfl, fun order cursors hsplit => ?_⟩
  obtain ⟨hdivides, hlength⟩ := (Divides.refl c).splitAll hsplit
  refine ⟨fun d hd => ⟨hdivides.grain d hd, ?_⟩, hdivides.tiles, ?_, hdivides.length_le,
    hdivides.exists_end, fun hend d hd => ?_⟩
  · exact halvesExactly (Nat.le_trans (hdivides.stop d hd) hword)
  · rw [hlength, List.length_singleton, Nat.add_comm]
  · have hnarrow := split_eq_none_iff.mp (hend d hd)
    rw [show d.grain = grain from hdivides.grain d hd] at hnarrow
    omega

/-- A cursor over the last 2049 words. -/
def lastWords : Cursor := ⟨maxWord - 2049, maxWord, 512, by decide, by decide⟩

/-- What comes of it after three splits. -/
def lastWordsSplit : List Cursor := (splitAll [lastWords] [0, 0, 1]).getD []

/-- There are as many cursors then as grains, and one is longer than a grain. -/
theorem dividesWithin_splitAll_lastWords :
    ofSpan ⟨maxWord - 2049, maxWord⟩ 512 = .ok lastWords ∧
      splitAll [lastWords] [0, 0, 1] = some lastWordsSplit ∧
      DividesWithin ⟨maxWord - 2049, maxWord⟩ 512 [0, 0, 1] lastWordsSplit ∧
      lastWordsSplit.map (fun d => d.remaining.length) = [513, 512, 512, 512] ∧
      ∀ d ∈ lastWordsSplit, d.split = none := by
  have hsplit : splitAll [lastWords] [0, 0, 1] = some lastWordsSplit := by decide +kernel
  obtain ⟨c, hc, -, hdivides⟩ :=
    @dividesWithin_splitAll ⟨maxWord - 2049, maxWord⟩ 512 (by decide) (by decide) (by decide)
  obtain rfl : lastWords = c := Except.ok.inj hc
  exact ⟨hc, hsplit, hdivides _ _ hsplit, by decide +kernel, by decide +kernel⟩

end HazardFlow.Cursor
