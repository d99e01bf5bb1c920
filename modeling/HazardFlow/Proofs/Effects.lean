import HazardFlow.Proofs.HazardOrder
import Mathlib.Data.List.Perm.Basic
import Mathlib.Logic.Function.Basic

/-!
# Effects and their order

A node acts on a store of cells as it declares: it sees the cells that it declares, and changes
those that it declares written. Nodes whose declarations do not overlap may act in either order.
So two orders of the same actions come to the same when they agree on all pairs that overlap.
-/

namespace HazardFlow

/-- A store of values. -/
abbrev Cells (V : Type) := Address → V

variable {V : Type}

namespace Access

/-- The addresses that a node declares. -/
def addresses (x : Access) : List Address := x.reads ++ x.writes

/-- An effect keeps to a declaration when it changes written cells only, and what it puts there
depends on declared cells only. -/
structure Confines (x : Access) (effect : Cells V → Cells V) : Prop where
  keeps : ∀ (cells : Cells V) (a : Address), a ∉ x.writes → effect cells a = cells a
  depends : ∀ cells cells' : Cells V, (∀ a ∈ x.addresses, cells a = cells' a) →
    ∀ a ∈ x.writes, effect cells a = effect cells' a

/-- Two declarations overlap when they share an address that one of them writes. -/
def Overlaps (x y : Access) : Prop :=
  ∃ a, a ∈ x.addresses ∧ a ∈ y.addresses ∧ (a ∈ x.writes ∨ a ∈ y.writes)

theorem Overlaps.symm {x y : Access} (h : x.Overlaps y) : y.Overlaps x := by
  obtain ⟨a, hx, hy, hwrite⟩ := h
  exact ⟨a, hy, hx, hwrite.symm⟩

/-- Declarations that overlap conflict, however many shards there are. -/
theorem Overlaps.conflicts {x y : Access} (h : x.Overlaps y) (t : Tracker) : x.Conflicts t y := by
  obtain ⟨a, hx, hy, hwrite⟩ := h
  exact ⟨a, hx, a, hy, rfl, hwrite⟩

theorem mem_addresses_of_mem_writes {x : Access} {a : Address} (h : a ∈ x.writes) :
    a ∈ x.addresses := List.mem_append_right _ h

/-- An effect leaves alone what another declaration names, unless the two overlap. -/
theorem Confines.apply_eq {x y : Access} {effect : Cells V → Cells V} (h : x.Confines effect)
    (hapart : ¬ x.Overlaps y) (cells : Cells V) {a : Address} (ha : a ∈ y.addresses) :
    effect cells a = cells a := by
  refine h.keeps cells a fun hwrite => hapart ?_
  exact ⟨a, mem_addresses_of_mem_writes hwrite, ha, Or.inl hwrite⟩

/-- Effects that do not overlap change a cell in the same way in either order. -/
theorem Confines.apply_apply {x y : Access} {effect effect' : Cells V → Cells V}
    (h : x.Confines effect) (h' : y.Confines effect') (hapart : ¬ x.Overlaps y) (cells : Cells V)
    {a : Address} (ha : a ∈ x.writes) :
    effect (effect' cells) a = effect' (effect cells) a := by
  have hapart' : ¬ y.Overlaps x := fun hoverlaps => hapart hoverlaps.symm
  have hunwritten : a ∉ y.writes := fun hwrite => hapart
    ⟨a, mem_addresses_of_mem_writes ha, mem_addresses_of_mem_writes hwrite, Or.inl ha⟩
  rw [h'.keeps _ a hunwritten]
  exact h.depends _ _ (fun c hc => h'.apply_eq hapart' cells hc) a ha

/-- Effects that do not overlap commute. -/
theorem Confines.commute {x y : Access} {effect effect' : Cells V → Cells V}
    (h : x.Confines effect) (h' : y.Confines effect') (hapart : ¬ x.Overlaps y)
    (cells : Cells V) : effect (effect' cells) = effect' (effect cells) := by
  funext a
  by_cases hx : a ∈ x.writes
  · exact h.apply_apply h' hapart cells hx
  · by_cases hy : a ∈ y.writes
    · have hapart' : ¬ y.Overlaps x := fun hoverlaps => hapart hoverlaps.symm
      exact (h'.apply_apply h hapart' cells hy).symm
    · rw [h.keeps _ a hx, h'.keeps _ a hy, h'.keeps _ a hy, h.keeps _ a hx]

end Access

/-- A store, and what each node that has acted on it saw. -/
structure Ledger (V : Type) where
  cells : Cells V
  seen : NodeId → List V

/-- Lets a node act on the store and notes what it sees. -/
def Ledger.apply (ledger : Ledger V) (x : Access) (effect : Cells V → Cells V) (n : NodeId) :
    Ledger V where
  cells := effect ledger.cells
  seen := Function.update ledger.seen n (x.addresses.map ledger.cells)

/-- Two nodes whose declarations do not overlap may act in either order. -/
theorem Ledger.apply_comm (ledger : Ledger V) {x y : Access} {effect effect' : Cells V → Cells V}
    {m n : Nat} (h : x.Confines effect) (h' : y.Confines effect') (hapart : ¬ x.Overlaps y)
    (hne : m ≠ n) :
    (ledger.apply x effect m).apply y effect' n = (ledger.apply y effect' n).apply x effect m := by
  have hx : x.addresses.map (effect' ledger.cells) = x.addresses.map ledger.cells :=
    List.map_congr_left fun a ha =>
      h'.apply_eq (fun hoverlaps => hapart hoverlaps.symm) ledger.cells ha
  have hy : y.addresses.map (effect ledger.cells) = y.addresses.map ledger.cells :=
    List.map_congr_left fun a ha => h.apply_eq hapart ledger.cells ha
  unfold apply
  rw [Ledger.mk.injEq]
  dsimp only
  rw [hx, hy, h.commute h' hapart]
  exact ⟨rfl, Function.update_comm hne ..⟩

/-- What commutes with everything before it may come first. -/
theorem foldl_append_cons_of_commute {α σ : Type} {f : σ → α → σ} {x : α} {before : List α}
    (h : ∀ y ∈ before, ∀ s, f (f s y) x = f (f s x) y) (rest : List α) (s : σ) :
    (before ++ x :: rest).foldl f s = (before ++ rest).foldl f (f s x) := by
  induction before generalizing s with
  | nil => rfl
  | cons y before ih =>
    have hrest := ih (fun z hz => h z (List.mem_cons_of_mem y hz)) (f s y)
    rw [List.cons_append, List.foldl_cons, hrest, h y List.mem_cons_self]
    rfl

/-- Steps in some order come to the same as in increasing order, when those that do not commute
already stand in increasing order. -/
theorem foldl_eq_of_perm_sorted {σ : Type} {f : σ → Nat → σ} {l sorted : List Nat}
    (hperm : l.Perm sorted) (hsorted : sorted.Pairwise (· < ·))
    (hl : l.Pairwise fun x y => (∀ s, f (f s x) y = f (f s y) x) ∨ x < y) (s : σ) :
    l.foldl f s = sorted.foldl f s := by
  induction sorted generalizing l s with
  | nil => rw [hperm.eq_nil]
  | cons x sorted ih =>
    obtain ⟨before, rest, rfl⟩ := List.append_of_mem (hperm.mem_iff.mpr List.mem_cons_self)
    have hperm' : (before ++ rest).Perm sorted :=
      List.Perm.cons_inv ((List.perm_middle.symm).trans hperm)
    obtain ⟨hleast, hsorted'⟩ := List.pairwise_cons.mp hsorted
    have hfront : ∀ y ∈ before, ∀ s, f (f s y) x = f (f s x) y := fun y hy => by
      have hpair := (List.pairwise_append.mp hl).2.2 y hy x List.mem_cons_self
      rcases hpair with hcommute | hlt
      · exact hcommute
      · have hgt := hleast y (hperm'.subset (List.mem_append_left rest hy))
        omega
    have hl' := hl.sublist (List.Sublist.append_left (List.sublist_cons_self x rest) before)
    rw [foldl_append_cons_of_commute hfront, List.foldl_cons]
    exact ih hperm' hsorted' hl' (f s x)

end HazardFlow
