import HazardFlow.Memory.HostHeap
import HazardFlow.Proofs.Pool.Backing

/-!
# Where pages come from

A pool asks its allocator for the same block again and again. What is asked of the allocator is
that these blocks are aligned, end at an address, and do not overlap; an allocator on memory of the
host is of this kind. The pages of a pool are then laid out as its operations need them, however
often it grows.
-/

namespace HazardFlow

/-- An allocator that was asked so often for the same, and the blocks that it handed out, newest
first. -/
def Allocator.grants {α : Type} [Allocator α] (state : α) (bytes : Nat) (placement : Placement)
    (align : Nat) : Nat → α × List Address
  | 0 => (state, [])
  | n + 1 =>
    let (asked, blocks) := grants state bytes placement align n
    match Allocator.allocate asked bytes placement align with
    | (asked, .ok base) => (asked, base :: blocks)
    | (asked, .error _) => (asked, blocks)

/-- However often an allocator is asked for the same, its blocks are aligned, end at an address, and
do not overlap. -/
structure Allocator.Lends {α : Type} [Allocator α] (state : α) (bytes : Nat)
    (placement : Placement) (align : Nat) : Prop where
  aligned : ∀ n : Nat, ∀ base ∈ (grants state bytes placement align n).2, align ∣ base
  fits : ∀ n : Nat, ∀ base ∈ (grants state bytes placement align n).2, base + bytes ≤ maxWord
  apart : ∀ n : Nat, (grants state bytes placement align n).2.Pairwise (Apart bytes)

namespace HostHeap

/-- A block is aligned, ends at an address, and lies before whatever is handed out later. -/
theorem allocate_spec {h h' : HostHeap} {bytes align : Nat} {placement : Placement}
    {base : Address} (hok : h.allocate bytes placement align = (h', .ok base)) :
    align ∣ base ∧ h.next ≤ base ∧ base + bytes ≤ h'.next ∧ base + bytes ≤ maxWord := by
  unfold allocate at hok
  split at hok
  · cases hok
  split at hok
  · cases hok
  · next hlayout =>
    split at hok
    · cases hok
    dsimp only at hok
    split at hok
    · cases hok
    · next hfits =>
      obtain ⟨rfl, heq⟩ := Prod.mk.inj hok
      obtain rfl := Except.ok.inj heq
      have halign : 0 < align := by
        refine Nat.pos_of_ne_zero fun hzero => hlayout ?_
        rw [hzero, isLayout_zero_align]
      exact ⟨dvd_roundUp _ _, le_roundUp halign, Nat.le_add_right .., Nat.le_of_not_lt hfits⟩

/-- A refused request changes nothing. -/
theorem allocate_error {h h' : HostHeap} {bytes align : Nat} {placement : Placement}
    {cause : AllocError} (herror : h.allocate bytes placement align = (h', .error cause)) :
    h' = h := by
  unfold allocate at herror
  dsimp only at herror
  split at herror
  · exact (Prod.mk.inj herror).1.symm
  split at herror
  · exact (Prod.mk.inj herror).1.symm
  split at herror
  · exact (Prod.mk.inj herror).1.symm
  split at herror
  · exact (Prod.mk.inj herror).1.symm
  · cases herror

/-- An allocator on memory of the host lends blocks of any kind, each behind the ones before. -/
theorem lends (h : HostHeap) (bytes : Nat) (placement : Placement) (align : Nat) :
    Allocator.Lends h bytes placement align := by
  have hkept : ∀ n : Nat, (∀ base ∈ (Allocator.grants h bytes placement align n).2,
      align ∣ base ∧ base + bytes ≤ maxWord ∧
        base + bytes ≤ (Allocator.grants h bytes placement align n).1.next) ∧
      (Allocator.grants h bytes placement align n).2.Pairwise (Apart bytes) := by
    intro n
    induction n with
    | zero => simp [Allocator.grants]
    | succ n ih =>
      obtain ⟨hblocks, hapart⟩ := ih
      unfold Allocator.grants
      dsimp only
      split
      · next asked base hok =>
        obtain ⟨hdvd, hnext, hend, hfits⟩ := allocate_spec hok
        refine ⟨List.forall_mem_cons.mpr ⟨⟨hdvd, hfits, hend⟩, fun b hb => ?_⟩,
          List.pairwise_cons.mpr ⟨fun b hb => Or.inr ?_, hapart⟩⟩
        · obtain ⟨hbdvd, hbfits, hbend⟩ := hblocks b hb
          exact ⟨hbdvd, hbfits, hbend.trans (hnext.trans (Nat.le_trans (Nat.le_add_right ..) hend))⟩
        · exact (hblocks b hb).2.2.trans hnext
      · next asked cause herror =>
        obtain rfl := allocate_error herror
        exact ⟨hblocks, hapart⟩
  exact ⟨fun n b hb => ((hkept n).1 b hb).1, fun n b hb => ((hkept n).1 b hb).2.1,
    fun n => (hkept n).2⟩

end HostHeap

/-- A page that has just joined a pool has no marks, or one on its first slot. -/
theorem Page.perm_marked_fresh (base : Address) (numaNode : Nat) {stride : Nat}
    (hstride : 0 < stride) (taken : Bool) :
    (Page.mk base ((Vector.replicate slotsPerPage false).set 0 taken (by decide)) numaNode
      stride).marked.Perm (if taken then [base] else []) := by
  set blank : Page := ⟨base, Vector.replicate slotsPerPage false, numaNode, stride⟩ with hblank
  have hfree : ∀ i : Fin slotsPerPage, blank.occupied.get i = false := fun i =>
    Vector.getElem_replicate i.isLt
  have hnone : blank.marked = [] := by
    apply List.eq_nil_iff_forall_not_mem.mpr
    intro a ha
    obtain ⟨i, hi, _⟩ := mem_marked.mp ha
    rw [hfree i] at hi
    cases hi
  have hslot : blank.slot 0 = base := blank.slot_zero
  cases taken with
  | false =>
    have hsame : (Vector.replicate slotsPerPage false).set 0 false (by decide) =
        Vector.replicate slotsPerPage false :=
      Vector.ext fun k hk => by rw [Vector.getElem_set, Vector.getElem_replicate, ite_self]
    rw [hsame]
    exact .of_eq hnone
  | true =>
    have hmark := perm_marked_mark (p := blank) (i := ⟨0, by decide⟩) hstride (hfree _)
    rw [hnone] at hmark
    rw [if_pos rfl]
    exact hmark.trans (.of_eq (congrArg (fun a => [a]) hslot))

/-- A layout that a pool can have. -/
structure PoolLayout.Accepted (layout : PoolLayout) : Prop where
  slotSize_pos : 0 < layout.slotSize
  slotAlign_pos : 0 < layout.slotAlign

/-- Slots do not reach into the next one. -/
theorem PoolLayout.Accepted.slotSize_le {layout : PoolLayout} (h : layout.Accepted) :
    layout.slotSize ≤ layout.stride := le_roundUp h.slotAlign_pos

theorem PoolLayout.Accepted.stride_pos {layout : PoolLayout} (h : layout.Accepted) :
    0 < layout.stride := Nat.lt_of_lt_of_le h.slotSize_pos h.slotSize_le

namespace Pool

variable {α : Type} [Allocator α] {start : α} {layout : PoolLayout} {p q : Pool α}
  {l : List Address} {a : Address}

/-- A pool of some layout whose pages are the blocks that its allocator has handed out. -/
structure Grown (start : α) (layout : PoolLayout) (p : Pool α) : Prop where
  accepted : layout.Accepted
  sameLayout : p.layout = layout
  requested : ∃ (n : Nat) (bases : List Address),
    Allocator.grants start (layout.stride * slotsPerPage) layout.placement layout.slotAlign n =
      (p.allocator, bases) ∧ p.pages.map Page.frame = bases.map fun base => (base, layout.stride)

/-- An allocator that lends what a layout asks for. -/
def Lends (start : α) (layout : PoolLayout) : Prop :=
  Allocator.Lends start (layout.stride * slotsPerPage) layout.placement layout.slotAlign

namespace Grown

/-- Marks do not matter to where pages come from. -/
theorem remarks (h : p.Grown start layout) (hremarks : p.Remarks q) : q.Grown start layout where
  accepted := h.accepted
  sameLayout := hremarks.layout.trans h.sameLayout
  requested := by
    rw [hremarks.allocator, hremarks.frames]
    exact h.requested

/-- Pages that an allocator lent are laid out well. -/
theorem laid (h : p.Grown start layout) (hlends : Lends start layout) : Laid p.stride p.pages := by
  obtain ⟨n, bases, hgrants, hframes⟩ := h.requested
  have hfits := hlends.fits n
  have hapart := hlends.apart n
  rw [hgrants] at hfits hapart
  unfold stride
  rw [h.sameLayout]
  refine ⟨h.accepted.stride_pos, fun f hf => ?_, ?_⟩
  · rw [hframes] at hf
    obtain ⟨base, hbase, rfl⟩ := List.mem_map.mp hf
    exact ⟨rfl, hfits base hbase⟩
  · rw [hframes, List.pairwise_map]
    exact hapart

/-- Pages start at multiples of the alignment. -/
theorem dvd_base (h : p.Grown start layout) (hlends : Lends start layout) {page : Page}
    (hpage : page ∈ p.pages) : layout.slotAlign ∣ page.base := by
  obtain ⟨n, bases, hgrants, hframes⟩ := h.requested
  have haligned := hlends.aligned n
  rw [hgrants] at haligned
  have hmem : page.frame ∈ p.pages.map Page.frame := List.mem_map_of_mem hpage
  rw [hframes] at hmem
  obtain ⟨base, hbase, heq⟩ := List.mem_map.mp hmem
  have hdvd := haligned base hbase
  rwa [(Prod.mk.inj heq).1] at hdvd

end Grown

/-- A page that joins a pool comes from its allocator, and brings its first slot along if that is
handed out. -/
theorem Backs.grow (h : p.Backs l) (hgrown : p.Grown start layout) (hlends : Lends start layout)
    {taken : Bool} {page : Page} (hok : p.grow taken = (q, .ok page)) :
    q.Grown start layout ∧ q.Backs ((if taken then [page.slot 0] else []) ++ l) := by
  obtain ⟨n, bases, hgrants, hframes⟩ := hgrown.requested
  obtain rfl := hgrown.sameLayout
  unfold Pool.grow stride at hok
  dsimp only at hok
  split at hok
  · cases hok
  split at hok
  · cases hok
  · next allocator base hbase =>
    obtain ⟨rfl, heq⟩ := Prod.mk.inj hok
    obtain rfl := Except.ok.inj heq
    refine (fun hq => ⟨hq, Grown.laid hq hlends, ?_⟩ : Grown start p.layout _ → _) ?_
    · refine ⟨hgrown.accepted, rfl, n + 1, base :: bases, ?_, ?_⟩
      · unfold Allocator.grants
        rw [hgrants]
        dsimp only
        rw [hbase]
      · rw [List.map_cons, List.map_cons, hframes]
        rfl
    have hfresh := Page.perm_marked_fresh base p.layout.numaNode
      hgrown.accepted.stride_pos taken
    unfold Page.slot
    rw [Nat.zero_mul, Nat.add_zero]
    exact (hfresh.append_right _).trans (h.perm.append_left _)

/-- A pool that cannot grow hands nothing out. -/
theorem Backs.grow_error (h : p.Backs l) (hgrown : p.Grown start layout) {taken : Bool}
    {cause : AllocError} (herror : p.grow taken = (q, .error cause)) :
    q.Grown start layout ∧ q.Backs l := by
  obtain ⟨n, bases, hgrants, hframes⟩ := hgrown.requested
  obtain rfl := hgrown.sameLayout
  unfold Pool.grow stride at herror
  dsimp only at herror
  split at herror
  · obtain ⟨rfl, _⟩ := Prod.mk.inj herror
    exact ⟨hgrown, h⟩
  split at herror
  · next allocator _ hrefused =>
    obtain ⟨rfl, _⟩ := Prod.mk.inj herror
    refine ⟨⟨hgrown.accepted, rfl, n + 1, bases, ?_, hframes⟩, h.laid, h.perm⟩
    unfold Allocator.grants
    rw [hgrants]
    dsimp only
    rw [hrefused]
  · cases herror

/-- A slot that a pool hands out, growing if all pages are full, joins what it backs. -/
theorem Backs.allocate (h : p.Backs l) (hgrown : p.Grown start layout)
    (hlends : Lends start layout) {answer : Except AllocError Address}
    (hanswer : p.allocate = (q, answer)) :
    q.Grown start layout ∧ q.Backs (answer.toOption.toList ++ l) := by
  unfold Pool.allocate at hanswer
  cases htake : p.take with
  | some taken =>
    rw [htake] at hanswer
    obtain ⟨rfl, rfl⟩ := Prod.mk.inj hanswer
    obtain ⟨hremarks, hbacks⟩ := h.take htake
    exact ⟨hgrown.remarks hremarks, hbacks⟩
  | none =>
    rw [htake] at hanswer
    cases hgrow : p.grow true with
    | mk r result =>
      rw [hgrow] at hanswer
      cases result with
      | ok page =>
        obtain ⟨rfl, rfl⟩ := Prod.mk.inj hanswer
        exact h.grow hgrown hlends hgrow
      | error cause =>
        obtain ⟨rfl, rfl⟩ := Prod.mk.inj hanswer
        exact h.grow_error hgrown hgrow

/-- A pool that was created has an accepted layout, and has grown by its first page. -/
theorem exists_grow_of_create (hcreate : (create (some start) layout).result = .ok (.ok p)) :
    layout.Accepted ∧ ∃ page, grow { allocator := start, layout } false = (p, .ok page) := by
  unfold create at hcreate
  dsimp only at hcreate
  split at hcreate
  · cases hcreate
  next hsize =>
  split at hcreate
  · cases hcreate
  next halign =>
  split at hcreate
  · cases hcreate
  have hpower : isPowerOfTwo layout.slotAlign = true := by simpa using halign
  have haccepted : layout.Accepted := by
    refine ⟨Nat.pos_of_ne_zero hsize, ?_⟩
    obtain ⟨k, hk⟩ := isPowerOfTwo_iff.mp hpower
    rw [hk, Nat.one_shiftLeft]
    exact Nat.two_pow_pos k
  split at hcreate
  · next pool page hgrow =>
    obtain rfl : pool = p := Except.ok.inj (Except.ok.inj hcreate)
    exact ⟨haccepted, page, hgrow⟩
  · cases hcreate

/-- A pool that was created has handed nothing out. -/
theorem backs_create (hlends : Lends start layout)
    (hcreate : (create (some start) layout).result = .ok (.ok p)) :
    p.Grown start layout ∧ p.Backs [] := by
  obtain ⟨haccepted, page, hgrow⟩ := exists_grow_of_create hcreate
  have hnew : Grown start layout { allocator := start, layout } :=
    ⟨haccepted, rfl, 0, [], rfl, rfl⟩
  have hbacks : Backs { allocator := start, layout } [] := ⟨hnew.laid hlends, .refl _⟩
  exact hbacks.grow hnew hlends hgrow

end Pool

namespace SlotCache

variable {α : Type} [Allocator α] {start : α} {layout : PoolLayout} {p q : Pool α}
  {c d : SlotCache} {l : List Address} {answer : Except AllocError Address}

/-- A slot that a cache hands out leaves it, or comes from the pool. -/
theorem allocate_spec (h : p.Backs (c.slots ++ l)) (hgrown : p.Grown start layout)
    (hlends : Pool.Lends start layout) (hroom : c.slots.length ≤ c.capacity)
    (hanswer : c.allocate p = (q, d, answer)) :
    q.Grown start layout ∧ q.Backs (answer.toOption.toList ++ (d.slots ++ l)) ∧
      d.capacity = c.capacity ∧ d.slots.length ≤ d.capacity := by
  obtain ⟨hremarks, hbacks, hcapacity, hlength⟩ := refill_spec h hroom
  unfold allocate at hanswer
  generalize c.refill p = refilled at *
  obtain ⟨r, c'⟩ := refilled
  dsimp only at *
  split at hanswer
  · next slot rest hslots =>
    obtain ⟨rfl, hrest⟩ := Prod.mk.inj hanswer
    obtain ⟨rfl, rfl⟩ := Prod.mk.inj hrest
    rw [hslots] at hbacks hlength
    refine ⟨hgrown.remarks hremarks, hbacks, hcapacity, ?_⟩
    rw [List.length_cons] at hlength
    change rest.length ≤ c'.capacity
    omega
  · next hslots =>
    obtain ⟨rfl, hrest⟩ := Prod.mk.inj hanswer
    obtain ⟨rfl, rfl⟩ := Prod.mk.inj hrest
    rw [hslots] at hbacks ⊢
    obtain ⟨hgrown', hbacks'⟩ := hbacks.allocate (hgrown.remarks hremarks) hlends rfl
    exact ⟨hgrown', hbacks', hcapacity, Nat.zero_le _⟩

end SlotCache

end HazardFlow
