import HazardFlow.Memory.HostHeap
import HazardFlow.Proofs.Pool.Paging
import Mathlib.Algebra.Group.Nat.Defs
import Mathlib.Order.Bounds.Basic

/-!
# What comes of creating a pool

The slots of a pool lie at the least multiple of their alignment that holds one. For sizes and
alignments up to the largest word this stride may itself exceed the largest word, and that is the
one way in which the creation of a pool stops with a fault. In all other cases it answers a pool or
a refusal, and the first thing that is wrong decides which.
-/

namespace HazardFlow

/-- Alignments of at most a word divide the number of words. -/
theorem two_pow_dvd_wordCount {k : Nat} (h : 2 ^ k ≤ maxWord) : 2 ^ k ∣ wordCount := by
  have hlt : 2 ^ k < 2 ^ 64 := Nat.lt_of_le_of_lt h (by decide)
  exact Nat.pow_dvd_pow 2 (Nat.le_of_lt ((Nat.pow_lt_pow_iff_right Nat.one_lt_two).mp hlt))

/-- Rounding up reaches a multiple just when the multiple before it is too small. -/
theorem le_roundUp_iff {n align bound : Nat} (hpos : 0 < align) (hdvd : align ∣ bound)
    (hbound : 0 < bound) : bound ≤ roundUp n align ↔ bound - align < n := by
  constructor
  · intro hle
    by_contra hlt
    have hround := roundUp_le (Nat.le_of_not_lt hlt) (Nat.dvd_sub hdvd (Nat.dvd_refl align))
    omega
  · intro hlt
    -- The multiple that is reached lies past the one before the bound.
    obtain ⟨m, hm⟩ := dvd_roundUp n align
    obtain ⟨w, hw⟩ := hdvd
    have hle := le_roundUp (n := n) hpos
    have hmul : align * w < align * (m + 1) := by
      rw [Nat.mul_add_one]
      omega
    have hwm : align * w ≤ align * m :=
      Nat.mul_le_mul_left align (Nat.le_of_lt_succ (Nat.lt_of_mul_lt_mul_left hmul))
    omega

/-- Rounding up leaves the words just when the last multiple among them is too small. -/
theorem maxWord_lt_roundUp_iff {n align : Nat} (hpos : 0 < align) (hdvd : align ∣ wordCount) :
    maxWord < roundUp n align ↔ wordCount - align < n :=
  le_roundUp_iff hpos hdvd (by decide)

namespace PoolLayout

variable {layout : PoolLayout}

/-- The stride is the least multiple of the alignment that holds a slot. -/
theorem isLeast_stride (hpos : 0 < layout.slotAlign) :
    IsLeast {m | layout.slotAlign ∣ m ∧ layout.slotSize ≤ m} layout.stride :=
  ⟨⟨dvd_roundUp _ _, le_roundUp hpos⟩, fun _ ⟨hdvd, hle⟩ => roundUp_le hle hdvd⟩

/-- The values of a layout that decide about its stride are words. -/
structure InWords (layout : PoolLayout) : Prop where
  slotSize : layout.slotSize ≤ maxWord
  slotAlign : layout.slotAlign ≤ maxWord

/-- A pool may have slots of this size and alignment. -/
structure Proper (layout : PoolLayout) : Prop where
  slotSize : layout.slotSize ≠ 0
  slotAlign : ∃ k, layout.slotAlign = 2 ^ k

theorem Proper.slotAlign_pos (h : layout.Proper) : 0 < layout.slotAlign := by
  obtain ⟨k, hk⟩ := h.slotAlign
  rw [hk]
  exact Nat.two_pow_pos k

/-- The stride of a proper layout exceeds the words when less than one alignment is left after the
size of a slot. -/
theorem Proper.maxWord_lt_stride_iff (h : layout.Proper) (hwords : layout.InWords) :
    maxWord < layout.stride ↔ wordCount - layout.slotAlign < layout.slotSize := by
  refine maxWord_lt_roundUp_iff h.slotAlign_pos ?_
  obtain ⟨k, hk⟩ := h.slotAlign
  have hle := hwords.slotAlign
  rw [hk] at hle ⊢
  exact two_pow_dvd_wordCount hle

end PoolLayout

/-- Powers of two are recognized, and nothing else is. -/
theorem isPowerOfTwo_iff_two_pow {n : Nat} : isPowerOfTwo n = true ↔ ∃ k, n = 2 ^ k := by
  rw [isPowerOfTwo_iff]
  simp only [Nat.one_shiftLeft]

theorem isPowerOfTwo_eq_false_iff {n : Nat} : isPowerOfTwo n = false ↔ ∀ k, n ≠ 2 ^ k := by
  rw [← Bool.not_eq_true, isPowerOfTwo_iff_two_pow, not_exists]

theorem PoolLayout.Proper.isPowerOfTwo {layout : PoolLayout} (h : layout.Proper) :
    isPowerOfTwo layout.slotAlign = true :=
  isPowerOfTwo_iff_two_pow.mpr h.slotAlign

namespace Pool

variable {α : Type} [Allocator α] {start asked : α} {layout : PoolLayout} {base : Address}
  {cause : AllocError}

/-- What an allocator answers when it is asked for a page of a layout. -/
def firstRequest (start : α) (layout : PoolLayout) : α × Except AllocError Address :=
  Allocator.allocate start (slotsPerPage * layout.stride) layout.placement layout.slotAlign

/-- A pool with a page at an address, none of whose slots is handed out. -/
structure Fresh (p : Pool α) (asked : α) (layout : PoolLayout) (base : Address) : Prop where
  allocator : p.allocator = asked
  sameLayout : p.layout = layout
  onePage : ∃ page, p.pages = [page] ∧ page.base = base
  unoccupied : p.occupancy = 0

/-- Once size and alignment have been checked, the creation is as good as the first page. -/
theorem create_of_proper (hproper : layout.Proper) (hstride : layout.stride ≤ maxWord) :
    create (some start) layout =
      let grown := grow { allocator := start, layout } false
      .pure (some grown.1.allocator) (grown.2.map fun _ => grown.1) := by
  have halign : isPowerOfTwo layout.slotAlign ≠ false := Bool.ne_false_iff.mpr hproper.isPowerOfTwo
  unfold create
  dsimp only
  rw [if_neg hproper.slotSize, if_neg halign, if_neg (Nat.not_lt.mpr hstride)]
  cases grow { allocator := start, layout } false with
  | mk pool answer => cases answer <;> rfl

/-- Without the first page there is no pool, and the allocator's reason is answered. -/
theorem create_of_refused (hproper : layout.Proper) (hstride : layout.stride ≤ maxWord)
    (hfits : slotsPerPage * layout.stride ≤ maxWord)
    (hrequest : firstRequest start layout = (asked, .error cause)) :
    create (some start) layout = .pure (some asked) (.error cause) := by
  have hnew : Fits ({ allocator := start, layout } : Pool α) := hfits
  rw [create_of_proper hproper hstride]
  obtain ⟨_, _, hasked, hgrow⟩ | ⟨_, _, hasked, -⟩ := grow_eq hnew false
  · obtain ⟨rfl, hcause⟩ := Prod.mk.inj (hasked.symm.trans hrequest)
    obtain rfl := Except.error.inj hcause
    rw [hgrow]
    rfl
  · exact nomatch (Prod.mk.inj (hasked.symm.trans hrequest)).2

/-- With the first page there is a pool that has handed out nothing yet. -/
theorem create_of_granted (hproper : layout.Proper) (hstride : layout.stride ≤ maxWord)
    (hfits : slotsPerPage * layout.stride ≤ maxWord)
    (hrequest : firstRequest start layout = (asked, .ok base)) :
    ∃ pool, create (some start) layout = .pure (some asked) (.ok pool) ∧
      pool.Fresh asked layout base := by
  have hnew : Fits ({ allocator := start, layout } : Pool α) := hfits
  rw [create_of_proper hproper hstride]
  obtain ⟨_, _, hasked, -⟩ | ⟨pool, page, hasked, hgrow, hlayout, hpages, hfirst⟩ :=
    grow_eq hnew false
  · exact nomatch (Prod.mk.inj (hasked.symm.trans hrequest)).2
  · obtain ⟨hallocator, hbase⟩ := Prod.mk.inj (hasked.symm.trans hrequest)
    rw [hgrow]
    refine ⟨pool, by rw [← hallocator]; rfl, hallocator, hlayout,
      ⟨page, hpages, Except.ok.inj hbase⟩, ?_⟩
    unfold occupancy
    rw [hpages, List.foldr_cons, hfirst]
    rfl

/-- What comes of the creation of a pool, by the first thing that is wrong. -/
structure CreatesExactly (start : α) (layout : PoolLayout) : Prop where
  /-- There is no allocator behind the handle. -/
  empty : create (none : Option α) layout = .pure none (.error .nullAllocator)
  zeroSize : layout.slotSize = 0 →
    create (some start) layout = .pure (some start) (.error .zeroSize)
  invalidAlignment : layout.slotSize ≠ 0 → (∀ k, layout.slotAlign ≠ 2 ^ k) →
    create (some start) layout = .pure (some start) (.error (.invalidAlignment layout.slotAlign))
  /-- The stride is measured, and a stride that is no word stops the creation. -/
  isLeast_stride : layout.Proper →
    IsLeast {m | layout.slotAlign ∣ m ∧ layout.slotSize ≤ m} layout.stride
  addOverflow : layout.Proper → maxWord < layout.stride →
    create (some start) layout = .fail (some start) .addOverflow
  /-- No word measures the first page. -/
  outOfMemory : layout.Proper → layout.stride ≤ maxWord → maxWord < slotsPerPage * layout.stride →
    create (some start) layout = .pure (some start) (.error (.outOfMemory maxWord))
  /-- The allocator decides. -/
  refused : layout.Proper → slotsPerPage * layout.stride ≤ maxWord → ∀ asked cause,
    firstRequest start layout = (asked, .error cause) →
      create (some start) layout = .pure (some asked) (.error cause)
  granted : layout.Proper → slotsPerPage * layout.stride ≤ maxWord → ∀ asked base,
    firstRequest start layout = (asked, .ok base) → ∃ pool,
      create (some start) layout = .pure (some asked) (.ok pool) ∧ pool.Fresh asked layout base ∧
        pool.stride = layout.stride
  /-- Nothing else stops the creation, whether there is an allocator or not. -/
  stops_iff : ∀ handle : Option α, (∃ fault, (create handle layout).result = .error fault) ↔
    handle.isSome = true ∧ layout.Proper ∧ wordCount - layout.slotAlign < layout.slotSize

theorem create_of_zeroSize (start : α) (h : layout.slotSize = 0) :
    create (some start) layout = .pure (some start) (.error .zeroSize) := by
  unfold create
  dsimp only
  rw [if_pos h]

theorem create_of_invalidAlignment (start : α) (hsize : layout.slotSize ≠ 0)
    (halign : ∀ k, layout.slotAlign ≠ 2 ^ k) : create (some start) layout =
      .pure (some start) (.error (.invalidAlignment layout.slotAlign)) := by
  unfold create
  dsimp only
  rw [if_neg hsize, if_pos (isPowerOfTwo_eq_false_iff.mpr halign)]

theorem create_of_wide (start : α) (hproper : layout.Proper) (hwide : maxWord < layout.stride) :
    create (some start) layout = .fail (some start) .addOverflow := by
  have halign : isPowerOfTwo layout.slotAlign ≠ false := Bool.ne_false_iff.mpr hproper.isPowerOfTwo
  unfold create
  dsimp only
  rw [if_neg hproper.slotSize, if_neg halign, if_pos hwide]

theorem create_of_long (start : α) (hproper : layout.Proper) (hstride : layout.stride ≤ maxWord)
    (hlong : maxWord < slotsPerPage * layout.stride) :
    create (some start) layout = .pure (some start) (.error (.outOfMemory maxWord)) := by
  have hnew : ¬Fits ({ allocator := start, layout } : Pool α) := Nat.not_le.mpr hlong
  rw [create_of_proper hproper hstride, grow_of_not_fits hnew]
  rfl

/-- A proper layout whose stride is a word is answered with a pool or a refusal. -/
theorem exists_answer_of_proper (start : α) (hproper : layout.Proper)
    (hstride : layout.stride ≤ maxWord) :
    ∃ answer, (create (some start) layout).result = .ok answer := by
  rw [create_of_proper hproper hstride]
  exact ⟨_, rfl⟩

/-- The one fault is a stride that is no word. -/
theorem create_stops_iff (hwords : layout.InWords) (handle : Option α) :
    (∃ fault, (create handle layout).result = .error fault) ↔
      handle.isSome = true ∧ layout.Proper ∧ wordCount - layout.slotAlign < layout.slotSize := by
  constructor
  · rintro ⟨fault, hfault⟩
    cases handle with
    | none => cases hfault
    | some start =>
      have hsize : layout.slotSize ≠ 0 := fun hzero => by
        rw [create_of_zeroSize start hzero] at hfault
        cases hfault
      have hproper : layout.Proper := by
        refine ⟨hsize, ?_⟩
        by_contra hnone
        rw [create_of_invalidAlignment start hsize fun k hk => hnone ⟨k, hk⟩] at hfault
        cases hfault
      refine ⟨rfl, hproper, (hproper.maxWord_lt_stride_iff hwords).mp ?_⟩
      by_contra hstride
      obtain ⟨answer, hanswer⟩ := exists_answer_of_proper start hproper (Nat.le_of_not_lt hstride)
      rw [hanswer] at hfault
      cases hfault
  · rintro ⟨hsome, hproper, hwide⟩
    obtain ⟨start, rfl⟩ := Option.isSome_iff_exists.mp hsome
    have hstride := (hproper.maxWord_lt_stride_iff hwords).mpr hwide
    exact ⟨.addOverflow, by rw [create_of_wide start hproper hstride]; rfl⟩

/-- Whatever words the size and the alignment of slots are, and whatever the rest of the layout and
the allocator: the creation of a pool answers a pool or the first thing that is wrong, unless the
stride is no word. -/
theorem createsExactly (start : α) (hwords : layout.InWords) : CreatesExactly start layout := by
  have hstride (hfits : slotsPerPage * layout.stride ≤ maxWord) : layout.stride ≤ maxWord :=
    Nat.le_trans (Nat.le_mul_of_pos_left _ (by decide)) hfits
  refine ⟨rfl, create_of_zeroSize start, create_of_invalidAlignment start,
    fun hproper => PoolLayout.isLeast_stride hproper.slotAlign_pos, create_of_wide start,
    create_of_long start, fun hproper hfits asked cause hrequest =>
      create_of_refused hproper (hstride hfits) hfits hrequest,
    fun hproper hfits asked base hrequest => ?_, create_stops_iff hwords⟩
  obtain ⟨pool, hpool, hfresh⟩ := create_of_granted hproper (hstride hfits) hfits hrequest
  exact ⟨pool, hpool, hfresh, congrArg PoolLayout.stride hfresh.sameLayout⟩

/-- Slots that leave one alignment up to the end of the words are refused a page, as their stride is
the last multiple that is a word. -/
theorem createsExactly_lastStride :
    let layout : PoolLayout := { slotSize := wordCount - 64 }
    CreatesExactly ({} : HostHeap) layout ∧ layout.stride = wordCount - 64 ∧
      (create (some ({} : HostHeap)) layout).result = .ok (.error (.outOfMemory maxWord)) :=
  ⟨createsExactly _ ⟨by decide, by decide⟩, by decide, rfl⟩

/-- One byte more, and there is no answer. -/
theorem not_answered_pastLastStride :
    let layout : PoolLayout := { slotSize := wordCount - 63 }
    layout.InWords ∧ ¬∃ answer, (create (some ({} : HostHeap)) layout).result = .ok answer :=
  ⟨⟨by decide, by decide⟩, fun ⟨_, hanswer⟩ => nomatch hanswer⟩

end Pool

end HazardFlow
