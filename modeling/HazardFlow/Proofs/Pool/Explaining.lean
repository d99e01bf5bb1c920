import HazardFlow.Proofs.Pool.Choosing
import HazardFlow.Proofs.Pool.Granting

/-!
# Why a pool gets no memory

The pages of a pool are aligned at a power of two, so that the alignment is no reason to refuse one.
It is blamed all the same when a page would be larger than any block, and whoever creates the pool
then sees the first page refused like that. A pool that was created has got its first page. All its
pages are alike, so that it is never refused another one but for want of memory.
-/

namespace HazardFlow

variable {α μ : Type}

instance [Allocator α] [HostMemory μ] [OnHost α μ] : OnHost (Lender α) μ where
  toTable l := OnHost.toTable l.inner
  toTable_allocate l := OnHost.toTable_allocate l.inner

namespace Pool

open OnHost (live toTable)

variable {p q : Pool α} {start asked : α} {layout : PoolLayout} {a : Address} {cause : AllocError}

/-- The alignment is blamed for pages that are larger than the largest block. -/
theorem blamed_page_iff (h : layout.Proper) :
    Blamed (slotsPerPage * layout.stride) layout.slotAlign ↔
      maxBlock < slotsPerPage * layout.stride := by
  have hpos : slotsPerPage * layout.stride ≠ 0 :=
    Nat.ne_of_gt (Nat.mul_pos (by decide)
      (Nat.lt_of_lt_of_le (Nat.pos_of_ne_zero h.slotSize) (le_roundUp h.slotAlign_pos)))
  have hdvd : layout.slotAlign ∣ slotsPerPage * layout.stride :=
    Nat.dvd_mul_left_of_dvd (dvd_roundUp _ _) _
  have hround : roundUp (slotsPerPage * layout.stride) layout.slotAlign =
      slotsPerPage * layout.stride :=
    Nat.le_antisymm (roundUp_le (Nat.le_refl _) hdvd) (le_roundUp h.slotAlign_pos)
  rw [← isLayout_eq_false_iff hpos]
  unfold HostHeap.isLayout
  rw [h.isPowerOfTwo, hround, Bool.true_and, decide_eq_false_iff_not, Nat.not_le]

/-- What becomes of a request for a page. -/
theorem answers_request [Allocator α] [HostMemory μ] [OnHost α μ] (p : Pool α) :
    (toTable p.allocator).Answers (slotsPerPage * p.stride) p.layout.placement p.layout.slotAlign
      (toTable p.request.1, p.request.2) :=
  OnHost.answers_allocate ..

/-- A page that is granted is a block, and aligned. -/
theorem granted_of_request [Allocator α] [HostMemory μ] [OnHost α μ]
    (h : p.request = (asked, .ok a)) :
    ¬Blamed (slotsPerPage * p.stride) p.layout.slotAlign ∧ p.layout.slotAlign ∣ a := by
  have hanswers := p.answers_request
  rw [h] at hanswers
  generalize toTable asked = table at hanswers
  cases hanswers with
  | granted _ hblameless _ hdvd => exact ⟨hblameless, hdvd⟩

/-- A page is refused for its alignment, or for want of memory. What is live stays so. -/
theorem refused_of_request [Allocator α] [HostMemory μ] [OnHost α μ] (hstride : 0 < p.stride)
    (h : p.request = (asked, .error cause)) :
    live asked = live p.allocator ∧
      (Blamed (slotsPerPage * p.stride) p.layout.slotAlign ∧
          cause = .invalidAlignment p.layout.slotAlign ∨
        ¬Blamed (slotsPerPage * p.stride) p.layout.slotAlign ∧
          cause = .outOfMemory (slotsPerPage * p.stride)) := by
  have hanswers := p.answers_request
  rw [h] at hanswers
  unfold live
  generalize toTable asked = table at hanswers
  cases hanswers with
  | zeroSize hbytes => exact absurd hbytes (Nat.ne_of_gt (Nat.mul_pos (by decide) hstride))
  | blamed _ hblamed => exact ⟨rfl, .inl ⟨hblamed, rfl⟩⟩
  | refused _ hblameless => exact ⟨rfl, .inr ⟨hblameless, rfl⟩⟩

/-- The pages of a pool are aligned blocks. -/
structure Granted (p : Pool α) : Prop where
  blameless : ¬Blamed (slotsPerPage * p.stride) p.layout.slotAlign
  aligned : ∀ base ∈ p.pages.map Page.base, p.layout.slotAlign ∣ base

namespace Granted

/-- A page is as large as a block may be, and its end is a word. -/
theorem fits (h : p.Granted) : p.Fits := by
  have hsize : slotsPerPage * p.stride ≤ maxBlock + 1 - p.layout.slotAlign :=
    Nat.le_of_not_lt (not_or.mp h.blameless).2
  exact Nat.le_trans hsize (Nat.le_trans (Nat.sub_le ..) (by decide))

theorem slotAlign (h : p.Granted) : ∃ k, p.layout.slotAlign = 2 ^ k := by
  simpa using (not_or.mp h.blameless).1

/-- A page joins the others. -/
theorem request [Allocator α] [HostMemory μ] [OnHost α μ] (hrequest : p.request = (asked, .ok a))
    (haligned : ∀ base ∈ p.pages.map Page.base, p.layout.slotAlign ∣ base)
    (hlayout : q.layout = p.layout)
    (hpages : q.pages.map Page.base = a :: p.pages.map Page.base) : q.Granted := by
  obtain ⟨hblameless, hdvd⟩ := granted_of_request hrequest
  unfold stride at hblameless
  refine ⟨?_, ?_⟩
  · unfold stride
    rwa [hlayout]
  · rw [hlayout, hpages]
    exact List.forall_mem_cons.mpr ⟨hdvd, haligned⟩

/-- Calls leave it at that. -/
theorem turns [Allocator α] [HostMemory μ] [OnHost α μ] (h : p.Granted) (hturns : p.Turns q) :
    q.Granted := by
  cases hturns with
  | remarked hremarks =>
    refine ⟨?_, ?_⟩
    · unfold stride
      rw [hremarks.layout]
      exact h.blameless
    · rw [hremarks.layout, bases_of_frames hremarks.frames]
      exact h.aligned
  | grown _ hrequest hlayout hpages _ =>
    exact request hrequest h.aligned hlayout (by rw [hpages]; rfl)
  | refused _ hsame =>
    rw [hsame]
    exact ⟨h.blameless, h.aligned⟩

/-- A pool that was created has a page. -/
theorem create [Allocator α] [HostMemory μ] [OnHost α μ] {handle : Option α}
    (h : (create handle layout).result = .ok (.ok p)) : p.Granted := by
  cases handle with
  | none => cases h
  | some start =>
    obtain ⟨-, page, hgrow⟩ := exists_grow_of_create h
    by_cases hfits : Fits ({ allocator := start, layout } : Pool α)
    · obtain ⟨_, _, -, hrefused⟩ | ⟨pool, page, hrequest, hgranted, hlayout, hpages, -⟩ :=
        grow_eq hfits false
      · rw [hrefused] at hgrow
        cases hgrow
      · obtain rfl := (Prod.mk.inj (hgranted.symm.trans hgrow)).1
        exact request hrequest nofun hlayout (by rw [hpages]; rfl)
    · rw [grow_of_not_fits hfits] at hgrow
      cases hgrow

/-- A slot of a page is aligned as the page is. -/
theorem dvd_slot (h : p.Granted) (hcut : p.Cut) {page : Page} (hpage : page ∈ p.pages)
    (i : Fin slotsPerPage) : p.layout.slotAlign ∣ page.slot i := by
  have hstride : page.stride = p.stride := hcut.frames _ (List.mem_map_of_mem hpage)
  have hbase := h.aligned _ (List.mem_map_of_mem hpage)
  unfold Page.slot
  rw [hstride]
  exact Nat.dvd_add hbase (Nat.dvd_mul_left_of_dvd (dvd_roundUp _ _) _)

end Granted

/-- A pool hands out aligned slots, and none when there is no memory for them. -/
structure AnswersOnHost [Allocator α] [HostMemory μ] [OnHost α μ] (p : Pool α) : Prop where
  slotAlign : ∃ k, p.layout.slotAlign = 2 ^ k
  isBlock : slotsPerPage * p.stride ≤ maxBlock
  answered : (∃ a, p.allocate.2 = .ok a ∧ p.layout.slotAlign ∣ a) ∨
    p.allocate.2 = .error (.outOfMemory (slotsPerPage * p.stride))
  kept : ∀ cause, p.allocate.2 = .error cause → live p.allocate.1.allocator = live p.allocator
  cacheRefused : ∀ (c : SlotCache) cause, (c.allocate p).2.2 = .error cause →
    cause = .outOfMemory (slotsPerPage * p.stride) ∧
      live (c.allocate p).1.allocator = live p.allocator

/-- A page is refused for want of memory only. -/
theorem Granted.refused [Allocator α] [HostMemory μ] [OnHost α μ] (h : p.Granted) (hcut : p.Cut)
    (hrequest : p.request = (asked, .error cause)) :
    live asked = live p.allocator ∧ cause = .outOfMemory (slotsPerPage * p.stride) := by
  obtain ⟨hlive, ⟨hblamed, -⟩ | ⟨-, hcause⟩⟩ := refused_of_request hcut.accepted.stride_pos hrequest
  · exact absurd hblamed h.blameless
  · exact ⟨hlive, hcause⟩

theorem Granted.answersOnHost [Allocator α] [HostMemory μ] [OnHost α μ] (h : p.Granted)
    (hcut : p.Cut) : p.AnswersOnHost where
  slotAlign := h.slotAlign
  isBlock := by
    have hsize := Nat.le_of_not_lt (not_or.mp h.blameless).2
    have hpos := hcut.accepted.slotAlign_pos
    omega
  answered := by
    cases hanswer : p.allocate.2 with
    | error cause =>
      obtain ⟨-, hrequest, -⟩ := (allocate_eq_error_iff h.fits).mp (Prod.ext rfl hanswer)
      exact .inr (congrArg Except.error (h.refused hcut hrequest).2)
    | ok a =>
      refine .inl ⟨a, rfl, ?_⟩
      cases grants_of_allocate h.fits (Prod.ext rfl hanswer) with
      | taken htake _ =>
        obtain ⟨k, i, hslot, -⟩ := take_eq_some_iff.mp htake
        obtain ⟨page, hk, hpage⟩ := slotOf_eq_some_iff.mp hslot
        exact hpage ▸ h.dvd_slot hcut (List.mem_of_getElem? hk) i
      | grown _ hrequest _ _ _ _ => exact (granted_of_request hrequest).2
  kept cause hcause := by
    obtain ⟨-, hrequest, -⟩ := (allocate_eq_error_iff h.fits).mp (Prod.ext rfl hcause)
    exact (h.refused hcut hrequest).1
  cacheRefused c cause hcause := by
    obtain ⟨-, -, hrequest, -⟩ :=
      (SlotCache.allocate_eq_error_iff h.fits).mp (Prod.ext rfl (Prod.ext rfl hcause))
    exact (h.refused hcut hrequest).symm

/-- The creation of a pool is refused for its alignment, and for the size of its pages in the same
words. -/
structure CreatesOnHost [Allocator α] [HostMemory μ] [OnHost α μ] (start : α)
    (layout : PoolLayout) : Prop where
  invalidAlignment_iff : ∀ named,
    (create (some start) layout).result = .ok (.error (.invalidAlignment named)) ↔
      layout.slotSize ≠ 0 ∧ layout.slotAlign = named ∧ ((∀ k, layout.slotAlign ≠ 2 ^ k) ∨
        maxBlock < slotsPerPage * layout.stride ∧ slotsPerPage * layout.stride ≤ maxWord)
  answered : layout.Proper → slotsPerPage * layout.stride ≤ maxBlock →
    (∃ pool asked base, create (some start) layout = .pure (some asked) (.ok pool) ∧
      pool.Fresh asked layout base ∧ layout.slotAlign ∣ base) ∨
    (create (some start) layout).result =
      .ok (.error (.outOfMemory (slotsPerPage * layout.stride)))
  /-- Without a pool no block is live that was not before. -/
  kept : ∀ cause, (create (some start) layout).result = .ok (.error cause) →
    (create (some start) layout).state.map live = some (live start)

/-- When no word measures the first page, memory is not even asked. -/
theorem createsOnHost_of_long [Allocator α] [HostMemory μ] [OnHost α μ] (start : α)
    (hproper : layout.Proper) (hlong : maxWord < slotsPerPage * layout.stride) :
    CreatesOnHost start layout := by
  have hpower : ¬∀ k, layout.slotAlign ≠ 2 ^ k := by simpa using hproper.slotAlign
  have hword : maxBlock ≤ maxWord := by decide
  obtain ⟨result, heq, hother⟩ : ∃ result, create (some start) layout = ⟨some start, result⟩ ∧
      ∀ named, result ≠ .ok (.error (.invalidAlignment named)) := by
    by_cases hstride : layout.stride ≤ maxWord
    · exact ⟨_, create_of_long start hproper hstride hlong, nofun⟩
    · exact ⟨_, create_of_wide start hproper (Nat.lt_of_not_le hstride), nofun⟩
  refine ⟨fun named => iff_of_false (by rw [heq]; exact hother named) fun ⟨_, _, hwhy⟩ => ?_,
    fun _ hsmall => absurd (Nat.le_trans hsmall hword) (Nat.not_le.mpr hlong),
    fun _ _ => by rw [heq]; rfl⟩
  exact hwhy.elim hpower fun hlarge => Nat.not_le.mpr hlong hlarge.2

/-- Otherwise it decides. -/
theorem createsOnHost_of_fits [Allocator α] [HostMemory μ] [OnHost α μ] (start : α)
    (hproper : layout.Proper) (hfits : slotsPerPage * layout.stride ≤ maxWord) :
    CreatesOnHost start layout := by
  have hpower : ¬∀ k, layout.slotAlign ≠ 2 ^ k := by simpa using hproper.slotAlign
  have hiff := blamed_page_iff hproper
  have hstride : layout.stride ≤ maxWord :=
    Nat.le_trans (Nat.le_mul_of_pos_left _ (by decide)) hfits
  have hpos : 0 < layout.stride :=
    Nat.lt_of_lt_of_le (Nat.pos_of_ne_zero hproper.slotSize) (le_roundUp hproper.slotAlign_pos)
  have hblameless (h : ¬Blamed (slotsPerPage * layout.stride) layout.slotAlign) (named : Nat) :
      ¬(layout.slotSize ≠ 0 ∧ layout.slotAlign = named ∧ ((∀ k, layout.slotAlign ≠ 2 ^ k) ∨
        maxBlock < slotsPerPage * layout.stride ∧ slotsPerPage * layout.stride ≤ maxWord)) :=
    fun ⟨_, _, hwhy⟩ => hwhy.elim hpower fun hlarge => h (hiff.mpr hlarge.1)
  obtain ⟨asked, answer, hrequest⟩ : ∃ asked answer,
    firstRequest start layout = (asked, answer) := ⟨_, _, rfl⟩
  cases answer with
  | ok base =>
    obtain ⟨pool, heq, hfresh⟩ := create_of_granted hproper hstride hfits hrequest
    obtain ⟨hnot, hdvd⟩ := granted_of_request (p := { allocator := start, layout }) hrequest
    exact ⟨fun named => iff_of_false (by rw [heq]; nofun) (hblameless hnot named),
      fun _ _ => .inl ⟨pool, asked, base, heq, hfresh, hdvd⟩, fun _ hcause => by
        rw [heq] at hcause
        cases hcause⟩
  | error cause =>
    have heq := create_of_refused hproper hstride hfits hrequest
    obtain ⟨hlive, ⟨hblamed, rfl⟩ | ⟨hnot, rfl⟩⟩ :=
      refused_of_request (p := { allocator := start, layout }) hpos hrequest
    · have hlarge := hiff.mp hblamed
      refine ⟨fun named => ?_, fun _ hsmall => absurd hlarge (Nat.not_lt.mpr hsmall),
        fun _ _ => by rw [heq]; exact congrArg some hlive⟩
      rw [heq]
      constructor
      · intro hanswer
        cases hanswer
        exact ⟨hproper.slotSize, rfl, .inr ⟨hlarge, hfits⟩⟩
      · rintro ⟨-, rfl, -⟩
        rfl
    · exact ⟨fun named => iff_of_false (by rw [heq]; nofun) (hblameless hnot named),
        fun _ _ => .inr (by rw [heq]; rfl), fun _ _ => by rw [heq]; exact congrArg some hlive⟩

/-- What is wrong with size or alignment comes before that. -/
theorem createsOnHost [Allocator α] [HostMemory μ] [OnHost α μ] (start : α)
    (layout : PoolLayout) : CreatesOnHost start layout := by
  by_cases hsize : layout.slotSize = 0
  · have heq := create_of_zeroSize start hsize
    refine ⟨fun _ => iff_of_false (by rw [heq]; nofun) fun h => h.1 hsize,
      fun hproper => absurd hsize hproper.slotSize, fun _ _ => by rw [heq]; rfl⟩
  by_cases hpower : ∃ k, layout.slotAlign = 2 ^ k
  · rcases Nat.lt_or_ge maxWord (slotsPerPage * layout.stride) with hlong | hfits
    · exact createsOnHost_of_long start ⟨hsize, hpower⟩ hlong
    · exact createsOnHost_of_fits start ⟨hsize, hpower⟩ hfits
  · rw [not_exists] at hpower
    have heq := create_of_invalidAlignment start hsize hpower
    refine ⟨fun named => ?_, fun hproper => absurd hproper.slotAlign (not_exists.mpr hpower),
      fun _ _ => by rw [heq]; rfl⟩
    rw [heq]
    constructor
    · intro hanswer
      cases hanswer
      exact ⟨hsize, rfl, .inl hpower⟩
    · rintro ⟨-, rfl, -⟩
      rfl

end Pool

/-- Every pool that can be reached lies on memory of the host, whatever others do with it. -/
theorem PoolLife.granted_of_run [Allocator α] [HostMemory μ] [OnHost α μ] {start : Option α}
    {others : Nat} {layout : PoolLayout} {moves : List (Move α)} {depot : Depot (Lender α)}
    {peak : Nat} (h : ((create start others layout).run moves).stage = .living depot peak) :
    depot.pool.Granted :=
  of_run (P := fun depot => depot.pool.Granted) (fun _ _ _ => .create)
    (fun _ hgranted call => hgranted.turns (Depot.turns_perform hgranted.fits call))
    (fun _ hgranted _ => ⟨hgranted.blameless, hgranted.aligned⟩) h

/-- All that it has asked its allocator for are pages like its first one. -/
theorem PoolLife.askedFor_of_run [Allocator α] {start : Option α} {others : Nat}
    {layout : PoolLayout} {moves : List (Move α)} {depot : Depot (Lender α)} {peak : Nat}
    (h : ((create start others layout).run moves).stage = .living depot peak) :
    depot.pool.allocator.AskedFor depot.pool.layout := by
  have hkept := (Kept.create start others layout).run moves
  unfold Kept at hkept
  rw [h] at hkept
  exact hkept.1.sameLayout ▸ hkept.1.asked

namespace OnHost

/-- What refusals tell about an allocator on memory of the host, to whoever asks it and to whoever
asks a pool over it. -/
structure NamesCauses (α : Type) {μ : Type} [Allocator α] [HostMemory μ] [OnHost α μ] : Prop where
  request : ∀ (handle : Option α) (bytes : Nat) (placement : Placement) (align : Nat),
    Explains (Blamed bytes align) handle bytes placement align
  /-- The alignment is blamed rightly but for sizes that are too large for it. -/
  power_iff : ∀ (handle : Option α) (bytes : Nat) (placement : Placement) (align : Nat),
    Explains (∀ k, align ≠ 2 ^ k) handle bytes placement align ↔
      ¬(handle.isSome = true ∧ bytes ≠ 0 ∧ (∃ k, align = 2 ^ k) ∧ maxBlock + 1 - align < bytes)
  creation : ∀ (start : α) (layout : PoolLayout), Pool.CreatesOnHost start layout
  /-- A pool asks for pages at a power of two only, and is refused for want of memory only. -/
  pool : ∀ (start : Option α) (others : Nat) (layout : PoolLayout)
    (moves : List (PoolLife.Move α)) (depot : Depot (Lender α)) (peak : Nat),
    ((PoolLife.create start others layout).run moves).stage = .living depot peak →
      depot.pool.allocator.AskedFor depot.pool.layout ∧ depot.pool.AnswersOnHost

/-- Whatever the memory of the host is, and whatever is asked of it. -/
theorem namesCauses [Allocator α] [HostMemory μ] [OnHost α μ] : NamesCauses α where
  request := explains_blamed
  power_iff := explains_power_iff
  creation := Pool.createsOnHost
  pool _ _ _ _ _ _ h := ⟨PoolLife.askedFor_of_run h,
    (PoolLife.granted_of_run h).answersOnHost (PoolLife.sound_of_run h).cut⟩

/-- The heap says that 48 is no alignment and that a block is too large to be had, and a pool over
it hands out its slots. -/
theorem namesCauses_hostHeap :
    let handle : Option HostHeap := some {}
    NamesCauses HostHeap ∧
      (allocateWith handle 256 .device 48).2 = .error (.invalidAlignment 48) ∧
      (allocateWith handle (1 <<< 50) .device 64).2 = .error (.outOfMemory (1 <<< 50)) ∧
      (allocateWith handle 256 .device 64).2 = .ok (1 <<< 46) ∧
      ∃ depot peak, ((PoolLife.create handle 1 {}).run [.call .allocate]).stage =
        .living depot peak ∧ depot.pool.AnswersOnHost := by
  intro handle
  obtain ⟨depot, peak, hliving⟩ : ∃ depot peak,
      ((PoolLife.create handle 1 {}).run [.call .allocate]).stage = .living depot peak :=
    ⟨_, _, rfl⟩
  have hall : NamesCauses HostHeap := namesCauses
  exact ⟨hall, rfl, rfl, rfl, depot, peak, hliving, (hall.pool _ _ _ _ _ _ hliving).2⟩

/-- An alignment of 64 is no power of two, it is said, when half of all words are asked for. -/
theorem not_explains_halfOfWords :
    let handle : Option HostHeap := some {}
    (allocateWith handle (1 <<< 63) .device 64).2 = .error (.invalidAlignment 64) ∧
      (AllocError.invalidAlignment 64).message = "alignment 64 is not a power of two" ∧
      64 = 2 ^ 6 ∧ ¬Explains (∀ k, 64 ≠ 2 ^ k) handle (1 <<< 63) .device 64 :=
  ⟨rfl, by decide +kernel, by decide, fun h => (explains_power_iff _ _ _ _).mp h
    ⟨rfl, by decide, ⟨6, by decide⟩, by decide⟩⟩

/-- The same is said of a page that is as large. -/
example : (Pool.create (some ({} : HostHeap)) { slotSize := 1 <<< 57 }).result =
    .ok (.error (.invalidAlignment 64)) := rfl

end OnHost

end HazardFlow
