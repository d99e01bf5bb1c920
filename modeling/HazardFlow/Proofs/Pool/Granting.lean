import HazardFlow.Proofs.Pool.Creating

/-!
# Memory of the host

An allocator on memory of the host keeps a table of the live blocks. It asks the memory for a block
only if there can be blocks of that size and alignment, and what the memory then does is left open
here, but for the alignment of what it hands out. The allocator that runs is the case of memory that
is handed out in one stretch.

No bytes are refused as such. All other sizes and alignments that no block can have are blamed on
the alignment, also those whose alignment is a power of two and whose size is the cause.
-/

namespace HazardFlow

/-- Blocks are aligned at powers of two, and are no larger than the largest one after alignment. -/
theorem isLayout_iff {bytes align : Nat} (hbytes : bytes ≠ 0) :
    HostHeap.isLayout bytes align = true ↔
      (∃ k, align = 2 ^ k) ∧ bytes ≤ maxBlock + 1 - align := by
  unfold HostHeap.isLayout
  rw [Bool.and_eq_true, isPowerOfTwo_iff_two_pow, decide_eq_true_iff]
  refine and_congr_right fun ⟨k, hk⟩ => ?_
  have hpos : 0 < align := hk ▸ Nat.two_pow_pos k
  rcases Nat.lt_or_ge 63 k with hlarge | hsmall
  -- The alignment alone exceeds the largest block.
  · have hword : maxBlock < align := by
      rw [hk]
      exact Nat.lt_of_lt_of_le (by decide) (Nat.pow_le_pow_right (by decide) hlarge)
    have hround := Nat.le_of_dvd
      (Nat.lt_of_lt_of_le (Nat.pos_of_ne_zero hbytes) (le_roundUp hpos)) (dvd_roundUp bytes align)
    omega
  · have hdvd : align ∣ maxBlock + 1 := by
      rw [hk]
      exact Nat.pow_dvd_pow 2 hsmall
    have hiff := le_roundUp_iff (n := bytes) hpos hdvd (Nat.succ_pos _)
    omega

/-- The alignment is blamed for a request: it is no power of two, or there is no block of this size
once it is aligned. -/
def Blamed (bytes align : Nat) : Prop := (∀ k, align ≠ 2 ^ k) ∨ maxBlock + 1 - align < bytes

theorem isLayout_eq_false_iff {bytes align : Nat} (hbytes : bytes ≠ 0) :
    HostHeap.isLayout bytes align = false ↔ Blamed bytes align := by
  rw [← Bool.not_eq_true, isLayout_iff hbytes, not_and_or, Nat.not_le, not_exists, Blamed]

/-- Memory of the host. It hands out a block of a size and an alignment, or none. -/
class HostMemory (μ : Type) where
  grant (memory : μ) (bytes align : Nat) : μ × Option Address
  release (memory : μ) (block : HostBlock) : μ
  /-- A block is aligned as it was asked for. -/
  dvd_of_grant {memory memory' : μ} {bytes align : Nat} {address : Address} :
    HostHeap.isLayout bytes align = true →
      grant memory bytes align = (memory', some address) → align ∣ address

/-- An allocator on any memory of the host. -/
structure HostTable (μ : Type) where
  memory : μ
  /-- The live blocks, newest first. -/
  live : List HostBlock := []

namespace HostTable

variable {μ : Type} [HostMemory μ]

/-- Hands out a block, or says why not. -/
def allocate (t : HostTable μ) (bytes : Nat) (placement : Placement) (align : Nat) :
    HostTable μ × Except AllocError Address :=
  if bytes = 0 then (t, .error .zeroSize)
  else if HostHeap.isLayout bytes align = false then (t, .error (.invalidAlignment align))
  else
    match HostMemory.grant t.memory bytes align with
    | (memory, none) => ({ t with memory }, .error (.outOfMemory bytes))
    | (memory, some address) =>
      (⟨memory, ⟨address, bytes, placement⟩ :: t.live⟩, .ok address)

/-- Takes a block back. -/
def deallocate (t : HostTable μ) (address : Address) : HostTable μ × Except AllocError Unit :=
  match t.live.find? fun block => block.address == address with
  | none => (t, .error .unknownPointer)
  | some block =>
    (⟨HostMemory.release t.memory block, t.live.filter fun block => block.address != address⟩,
      .ok ())

instance : Allocator (HostTable μ) := ⟨allocate, deallocate⟩

/-- What is answered to a request, and what becomes of the table. -/
inductive Answers (t : HostTable μ) (bytes : Nat) (placement : Placement) (align : Nat) :
    HostTable μ × Except AllocError Address → Prop
  | zeroSize (hbytes : bytes = 0) : Answers t bytes placement align (t, .error .zeroSize)
  | blamed (hbytes : bytes ≠ 0) (hblamed : Blamed bytes align) :
    Answers t bytes placement align (t, .error (.invalidAlignment align))
  | refused (hbytes : bytes ≠ 0) (hblameless : ¬Blamed bytes align) (memory : μ) :
    Answers t bytes placement align ({ t with memory }, .error (.outOfMemory bytes))
  | granted (hbytes : bytes ≠ 0) (hblameless : ¬Blamed bytes align) (memory : μ)
    {address : Address} (hdvd : align ∣ address) :
    Answers t bytes placement align (⟨memory, ⟨address, bytes, placement⟩ :: t.live⟩, .ok address)

theorem answers_allocate (t : HostTable μ) (bytes : Nat) (placement : Placement) (align : Nat) :
    t.Answers bytes placement align (t.allocate bytes placement align) := by
  unfold allocate
  split
  · next hbytes => exact .zeroSize hbytes
  next hbytes =>
  have hiff : HostHeap.isLayout bytes align = false ↔ Blamed bytes align :=
    isLayout_eq_false_iff hbytes
  split
  · next hlayout => exact .blamed hbytes (hiff.mp hlayout)
  next hlayout =>
  have hblameless : ¬Blamed bytes align := fun hblamed => hlayout (hiff.mpr hblamed)
  split
  · next memory _ => exact .refused hbytes hblameless memory
  · next memory address hgrant =>
    exact .granted hbytes hblameless memory
      (HostMemory.dvd_of_grant (Bool.not_eq_false _ ▸ hlayout) hgrant)

end HostTable

/-- An allocator that treats its requests as one on memory of the host does. -/
class OnHost (α : Type) (μ : outParam Type) [Allocator α] [HostMemory μ] where
  toTable : α → HostTable μ
  toTable_allocate (s : α) (bytes : Nat) (placement : Placement) (align : Nat) :
    (Allocator.allocate s bytes placement align).map toTable id =
      (toTable s).allocate bytes placement align

instance {μ : Type} [HostMemory μ] : OnHost (HostTable μ) μ where
  toTable := id
  toTable_allocate _ _ _ _ := rfl

/-- Memory of which everything up to an address has been handed out. -/
structure Stretch where
  next : Address

namespace Stretch

/-- Hands out the first aligned block that is left. -/
def grant (s : Stretch) (bytes align : Nat) : Stretch × Option Address :=
  let address := roundUp s.next align
  if HostHeap.capacity ≤ roundUp bytes align ∨ maxWord < address + bytes then (s, none)
  else (⟨address + bytes + HostHeap.margin⟩, some address)

/-- Nothing is handed out twice. -/
instance : HostMemory Stretch where
  grant := grant
  release s _ := s
  dvd_of_grant {s s' bytes align address} _ hgrant := by
    unfold grant at hgrant
    dsimp only at hgrant
    split at hgrant
    · cases hgrant
    · obtain rfl := Option.some.inj (Prod.mk.inj hgrant).2
      exact dvd_roundUp ..

end Stretch

instance : OnHost HostHeap Stretch where
  toTable h := ⟨⟨h.next⟩, h.live⟩
  toTable_allocate h bytes placement align := by
    change (h.allocate bytes placement align).map _ id = _
    unfold HostHeap.allocate HostTable.allocate HostMemory.grant Stretch.instHostMemory
      Stretch.grant
    dsimp only
    split
    · rfl
    split
    · rfl
    by_cases hcapacity : HostHeap.capacity ≤ roundUp bytes align
    · rw [if_pos hcapacity, if_pos (.inl hcapacity)]
      rfl
    by_cases hword : maxWord < roundUp h.next align + bytes
    · rw [if_neg hcapacity, if_pos hword, if_pos (.inr hword)]
      rfl
    · rw [if_neg hcapacity, if_neg hword, if_neg (not_or.mpr ⟨hcapacity, hword⟩)]
      rfl

namespace OnHost

variable {α μ : Type} [Allocator α] [HostMemory μ] [OnHost α μ]

/-- The live blocks of an allocator. -/
def live (s : α) : List HostBlock := (toTable s).live

theorem answers_allocate (s : α) (bytes : Nat) (placement : Placement) (align : Nat) :
    (toTable s).Answers bytes placement align
      ((Allocator.allocate s bytes placement align).map toTable id) :=
  toTable_allocate s bytes placement align ▸ HostTable.answers_allocate ..

/-- The cause of a refusal tells what was wrong first: the handle, the size, or whatever the
alignment is blamed for. -/
structure Explains (blamed : Prop) (handle : Option α) (bytes : Nat) (placement : Placement)
    (align : Nat) : Prop where
  nullAllocator_iff : (allocateWith handle bytes placement align).2 = .error .nullAllocator ↔
    handle = none
  zeroSize_iff : (allocateWith handle bytes placement align).2 = .error .zeroSize ↔
    handle.isSome = true ∧ bytes = 0
  invalidAlignment_iff : ∀ named,
    (allocateWith handle bytes placement align).2 = .error (.invalidAlignment named) ↔
      handle.isSome = true ∧ bytes ≠ 0 ∧ blamed ∧ align = named
  answered : handle.isSome = true → bytes ≠ 0 → ¬blamed →
    (∃ address, (allocateWith handle bytes placement align).2 = .ok address ∧ align ∣ address) ∨
      (allocateWith handle bytes placement align).2 = .error (.outOfMemory bytes)
  /-- A block that is handed out joins the live ones, and a refusal leaves them as they were. -/
  entered : ∀ address, (allocateWith handle bytes placement align).2 = .ok address →
    (allocateWith handle bytes placement align).1.map live =
      handle.map fun s => ⟨address, bytes, placement⟩ :: live s
  kept : ∀ cause, (allocateWith handle bytes placement align).2 = .error cause →
    (allocateWith handle bytes placement align).1.map live = handle.map live

/-- The alignment is blamed when it is no power of two or the size is too large for it. -/
theorem explains_blamed (handle : Option α) (bytes : Nat) (placement : Placement) (align : Nat) :
    Explains (Blamed bytes align) handle bytes placement align := by
  cases handle with
  | none =>
    exact ⟨iff_of_true rfl rfl, iff_of_false nofun nofun, fun _ => iff_of_false nofun nofun,
      nofun, nofun, fun _ _ => rfl⟩
  | some s =>
    obtain ⟨s', answer, hrequest, hanswers⟩ : ∃ s' answer,
        Allocator.allocate s bytes placement align = (s', answer) ∧
          (toTable s).Answers bytes placement align (toTable s', answer) :=
      ⟨_, _, rfl, answers_allocate s bytes placement align⟩
    have hpair : allocateWith (some s) bytes placement align = (some s', answer) := by
      simp only [allocateWith, hrequest]
    generalize htable : toTable s' = t at hanswers
    cases hanswers with
    | zeroSize hbytes =>
      subst hbytes
      constructor <;> simp [hpair, live, htable]
    | blamed hbytes hblamed => constructor <;> simp [hpair, hbytes, hblamed, live, htable]
    | refused hbytes hblameless => constructor <;> simp [hpair, hbytes, hblameless, live, htable]
    | granted hbytes hblameless memory hdvd =>
      constructor <;> simp [hpair, hbytes, hblameless, hdvd, live, htable]

/-- Two accounts of what the alignment is blamed for agree where it comes to that. -/
theorem Explains.iff_of {blamed blamed' : Prop} {handle : Option α} {bytes align : Nat}
    {placement : Placement} (h : Explains blamed handle bytes placement align) :
    Explains blamed' handle bytes placement align ↔
      (handle.isSome = true → bytes ≠ 0 → (blamed' ↔ blamed)) := by
  constructor
  · intro h' hsome hbytes
    have hboth := (h'.invalidAlignment_iff align).symm.trans (h.invalidAlignment_iff align)
    simpa [hsome, hbytes] using hboth
  · intro hsame
    refine ⟨h.nullAllocator_iff, h.zeroSize_iff, fun named => ?_, fun hsome hbytes hnot =>
      h.answered hsome hbytes fun hblamed => hnot ((hsame hsome hbytes).mpr hblamed),
      h.entered, h.kept⟩
    refine (h.invalidAlignment_iff named).trans (and_congr_right fun hsome =>
      and_congr_right fun hbytes => and_congr_left' (hsame hsome hbytes).symm)

/-- The alignment is no power of two when it is blamed, unless the size is too large for it. -/
theorem explains_power_iff (handle : Option α) (bytes : Nat) (placement : Placement)
    (align : Nat) : Explains (∀ k, align ≠ 2 ^ k) handle bytes placement align ↔
      ¬(handle.isSome = true ∧ bytes ≠ 0 ∧ (∃ k, align = 2 ^ k) ∧
        maxBlock + 1 - align < bytes) := by
  rw [(explains_blamed handle bytes placement align).iff_of]
  unfold Blamed
  constructor
  · rintro hsame ⟨hsome, hbytes, ⟨k, hk⟩, hlarge⟩
    exact (hsame hsome hbytes).mpr (.inr hlarge) k hk
  · refine fun hnot hsome hbytes => ⟨.inl, fun hblamed k hk => ?_⟩
    obtain hpower | hlarge := hblamed
    · exact hpower k hk
    · exact hnot ⟨hsome, hbytes, ⟨k, hk⟩, hlarge⟩

end OnHost

end HazardFlow
