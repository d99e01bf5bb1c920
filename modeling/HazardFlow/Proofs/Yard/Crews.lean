import HazardFlow.Proofs.Schedule.Dispatching
import HazardFlow.Proofs.Schedule.Holding
import HazardFlow.Proofs.Yard.Run

/-!
# Builders and submissions of a yard

Every builder holds a batch of its own that is not armed, and every submission looks at the nodes
of a batch of its own that is. Each goes on to do so while something happens to the others, or while
the graph only runs.
-/

namespace HazardFlow

variable {κ ε : Type}

namespace Crew

/-- The builder that has some number, unless it is gone. -/
def builderAt (crews : Array Crew) (i : Nat) : Option Builder := crews[i]?.bind Crew.builder

theorem builderAt_of_adding {crews : Array Crew} {i : Nat} {b : Builder}
    (h : crews[i]? = some (.adding b)) : builderAt crews i = some b := by
  unfold builderAt
  rw [h]
  rfl

theorem builderAt_of_leaving {crews : Array Crew} {i : Nat} {b : Builder} {left : List NodeId}
    (h : crews[i]? = some (.leaving b left)) : builderAt crews i = some b := by
  unfold builderAt
  rw [h]
  rfl

/-- A crew that is replaced has the builder of its replacement. -/
theorem builderAt_replaced {crews : Array Crew} {i : Nat} {b : Builder}
    (h : builderAt crews i = some b) (crew : Crew) :
    builderAt (crews.setIfInBounds i crew) i = crew.builder := by
  have hi : i < crews.size := by
    by_contra hge
    unfold builderAt at h
    rw [Array.getElem?_eq_none (by omega)] at h
    cases h
  unfold builderAt
  rw [Array.getElem?_setIfInBounds_self_of_lt hi]
  rfl

theorem builderAt_push (crews : Array Crew) (crew : Crew) :
    builderAt (crews.push crew) crews.size = crew.builder := by
  unfold builderAt
  rw [Array.getElem?_push_size]
  rfl

end Crew

open Crew (builderAt)

/-- Every builder holds a batch of its own, and those that go away discard the work of their own
nodes. -/
structure Staffed (crews : Array Crew) (g : Graph κ) : Prop where
  holds : ∀ (i : Nat) (b : Builder), builderAt crews i = some b → b.Holds g
  apart : ∀ (i j : Nat) (b c : Builder), i ≠ j → builderAt crews i = some b →
    builderAt crews j = some c → b.batch ≠ c.batch
  left : ∀ (i : Nat) (b : Builder) (left : List NodeId),
    crews[i]? = some (.leaving b left) → left ⊆ b.nodes

namespace Staffed

variable {crews crews' : Array Crew} {g g' : Graph κ}

theorem empty (g : Graph κ) : Staffed #[] g where
  holds i b hi := by simp [builderAt] at hi
  apart i j b c _ hi := by simp [builderAt] at hi
  left i b left hi := by simp at hi

/-- Builders go on to hold their batches while the graph only runs. -/
theorem steady (h : Staffed crews g) (hg : g.Steady g') : Staffed crews g' where
  holds i b hb := (h.holds i b hb).steady hg
  apart := h.apart
  left := h.left

/-- One crew comes or is replaced. -/
theorem of_replaced (h : Staffed crews g) (i : Nat)
    (hsame : ∀ j : Nat, j ≠ i → crews'[j]? = crews[j]?)
    (hothers : ∀ (j : Nat) (c : Builder), j ≠ i → builderAt crews j = some c → c.Holds g')
    (hself : ∀ b : Builder, builderAt crews' i = some b → b.Holds g' ∧
      ∀ (j : Nat) (c : Builder), j ≠ i → builderAt crews j = some c → c.batch ≠ b.batch)
    (hleft : ∀ (b : Builder) (left : List NodeId), crews'[i]? = some (.leaving b left) →
      left ⊆ b.nodes) : Staffed crews' g' := by
  have hother (j : Nat) (hj : j ≠ i) : builderAt crews' j = builderAt crews j := by
    unfold builderAt
    rw [hsame j hj]
  refine ⟨fun j b hb => ?_, fun j k b c hjk hb hc => ?_, fun j b left hj => ?_⟩
  · by_cases hj : j = i
    · subst hj
      exact (hself b hb).1
    · exact hothers j b hj (by rwa [← hother j hj])
  · by_cases hj : j = i
    · subst hj
      rw [hother k (Ne.symm hjk)] at hc
      exact Ne.symm ((hself b hb).2 k c (Ne.symm hjk) hc)
    · rw [hother j hj] at hb
      by_cases hk : k = i
      · subst hk
        exact (hself c hc).2 j b hj hb
      · rw [hother k hk] at hc
        exact h.apart j k b c hjk hb hc
  · by_cases hji : j = i
    · subst hji
      exact hleft b left hj
    · rw [hsame j hji] at hj
      exact h.left j b left hj

/-- A crew that is replaced by another one with the same builder, or goes. -/
theorem set (h : Staffed crews g) {i : Nat} {b : Builder} (hi : builderAt crews i = some b)
    {crew : Crew} (hcrew : crew.builder = some b ∨ crew.builder = none)
    (hleft : ∀ (c : Builder) (left : List NodeId), crew = .leaving c left → left ⊆ c.nodes) :
    Staffed (crews.setIfInBounds i crew) g := by
  refine h.of_replaced i (fun j hj => Array.getElem?_setIfInBounds_ne (Ne.symm hj))
    (fun j c _ hc => h.holds j c hc) (fun c hc => ?_) fun c left hc => ?_
  · rw [Crew.builderAt_replaced hi] at hc
    rcases hcrew with hsome | hnone
    · obtain rfl := Option.some.inj (hsome.symm.trans hc)
      exact ⟨h.holds i b hi, fun j c hj hc => h.apart j i c b hj hc hi⟩
    · rw [hnone] at hc
      cases hc
  · rw [Array.getElem?_setIfInBounds_self] at hc
    split at hc
    · exact hleft c left (Option.some.inj hc)
    · cases hc

end Staffed

/-- The batch of a submission is armed, and its nodes are due. -/
structure Submission.Fits (submission : Submission) (g : Graph κ) : Prop where
  batch_lt : submission.batch < g.batches.size
  armed : (g.batch submission.batch).armed = true
  due : ∀ n : Nat, n ∈ submission.due → n < g.nodes.size ∧ (g.node n).batch = submission.batch

/-- A node that is due may be dispatched. -/
theorem Submission.Fits.isArmed {submission : Submission} {g : Graph κ} (h : submission.Fits g)
    {n : Nat} (hn : n ∈ submission.due) : g.isArmed n = true := by
  unfold Graph.isArmed
  rw [(h.due n hn).2, h.armed]

/-- Every submission has a batch of its own. -/
structure Scheduled (submissions : Array Submission) (g : Graph κ) : Prop where
  fits : ∀ (k : Nat) (sub : Submission), submissions[k]? = some sub → sub.Fits g
  apart : ∀ (k l : Nat) (sub other : Submission), k ≠ l → submissions[k]? = some sub →
    submissions[l]? = some other → sub.batch ≠ other.batch

namespace Scheduled

variable {submissions : Array Submission} {g g' : Graph κ}

theorem empty (g : Graph κ) : Scheduled #[] g where
  fits k sub hk := by simp at hk
  apart k l sub other _ hk := by simp at hk

/-- Submissions still fit a graph that has grown, as long as their batches stay armed. -/
theorem grows (h : Scheduled submissions g) (hg : g.Grows g')
    (harmed : ∀ b : Nat, b < g.batches.size → (g.batch b).armed = true →
      (g'.batch b).armed = true) : Scheduled submissions g' where
  fits k sub hk := by
    have hfits := h.fits k sub hk
    refine ⟨Nat.lt_of_lt_of_le hfits.batch_lt hg.batches, harmed _ hfits.batch_lt hfits.armed,
      fun n hn => ?_⟩
    obtain ⟨hlt, hbatch⟩ := hfits.due n hn
    exact ⟨Nat.lt_of_lt_of_le hlt hg.size, (hg.batchOf n hlt).trans hbatch⟩
  apart := h.apart

theorem steady (h : Scheduled submissions g) (hg : g.Steady g') : Scheduled submissions g' :=
  h.grows hg.grows fun b _ hb => (hg.armed b).trans hb

/-- A submission goes on. -/
theorem set (h : Scheduled submissions g) {k : Nat} {sub sub' : Submission}
    (hk : submissions[k]? = some sub) (hbatch : sub'.batch = sub.batch) (hdue : sub'.due ⊆ sub.due) :
    Scheduled (submissions.setIfInBounds k sub') g := by
  have hself : (submissions.setIfInBounds k sub')[k]? = some sub' := by
    obtain ⟨hlt, _⟩ := Array.getElem?_eq_some_iff.mp hk
    exact Array.getElem?_setIfInBounds_self_of_lt hlt
  have hother (l : Nat) (hl : l ≠ k) :
      (submissions.setIfInBounds k sub')[l]? = submissions[l]? :=
    Array.getElem?_setIfInBounds_ne (Ne.symm hl)
  refine ⟨fun l other hl => ?_, fun l m one other hlm hone hother' => ?_⟩
  · by_cases hlk : l = k
    · subst hlk
      obtain rfl := Option.some.inj (hself.symm.trans hl)
      have hfits := h.fits l sub hk
      exact ⟨by rw [hbatch]; exact hfits.batch_lt, by rw [hbatch]; exact hfits.armed,
        fun n hn => by rw [hbatch]; exact hfits.due n (hdue hn)⟩
    · exact h.fits l other (by rwa [← hother l hlk])
  · by_cases hlk : l = k
    · subst hlk
      obtain rfl := Option.some.inj (hself.symm.trans hone)
      rw [hother m (Ne.symm hlm)] at hother'
      rw [hbatch]
      exact h.apart l m sub other hlm hk hother'
    · rw [hother l hlk] at hone
      by_cases hmk : m = k
      · subst hmk
        obtain rfl := Option.some.inj (hself.symm.trans hother')
        rw [hbatch]
        exact h.apart l m one sub hlm hone hk
      · rw [hother m hmk] at hother'
        exact h.apart l m one other hlm hone hother'

/-- A submission begins. -/
theorem push (h : Scheduled submissions g) {sub : Submission} (hfits : sub.Fits g)
    (hne : ∀ (k : Nat) (other : Submission), submissions[k]? = some other →
      other.batch ≠ sub.batch) : Scheduled (submissions.push sub) g := by
  refine ⟨fun k other hk => ?_, fun k l one other hkl hone hother => ?_⟩
  · rw [Array.getElem?_push] at hk
    split at hk
    · obtain rfl := Option.some.inj hk
      exact hfits
    · exact h.fits k other hk
  · rw [Array.getElem?_push] at hone hother
    split at hone
    · obtain rfl := Option.some.inj hone
      split at hother
      · omega
      · exact Ne.symm (hne l other hother)
    · split at hother
      · obtain rfl := Option.some.inj hother
        exact hne k one hone
      · exact h.apart k l one other hkl hone hother

end Scheduled

end HazardFlow
