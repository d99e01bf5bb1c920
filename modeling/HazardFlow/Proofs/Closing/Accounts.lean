import HazardFlow.Proofs.Graph.Claims
import HazardFlow.Proofs.Schedule.Working
import HazardFlow.Proofs.Tiling

/-!
# An account of all jobs

Every claimed node has one job, and one more for each time that a job of it was split. Jobs of the
same node are pieces of a range that share no index. This account of jobs holds wherever they are,
since a job keeps its place in it when it is queued, begins to run or is dropped.
-/

namespace HazardFlow

variable {κ : Type}

/-- Jobs of different nodes, or of pieces of a range that are not empty and share no index. -/
def Job.Apart (a b : Job κ) : Prop :=
  a.node ≠ b.node ∨ ∃ (c d : Cursor) (call call' : κ), a.task = .range c call ∧
    b.task = .range d call' ∧ c.next < c.stop ∧ d.next < d.stop ∧
      (c.stop ≤ d.next ∨ d.stop ≤ c.next)

namespace Job.Apart

variable {a b piece rest job : Job κ}

theorem symm (h : a.Apart b) : b.Apart a := by
  rcases h with hne | ⟨c, d, call, call', hc, hd, hwide, hwide', hleft | hright⟩
  · exact Or.inl (Ne.symm hne)
  · exact Or.inr ⟨d, c, call', call, hd, hc, hwide', hwide, Or.inr hleft⟩
  · exact Or.inr ⟨d, c, call', call, hd, hc, hwide', hwide, Or.inl hright⟩

/-- The two halves of a job are apart from each other, and from all that the job was apart from. -/
theorem of_splitJob {g g' : Graph κ} (h : g.splitJob job = some (g', piece, rest)) :
    piece.Apart rest ∧ ∀ other : Job κ, job.Apart other → piece.Apart other ∧ rest.Apart other := by
  obtain ⟨_, hpiece, hrest⟩ := Graph.splitJob_spec h
  unfold Graph.splitJob at h
  split at h
  · next cursor call htask =>
    obtain ⟨⟨first, second⟩, hsplit, heq⟩ := Option.map_eq_some_iff.mp h
    obtain ⟨_, hparts⟩ := Prod.mk.inj heq
    obtain ⟨rfl, rfl⟩ := Prod.mk.inj hparts
    obtain ⟨hnext, hmiddle, hstop, _, _, hlow, hhigh⟩ := Cursor.split_spec hsplit
    have hgrain := cursor.grain_pos
    have hfirst : first.next < first.stop := by
      have hlength : cursor.grain ≤ first.stop - first.next := hlow
      omega
    have hsecond : second.next < second.stop := by
      have hlength : cursor.grain ≤ second.stop - second.next := hhigh
      omega
    refine ⟨Or.inr ⟨first, second, call, call, rfl, rfl, hfirst, hsecond, Or.inl ?_⟩,
      fun other hother => ?_⟩
    · exact Nat.le_of_eq hmiddle
    · rcases hother with hne | ⟨c, d, call', call'', hc, hd, hwide, hwide', hside⟩
      · exact ⟨Or.inl hne, Or.inl hne⟩
      · obtain ⟨rfl, rfl⟩ := Task.range.inj (htask.symm.trans hc)
        refine ⟨Or.inr ⟨first, d, call, call'', rfl, hd, hfirst, hwide', ?_⟩,
          Or.inr ⟨second, d, call, call'', rfl, hd, hsecond, hwide', ?_⟩⟩
        · omega
        · omega
  · cases h

end Job.Apart

/-- All jobs, wherever they are, for a graph and the splits made so far. -/
structure Accounts (jobs : List (Job κ)) (g : Graph κ) (splits : List NodeId) : Prop where
  claimed : ∀ job ∈ jobs, (g.node job.node).claimed = true
  apart : jobs.Pairwise Job.Apart
  count : ∀ n : Nat, jobs.countP (·.node == n) =
    (if (g.node n).claimed then 1 else 0) + splits.count n

namespace Accounts

variable {jobs jobs' made others : List (Job κ)} {g g' : Graph κ} {splits : List NodeId}
  {job piece rest : Job κ}

/-- Jobs that are apart may be listed in any order. -/
theorem pairwise_of_perm (h : jobs.Pairwise Job.Apart) (hperm : jobs'.Perm jobs) :
    jobs'.Pairwise Job.Apart :=
  (hperm.pairwise_iff fun hab => hab.symm).mpr h

/-- Jobs come up for nodes that are claimed. -/
theorem supplies (h : Accounts jobs g splits) (made : List (Job κ))
    (hjobs : jobs'.Perm (made ++ jobs)) (hclaims : g.Claims g' (made.map Job.node)) :
    Accounts jobs' g' splits where
  claimed other hother := by
    rw [hclaims.claimed]
    rcases List.mem_append.mp (hjobs.mem_iff.mp hother) with hnew | hold
    · exact Or.inr (List.mem_map_of_mem hnew)
    · exact Or.inl (h.claimed other hold)
  apart := by
    refine pairwise_of_perm (List.pairwise_append.mpr ⟨?_, h.apart, fun a ha b hb => ?_⟩) hjobs
    · exact (List.pairwise_map.mp hclaims.nodup).imp fun hne => Or.inl hne
    · left
      intro heq
      have hfresh := hclaims.fresh a.node (List.mem_map_of_mem ha)
      rw [heq, h.claimed b hb] at hfresh
      cases hfresh
  count n := by
    have hnew : made.countP (·.node == n) = (made.map Job.node).count n := by
      rw [List.count, List.countP_map]
      rfl
    rw [hjobs.countP_eq, List.countP_append, hnew, h.count]
    by_cases hn : n ∈ made.map Job.node
    · have hfresh := hclaims.fresh n hn
      rw [List.count_eq_one_of_mem hclaims.nodup hn, if_neg (Bool.eq_false_iff.mp hfresh),
        if_pos ((hclaims.claimed n).mpr (Or.inr hn)), Nat.zero_add]
    · have hsame := hclaims.claimed n
      rw [or_iff_left hn] at hsame
      rw [List.count_eq_zero.mpr hn, Nat.zero_add]
      simp only [hsame]

/-- Jobs move about. -/
theorem move (h : Accounts jobs g splits) (hjobs : jobs'.Perm jobs)
    (hclaimed : ∀ n : Nat, (g'.node n).claimed = (g.node n).claimed) : Accounts jobs' g' splits :=
  h.supplies [] hjobs (.of_same hclaimed)

/-- A job is split. -/
theorem split (h : Accounts jobs g splits) (hbefore : jobs.Perm (job :: others))
    (hafter : jobs'.Perm (piece :: rest :: others))
    (hsplit : g.splitJob job = some (g', piece, rest)) : Accounts jobs' g' (job.node :: splits) := by
  obtain ⟨hg, hpiece, hrest⟩ := Graph.splitJob_spec hsplit
  obtain ⟨hhalves, hothers⟩ := Job.Apart.of_splitJob hsplit
  have hkept (n : Nat) : (g'.node n).claimed = (g.node n).claimed := by
    rw [hg]
    exact Graph.field_updateNode Node.claimed n
  have hjob := h.claimed job (hbefore.mem_iff.mpr List.mem_cons_self)
  have hapart := List.pairwise_cons.mp (pairwise_of_perm h.apart hbefore.symm)
  refine ⟨fun other hother => ?_, ?_, fun n => ?_⟩
  · rw [hkept]
    have hmem := hafter.mem_iff.mp hother
    rw [List.mem_cons, List.mem_cons] at hmem
    rcases hmem with rfl | rfl | hold
    · rwa [hpiece]
    · rwa [hrest]
    · exact h.claimed other (hbefore.mem_iff.mpr (List.mem_cons_of_mem job hold))
  · refine pairwise_of_perm (List.pairwise_cons.mpr ⟨fun other hother => ?_,
      List.pairwise_cons.mpr ⟨fun other hother => ?_, hapart.2⟩⟩) hafter
    · rcases List.mem_cons.mp hother with rfl | hold
      · exact hhalves
      · exact (hothers other (hapart.1 other hold)).1
    · exact (hothers other (hapart.1 other hother)).2
  · have hcount := h.count n
    rw [hbefore.countP_eq, List.countP_cons] at hcount
    rw [hafter.countP_eq, List.countP_cons, List.countP_cons, List.count_cons, hpiece, hrest, hkept]
    omega

end Accounts

end HazardFlow
