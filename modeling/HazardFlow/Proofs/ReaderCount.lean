import HazardFlow.Proofs.Readers
import HazardFlow.Proofs.Refusals

/-!
# How long lists of readers get

Complete readers are dropped only by reads, and only from a list that has reached the limit, while
nodes complete at any moment in between. A list may therefore hold many complete readers, but not
more readers than some read since the last write has found incomplete, and one for the read itself,
unless it is within the limit. How much has been read before makes no difference.
-/

namespace HazardFlow

namespace Tracker

variable {κ : Type} {t : Tracker} {limit : Nat} {a x : Address}

/-- The readers of the shard of an address that are not complete, each as often as it is listed. -/
def openReaders (t : Tracker) (g : Graph κ) (a : Address) : Nat :=
  (t.shardAt a).readers.countP fun i => !g.isComplete i

/-- Replacing a shard changes the number of its own readers only. -/
theorem readersOf_setShard (ht : 0 < t.shards.size) (a x : Address) (s : Shard) :
    (t.setShard a s).readersOf x =
      if t.shardOf x = t.shardOf a then s.readers.length else t.readersOf x := by
  unfold readersOf
  split
  · next hshard => rw [shardAt_setShard_of_eq ht s hshard]
  · next hshard => rw [shardAt_setShard_of_ne s hshard]

/-- An access that was refused adds no readers. -/
theorem readersOf_afterRefusal_le (ht : 0 < t.shards.size) (g : Graph κ) (n : NodeId)
    (a x : Address) : (t.afterRefusal g n a).readersOf x ≤ t.readersOf x := by
  unfold afterRefusal
  split
  · exact Nat.le_refl _
  · rw [readersOf_setShard ht]
    split
    · exact Nat.zero_le _
    · exact Nat.le_refl _

theorem length_addReader_le (readers : List NodeId) (n : NodeId) :
    (addReader readers n).length ≤ readers.length + 1 := by
  unfold addReader
  split
  · exact Nat.le_succ _
  · simp

/-- A list is pruned when it has reached the limit, and then holds no complete readers. -/
theorem prune_cases (hlimit : t.readerLimit = some limit) (g : Graph κ) (readers : List NodeId) :
    readers.length < limit ∧ t.prune g readers = readers ∨
      t.prune g readers = readers.filter fun i => !g.isComplete i := by
  unfold prune
  rw [hlimit]
  by_cases hfull : limit ≤ readers.length
  · right
    rw [if_pos (by simpa using hfull)]
  · left
    rw [if_neg (by simpa using hfull)]
    exact ⟨Nat.lt_of_not_le hfull, rfl⟩

/-- A write leaves no readers in its shard, and a read prunes those of its shard and adds one. -/
theorem readersOf_record (ht : 0 < t.shards.size) (g : Graph κ) (n : NodeId) (a x : Address)
    (write : Bool) : (t.record g n a write).readersOf x =
      if t.shardOf x = t.shardOf a then
        if write then 0 else (addReader (t.prune g (t.shardAt a).readers) n).length
      else t.readersOf x := by
  unfold record
  rw [readersOf_setShard ht]
  cases write <;> rfl

/-- After a read the list is within the limit, or has one reader more than were incomplete. -/
theorem readersOf_record_read_le (ht : 0 < t.shards.size) (hlimit : t.readerLimit = some limit)
    (g : Graph κ) (n : NodeId) (hshard : t.shardOf x = t.shardOf a) :
    (t.record g n a false).readersOf x ≤ max limit (1 + t.openReaders g x) := by
  have hadd := length_addReader_le (t.prune g (t.shardAt a).readers) n
  rw [readersOf_record ht, if_pos hshard, if_neg Bool.false_ne_true]
  rcases prune_cases hlimit g (t.shardAt a).readers with ⟨hshort, hkept⟩ | hpruned
  · rw [hkept] at hadd ⊢
    omega
  · have hopen : (t.prune g (t.shardAt a).readers).length = t.openReaders g x := by
      rw [hpruned, openReaders, shardAt_congr hshard, List.countP_eq_length_filter]
    omega

/-- After a read the list is within the limit, or all readers but the node itself are
incomplete. -/
theorem short_or_open_record (ht : 0 < t.shards.size) (hlimit : t.readerLimit = some limit)
    (g : Graph κ) (n : NodeId) (a : Address) :
    (t.record g n a false).readersOf a ≤ limit ∨
      ∀ i ∈ ((t.record g n a false).shardAt a).readers, i ≠ n → g.isComplete i = false := by
  unfold record readersOf
  rw [shardAt_setShard_of_eq ht _ rfl]
  rcases prune_cases hlimit g (t.shardAt a).readers with ⟨hshort, hkept⟩ | hpruned
  · left
    have hadd := length_addReader_le (t.shardAt a).readers n
    simp only [Bool.false_eq_true, if_false, hkept]
    omega
  -- Of the readers that were there only incomplete ones are left.
  · right
    intro i hi hne
    simp only [Bool.false_eq_true, if_false, hpruned] at hi
    have hmem := (mem_addReader.mp hi).resolve_right hne
    simpa using (List.mem_filter.mp hmem).2

end Tracker

namespace GraphSession

/-- A command that was done, with the session that it was given to. -/
structure Deed where
  before : GraphSession
  command : Command
  outcome : Outcome GraphSession Answer

namespace Deed

/-- Whether a node has read the shard of an address. -/
def reads (d : Deed) (a : Address) : Bool :=
  match d.command with
  | .resolve _ b false =>
    d.before.tracker.shardOf a == d.before.tracker.shardOf b && d.outcome.result.isOk
  | _ => false

/-- Whether a node has written the shard of an address, or all accesses were forgotten. A write
that is refused counts when it has emptied the list of readers. -/
def clears (d : Deed) (a : Address) : Bool :=
  match d.command with
  | .resolve _ b true =>
    d.before.tracker.shardOf a == d.before.tracker.shardOf b &&
      (d.outcome.result.isOk || d.outcome.state.tracker.readersOf a == 0)
  | .reset => true
  | _ => false

/-- The readers of the shard of an address that the command found incomplete. -/
def found (d : Deed) (a : Address) : Nat := d.before.tracker.openReaders d.before.graph a

end Deed

/-- What has been done after some commands, newest first. -/
def deeds (s : GraphSession) (past : List Deed) : List Command → List Deed
  | [] => past
  | command :: rest =>
    match s.perform command with
    | .ok o => o.state.deeds (⟨s, command, o⟩ :: past) rest
    | .error _ => past

/-- The most readers of the shard of an address that a read has found incomplete since the last
write there and since all accesses were last forgotten. -/
def mostOpen (a : Address) (past : List Deed) : Nat :=
  (((past.takeWhile fun d => !d.clears a).filter (·.reads a)).map (·.found a)).foldr max 0

/-- Writes begin the account anew, and reads go into it. -/
theorem mostOpen_cons (a : Address) (d : Deed) (past : List Deed) :
    mostOpen a (d :: past) =
      if d.clears a then 0
      else if d.reads a then max (d.found a) (mostOpen a past)
      else mostOpen a past := by
  unfold mostOpen
  rw [List.takeWhile_cons]
  cases hclears : d.clears a with
  | true => rfl
  | false =>
    cases hreads : d.reads a with
    | true => simp [hreads]
    | false => simp [hreads]

variable {s s' : GraphSession} {past : List Deed} {owed : NodeId → Nat} {command : Command}
  {o : Outcome GraphSession Answer} {a : Address}

/-- An access is recorded and answered, or refused. A read that is refused changes no list. -/
theorem resolve_cases (howes : s.Owes owed) {n : NodeId} {write : Bool}
    (hperform : s.perform (.resolve n a write) = .ok o) :
    (∃ k g', o = .pure { s with tracker := s.tracker.record s.graph n a write, graph := g' }
        (.number k) ∧ ∀ i : Nat, g'.isComplete i = s.graph.isComplete i) ∨
      ∃ g', o = .fail { s with tracker := s.tracker.afterRefusal s.graph n a, graph := g' }
          .successorSubmitted ∧
        (write = false → s.tracker.afterRefusal s.graph n a = s.tracker) := by
  obtain ⟨hn, -⟩ := of_needNode hperform
  by_cases hrefuses : ∃ i ∈ s.tracker.conflicts a write, s.graph.refuses i n = true
  · right
    obtain ⟨g', hresolve, -⟩ := perform_resolve_of_refuses howes.within hn hrefuses
    refine ⟨g'.raise n, Except.ok.inj (hperform.symm.trans hresolve), ?_⟩
    rintro rfl
    exact Tracker.afterRefusal_of_refused_read hrefuses
  · left
    obtain ⟨g', hresolve, hwired⟩ := perform_resolve_of_not_refuses howes.within hn
      fun i hi => Bool.eq_false_iff.mpr fun hyes => hrefuses ⟨i, hi, hyes⟩
    exact ⟨_, g', Except.ok.inj (hperform.symm.trans hresolve), hwired.isComplete⟩

/-- The tracker of a session has shards, and drops complete readers from lists of sixty-four. -/
structure Limits (s : GraphSession) : Prop where
  pos : 0 < s.tracker.shards.size
  limit : s.tracker.readerLimit = some 64

namespace Limits

/-- Commands change neither the number of shards nor the limit. -/
theorem perform (h : s.Limits) (howes : s.Owes owed) (hperform : s.perform command = .ok o) :
    o.state.Limits := by
  by_cases huses : command.usesTracker = false
  · have htracker := tracker_perform hperform huses
    exact ⟨htracker ▸ h.pos, htracker ▸ h.limit⟩
  · cases command with
    | resolve n address write =>
      rcases resolve_cases howes hperform with ⟨k, g', rfl, -⟩ | ⟨g', rfl, -⟩
      · exact ⟨(Tracker.size_shards_record ..).symm ▸ h.pos, h.limit⟩
      · exact ⟨(Tracker.size_shards_afterRefusal ..).symm ▸ h.pos,
          (Tracker.readerLimit_afterRefusal ..).trans h.limit⟩
    | reset =>
      cases hperform
      refine ⟨?_, h.limit⟩
      change 0 < (s.tracker.shards.map _).size
      rw [Array.size_map]
      exact h.pos
    | readers address | shardOf address | shards =>
      cases hperform
      exact h
    | _ => exact absurd rfl huses

/-- A write leaves no readers behind, and nothing does when all accesses are forgotten. -/
theorem readersOf_of_clears (h : s.Limits) (howes : s.Owes owed)
    (hperform : s.perform command = .ok o)
    (hclears : (⟨s, command, o⟩ : Deed).clears a = true) : o.state.tracker.readersOf a = 0 := by
  cases command with
  | resolve n b write =>
    cases write with
    | false => cases hclears
    | true =>
      obtain ⟨hshard, hempty⟩ := Bool.and_eq_true_iff.mp hclears
      rcases resolve_cases howes hperform with ⟨k, g', rfl, -⟩ | ⟨g', rfl, -⟩
      · change (s.tracker.record s.graph n b true).readersOf a = 0
        rw [Tracker.readersOf_record h.pos, if_pos (beq_iff_eq.mp hshard), if_pos rfl]
      · exact beq_iff_eq.mp hempty
  | reset =>
    cases hperform
    exact Tracker.readersOf_reset ..
  | _ => cases hclears

/-- After a read the list is within the limit, or one reader longer than what the read found
incomplete. -/
theorem readersOf_of_reads (h : s.Limits) (howes : s.Owes owed)
    (hperform : s.perform command = .ok o)
    (hreads : (⟨s, command, o⟩ : Deed).reads a = true) :
    o.state.tracker.readersOf a ≤ max 64 (1 + (⟨s, command, o⟩ : Deed).found a) := by
  cases command with
  | resolve n b write =>
    cases write with
    | true => cases hreads
    | false =>
      obtain ⟨hshard, hanswered⟩ := Bool.and_eq_true_iff.mp hreads
      rcases resolve_cases howes hperform with ⟨k, g', rfl, -⟩ | ⟨g', rfl, -⟩
      · exact Tracker.readersOf_record_read_le h.pos h.limit s.graph n (beq_iff_eq.mp hshard)
      · cases hanswered
  | _ => cases hreads

/-- No other command makes the list longer. -/
theorem readersOf_of_neither (h : s.Limits) (howes : s.Owes owed)
    (hperform : s.perform command = .ok o)
    (hclears : (⟨s, command, o⟩ : Deed).clears a = false)
    (hreads : (⟨s, command, o⟩ : Deed).reads a = false) :
    o.state.tracker.readersOf a ≤ s.tracker.readersOf a := by
  by_cases huses : command.usesTracker = false
  · rw [tracker_perform hperform huses]
  · cases command with
    | resolve n b write =>
      rcases resolve_cases howes hperform with ⟨k, g', rfl, -⟩ | ⟨g', rfl, -⟩
      -- In the same shard the access would be a write that clears or a read.
      · have hshard : s.tracker.shardOf a ≠ s.tracker.shardOf b := by
          intro hshard
          cases write with
          | true => simp [Deed.clears, hshard, Outcome.pure, Except.isOk, Except.toBool] at hclears
          | false => simp [Deed.reads, hshard, Outcome.pure, Except.isOk, Except.toBool] at hreads
        change (s.tracker.record s.graph n b write).readersOf a ≤ _
        rw [Tracker.readersOf_record h.pos, if_neg hshard]
      · exact Tracker.readersOf_afterRefusal_le h.pos s.graph n b a
    | reset => cases hclears
    | readers b | shardOf b | shards =>
      cases hperform
      exact Nat.le_refl _
    | _ => exact absurd rfl huses

end Limits

/-- Every list of readers is within the limit, or has at most one reader more than some read since
the last write has found incomplete. -/
structure Short (s : GraphSession) (past : List Deed) : Prop where
  limits : s.Limits
  length : ∀ a : Address, s.tracker.readersOf a ≤ max 64 (1 + mostOpen a past)

namespace Short

/-- Every command goes into the account that bounds the lists. -/
theorem perform (h : s.Short past) (howes : s.Owes owed) (hperform : s.perform command = .ok o) :
    o.state.Short (⟨s, command, o⟩ :: past) where
  limits := h.limits.perform howes hperform
  length a := by
    have hlength := h.length a
    rw [mostOpen_cons]
    cases hclears : (⟨s, command, o⟩ : Deed).clears a with
    | true =>
      have hempty := h.limits.readersOf_of_clears howes hperform hclears
      rw [if_pos rfl]
      omega
    | false =>
      rw [if_neg Bool.false_ne_true]
      cases hreads : (⟨s, command, o⟩ : Deed).reads a with
      | true =>
        have hread := h.limits.readersOf_of_reads howes hperform hreads
        rw [if_pos rfl]
        omega
      | false =>
        have hle := h.limits.readersOf_of_neither howes hperform hclears hreads
        rw [if_neg Bool.false_ne_true]
        omega

/-- So do any commands. -/
theorem performAll (h : s.Short past) (howes : s.Owes owed) {commands : List Command}
    {answers : List (Except Fault Answer)} (hperform : s.performAll commands = .ok (s', answers)) :
    s'.Short (s.deeds past commands) := by
  induction commands generalizing s past owed answers with
  | nil =>
    cases hperform
    exact h
  | cons command rest ih =>
    obtain ⟨o, hfirst, hrest⟩ := of_bind hperform
    obtain ⟨⟨final, results⟩, hlater, heq⟩ := of_bind hrest
    cases heq
    unfold deeds
    rw [hfirst]
    exact ih (h.perform howes hfirst) (howes.perform hfirst) hlater

/-- A session that begins with an empty graph. -/
theorem start {tracker : Tracker} {count : Nat} (htracker : Tracker.create count = .ok tracker)
    (delay : Option Nat) : ({ tracker, delay } : GraphSession).Short [] where
  limits := ⟨Tracker.size_shards_pos_of_create htracker, Tracker.readerLimit_of_create htracker⟩
  length a := by
    change ((tracker.shards.getD _ {}).readers).length ≤ _
    rw [Tracker.shard_of_create htracker]
    exact Nat.zero_le _

end Short

/-- How long the lists of readers are, and what the next read leaves behind. -/
structure BoundsReaders (s : GraphSession) (past : List Deed) : Prop where
  /-- A read is answered when its node has not been submitted. -/
  answered : ∀ (n : Nat) (a : Address), n < s.graph.nodes.size → s.graph.isArmed n = false →
    ∃ s' k, s.perform (.resolve n a false) = .ok (.pure s' (.number k))
  /-- After a read the list has at most sixty-four entries, or every entry but those of the node
  that reads is of a node that is not complete. -/
  read : ∀ (n : Nat) (a : Address) (s' : GraphSession) (k : Answer),
    s.perform (.resolve n a false) = .ok (.pure s' k) →
      s'.tracker.readersOf a ≤ 64 ∨
        ∀ i ∈ (s'.tracker.shardAt a).readers, i ≠ n → s'.graph.isComplete i = false
  /-- A read that is refused leaves all lists as they were. -/
  refused : ∀ (n : Nat) (a : Address) (s' : GraphSession) (fault : Fault),
    s.perform (.resolve n a false) = .ok (.fail s' fault) → s'.tracker = s.tracker
  /-- A list has at most sixty-four entries, or one more than the most entries of incomplete nodes
  that a read has found in it since the last write or reset. -/
  length : ∀ a : Address, s.tracker.readersOf a ≤ max 64 (1 + mostOpen a past)

theorem Short.boundsReaders (h : s.Short past) (howes : s.Owes owed) : s.BoundsReaders past where
  answered n a hn harmed := by
    have hnone : ∀ i ∈ s.tracker.conflicts a false, s.graph.refuses i n = false := fun i _ =>
      Graph.refuses_of_not_armed harmed i
    obtain ⟨g', hresolve, -⟩ := perform_resolve_of_not_refuses howes.within hn hnone
    exact ⟨_, _, hresolve⟩
  read n a s' k hperform := by
    rcases resolve_cases howes hperform with ⟨k, g', heq, hcomplete⟩ | ⟨g', heq, -⟩
    · cases heq
      simp only [hcomplete]
      exact Tracker.short_or_open_record h.limits.pos h.limits.limit s.graph n a
    · cases heq
  refused n a s' fault hperform := by
    rcases resolve_cases howes hperform with ⟨k, g', heq, -⟩ | ⟨g', heq, hsame⟩
    · cases heq
    · cases heq
      exact hsame rfl
  length := h.length

/-- After any commands a list of readers is no longer than the limit or the readers that were
incomplete allow, however much has been read before. -/
theorem boundsReaders_of_performAll {tracker : Tracker} {count : Nat} {delay : Option Nat}
    {commands : List Command} {s : GraphSession} {answers : List (Except Fault Answer)}
    (htracker : Tracker.create count = .ok tracker)
    (hperform : ({ tracker, delay } : GraphSession).performAll commands = .ok (s, answers)) :
    s.BoundsReaders (({ tracker, delay } : GraphSession).deeds [] commands) :=
  ((Short.start htracker delay).performAll (.start htracker delay) hperform).boundsReaders
    ((Owes.start htracker delay).performAll hperform)

/-- Two nodes read an address in turn, sixty-six times in all. Then both complete, and a node of
another batch is added. -/
def readInTurn : List Command :=
  [.startBatch, .startBatch, .addNode 0 .idle none true, .addNode 0 .idle none true] ++
    (List.range 66).map (fun i => .resolve (i % 2) 0 false) ++
      [.finish 0, .finish 1, .addNode 1 .idle none true]

/-- Each of the reads is listed. The last one has found sixty-five entries of incomplete nodes, so
that the list is as long as it may be. The next read leaves one entry. -/
theorem boundsReaders_readInTurn : ∃ s answers,
    ({ tracker := { shards := #[{}] } } : GraphSession).performAll readInTurn = .ok (s, answers) ∧
      s.BoundsReaders (({ tracker := { shards := #[{}] } } : GraphSession).deeds [] readInTurn) ∧
      mostOpen 0 (({ tracker := { shards := #[{}] } } : GraphSession).deeds [] readInTurn) = 65 ∧
      s.tracker.readersOf 0 = 66 ∧
      ∃ o, s.perform (.resolve 2 0 false) = .ok o ∧ o.state.tracker.readersOf 0 = 1 := by
  have htracker : Tracker.create 1 = .ok { shards := #[{}] } := rfl
  have hmost : mostOpen 0
      (({ tracker := { shards := #[{}] } } : GraphSession).deeds [] readInTurn) = 65 := by
    decide +kernel
  have hreaders : (({ tracker := { shards := #[{}] } } : GraphSession).performAll readInTurn).map
      (fun final => (final.1.tracker.readersOf 0,
        (final.1.perform (.resolve 2 0 false)).map (·.state.tracker.readersOf 0))) =
          .ok (66, .ok 1) := by decide +kernel
  cases hperform : ({ tracker := { shards := #[{}] } } : GraphSession).performAll readInTurn with
  | error unknown =>
    rw [hperform] at hreaders
    cases hreaders
  | ok final =>
    rw [hperform] at hreaders
    obtain ⟨hmany, hone⟩ := Prod.mk.inj (Except.ok.inj hreaders)
    refine ⟨final.1, final.2, rfl, boundsReaders_of_performAll htracker hperform, hmost, hmany, ?_⟩
    cases hnext : final.1.perform (.resolve 2 0 false) with
    | error unknown =>
      rw [hnext] at hone
      cases hone
    | ok o =>
      rw [hnext] at hone
      exact ⟨o, rfl, Except.ok.inj hone⟩

end GraphSession

end HazardFlow
