import HazardFlow.Proofs.Effects

/-!
# Runs act like their nodes in order

Every node may act on a store at any moment between its dispatch and its completion, and nodes of
dropped builders do not act. Nodes that overlap act in the order in which they were added, because
the later one is dispatched only when the earlier one is complete. All others commute. So a run that
completes every node leaves the store as if the nodes had acted one after another, and every node
has seen what it would have seen then.
-/

namespace HazardFlow

variable {κ ε V : Type}

/-- A site whose nodes act on a store. -/
structure Performance (κ ε V : Type) where
  site : Site κ ε
  ledger : Ledger V
  /-- The nodes that have acted, in order. -/
  acted : List NodeId := []

/-- What happens while a site runs. -/
inductive Happening (κ ε : Type) where
  | action (a : Action κ ε)
  /-- A node acts on the store. -/
  | effect (n : NodeId)

namespace Performance

/-- A node may act once, after its dispatch and before its completion, unless its builder was
dropped. -/
def mayAct (p : Performance κ ε V) (n : NodeId) : Bool :=
  (p.site.graph.node n).claimed && !p.site.graph.isComplete n && !p.acted.contains n &&
    !p.site.discarded.contains n

/-- Lets one thing happen. What is not possible changes nothing. -/
def happen (effects : NodeId → Cells V → Cells V) (p : Performance κ ε V) :
    Happening κ ε → Performance κ ε V
  | .action a => { p with site := p.site.act a }
  | .effect n =>
    if p.mayAct n then
      { p with
        ledger := p.ledger.apply (p.site.accessOf n) (effects n) n
        acted := p.acted ++ [n] }
    else p

/-- Lets things happen in turn. -/
def perform (effects : NodeId → Cells V → Cells V) (p : Performance κ ε V)
    (happenings : List (Happening κ ε)) : Performance κ ε V :=
  happenings.foldl (happen effects) p

/-- The nodes that act, in the order in which they were added. -/
def inOrder (p : Performance κ ε V) : List NodeId :=
  (List.range p.site.declared.size).filter fun n => !p.site.discarded.contains n

/-- The ledger after nodes acted in the given order. -/
def ledgerAfter (effects : NodeId → Cells V → Cells V) (s : Site κ ε) (ledger : Ledger V)
    (nodes : List NodeId) : Ledger V :=
  nodes.foldl (fun ledger n => ledger.apply (s.accessOf n) (effects n) n) ledger

/-- What has been done so far fits the site. -/
structure Fits (effects : NodeId → Cells V → Cells V) (start : Ledger V)
    (p : Performance κ ε V) : Prop where
  sound : p.site.Sound
  ordered : p.site.Ordered
  ledger : p.ledger = ledgerAfter effects p.site start p.acted
  nodup : p.acted.Nodup
  /-- Only dispatched nodes have acted, and none of a dropped builder. -/
  acted : ∀ n : Nat, n ∈ p.acted →
    (p.site.graph.node n).claimed = true ∧ n ∉ p.site.discarded
  /-- Nodes that overlap have acted in the order in which they were added. -/
  order : p.acted.Pairwise fun x y : Nat =>
    (p.site.accessOf x).Overlaps (p.site.accessOf y) → x < y

/-- No node that has been dispatched belongs to a builder that can still be dropped. -/
theorem not_mem_discarded_of_claimed {s s' : Site κ ε} (hs : s.Sound) {a : Action κ ε}
    (h : s.Does a s') {n : Nat} (hn : (s.graph.node n).claimed = true)
    (hkept : n ∉ s.discarded) : n ∉ s'.discarded := by
  cases h with
  | @drop i b hi =>
    intro hmem
    rcases List.mem_append.mp hmem with hnode | hold
    · have hunclaimed := (hs.holds i b hi).not_claimed hs.system.coherent hnode
      exact Bool.false_ne_true (hunclaimed.symm.trans hn)
    · exact hkept hold
  | _ => exact hkept

/-- The ledger depends on what the nodes declared only. -/
theorem ledgerAfter_congr (effects : NodeId → Cells V → Cells V) {s s' : Site κ ε}
    (start : Ledger V) {nodes : List NodeId}
    (h : ∀ n : Nat, n ∈ nodes → s'.accessOf n = s.accessOf n) :
    ledgerAfter effects s' start nodes = ledgerAfter effects s start nodes := by
  induction nodes generalizing start with
  | nil => rfl
  | cons n rest ih =>
    have hrest := ih (start.apply (s.accessOf n) (effects n) n) fun m hm =>
      h m (List.mem_cons_of_mem n hm)
    unfold ledgerAfter at hrest ⊢
    rw [List.foldl_cons, List.foldl_cons, h n List.mem_cons_self, hrest]

namespace Fits

variable {effects : NodeId → Cells V → Cells V} {start : Ledger V} {p : Performance κ ε V}

/-- A node that has acted exists. -/
theorem lt_size (h : p.Fits effects start) {n : Nat} (hn : n ∈ p.acted) :
    n < p.site.declared.size := by
  rw [h.sound.declared]
  exact Graph.lt_size_of_claimed (h.acted n hn).1

/-- An action that does not reset the tracker. -/
theorem action (h : p.Fits effects start) {a : Action κ ε} (ha : a ≠ .reset) :
    (p.happen effects (.action a)).Fits effects start := by
  have hdoes := Site.does_act h.sound a
  have haccess : ∀ n : Nat, n ∈ p.acted → (p.site.act a).accessOf n = p.site.accessOf n :=
    fun n hn => hdoes.accessOf_eq (h.lt_size hn)
  refine ⟨h.sound.does hdoes, h.ordered.does h.sound hdoes ha, ?_, h.nodup, fun n hn => ?_, ?_⟩
  · exact h.ledger.trans (ledgerAfter_congr effects start haccess).symm
  · obtain ⟨hclaimed, hkept⟩ := h.acted n hn
    exact ⟨(hdoes.grows h.sound).claimed n hclaimed,
      not_mem_discarded_of_claimed h.sound hdoes hclaimed hkept⟩
  · refine h.order.imp_of_mem fun hx hy hlt hoverlaps => hlt ?_
    rwa [← haccess _ hx, ← haccess _ hy]

/-- A node that acts comes after those that it overlaps with and that were added before. -/
theorem effect (h : p.Fits effects start) (n : Nat) :
    (p.happen effects (.effect n)).Fits effects start := by
  unfold happen
  dsimp only
  split
  · next hmay =>
    unfold mayAct at hmay
    simp only [Bool.and_eq_true, Bool.not_eq_true', List.contains_eq_mem,
      decide_eq_false_iff_not] at hmay
    obtain ⟨⟨⟨hclaimed, hopen⟩, hfresh⟩, hkept⟩ := hmay
    refine ⟨h.sound, h.ordered, ?_, ?_, fun m hm => ?_, ?_⟩
    · unfold ledgerAfter
      rw [List.foldl_append, List.foldl_cons, List.foldl_nil, h.ledger]
      rfl
    · exact List.nodup_append.mpr ⟨h.nodup, List.nodup_singleton n, fun m hm m' hm' heq =>
        hfresh (by rw [← List.mem_singleton.mp hm', ← heq]; exact hm)⟩
    · rcases List.mem_append.mp hm with hold | hnew
      · exact h.acted m hold
      · rw [List.mem_singleton.mp hnew]
        exact ⟨hclaimed, hkept⟩
    · refine List.pairwise_append.mpr ⟨h.order, List.pairwise_singleton .., fun m hm m' hm' => ?_⟩
      obtain rfl := List.mem_singleton.mp hm'
      intro hoverlaps
      by_contra hlt
      have hne : m ≠ m' := fun heq => hfresh (heq ▸ hm)
      have hlt' : m' < m := Nat.lt_of_le_of_ne (Nat.le_of_not_lt hlt) (Ne.symm hne)
      -- The later node was dispatched already, so this one would have to be complete.
      have hreaches := h.ordered.reaches hlt' (hoverlaps.symm.conflicts _)
      have hdone := h.sound.system.coherent.isComplete_of_reaches hreaches (Nat.ne_of_lt hlt')
        (h.acted m hm).1
      exact Bool.false_ne_true (hopen.symm.trans hdone)
  · exact h

/-- Whatever happens, except for a reset of the tracker. -/
theorem perform (h : p.Fits effects start) {happenings : List (Happening κ ε)}
    (hreset : Happening.action .reset ∉ happenings) :
    (p.perform effects happenings).Fits effects start := by
  induction happenings generalizing p with
  | nil => exact h
  | cons happening rest ih =>
    rw [List.mem_cons, not_or] at hreset
    refine ih ?_ hreset.2
    cases happening with
    | action a => exact h.action fun ha => hreset.1 (by rw [ha])
    | effect n => exact h.effect n

end Fits

/-- In every run without resets in which all nodes have acted but those of dropped builders, the
store and what the nodes saw are as if the nodes had acted in the order in which they were
added. -/
theorem ledger_eq_ledgerAfter_inOrder {tracker : Tracker} {count workers grain cap : Nat}
    {effects : NodeId → Cells V → Cells V} {start : Ledger V}
    {happenings : List (Happening κ ε)} {p : Performance κ ε V}
    (htracker : Tracker.create count = .ok tracker)
    (hreset : Happening.action .reset ∉ happenings)
    (hrun : perform effects ⟨Site.start tracker workers grain cap, start, []⟩ happenings = p)
    (heffects : ∀ n : Nat, n < p.site.declared.size →
      (p.site.accessOf n).Confines (effects n))
    (hacted : ∀ n : Nat, n < p.site.declared.size → n ∉ p.site.discarded → n ∈ p.acted) :
    p.ledger = ledgerAfter effects p.site start p.inOrder := by
  have hstart : Fits effects start
      (⟨Site.start tracker workers grain cap, start, []⟩ : Performance κ ε V) :=
    ⟨Site.sound_start htracker workers grain cap, Site.ordered_start tracker workers grain cap,
      rfl, List.nodup_nil, fun _ hn => absurd hn List.not_mem_nil, List.Pairwise.nil⟩
  have hfits := hstart.perform hreset
  rw [hrun] at hfits
  have hperm : p.acted.Perm p.inOrder := by
    have hnodup : p.inOrder.Nodup := List.nodup_range.filter _
    refine (List.perm_ext_iff_of_nodup hfits.nodup hnodup).mpr fun n => ?_
    unfold inOrder
    simp only [List.mem_filter, List.mem_range, Bool.not_eq_true', List.contains_eq_mem,
      decide_eq_false_iff_not]
    exact ⟨fun hn => ⟨hfits.lt_size hn, (hfits.acted n hn).2⟩, fun hn => hacted n hn.1 hn.2⟩
  have hsorted : p.inOrder.Pairwise (· < ·) := List.pairwise_lt_range.filter _
  have hcommute : p.acted.Pairwise fun x y : Nat =>
      (∀ ledger : Ledger V,
        (ledger.apply (p.site.accessOf x) (effects x) x).apply (p.site.accessOf y) (effects y) y =
        (ledger.apply (p.site.accessOf y) (effects y) y).apply (p.site.accessOf x) (effects x) x) ∨
      x < y := by
    refine (hfits.order.and hfits.nodup).imp_of_mem @fun x y hx hy hpair => ?_
    by_cases hoverlaps : (p.site.accessOf x).Overlaps (p.site.accessOf y)
    · exact Or.inr (hpair.1 hoverlaps)
    · exact Or.inl fun ledger => ledger.apply_comm (heffects _ (hfits.lt_size hx))
        (heffects _ (hfits.lt_size hy)) hoverlaps hpair.2
  rw [hfits.ledger]
  exact foldl_eq_of_perm_sorted hperm hsorted hcommute start

/-- An effect that appends a digit to the cell at address zero. -/
def appendDigit (n : NodeId) (cells : Cells Nat) : Cells Nat :=
  fun a => if a = 0 then 10 * cells 0 + n + 1 else cells a

/-- Two nodes write one cell, and a third one belongs to a dropped builder. -/
def threeWriters : Performance Unit Unit Nat :=
  perform appendDigit
    ⟨Site.start { shards := #[{}] } 1 1 0, ⟨fun _ => 0, fun _ => []⟩, []⟩
    [.action .newBuilder, .action (.add 0 (.kernel ()) { writes := [0] } none),
      .action (.add 0 (.kernel ()) { reads := [0], writes := [0] } none), .action (.execute 0),
      .action (.take 0 .inbox 0 false), .effect 1, .effect 0, .action (.conclude 0 .finished),
      .effect 1, .action (.take 0 (.queue 0) 0 false), .action (.conclude 0 .finished),
      .action .newBuilder, .action (.add 1 (.kernel ()) { writes := [0] } none),
      .action (.drop 1), .effect 2, .action (.take 0 .inbox 0 false),
      .action (.conclude 0 .finished)]

/-- The two nodes have acted in order. -/
theorem ledger_eq_ledgerAfter_inOrder_threeWriters :
    threeWriters.ledger = ledgerAfter appendDigit threeWriters.site ⟨fun _ => 0, fun _ => []⟩
      threeWriters.inOrder ∧ threeWriters.inOrder = [0, 1] := by
  have htracker : Tracker.create 1 = .ok { shards := #[{}] } := rfl
  have hwrites : ∀ n : Nat, n < threeWriters.site.declared.size →
      (threeWriters.site.accessOf n).writes = [0] := by
    decide +kernel
  have hacted : ∀ n : Nat, n < threeWriters.site.declared.size →
      n ∉ threeWriters.site.discarded → n ∈ threeWriters.acted := by
    decide +kernel
  refine ⟨ledger_eq_ledgerAfter_inOrder htracker (by simp) rfl (fun n hn => ⟨?_, ?_⟩) hacted,
    by decide +kernel⟩
  · intro cells a ha
    rw [hwrites n hn, List.mem_singleton] at ha
    unfold appendDigit
    rw [if_neg ha]
  · intro cells cells' hsame a ha
    have hzero := hsame 0 (Access.mem_addresses_of_mem_writes (by rw [hwrites n hn]; simp))
    rw [hwrites n hn, List.mem_singleton] at ha
    unfold appendDigit
    rw [if_pos ha, if_pos ha, hzero]

end Performance

end HazardFlow
