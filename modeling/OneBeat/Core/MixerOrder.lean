import OneBeat.Core.RenderOrder

/-!
# What the mixer makes of a routing

`MixerGraph::finalise` of `core/mixer_graph.cpp` as a whole: the depth-first loop ends, it refuses
exactly the graphs that feed themselves, and the order of the others is a topological one.

* `loopFrom_of_not_ends` : a walk that comes back meets a node that is on the stack.
* `startsFrom_of_not_ends` : and then the graph is refused.
* `startsFrom_of_ends` : where every walk ends, every node is put down once.

**Main theorem** (`finalise_order`): what `finalise` returns, and the order it leaves.
-/

namespace OneBeat

/-- `MixerGraph::finalise` with the order it leaves: `none` while a loop has not ended, `some none`
when it returns false. -/
def finaliseWithin (fuel : ℕ) (nodes : List GraphNode) : Option (Option (List ℕ)) :=
  let outputs := nodes.map GraphNode.output
  (startsFrom outputs fuel (List.range outputs.length) (List.replicate outputs.length 0, [])).map
    fun found => found.bind fun walked =>
      if outputs.any Option.isNone then some walked.2.reverse else none

variable {outputs : List (Option ℕ)} {marks reverse : List ℕ}

/-! ### Refusal -/

/-- What is done is on a walk that ends. -/
theorem Walked.ends (h : Walked outputs marks reverse) {a : ℕ} (ha : a ∈ reverse) :
    Ends (fun a => outputs.getD a none) a := by
  -- the node that it feeds was put down before
  have hall : ∀ n before a after, reverse = before ++ a :: after → before.length ≤ n →
      Ends (fun a => outputs.getD a none) a := by
    intro n
    induction n with
    | zero =>
      intro before a after heq hlength
      cases hb : outputs.getD a none with
      | none => exact .stop hb
      | some b =>
        have hmem := h.later before a after heq b hb
        rw [List.eq_nil_of_length_eq_zero (Nat.le_zero.1 hlength)] at hmem
        cases hmem
    | succ n ih =>
      intro before a after heq hlength
      cases hb : outputs.getD a none with
      | none => exact .stop hb
      | some b =>
        obtain ⟨before', after', rfl⟩ := List.append_of_mem (h.later before a after heq b hb)
        rw [List.append_assoc, List.cons_append] at heq
        refine .step hb (ih before' b _ heq ?_)
        rw [List.length_append, List.length_cons] at hlength
        omega
  obtain ⟨before, after, heq⟩ := List.append_of_mem ha
  exact hall _ before a after heq le_rfl

/-- **A walk that does not end is refused**, before it has marked every node. -/
theorem loopFrom_of_not_ends (hrange : ∀ a b, outputs.getD a none = some b → b < outputs.length)
    {a : ℕ} (ha : a < outputs.length) (hends : ¬Ends (fun a => outputs.getD a none) a)
    (h : Walked outputs marks reverse) (hzero : marks.getD a 2 = 0) {fuel : ℕ}
    (hfuel : marks.count 0 ≤ fuel) (stack : List ℕ) :
    loopFrom outputs fuel (a :: stack) marks reverse = some none := by
  induction fuel generalizing a marks stack with
  | zero =>
    have hmem : 0 ∈ marks := by
      rw [List.getD_eq_getElem?_getD, List.getElem?_eq_getElem (h.length ▸ ha)] at hzero
      exact hzero ▸ List.getElem_mem _
    have := List.count_pos_iff.2 hmem
    omega
  | succ fuel ih =>
    cases hb : outputs.getD a none with
    | none => exact absurd (.stop hb) hends
    | some b =>
      have hends' : ¬Ends (fun a => outputs.getD a none) b := fun h => hends (.step hb h)
      have hlength : a < marks.length := h.length ▸ ha
      have hmark := h.mark ha hzero
      rw [loopFrom, hzero, hb]
      dsimp only
      have hbound := hmark.bound b
      have hnot : (marks.set a 1).getD b 2 ≠ 2 := fun htwo =>
        hends' (hmark.ends ((hmark.done b).2 ⟨hrange a b hb, htwo⟩))
      by_cases hone : (marks.set a 1).getD b 2 = 1
      · rw [hone]
        rfl
      · have hzero' : (marks.set a 1).getD b 2 = 0 := by omega
        rw [hzero']
        refine ih (hrange a b hb) hends' hmark hzero' ?_ _
        have hget : marks[a] = 0 := by
          rwa [List.getD_eq_getElem?_getD, List.getElem?_eq_getElem hlength] at hzero
        rw [List.count_set hlength, hget]
        simp
        omega

theorem startsFrom_of_not_ends
    (hrange : ∀ a b, outputs.getD a none = some b → b < outputs.length) {fuel : ℕ}
    (hfuel : 2 * outputs.length < fuel) {starts : List ℕ}
    (hstarts : ∀ a ∈ starts, a < outputs.length)
    (hends : ∃ a ∈ starts, ¬Ends (fun a => outputs.getD a none) a)
    (h : Walked outputs marks reverse) (hone : ∀ a, marks.getD a 2 ≠ 1) :
    startsFrom outputs fuel starts (marks, reverse) = some none := by
  induction starts generalizing marks reverse with
  | nil =>
    obtain ⟨a, ha, -⟩ := hends
    cases ha
  | cons start starts ih =>
    obtain ⟨hstart, hstarts⟩ := List.forall_mem_cons.1 hstarts
    have hcount : marks.count 0 ≤ fuel := by
      have := List.count_le_length (a := 0) (l := marks)
      have := h.length
      omega
    rw [startsFrom]
    dsimp only
    by_cases hend : Ends (fun a => outputs.getD a none) start
    · have hlater : ∃ a ∈ starts, ¬Ends (fun a => outputs.getD a none) a := by
        obtain ⟨a, ha, hnot⟩ := hends
        rcases List.mem_cons.1 ha with rfl | ha
        · exact absurd hend hnot
        · exact ⟨a, ha, hnot⟩
      by_cases hzero : marks.getD start 2 = 0
      · obtain ⟨marks', visited, hloop, hwalked, -, hone'⟩ :=
          exists_loopFrom hrange hend hstart h hzero hone hfuel
        rw [if_pos hzero, hloop]
        exact ih hstarts hlater hwalked hone'
      · rw [if_neg hzero]
        exact ih hstarts hlater h hone
    · have hzero : marks.getD start 2 = 0 := by
        have := h.bound start
        have := hone start
        have htwo : marks.getD start 2 ≠ 2 := fun htwo =>
          hend (h.ends ((h.done start).2 ⟨hstart, htwo⟩))
        omega
      rw [if_pos hzero, loopFrom_of_not_ends hrange hstart hend h hzero hcount]

/-! ### The order -/

/-- In an order, a node stands before the one it feeds. -/
theorem SignalFlow.InOrder.sublist {next : ℕ → Option ℕ} {order : List ℕ}
    (h : SignalFlow.InOrder next order) {a b : ℕ} (ha : a ∈ order) (hb : next a = some b) :
    [a, b].Sublist order := by
  induction order with
  | nil => cases ha
  | cons first order ih =>
    obtain ⟨-, hnext, horder⟩ := h
    rcases List.mem_cons.1 ha with rfl | ha
    · exact (List.singleton_sublist.2 (hnext b hb)).cons_cons a
    · exact (ih horder ha).cons first

/-- A node that feeds one is there. -/
theorem lt_length_of_getD {a : ℕ} (ha : outputs.getD a none ≠ none) : a < outputs.length := by
  by_contra hout
  rw [not_lt] at hout
  rw [List.getD_eq_getElem?_getD, List.getElem?_eq_none hout] at ha
  exact ha rfl

theorem mem_of_getD_output {nodes : List GraphNode} {a b : ℕ}
    (hb : (nodes.map GraphNode.output).getD a none = some b) :
    ∃ node ∈ nodes, node.output = some b := by
  rw [List.getD_eq_getElem?_getD, List.getElem?_map] at hb
  cases hnode : nodes[a]? with
  | none => simp [hnode] at hb
  | some node => exact ⟨node, List.mem_of_getElem? hnode, by simpa [hnode] using hb⟩

/-- **Where every walk ends** the loops put every node down once, after the node it feeds. -/
theorem startsFrom_of_ends (hrange : ∀ a b, outputs.getD a none = some b → b < outputs.length)
    {fuel : ℕ} (hfuel : 2 * outputs.length < fuel)
    (hends : ∀ a, Ends (fun a => outputs.getD a none) a) :
    ∃ marks visited, startsFrom outputs fuel (List.range outputs.length)
        (List.replicate outputs.length 0, []) = some (some (marks, visited)) ∧
      visited.reverse.Perm (List.range outputs.length) ∧
      SignalFlow.InOrder (fun a => outputs.getD a none) visited.reverse := by
  obtain ⟨marks, visited, hstarts, hwalked, hmem⟩ := exists_startsFrom hrange hfuel
    (List.range outputs.length) (fun a _ => hends a) (fun a ha => List.mem_range.1 ha)
    walked_start getD_unmarked_ne
  rw [List.nil_append] at hstarts hwalked hmem
  have hinOrder := hwalked.inOrder
  refine ⟨marks, visited, hstarts, ?_, hinOrder⟩
  rw [List.perm_ext_iff_of_nodup hinOrder.nodup List.nodup_range]
  intro a
  rw [List.mem_reverse]
  exact ⟨fun ha => List.mem_range.2 ((hwalked.done a).1 ha).1, fun ha => hmem a ha⟩

/-- **What `finalise` makes of a routing.**  Within two steps for each node and one for each start
its loops have ended; it returns true exactly when there is a master and no node is come back to; and
then the order has every node once, before the node it feeds. -/
theorem finalise_order (nodes : List GraphNode)
    (hrange : ∀ node ∈ nodes, ∀ b, node.output = some b → b < nodes.length) {fuel : ℕ}
    (hfuel : 2 * nodes.length < fuel) :
    ∃ returned, finaliseWithin fuel nodes = some returned ∧ finalise nodes = returned.isSome ∧
      (returned.isSome = true ↔ (∃ node ∈ nodes, node.output = none) ∧
        ∀ a, ¬Leads (fun a => (nodes.map GraphNode.output).getD a none) a a) ∧
      ∀ order, returned = some order → order.Perm (List.range nodes.length) ∧
        ∀ a b, (nodes.map GraphNode.output).getD a none = some b → [a, b].Sublist order := by
  set outputs := nodes.map GraphNode.output with houtputs
  have hlength : outputs.length = nodes.length := List.length_map _
  have hrange' : ∀ a b, outputs.getD a none = some b → b < outputs.length := by
    intro a b hb
    obtain ⟨node, hnode, houtput⟩ := mem_of_getD_output hb
    rw [hlength]
    exact hrange node hnode b houtput
  have hmaster : outputs.any Option.isNone = true ↔ ∃ node ∈ nodes, node.output = none := by
    simp [houtputs]
  rw [← hlength] at hfuel
  by_cases hends : ∀ a, Ends (fun a => outputs.getD a none) a
  · -- every walk ends: a master is all that can be missing
    obtain ⟨marks, visited, hstarts, hperm, hinOrder⟩ := startsFrom_of_ends hrange' hfuel hends
    have hreturned : finaliseWithin fuel nodes =
        some (if outputs.any Option.isNone then some visited.reverse else none) := by
      rw [finaliseWithin, ← houtputs, hstarts]
      rfl
    obtain ⟨order, horder, -⟩ := renderOrder_spec hrange' hends
    refine ⟨_, hreturned, ?_, ?_, fun order horder => ?_⟩
    · rw [finalise_eq, ← houtputs, horder]
      split_ifs with hany <;> simp [hany]
    · rw [← hmaster, and_iff_left fun a => (hends a).not_leads_self]
      split_ifs with hany <;> simp [hany]
    · split_ifs at horder
      obtain rfl := Option.some.inj horder
      rw [← hlength]
      refine ⟨hperm, fun a b hb => hinOrder.sublist (hperm.mem_iff.2 ?_) hb⟩
      exact List.mem_range.2 (lt_length_of_getD (by rw [hb]; exact Option.some_ne_none b))
  · -- some walk comes back, and a walk from one of the starts does
    have hinside : ∀ a, outputs.getD a none ≠ none → a ∈ List.range outputs.length :=
      fun a ha => List.mem_range.2 (lt_length_of_getD ha)
    have hstart : ∃ a ∈ List.range outputs.length, ¬Ends (fun a => outputs.getD a none) a := by
      obtain ⟨a, ha⟩ := not_forall.1 hends
      exact ⟨a, hinside a fun hnone => ha (.stop hnone), ha⟩
    have hrefused := fun fuel (hfuel : 2 * outputs.length < fuel) => startsFrom_of_not_ends hrange'
      hfuel (fun a ha => List.mem_range.1 ha) hstart walked_start getD_unmarked_ne
    have hreturned : finaliseWithin fuel nodes = some none := by
      rw [finaliseWithin, ← houtputs, hrefused fuel hfuel]
      rfl
    refine ⟨none, hreturned, ?_, iff_of_false (by simp) fun h => hends fun a =>
      ends_of_not_leads_self hinside h.2 a, nofun⟩
    have hnone : renderOrder outputs = none := by
      rw [renderOrder, foldlM_of_startsFrom (hrefused _ (Nat.lt_succ_self _))]
      rfl
    rw [finalise_eq, ← houtputs, hnone]
    rfl

/-- Two tracks and the master they feed. -/
def twoTracks : List GraphNode :=
  [⟨⟨2⟩, some 2, []⟩, ⟨⟨3⟩, some 2, []⟩, ⟨⟨1⟩, none, []⟩]

theorem finalise_order_twoTracks : finalise twoTracks = true ∧ ∃ order,
    finaliseWithin 7 twoTracks = some (some order) ∧ order.Perm (List.range 3) := by
  obtain ⟨returned, hreturned, hfinalise, -, horder⟩ :=
    finalise_order twoTracks (by decide) (show 2 * twoTracks.length < 7 by decide)
  have htrue : finalise twoTracks = true := by decide
  rw [hfinalise] at htrue
  obtain ⟨order, rfl⟩ := Option.isSome_iff_exists.1 htrue
  exact ⟨hfinalise, order, hreturned, (horder order rfl).1⟩

end OneBeat
