import OneBeat.Core.Mixer
import OneBeat.Lib.SignalFlow

/-!
# The render order of the mixer

`MixerGraph::finalise` of `core/mixer_graph.cpp`, with the order it leaves: a depth-first walk that
puts a node down when the node it feeds is down, and then the whole list turned round.

**Main theorem** (`renderOrder_spec`): where every walk along the outputs ends, the graph is not
refused, and the order has every node once, before the node it feeds.
-/

namespace OneBeat

/-- `finaliseFrom`, with the nodes that are done in the order in which they were. -/
def orderFrom (outputs : List (Option ℕ)) :
    ℕ → List ℕ → List ℕ → List ℕ → Option (List ℕ × List ℕ)
  | 0, _, marks, reverse => some (marks, reverse)
  | _ + 1, [], marks, reverse => some (marks, reverse)
  | fuel + 1, current :: stack, marks, reverse =>
    match marks.getD current 2 with
    | 0 =>
      let marked := marks.set current 1
      match outputs.getD current none with
      | none => orderFrom outputs fuel (current :: stack) marked reverse
      | some output =>
        match marked.getD output 2 with
        -- the routing feeds itself
        | 1 => none
        | 0 => orderFrom outputs fuel (output :: current :: stack) marked reverse
        | _ => orderFrom outputs fuel (current :: stack) marked reverse
    | 1 => orderFrom outputs fuel stack (marks.set current 2) (reverse ++ [current])
    | _ => orderFrom outputs fuel stack marks reverse

/-- One turn of the loop over the starts. -/
def visitStart (outputs : List (Option ℕ)) (walked : List ℕ × List ℕ) (start : ℕ) :
    Option (List ℕ × List ℕ) :=
  if walked.1.getD start 2 = 0 then
    orderFrom outputs (2 * outputs.length + 1) [start] walked.1 walked.2
  else some walked

/-- Inputs first, the master last. -/
def renderOrder (outputs : List (Option ℕ)) : Option (List ℕ) :=
  ((List.range outputs.length).foldlM (visitStart outputs)
    (List.replicate outputs.length 0, [])).map fun walked => walked.2.reverse

/-- The loop with its end: `none` when `fuel` runs out before the stack does, `some none` when the
graph is refused. -/
def loopFrom (outputs : List (Option ℕ)) :
    ℕ → List ℕ → List ℕ → List ℕ → Option (Option (List ℕ × List ℕ))
  | _, [], marks, reverse => some (some (marks, reverse))
  | 0, _ :: _, _, _ => none
  | fuel + 1, current :: stack, marks, reverse =>
    match marks.getD current 2 with
    | 0 =>
      let marked := marks.set current 1
      match outputs.getD current none with
      | none => loopFrom outputs fuel (current :: stack) marked reverse
      | some output =>
        match marked.getD output 2 with
        | 1 => some none
        | 0 => loopFrom outputs fuel (output :: current :: stack) marked reverse
        | _ => loopFrom outputs fuel (current :: stack) marked reverse
    | 1 => loopFrom outputs fuel stack (marks.set current 2) (reverse ++ [current])
    | _ => loopFrom outputs fuel stack marks reverse

/-- The loop over the starts, with its end. -/
def startsFrom (outputs : List (Option ℕ)) (fuel : ℕ) :
    List ℕ → List ℕ × List ℕ → Option (Option (List ℕ × List ℕ))
  | [], walked => some (some walked)
  | start :: starts, walked =>
    if walked.1.getD start 2 = 0 then
      match loopFrom outputs fuel [start] walked.1 walked.2 with
      | none => none
      | some none => some none
      | some (some walked) => startsFrom outputs fuel starts walked
    else startsFrom outputs fuel starts walked

variable {outputs : List (Option ℕ)}

/-- A loop that has ended leaves what it has found. -/
theorem orderFrom_of_loopFrom {fuel : ℕ} {stack marks reverse : List ℕ}
    {found : Option (List ℕ × List ℕ)} (h : loopFrom outputs fuel stack marks reverse = some found) :
    orderFrom outputs fuel stack marks reverse = found := by
  fun_induction loopFrom outputs fuel stack marks reverse <;> simp_all +zetaDelta [orderFrom]
  rename_i fuel _ _
  cases fuel <;> exact h

theorem foldlM_of_startsFrom {starts : List ℕ} {walked : List ℕ × List ℕ}
    {found : Option (List ℕ × List ℕ)}
    (h : startsFrom outputs (2 * outputs.length + 1) starts walked = some found) :
    starts.foldlM (visitStart outputs) walked = found := by
  induction starts generalizing walked with
  | nil => exact Option.some.inj h
  | cons start starts ih =>
    rw [List.foldlM_cons, visitStart]
    rw [startsFrom] at h
    split_ifs at h ⊢ with hzero
    · cases hloop : loopFrom outputs (2 * outputs.length + 1) [start] walked.1 walked.2 with
      | none => simp [hloop] at h
      | some ended =>
        rw [hloop] at h
        rw [orderFrom_of_loopFrom hloop]
        cases ended with
        | none => exact Option.some.inj h
        | some walked => exact ih h
    · exact ih h

/-- The order does not change what is refused. -/
theorem orderFrom_map_fst (fuel : ℕ) (stack marks reverse : List ℕ) :
    (orderFrom outputs fuel stack marks reverse).map Prod.fst =
      finaliseFrom outputs fuel stack marks := by
  fun_induction orderFrom outputs fuel stack marks reverse <;>
    simp_all +zetaDelta [finaliseFrom]

theorem foldlM_visitStart (outputs : List (Option ℕ)) (starts : List ℕ) (walked : List ℕ × List ℕ) :
    (starts.foldlM (visitStart outputs) walked).map Prod.fst =
      starts.foldl (fun marks start => marks.bind fun marks =>
        if marks.getD start 2 = 0 then
          finaliseFrom outputs (2 * outputs.length + 1) [start] marks
        else some marks) (some walked.1) := by
  induction starts generalizing walked with
  | nil => rfl
  | cons start starts ih =>
    rw [List.foldlM_cons, List.foldl_cons, Option.bind_some]
    have hstep : (visitStart outputs walked start).map Prod.fst =
        if walked.1.getD start 2 = 0 then
          finaliseFrom outputs (2 * outputs.length + 1) [start] walked.1
        else some walked.1 := by
      unfold visitStart
      split_ifs
      · exact orderFrom_map_fst _ _ _ _
      · rfl
    rw [← hstep]
    cases visitStart outputs walked start with
    | none =>
      have hnone : ∀ starts : List ℕ, starts.foldl (fun marks start => marks.bind fun marks =>
          if marks.getD start 2 = 0 then
            finaliseFrom outputs (2 * outputs.length + 1) [start] marks
          else some marks) (none : Option (List ℕ)) = none := by
        intro starts
        induction starts with
        | nil => rfl
        | cons _ _ ih => exact ih
      exact (hnone starts).symm
    | some walked => exact ih walked

/-- **The graph is refused exactly when it has no order or no master.** -/
theorem finalise_eq (nodes : List GraphNode) :
    finalise nodes = ((renderOrder (nodes.map GraphNode.output)).isSome &&
      (nodes.map GraphNode.output).any Option.isNone) := by
  unfold finalise renderOrder
  dsimp only
  have hmarks := foldlM_visitStart (nodes.map GraphNode.output)
    (List.range (nodes.map GraphNode.output).length)
    (List.replicate (nodes.map GraphNode.output).length 0, [])
  dsimp only at hmarks
  rw [← hmarks, Option.isSome_map, Option.isSome_map]

/-! ### The walk -/

/-- What is done was put down once, after the node it feeds. -/
structure Walked (outputs : List (Option ℕ)) (marks reverse : List ℕ) : Prop where
  length : marks.length = outputs.length
  bound : ∀ a, marks.getD a 2 ≤ 2
  nodup : reverse.Nodup
  done : ∀ a, a ∈ reverse ↔ a < outputs.length ∧ marks.getD a 2 = 2
  later : ∀ before a after, reverse = before ++ a :: after →
    ∀ b, outputs.getD a none = some b → b ∈ before

theorem getD_set {marks : List ℕ} {a : ℕ} (ha : a < marks.length) (value b : ℕ) :
    (marks.set a value).getD b 2 = if b = a then value else marks.getD b 2 := by
  rw [List.getD_eq_getElem?_getD, List.getD_eq_getElem?_getD, List.getElem?_set]
  split_ifs with hab hba hba
  · rfl
  · exact absurd hab.symm hba
  · exact absurd hba.symm hab
  · rfl

namespace Walked

variable {marks reverse : List ℕ}

/-- A node whose output is done is put down. -/
theorem put (h : Walked outputs marks reverse) {a : ℕ} (ha : a < outputs.length)
    (hmark : marks.getD a 2 ≠ 2) (hnext : ∀ b, outputs.getD a none = some b → b ∈ reverse) :
    Walked outputs (marks.set a 2) (reverse ++ [a]) := by
  have hlength : a < marks.length := h.length ▸ ha
  refine ⟨by rw [List.length_set, h.length], fun b => ?_, ?_, fun b => ?_,
    fun before c after heq => ?_⟩
  · rw [getD_set hlength]
    split_ifs
    · exact le_refl 2
    · exact h.bound b
  · refine h.nodup.append (List.nodup_singleton a) fun b hb hba => ?_
    obtain rfl := List.mem_singleton.1 hba
    exact hmark ((h.done b).1 hb).2
  · rw [List.mem_append, List.mem_singleton, h.done, getD_set hlength]
    split_ifs with hba
    · simp [hba, ha]
    · simp [hba]
  · rcases List.eq_nil_or_concat after with rfl | ⟨after, last, rfl⟩
    · obtain ⟨rfl, hlast⟩ := List.append_inj' heq rfl
      obtain rfl := List.singleton_inj.1 hlast
      exact hnext
    · rw [List.concat_eq_append, ← List.cons_append, ← List.append_assoc] at heq
      obtain ⟨rfl, -⟩ := List.append_inj' heq rfl
      exact h.later before c after rfl

/-- A node that is marked as being on the stack. -/
theorem mark (h : Walked outputs marks reverse) {a : ℕ} (ha : a < outputs.length)
    (hmark : marks.getD a 2 = 0) : Walked outputs (marks.set a 1) reverse := by
  have hlength : a < marks.length := h.length ▸ ha
  refine ⟨by rw [List.length_set, h.length], fun b => ?_, h.nodup, fun b => ?_, h.later⟩
  · rw [getD_set hlength]
    split_ifs
    · decide
    · exact h.bound b
  rw [h.done, getD_set hlength]
  split_ifs with hba
  · rw [hba, hmark]
    exact iff_of_false (fun hmem => by cases hmem.2) fun hmem => by cases hmem.2
  · rfl

end Walked

/-- What a walk from a node leaves: it visited nodes that were not marked, the node among them. -/
structure Visited (outputs : List (Option ℕ)) (a : ℕ) (marks reverse marks' visited : List ℕ) :
    Prop where
  walked : Walked outputs marks' (reverse ++ visited)
  mem : a ∈ visited
  fresh : ∀ b ∈ visited, marks.getD b 2 = 0
  marked : ∀ b, marks'.getD b 2 = if b ∈ visited then 2 else marks.getD b 2
  run : ∀ fuel stack, loopFrom outputs (2 * visited.length + fuel) (a :: stack) marks reverse =
    loopFrom outputs fuel stack marks' (reverse ++ visited)

/-- A node on the top of the stack that is marked as being on it. -/
theorem loopFrom_pop {marks : List ℕ} {a : ℕ} (hmark : marks.getD a 2 = 1) (fuel : ℕ)
    (stack reverse : List ℕ) : loopFrom outputs (fuel + 1) (a :: stack) marks reverse =
      loopFrom outputs fuel stack (marks.set a 2) (reverse ++ [a]) := by
  rw [loopFrom, hmark]
  rfl

/-- A node whose output is done, or that feeds none. -/
theorem visited_single {marks reverse : List ℕ} (h : Walked outputs marks reverse) {a : ℕ}
    (ha : a < outputs.length) (hmark : marks.getD a 2 = 0)
    (hnext : ∀ b, outputs.getD a none = some b → b ∈ reverse)
    (hstay : ∀ fuel stack, loopFrom outputs (fuel + 1) (a :: stack) marks reverse =
      loopFrom outputs fuel (a :: stack) (marks.set a 1) reverse) :
    Visited outputs a marks reverse ((marks.set a 1).set a 2) [a] := by
  have hlength : a < marks.length := h.length ▸ ha
  have hlength' : a < (marks.set a 1).length := by rwa [List.length_set]
  have hone : (marks.set a 1).getD a 2 = 1 := by rw [getD_set hlength, if_pos rfl]
  refine ⟨(h.mark ha hmark).put ha (by rw [hone]; decide) hnext, List.mem_singleton_self a,
    fun b hb => (List.mem_singleton.1 hb) ▸ hmark, fun b => ?_, fun fuel stack => ?_⟩
  · rw [getD_set hlength', getD_set hlength]
    simp only [List.mem_singleton]
    split_ifs <;> rfl
  · rw [List.length_singleton, Nat.add_comm, hstay, loopFrom_pop hone]

/-- A node that feeds one that has not been visited: the walk goes there first. -/
theorem visited_through {marks reverse marks' visited : List ℕ} (h : Walked outputs marks reverse)
    {a b : ℕ} (ha : a < outputs.length) (hmark : marks.getD a 2 = 0)
    (hb : outputs.getD a none = some b) (hab : b ≠ a) (hzero : marks.getD b 2 = 0)
    (hvisited : Visited outputs b (marks.set a 1) reverse marks' visited) :
    Visited outputs a marks reverse (marks'.set a 2) (visited ++ [a]) := by
  have hlength : a < marks.length := h.length ▸ ha
  have hlength' : a < marks'.length := hvisited.walked.length ▸ ha
  -- the node itself is on the stack meanwhile
  have hnot : a ∉ visited := by
    intro hmem
    have := hvisited.fresh a hmem
    rw [getD_set hlength, if_pos rfl] at this
    cases this
  have hone : marks'.getD a 2 = 1 := by
    rw [hvisited.marked, if_neg hnot, getD_set hlength, if_pos rfl]
  refine ⟨?_, ?_, fun c hc => ?_, fun c => ?_, fun fuel stack => ?_⟩
  · rw [← List.append_assoc]
    refine hvisited.walked.put ha (by rw [hone]; decide) fun c hc => ?_
    obtain rfl := Option.some.inj (hb.symm.trans hc)
    exact List.mem_append_right _ hvisited.mem
  · exact List.mem_append_right _ (List.mem_singleton_self a)
  · rcases List.mem_append.1 hc with hc | hc
    · have := hvisited.fresh c hc
      rw [getD_set hlength] at this
      split_ifs at this with hca
      exact this
    · exact List.mem_singleton.1 hc ▸ hmark
  · rw [getD_set hlength', hvisited.marked, getD_set hlength]
    simp only [List.mem_append, List.mem_singleton]
    split_ifs <;> simp_all
  · have hkeep : (marks.set a 1).getD b 2 = 0 := by rw [getD_set hlength, if_neg hab, hzero]
    -- one step onto the output, its walk, and one step that puts the node down
    have hfuel : 2 * (visited ++ [a]).length + fuel = (2 * visited.length + (fuel + 1)) + 1 := by
      rw [List.length_append, List.length_singleton]
      omega
    rw [hfuel, loopFrom, hmark, hb]
    dsimp only
    rw [hkeep, ← List.append_assoc, ← loopFrom_pop hone, ← hvisited.run]
    rfl

/-- The induction is on the way from the node to the end of its walk. -/
theorem exists_visited (hrange : ∀ a b, outputs.getD a none = some b → b < outputs.length) {a : ℕ}
    (hends : Ends (fun a => outputs.getD a none) a) (ha : a < outputs.length)
    {marks reverse : List ℕ} (h : Walked outputs marks reverse) (hmark : marks.getD a 2 = 0)
    (hfree : ∀ b, Leads (fun a => outputs.getD a none) a b → marks.getD b 2 ≠ 1) :
    ∃ marks' visited, Visited outputs a marks reverse marks' visited := by
  induction hends generalizing marks with
  | @stop a hnone =>
    refine ⟨_, _, visited_single h ha hmark (fun b hb => ?_) fun fuel stack => ?_⟩
    · rw [hnone] at hb
      cases hb
    · rw [loopFrom, hmark, hnone]
      rfl
  | @step a b hb hends ih =>
    have hab : b ≠ a := by
      rintro rfl
      exact (Ends.step hb hends).not_leads_self (.single hb)
    have hlength : a < marks.length := h.length ▸ ha
    have hkeep : (marks.set a 1).getD b 2 = marks.getD b 2 := by rw [getD_set hlength, if_neg hab]
    by_cases hzero : marks.getD b 2 = 0
    · -- nothing on the stack is met again, for the walk from here ends
      have hfree' : ∀ c, Leads (fun a => outputs.getD a none) b c →
          (marks.set a 1).getD c 2 ≠ 1 := by
        intro c hc
        rw [getD_set hlength, if_neg ?_]
        · exact hfree c (.head hb hc)
        · rintro rfl
          exact (Ends.step hb hends).not_leads_self (.head hb hc)
      obtain ⟨marks', visited, hvisited⟩ :=
        ih (hrange a b hb) (h.mark ha hmark) (hkeep.trans hzero) hfree'
      exact ⟨_, _, visited_through h ha hmark hb hab hzero hvisited⟩
    · -- the output is done already
      have hone := hfree b (.single hb)
      have htwo : marks.getD b 2 = 2 := by
        have := h.bound b
        omega
      refine ⟨_, _, visited_single h ha hmark (fun c hc => ?_) fun fuel stack => ?_⟩
      · obtain rfl := Option.some.inj (hb.symm.trans hc)
        exact (h.done b).2 ⟨hrange a b hb, htwo⟩
      · rw [loopFrom, hmark, hb]
        dsimp only
        rw [hkeep, htwo]
        rfl

/-! ### The order -/

/-- A walk that ends does so within two steps for each node. -/
theorem exists_loopFrom (hrange : ∀ a b, outputs.getD a none = some b → b < outputs.length) {a : ℕ}
    (hends : Ends (fun a => outputs.getD a none) a) (ha : a < outputs.length)
    {marks reverse : List ℕ} (h : Walked outputs marks reverse) (hzero : marks.getD a 2 = 0)
    (hone : ∀ b, marks.getD b 2 ≠ 1) {fuel : ℕ} (hfuel : 2 * outputs.length < fuel) :
    ∃ marks' visited, loopFrom outputs fuel [a] marks reverse =
        some (some (marks', reverse ++ visited)) ∧
      Walked outputs marks' (reverse ++ visited) ∧ a ∈ visited ∧ ∀ b, marks'.getD b 2 ≠ 1 := by
  obtain ⟨marks', visited, hvisited⟩ := exists_visited hrange hends ha h hzero fun b _ => hone b
  have hlength : 2 * visited.length ≤ fuel := by
    have hsub : visited ⊆ List.range outputs.length := fun a ha =>
      List.mem_range.2 ((hvisited.walked.done a).1 (List.mem_append_right _ ha)).1
    have hle := ((List.nodup_append.1 hvisited.walked.nodup).2.1.subperm hsub).length_le
    rw [List.length_range] at hle
    omega
  refine ⟨marks', visited, ?_, hvisited.walked, hvisited.mem, fun b => ?_⟩
  · obtain ⟨fuel, rfl⟩ := Nat.exists_eq_add_of_le hlength
    rw [hvisited.run, loopFrom]
  · rw [hvisited.marked]
    split_ifs
    · decide
    · exact hone b

/-- All starts before have been walked from. -/
theorem exists_startsFrom
    (hrange : ∀ a b, outputs.getD a none = some b → b < outputs.length) {fuel : ℕ}
    (hfuel : 2 * outputs.length < fuel) (starts : List ℕ)
    (hends : ∀ a ∈ starts, Ends (fun a => outputs.getD a none) a)
    (hstarts : ∀ a ∈ starts, a < outputs.length) {marks reverse : List ℕ}
    (h : Walked outputs marks reverse) (hone : ∀ a, marks.getD a 2 ≠ 1) :
    ∃ marks' visited, startsFrom outputs fuel starts (marks, reverse) =
        some (some (marks', reverse ++ visited)) ∧
      Walked outputs marks' (reverse ++ visited) ∧ ∀ a ∈ starts, a ∈ reverse ++ visited := by
  induction starts generalizing marks reverse with
  | nil => exact ⟨marks, [], by rw [startsFrom, List.append_nil], by simpa using h, nofun⟩
  | cons start starts ih =>
    obtain ⟨hend, hends⟩ := List.forall_mem_cons.1 hends
    obtain ⟨hstart, hstarts⟩ := List.forall_mem_cons.1 hstarts
    rw [startsFrom]
    by_cases hzero : marks.getD start 2 = 0
    · obtain ⟨marks', visited, hloop, hwalked, hmem, hone'⟩ :=
        exists_loopFrom hrange hend hstart h hzero hone hfuel
      obtain ⟨marks'', visited', hfold, hwalked', hall⟩ := ih hends hstarts hwalked hone'
      rw [List.append_assoc] at hfold hwalked' hall
      refine ⟨marks'', visited ++ visited', ?_, hwalked', List.forall_mem_cons.2
        ⟨List.mem_append_right _ (List.mem_append_left _ hmem), hall⟩⟩
      rw [if_pos hzero, hloop]
      exact hfold
    · obtain ⟨marks', visited, hfold, hwalked, hall⟩ := ih hends hstarts h hone
      refine ⟨marks', visited, by rw [if_neg hzero, hfold], hwalked, List.forall_mem_cons.2
        ⟨List.mem_append_left _ ((h.done start).2 ⟨hstart, ?_⟩), hall⟩⟩
      have := h.bound start
      have := hone start
      omega

/-- At first nothing is marked. -/
theorem getD_unmarked (a : ℕ) : (List.replicate outputs.length 0).getD a 2 =
    if a < outputs.length then 0 else 2 := by
  rw [List.getD_eq_getElem?_getD, List.getElem?_replicate]
  split_ifs <;> rfl

theorem walked_start : Walked outputs (List.replicate outputs.length 0) [] := by
  refine ⟨List.length_replicate, fun a => ?_, List.nodup_nil, fun a => ?_,
    fun before a after heq => by simp at heq⟩
  · rw [getD_unmarked]
    split_ifs <;> decide
  · refine iff_of_false (by simp) fun ⟨ha, htwo⟩ => ?_
    rw [getD_unmarked, if_pos ha] at htwo
    cases htwo

/-- Read backwards, the outputs that came before come after. -/
theorem Walked.inOrder {marks visited : List ℕ} (h : Walked outputs marks visited) :
    SignalFlow.InOrder (fun a => outputs.getD a none) visited.reverse := by
  have hback : ∀ after before : List ℕ, visited = before ++ after →
      SignalFlow.InOrder (fun a => outputs.getD a none) before.reverse := by
    intro after before
    induction before using List.reverseRecOn generalizing after with
    | nil => exact fun _ => trivial
    | append_singleton before a ih =>
      intro heq
      rw [List.append_assoc] at heq
      rw [List.reverse_append, List.reverse_singleton]
      refine ⟨fun ha => ?_, fun b hb => ?_, ih _ heq⟩
      · have hnodup := h.nodup
        rw [heq] at hnodup
        exact List.disjoint_of_nodup_append hnodup (List.mem_reverse.1 ha) List.mem_cons_self
      · exact List.mem_reverse.2 (h.later before a after heq b hb)
  exact hback [] visited (List.append_nil _).symm

theorem getD_unmarked_ne (a : ℕ) : (List.replicate outputs.length 0).getD a 2 ≠ 1 := by
  rw [getD_unmarked]
  split_ifs <;> decide

/-- **The order has every node once, and before the node it feeds.** -/
theorem renderOrder_spec (hrange : ∀ a b, outputs.getD a none = some b → b < outputs.length)
    (hends : ∀ a, Ends (fun a => outputs.getD a none) a) :
    ∃ order, renderOrder outputs = some order ∧
      SignalFlow.InOrder (fun a => outputs.getD a none) order ∧
      ∀ a, a ∈ order ↔ a < outputs.length := by
  obtain ⟨marks, visited, hstarts, hwalked, hmem⟩ := exists_startsFrom hrange
    (Nat.lt_succ_self (2 * outputs.length)) (List.range outputs.length) (fun a _ => hends a)
    (fun a ha => List.mem_range.1 ha) walked_start getD_unmarked_ne
  rw [List.nil_append] at hstarts hwalked hmem
  refine ⟨visited.reverse, by rw [renderOrder, foldlM_of_startsFrom hstarts]; rfl,
    hwalked.inOrder, fun a => ?_⟩
  rw [List.mem_reverse]
  exact ⟨fun ha => ((hwalked.done a).1 ha).1, fun ha => hmem a (List.mem_range.2 ha)⟩

end OneBeat
