import Mathlib.Data.List.Perm.Subperm
import Mathlib.Logic.Relation

/-!
# Walking along a partial function

Every node has at most one successor, so a walk either ends or comes back.

* `Ends next a` : the walk from `a` comes to a node without a successor; `Leads next a b` : it comes
  to `b`, after one step or more.
* `walk_eq_false_iff` : a walk that remembers where it was tells the two apart, with one step for
  each node that has a successor.
* `Ends.redirect`, `Leads.redirect` : taking out a node and sending its predecessors to `m` keeps all
  walks finite exactly when the walk from `m` does not come to the node.
-/

namespace OneBeat

variable {α : Type*} {next next' : α → Option α} {a b : α}

/-- The walk from `a` comes to an end. -/
inductive Ends (next : α → Option α) : α → Prop
  | stop {a : α} : next a = none → Ends next a
  | step {a b : α} : next a = some b → Ends next b → Ends next a

/-- The walk from `a` comes to `b`, and not just by standing there. -/
def Leads (next : α → Option α) : α → α → Prop := Relation.TransGen fun a b => next a = some b

/-- A walk that ends does not come back. -/
theorem Ends.not_leads_self (h : Ends next a) : ¬Leads next a a := by
  induction h with
  | stop hnone =>
    intro hloop
    obtain ⟨b, hb, -⟩ := Relation.TransGen.head'_iff.1 hloop
    rw [hnone] at hb
    cases hb
  | @step a b hb _ ih =>
    intro hloop
    obtain ⟨c, hc, hback⟩ := Relation.TransGen.head'_iff.1 hloop
    obtain rfl : b = c := Option.some.inj (hb.symm.trans hc)
    exact ih (Relation.TransGen.tail' hback hb)

/-- A walk that comes to where walks end does too. -/
theorem Leads.ends (h : Leads next a b) (hb : Ends next b) : Ends next a := by
  induction h using Relation.TransGen.head_induction_on with
  | single hab => exact .step hab hb
  | head hac _ ih => exact .step hac ih

/-- A walk that ends has a last node. -/
theorem Ends.exists_last (h : Ends next a) : ∃ b, next b = none ∧ (b = a ∨ Leads next a b) := by
  induction h with
  | stop hnone => exact ⟨_, hnone, .inl rfl⟩
  | step hb _ ih =>
    obtain ⟨c, hc, rfl | hlead⟩ := ih
    · exact ⟨c, hc, .inr (.single hb)⟩
    · exact ⟨c, hc, .inr (.head hb hlead)⟩

/-- Of finitely many nodes, where none is come back to, every walk ends. -/
theorem ends_of_not_leads_self {nodes : List α} (hnodes : ∀ a, next a ≠ none → a ∈ nodes)
    (hback : ∀ a, ¬Leads next a a) (a : α) : Ends next a := by
  have hall : ∀ fuel (seen : List α) a, seen.Nodup → seen ⊆ nodes → (∀ s ∈ seen, Leads next s a) →
      nodes.length < fuel + seen.length → Ends next a := by
    intro fuel
    induction fuel with
    | zero =>
      intro seen a hnodup hsub _ hfuel
      have := (hnodup.subperm hsub).length_le
      omega
    | succ fuel ih =>
      intro seen a hnodup hsub hleads hfuel
      cases hb : next a with
      | none => exact .stop hb
      | some b =>
        have ha : a ∉ seen := fun hmem => hback a (hleads a hmem)
        refine .step hb (ih (a :: seen) b (List.nodup_cons.2 ⟨ha, hnodup⟩)
          (List.cons_subset.2 ⟨hnodes a (by simp [hb]), hsub⟩)
          (List.forall_mem_cons.2 ⟨.single hb, fun s hs => (hleads s hs).tail hb⟩) ?_)
        rw [List.length_cons]
        omega
  exact hall (nodes.length + 1) [] a List.nodup_nil (List.nil_subset _) nofun (by simp)

section Walk

variable [DecidableEq α]

/-- Walk from `a`, at most `fuel` steps; `true` when the walk comes back to where it was. -/
def walk (next : α → Option α) : ℕ → List α → α → Bool
  | 0, _, _ => false
  | fuel + 1, seen, a =>
    match next a with
    | none => false
    | some b => if a ∈ seen then true else walk next fuel (a :: seen) b

theorem walk_of_ends (h : Ends next a) (fuel : ℕ) {seen : List α}
    (hseen : ∀ s ∈ seen, Leads next s a) : walk next fuel seen a = false := by
  induction h generalizing fuel seen with
  | stop hnone =>
    cases fuel with
    | zero => rfl
    | succ fuel => rw [walk, hnone]
  | @step a b hb hends ih =>
    cases fuel with
    | zero => rfl
    | succ fuel =>
      have hnot : a ∉ seen := fun ha => (Ends.step hb hends).not_leads_self (hseen a ha)
      rw [walk, hb]
      dsimp only
      rw [if_neg hnot]
      refine ih fuel fun s hs => ?_
      rcases List.mem_cons.1 hs with rfl | hs
      · exact .single hb
      · exact (hseen s hs).tail hb

/-- With more steps than nodes a walk that does not come back has ended. -/
theorem ends_of_walk {nodes : List α} (hnodes : ∀ a, next a ≠ none → a ∈ nodes) {fuel : ℕ}
    {seen : List α} (hnodup : seen.Nodup) (hsub : seen ⊆ nodes)
    (hfuel : nodes.length < fuel + seen.length) (h : walk next fuel seen a = false) :
    Ends next a := by
  induction fuel generalizing seen a with
  | zero =>
    have := (hnodup.subperm hsub).length_le
    omega
  | succ fuel ih =>
    rw [walk] at h
    cases hb : next a with
    | none => exact .stop hb
    | some b =>
      rw [hb] at h
      dsimp only at h
      split_ifs at h with ha
      refine .step hb (ih (List.nodup_cons.2 ⟨ha, hnodup⟩) ?_ ?_ h)
      · exact List.cons_subset.2 ⟨hnodes a (by simp [hb]), hsub⟩
      · rw [List.length_cons]
        omega

/-- **A walk tells whether it ends.** -/
theorem walk_eq_false_iff {nodes : List α} (hnodes : ∀ a, next a ≠ none → a ∈ nodes)
    (hb : next a = some b) : walk next (nodes.length + 1) [a] b = false ↔ Ends next a := by
  constructor
  · intro h
    refine .step hb (ends_of_walk hnodes (by simp : [a].Nodup) ?_ ?_ h)
    · exact List.cons_subset.2 ⟨hnodes a (by simp [hb]), List.nil_subset _⟩
    · simp only [List.length_singleton]
      omega
  · intro h
    cases h with
    | stop hnone => rw [hnone] at hb; cases hb
    | step hc hends =>
      obtain rfl : b = _ := Option.some.inj (hb.symm.trans hc)
      exact walk_of_ends hends _ fun s hs => List.mem_singleton.1 hs ▸ .single hb

/-! ### Cutting a walk that does not end -/

/-- What a node that is on no finite walk leads to is of no matter to the finite ones. -/
theorem Ends.update {x : α} (hx : ¬Ends next x) (v : Option α) (h : Ends next a) :
    Ends (Function.update next x v) a := by
  induction h with
  | @stop a hnone =>
    have ha : a ≠ x := fun h => hx (h ▸ .stop hnone)
    exact .stop (by rw [Function.update_of_ne ha, hnone])
  | @step a b hb hends ih =>
    have ha : a ≠ x := fun h => hx (h ▸ .step hb hends)
    exact .step (by rw [Function.update_of_ne ha, hb]) ih

/-- Sent to a node whose walk ends, its own walk does. -/
theorem ends_update_self {x m : α} (hx : ¬Ends next x) (hm : Ends next m) :
    Ends (Function.update next x (some m)) x :=
  .step (Function.update_self ..) (hm.update hx _)

/-! ### Redirection -/

variable {x m : α}
  (hnext : ∀ a, next' a = if a = x then none else if next a = some x then some m else next a)

include hnext

/-- A walk that avoids the node that is taken out stays what it was. -/
theorem Ends.of_avoids (h : Ends next a) (hx : ¬Leads next a x) : Ends next' a := by
  induction h with
  | @stop a hnone =>
    refine .stop ?_
    rw [hnext, hnone]
    simp
  | @step a b hb hends ih =>
    by_cases ha : a = x
    · exact .stop (by rw [hnext, if_pos ha])
    · have hne : next a ≠ some x := fun h => hx (.single h)
      refine .step (b := b) (by rw [hnext, if_neg ha, if_neg hne, hb]) (ih fun h => hx ?_)
      exact Relation.TransGen.head hb h

/-- **All walks still end when the walk from `m` avoids the node that is taken out.** -/
theorem Ends.redirect (hm : Ends next m) (hx : ¬Leads next m x) (h : Ends next a) :
    Ends next' a := by
  induction h with
  | @stop a hnone =>
    refine .stop ?_
    rw [hnext, hnone]
    simp
  | @step a b hb hends ih =>
    by_cases ha : a = x
    · exact .stop (by rw [hnext, if_pos ha])
    · by_cases hax : next a = some x
      · exact .step (by rw [hnext, if_neg ha, if_pos hax]) (hm.of_avoids hnext hx)
      · exact .step (by rw [hnext, if_neg ha, if_neg hax, hb]) ih

/-- A walk that came to the node comes to `m` now. -/
theorem Leads.redirect (h : Leads next a x) (ha : a ≠ x) : Leads next' a m := by
  induction h using Relation.TransGen.head_induction_on with
  | @single a hax => exact .single (by rw [hnext, if_neg ha, if_pos hax])
  | @head a b hb hbx ih =>
    by_cases hbx' : b = x
    · exact .single (by rw [hnext, if_neg ha, if_pos (hbx' ▸ hb)])
    · refine Relation.TransGen.head ?_ (ih hbx')
      rw [hnext, if_neg ha, if_neg (by rw [hb]; simpa using hbx'), hb]

/-- **And when it does not, one walk is closed.** -/
theorem not_ends_redirect (hm : Leads next m x) (hne : m ≠ x) : ¬Ends next' m :=
  fun h => h.not_leads_self (hm.redirect hnext hne)

end Walk

end OneBeat
