import Mathlib.Data.List.Induction

/-!
# Transition systems that can be run

A system whose labels say everything that is open: with a label there is at most one step.  A run
is a list of labels.

* `run_append`, `run_concat` : a run of two lists is a run after a run.
* `invariant` : what holds at the start and is kept by every step holds after every run; the
  invariant may speak about the labels so far.
* `always_iff` : what every step keeps exactly under a condition holds all along a run exactly when
  all its steps meet the condition;
* `holds_iff_all_steps` : the same for what no step brings back, said of the end of the run;
* `forall_steps_of_stepsMeet` : a condition on the steps of a given run can be computed.
-/

namespace OneBeat

/-- States, labels and the step that a label stands for, if it can be taken. -/
structure TransitionSystem (S L : Type*) where
  step : S → L → Option S

namespace TransitionSystem

variable {S L : Type*} (A : TransitionSystem S L)

/-- Take the steps of the labels, one after the other. -/
def run (s : S) : List L → Option S
  | [] => some s
  | l :: ls => (A.step s l).bind fun s' => run s' ls

/-- `s` comes up in some run. -/
def Reachable (s₀ s : S) : Prop := ∃ ls, A.run s₀ ls = some s

variable {A} {s₀ s s' : S} {l : L} {ls ls' : List L}

@[simp] theorem run_nil : A.run s [] = some s := rfl

theorem run_append : A.run s (ls ++ ls') = (A.run s ls).bind fun s' => A.run s' ls' := by
  induction ls generalizing s with
  | nil => rfl
  | cons l ls ih =>
    rw [List.cons_append, run, run, Option.bind_assoc]
    refine congrArg (A.step s l).bind ?_
    funext s'
    exact ih

theorem run_concat : A.run s (ls ++ [l]) = (A.run s ls).bind fun s' => A.step s' l := by
  rw [run_append]
  refine congrArg (A.run s ls).bind ?_
  funext s'
  rw [run]
  cases A.step s' l <;> rfl

theorem run_concat_eq_some : A.run s₀ (ls ++ [l]) = some s' ↔
    ∃ s, A.run s₀ ls = some s ∧ A.step s l = some s' := by
  rw [run_concat, Option.bind_eq_some_iff]

/-- **What every step keeps holds after every run.** -/
theorem invariant {I : List L → S → Prop} (h₀ : I [] s₀)
    (hstep : ∀ ls s l s', A.run s₀ ls = some s → I ls s → A.step s l = some s' → I (ls ++ [l]) s')
    (h : A.run s₀ ls = some s) : I ls s := by
  induction ls using List.reverseRecOn generalizing s with
  | nil =>
    obtain rfl := Option.some.inj h
    exact h₀
  | append_singleton ls l ih =>
    obtain ⟨s', hrun, hs⟩ := run_concat_eq_some.1 h
    exact hstep ls s' l s hrun (ih hrun) hs

/-- **What holds all along a run**, when a step keeps it exactly under the condition `C`. -/
theorem always_iff (I : S → Prop) (C : S → L → Prop) (h₀ : I s₀)
    (hstep : ∀ ls s l s', A.run s₀ ls = some s → I s → A.step s l = some s' → (I s' ↔ C s l))
    (h : A.run s₀ ls = some s) :
    (∀ before s', before <+: ls → A.run s₀ before = some s' → I s') ↔
      ∀ before l s', before ++ [l] <+: ls → A.run s₀ before = some s' → C s' l := by
  induction ls using List.reverseRecOn generalizing s with
  | nil =>
    constructor
    · intro _ before l s' hpre
      simp at hpre
    · intro _ before s' hpre hrun
      obtain rfl := List.prefix_nil.1 hpre
      exact Option.some.inj hrun ▸ h₀
  | append_singleton ls l ih =>
    obtain ⟨t, hrun, hs⟩ := run_concat_eq_some.1 h
    constructor
    · -- the last step, and those before it
      intro hall before l' s' hpre hbefore
      have hold := (ih hrun).1 fun before s' hpre => hall before s' (hpre.trans (List.prefix_append _ _))
      rcases List.prefix_concat_iff.1 hpre with heq | hpre
      · obtain ⟨rfl, rfl⟩ := List.append_singleton_inj.1 heq
        obtain rfl := Option.some.inj (hbefore.symm.trans hrun)
        refine (hstep before s' l' s hrun ?_ hs).1 (hall _ s (List.prefix_refl _) h)
        exact hall before s' (List.prefix_append _ _) hrun
      · exact hold before l' s' hpre hbefore
    · intro hall before s' hpre hbefore
      have hold := (ih hrun).2 fun before l s' hpre =>
        hall before l s' (hpre.trans (List.prefix_append _ _))
      rcases List.prefix_concat_iff.1 hpre with rfl | hpre
      · obtain rfl := Option.some.inj (hbefore.symm.trans h)
        refine (hstep ls t l s' hrun (hold ls t (List.prefix_refl _) hrun) hs).2 ?_
        exact hall ls l t (List.prefix_refl _) hrun
      · exact hold before s' hpre hbefore

/-- **What is lost once is lost for good**: it holds in the end when every step has met the
condition. -/
theorem holds_iff_all_steps (I : S → Prop) (C : S → L → Prop) (h₀ : I s₀)
    (hstep : ∀ s l s', A.step s l = some s' → (I s' ↔ I s ∧ C s l)) (h : A.run s₀ ls = some s) :
    I s ↔ ∀ before l s', before ++ [l] <+: ls → A.run s₀ before = some s' → C s' l := by
  induction ls using List.reverseRecOn generalizing s with
  | nil =>
    obtain rfl := Option.some.inj h
    refine iff_of_true h₀ fun before l s' hpre => ?_
    simp at hpre
  | append_singleton ls l ih =>
    obtain ⟨t, hrun, hs⟩ := run_concat_eq_some.1 h
    rw [hstep t l s hs, ih hrun]
    constructor
    · rintro ⟨hbefore, hlast⟩ before l' s' hpre hrun'
      rcases List.prefix_concat_iff.1 hpre with heq | hpre
      · obtain ⟨rfl, rfl⟩ := List.append_singleton_inj.1 heq
        obtain rfl := Option.some.inj (hrun.symm.trans hrun')
        exact hlast
      · exact hbefore before l' s' hpre hrun'
    · intro hall
      exact ⟨fun before l' s' hpre => hall before l' s' (hpre.trans (List.prefix_append _ _)),
        hall ls l t (List.prefix_refl _) hrun⟩

/-- What holds of the first step and of those after it holds of all. -/
theorem forall_steps_cons {C : S → L → Prop} (hfirst : C s l)
    (hrest : ∀ s', A.step s l = some s' → ∀ before l' t, before ++ [l'] <+: ls →
      A.run s' before = some t → C t l') :
    ∀ before l' t, before ++ [l'] <+: l :: ls → A.run s before = some t → C t l' := by
  intro before l' t hpre hrun
  cases before with
  | nil =>
    obtain rfl := Option.some.inj hrun
    obtain ⟨rfl, -⟩ := List.cons_prefix_cons.1 hpre
    exact hfirst
  | cons first before =>
    obtain ⟨rfl, hprefix⟩ := List.cons_prefix_cons.1 hpre
    obtain ⟨s', hs, hrun⟩ := Option.bind_eq_some_iff.1 hrun
    exact hrest s' hs before l' t hprefix hrun

/-- The steps of a run meet a condition that can be decided. -/
def stepsMeet (A : TransitionSystem S L) (C : S → L → Prop) [∀ s l, Decidable (C s l)] :
    S → List L → Bool
  | _, [] => true
  | s, l :: ls =>
    decide (C s l) &&
      match A.step s l with
      | none => true
      | some s' => A.stepsMeet C s' ls

theorem forall_steps_of_stepsMeet {C : S → L → Prop} [∀ s l, Decidable (C s l)]
    (h : A.stepsMeet C s ls = true) :
    ∀ before l t, before ++ [l] <+: ls → A.run s before = some t → C t l := by
  induction ls generalizing s with
  | nil =>
    intro before l t hpre
    simp at hpre
  | cons first ls ih =>
    rw [stepsMeet, Bool.and_eq_true, decide_eq_true_eq] at h
    refine forall_steps_cons h.1 fun s' hs => ih ?_
    simpa only [hs] using h.2

/-- An invariant of the states alone. -/
theorem Reachable.invariant {I : S → Prop} (h₀ : I s₀)
    (hstep : ∀ s l s', I s → A.step s l = some s' → I s') (h : A.Reachable s₀ s) : I s := by
  obtain ⟨ls, hrun⟩ := h
  exact TransitionSystem.invariant (I := fun _ s => I s) h₀ (fun _ s l s' _ => hstep s l s') hrun

end TransitionSystem

end OneBeat
