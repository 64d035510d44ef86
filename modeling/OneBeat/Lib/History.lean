import Mathlib.Data.List.Basic
import Mathlib.Logic.Relation

/-!
# Undo histories of stateful commands

A command is applied to a state and reverted on one, and either step may rewrite what the command
remembers (`Outcome`).  Whether redoing after undoing is exact is therefore a property of a
command *and* the two states it links:

* `History.Undone apply revert e s s'` : applying `e` to `s` gives `s'`, and from then on reverting
  and applying go back and forth between the two states;
* `History.Done apply revert e s s'` : reverting `e` on `s'` gives `s`, and leaves a command that
  is `Undone` between them.

`History.Past` and `History.Future` are stacks of such commands, and `History.Chain` a list of
them applied one after the other, in each case between states that satisfy an invariant.  Undo
moves the top of a past onto a future (`History.Past.undo`), redo moves it back
(`History.Future.redo`), and undo followed by redo returns the state (`History.Past.redo_undo`).
-/

namespace OneBeat

/-- What a step of a command gives: success, the command with what it remembers now, and the
state. -/
structure Outcome (σ E : Type*) where
  /-- The step made sense. -/
  ok : Bool
  /-- The command after the step. -/
  command : E
  /-- The state after the step. -/
  state : σ

namespace Outcome

/-- The same step, its command packed into another type. -/
def map {σ E E' : Type*} (f : E → E') (r : Outcome σ E) : Outcome σ E' :=
  ⟨r.ok, f r.command, r.state⟩

@[simp] theorem map_ok {σ E E' : Type*} (f : E → E') (r : Outcome σ E) : (r.map f).ok = r.ok := rfl

@[simp] theorem map_mk {σ E E' : Type*} (f : E → E') (ok : Bool) (e : E) (s : σ) :
    (Outcome.mk ok e s).map f = ⟨ok, f e, s⟩ := rfl

theorem map_eq_ok_iff {σ E E' : Type*} {f : E → E'} {r : Outcome σ E} {e' : E'} {s : σ} :
    r.map f = ⟨true, e', s⟩ ↔ ∃ e, r = ⟨true, e, s⟩ ∧ f e = e' := by
  obtain ⟨ok, e, t⟩ := r
  constructor
  · intro h
    obtain ⟨rfl, rfl, rfl⟩ := Outcome.mk.inj h
    exact ⟨e, rfl, rfl⟩
  · rintro ⟨e₁, h, rfl⟩
    rw [h, map_mk]

end Outcome

namespace History

variable {σ E : Type*} (apply revert : E → σ → Outcome σ E)

/-- `e` stands between `s` and `s'` and has been taken back. -/
def Undone (e : E) (s s' : σ) : Prop :=
  ∃ e₂ e₃, apply e s = ⟨true, e₂, s'⟩ ∧ revert e₂ s' = ⟨true, e₃, s⟩ ∧ apply e₃ s = ⟨true, e₂, s'⟩

/-- `e` stands between `s` and `s'` and has taken effect. -/
def Done (e : E) (s s' : σ) : Prop :=
  ∃ e₁, revert e s' = ⟨true, e₁, s⟩ ∧ Undone apply revert e₁ s s'

variable (inv : σ → Prop)

/-- A stack of commands that have taken effect, the last one on top, and the state after it. -/
inductive Past : List E → σ → Prop
  | nil {s : σ} : inv s → Past [] s
  | cons {e : E} {es : List E} {s s' : σ} :
      Done apply revert e s s' → inv s' → Past es s → Past (e :: es) s'

/-- A stack of commands that have been taken back, the next one on top, and the state before it. -/
inductive Future : List E → σ → Prop
  | nil (s : σ) : Future [] s
  | cons {e : E} {es : List E} {s s' : σ} :
      Undone apply revert e s s' → inv s' → Future es s' → Future (e :: es) s

/-- The next `n` commands that have been taken back lead to a state. -/
inductive Ahead (goal : σ) : ℕ → List E → σ → Prop
  | here {es} : Ahead goal 0 es goal
  | next {n e es s s'} : Undone apply revert e s s' → Ahead goal n es s' →
      Ahead goal (n + 1) (e :: es) s

/-- Commands that took effect one after the other, the first one first. -/
inductive Chain : List E → σ → σ → Prop
  | nil (s : σ) : Chain [] s s
  | cons {e : E} {es : List E} {s s' s'' : σ} :
      Done apply revert e s s' → inv s' → Chain es s' s'' → Chain (e :: es) s s''

variable {inv}

variable {apply revert}

/-- Reverting and re-applying once more settles nothing new: what has been redone is done. -/
theorem Undone.redo {e : E} {s s' : σ} (h : Undone apply revert e s s') :
    ∃ e', apply e s = ⟨true, e', s'⟩ ∧ Done apply revert e' s s' := by
  obtain ⟨e₂, e₃, h₁, h₂, h₃⟩ := h
  exact ⟨e₂, h₁, e₃, h₂, e₂, e₃, h₃, h₂, h₃⟩

theorem Done.undo {e : E} {s s' : σ} (h : Done apply revert e s s') :
    ∃ e', revert e s' = ⟨true, e', s⟩ ∧ Undone apply revert e' s s' := h

/-- A command whose revert and apply are inverse to each other as they stand. -/
theorem Done.of_inverse {e e₁ : E} {s s' : σ} (h₁ : revert e s' = ⟨true, e₁, s⟩)
    (h₂ : apply e₁ s = ⟨true, e, s'⟩) : Done apply revert e s s' :=
  ⟨e₁, h₁, e, e₁, h₂, h₁, h₂⟩

/-- A command that neither direction rewrites. -/
theorem Done.of_unchanged {e : E} {s s' : σ} (h₁ : revert e s' = ⟨true, e, s⟩)
    (h₂ : apply e s = ⟨true, e, s'⟩) : Done apply revert e s s' :=
  .of_inverse h₁ h₂

/-- A command packed into another type. -/
theorem Done.map {E' : Type*} {apply' revert' : E' → σ → Outcome σ E'} {f : E → E'}
    (happly : ∀ e s, apply' (f e) s = (apply e s).map f)
    (hrevert : ∀ e s, revert' (f e) s = (revert e s).map f) {e : E} {s s' : σ}
    (h : Done apply revert e s s') : Done apply' revert' (f e) s s' := by
  obtain ⟨e₁, h₁, e₂, e₃, h₂, h₃, h₄⟩ := h
  refine ⟨f e₁, ?_, f e₂, f e₃, ?_, ?_, ?_⟩
  · rw [hrevert, h₁]; rfl
  · rw [happly, h₂]; rfl
  · rw [hrevert, h₃]; rfl
  · rw [happly, h₄]; rfl

/-- A command packed into another type, unpacked. -/
theorem Done.of_map {E' : Type*} {apply' revert' : E' → σ → Outcome σ E'} {f : E → E'}
    (hf : Function.Injective f)
    (happly : ∀ e s, apply' (f e) s = (apply e s).map f)
    (hrevert : ∀ e s, revert' (f e) s = (revert e s).map f) {e : E} {s s' : σ}
    (h : Done apply' revert' (f e) s s') : Done apply revert e s s' := by
  obtain ⟨e₁', h₁, e₂', e₃', h₂, h₃, h₄⟩ := h
  rw [hrevert] at h₁
  obtain ⟨e₁, g₁, rfl⟩ := Outcome.map_eq_ok_iff.1 h₁
  rw [happly] at h₂
  obtain ⟨e₂, g₂, rfl⟩ := Outcome.map_eq_ok_iff.1 h₂
  rw [hrevert] at h₃
  obtain ⟨e₃, g₃, rfl⟩ := Outcome.map_eq_ok_iff.1 h₃
  rw [happly] at h₄
  obtain ⟨e₄, g₄, heq⟩ := Outcome.map_eq_ok_iff.1 h₄
  obtain rfl := hf heq
  exact ⟨e₁, g₁, e₄, e₃, g₂, g₃, g₄⟩

theorem Past.undo {e : E} {es : List E} {s' : σ} (h : Past apply revert inv (e :: es) s') :
    ∃ e' s, revert e s' = ⟨true, e', s⟩ ∧ Undone apply revert e' s s' ∧
      Past apply revert inv es s := by
  cases h with
  | cons hd _ hp =>
    obtain ⟨e', h₁, h₂⟩ := hd
    exact ⟨e', _, h₁, h₂, hp⟩

theorem Future.redo {e : E} {es : List E} {s : σ} (h : Future apply revert inv (e :: es) s) :
    ∃ e' s', apply e s = ⟨true, e', s'⟩ ∧ Done apply revert e' s s' ∧ inv s' ∧
      Future apply revert inv es s' := by
  cases h with
  | cons hu hs hf =>
    obtain ⟨e', h₁, h₂⟩ := hu.redo
    exact ⟨e', _, h₁, h₂, hs, hf⟩

/-- **Undo followed by redo returns the state.** -/
theorem Past.redo_undo {e : E} {es : List E} {s' : σ}
    (h : Past apply revert inv (e :: es) s') :
    ∃ e₁ e₂ s, revert e s' = ⟨true, e₁, s⟩ ∧ apply e₁ s = ⟨true, e₂, s'⟩ := by
  obtain ⟨e₁, s, h₁, h₂, -⟩ := h.undo
  obtain ⟨e₂, h₃, -⟩ := h₂.redo
  exact ⟨e₁, e₂, s, h₁, h₃⟩

theorem Chain.append {es es' : List E} {s s' s'' : σ} (h : Chain apply revert inv es s s')
    (h' : Chain apply revert inv es' s' s'') : Chain apply revert inv (es ++ es') s s'' := by
  induction h with
  | nil => exact h'
  | cons hd hs _ ih => exact .cons hd hs (ih h')

theorem Chain.singleton {e : E} {s s' : σ} (h : Done apply revert e s s') (hs : inv s') :
    Chain apply revert inv [e] s s' :=
  .cons h hs (.nil s')

/-- A chain leads from states that satisfy the invariant to states that do. -/
theorem Chain.holds {es : List E} {s s' : σ} (h : Chain apply revert inv es s s') (hs : inv s) :
    inv s' := by
  induction h with
  | nil => exact hs
  | cons _ hs' _ ih => exact ih hs'

theorem Chain.of_append {es es' : List E} {s s'' : σ}
    (h : Chain apply revert inv (es ++ es') s s'') :
    ∃ s', Chain apply revert inv es s s' ∧ Chain apply revert inv es' s' s'' := by
  induction es generalizing s with
  | nil => exact ⟨s, .nil s, h⟩
  | cons e es ih =>
    cases h with
    | cons hd hs h =>
      obtain ⟨s', h₁, h₂⟩ := ih h
      exact ⟨s', .cons hd hs h₁, h₂⟩

/-- A past is a chain, read from where it started. -/
theorem past_iff {es : List E} {s' : σ} : Past apply revert inv es s' ↔
    ∃ s, inv s ∧ Chain apply revert inv es.reverse s s' := by
  constructor
  · intro h
    induction h with
    | nil hs => exact ⟨_, hs, .nil _⟩
    | cons hd hs' _ ih =>
      obtain ⟨s, hs, hchain⟩ := ih
      refine ⟨s, hs, ?_⟩
      rw [List.reverse_cons]
      exact hchain.append (.singleton hd hs')
  · rintro ⟨s, hs, hchain⟩
    induction es generalizing s' with
    | nil =>
      cases hchain
      exact .nil hs
    | cons e es ih =>
      rw [List.reverse_cons] at hchain
      obtain ⟨t, hbefore, hlast⟩ := hchain.of_append
      cases hlast with
      | cons hd hs' hnil =>
        cases hnil
        exact .cons hd hs' (ih hbefore)

end History

end OneBeat
