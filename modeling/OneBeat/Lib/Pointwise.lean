import Mathlib.Data.List.Forall2

/-!
# Lists that are related place by place

How `List.Forall₂` goes along with members, with composition and with images.
-/

namespace OneBeat

namespace Pointwise

variable {α β γ : Type*}

theorem exists_right {R : α → β → Prop} {as : List α} {bs : List β} (h : List.Forall₂ R as bs)
    {a : α} (ha : a ∈ as) : ∃ b ∈ bs, R a b := by
  induction h with
  | nil => cases ha
  | cons hab _ ih =>
    rcases List.mem_cons.1 ha with rfl | ha
    · exact ⟨_, List.mem_cons_self, hab⟩
    · obtain ⟨b, hb, hab⟩ := ih ha
      exact ⟨b, List.mem_cons_of_mem _ hb, hab⟩

theorem exists_left {R : α → β → Prop} {as : List α} {bs : List β}
    (h : List.Forall₂ R as bs) {b : β} (hb : b ∈ bs) : ∃ a ∈ as, R a b :=
  exists_right (R := fun b a => R a b) h.flip hb

theorem comp {R : α → β → Prop} {S : β → γ → Prop} {T : α → γ → Prop}
    (hT : ∀ a b c, R a b → S b c → T a c) {as : List α} {bs : List β} {cs : List γ}
    (h : List.Forall₂ R as bs) (h' : List.Forall₂ S bs cs) : List.Forall₂ T as cs := by
  induction h generalizing cs with
  | nil =>
    cases h'
    exact .nil
  | cons hab _ ih =>
    cases h' with
    | cons hbc hrest => exact .cons (hT _ _ _ hab hbc) (ih hrest)

theorem imp_of_mem {R S : α → β → Prop} {as : List α} {bs : List β}
    (h : List.Forall₂ R as bs) (hS : ∀ a, ∀ b ∈ bs, R a b → S a b) : List.Forall₂ S as bs := by
  induction h with
  | nil => exact .nil
  | cons hab _ ih =>
    exact .cons (hS _ _ List.mem_cons_self hab) (ih fun a b hb => hS a b (List.mem_cons_of_mem _ hb))

/-- Two lists with the same images, member by member. -/
theorem of_map_eq {f : α → γ} {g : β → γ} {R : α → β → Prop} {as : List α} {bs : List β}
    (h : as.map f = bs.map g) (hR : ∀ a ∈ as, ∀ b ∈ bs, f a = g b → R a b) :
    List.Forall₂ R as bs := by
  induction as generalizing bs with
  | nil =>
    rw [List.map_nil, eq_comm, List.map_eq_nil_iff] at h
    rw [h]
    exact .nil
  | cons a as ih =>
    cases bs with
    | nil => cases h
    | cons b bs =>
      obtain ⟨hab, hrest⟩ := List.cons_eq_cons.1 h
      exact .cons (hR a List.mem_cons_self b List.mem_cons_self hab)
        (ih hrest fun a' ha' b' hb' =>
          hR a' (List.mem_cons_of_mem _ ha') b' (List.mem_cons_of_mem _ hb'))

end Pointwise

end OneBeat
