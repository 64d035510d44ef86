import Mathlib.Algebra.Group.Hom.Basic
import Mathlib.Algebra.BigOperators.Group.List.Basic
import Mathlib.Logic.Function.Basic
import OneBeat.Lib.PartialWalk

/-!
# Signals that flow along a forest

Every node has a bus and at most one node that it feeds.  The nodes are processed in an order in
which each one comes before the node it feeds: its inserts are run on its bus in place, and what its
level lets through is added to the bus it feeds, or to the output of the whole.

* `Route next a path` : `path` leads from `a` to a node that feeds none.
* `device_flow` : what comes out is the sum, over all nodes, of what was on their buses at first,
  carried along their routes.
* `device_flow_add` : so what is added to one bus comes out carried along its route.
-/

namespace OneBeat

namespace SignalFlow

variable {ι A : Type*} [AddCommMonoid A]

/-- A path from a node to the end of its walk, both included. -/
inductive Route (next : ι → Option ι) : ι → List ι → Prop
  | last {a : ι} : next a = none → Route next a [a]
  | feeds {a b : ι} {path : List ι} : next a = some b → Route next b path → Route next a (a :: path)

/-- What the nodes do to what goes through them. -/
structure Stages (ι A : Type*) [AddCommMonoid A] where
  inserts : ι → A →+ A
  level : ι → A →+ A

/-- One node, inserts and level. -/
def Stages.stage (stages : Stages ι A) (a : ι) : A →+ A := (stages.level a).comp (stages.inserts a)

/-- All the nodes of a path, one after the other. -/
def Stages.along (stages : Stages ι A) : List ι → A →+ A
  | [] => AddMonoidHom.id A
  | a :: path => (stages.along path).comp (stages.stage a)

/-- The buses, and what comes out. -/
structure Mix (ι A : Type*) where
  buses : ι → A
  device : A

variable [DecidableEq ι] (next : ι → Option ι) (stages : Stages ι A)

/-- Process one node. -/
def process (mix : Mix ι A) (a : ι) : Mix ι A :=
  let bus := stages.inserts a (mix.buses a)
  let buses := Function.update mix.buses a bus
  match next a with
  | none => ⟨buses, mix.device + stages.level a bus⟩
  | some b => ⟨Function.update buses b (buses b + stages.level a bus), mix.device⟩

def flow (mix : Mix ι A) (order : List ι) : Mix ι A := order.foldl (process next stages) mix

/-- Each node comes before the one it feeds. -/
def InOrder : List ι → Prop
  | [] => True
  | a :: order => a ∉ order ∧ (∀ b, next a = some b → b ∈ order) ∧ InOrder order

variable {next stages}

omit [DecidableEq ι] in
theorem exists_route {a : ι} (h : Ends next a) : ∃ path, Route next a path := by
  induction h with
  | stop hnone => exact ⟨_, .last hnone⟩
  | step hb _ ih =>
    obtain ⟨path, hpath⟩ := ih
    exact ⟨_, .feeds hb hpath⟩

omit [DecidableEq ι] in
theorem Route.unique {a : ι} {path path' : List ι} (h : Route next a path)
    (h' : Route next a path') : path = path' := by
  induction h generalizing path' with
  | last hnone =>
    cases h' with
    | last _ => rfl
    | feeds hb _ => rw [hnone] at hb; cases hb
  | feeds hb _ ih =>
    cases h' with
    | last hnone => rw [hb] at hnone; cases hnone
    | feeds hc hpath =>
      obtain rfl := Option.some.inj (hb.symm.trans hc)
      rw [ih hpath]

omit [DecidableEq ι] in
/-- Walks that a renaming of the nodes keeps. -/
theorem ends_map {κ : Type*} {next' : κ → Option κ} {f : ι → κ}
    (hf : ∀ a, next' (f a) = (next a).map f) {a : ι} (h : Ends next a) : Ends next' (f a) := by
  induction h with
  | stop hnone => exact .stop (by rw [hf, hnone]; rfl)
  | step hb _ ih => exact .step (by rw [hf, hb]; rfl) ih

omit [DecidableEq ι] in
theorem Route.map {κ : Type*} {next' : κ → Option κ} {f : ι → κ}
    (hf : ∀ a, next' (f a) = (next a).map f) {a : ι} {path : List ι} (h : Route next a path) :
    Route next' (f a) (path.map f) := by
  induction h with
  | last hnone => exact .last (by rw [hf, hnone]; rfl)
  | feeds hb _ ih => exact .feeds (by rw [hf, hb]; rfl) ih

omit [DecidableEq ι] in
/-- What goes through the same stages comes out the same. -/
theorem Stages.along_map {κ : Type*} {stages' : Stages κ A} {f : ι → κ} {path : List ι}
    (h : ∀ a ∈ path, stages'.stage (f a) = stages.stage a) :
    stages'.along (path.map f) = stages.along path := by
  induction path with
  | nil => rfl
  | cons a path ih =>
    rw [List.map_cons, Stages.along, Stages.along, h a List.mem_cons_self,
      ih fun b hb => h b (List.mem_cons_of_mem _ hb)]

omit [DecidableEq ι] in
/-- Nothing goes past a node that lets nothing through. -/
theorem Stages.along_eq_zero {path : List ι} {a : ι} (ha : a ∈ path) (h : stages.level a = 0) :
    stages.along path = 0 := by
  induction path with
  | nil => cases ha
  | cons b path ih =>
    rw [Stages.along]
    rcases List.mem_cons.1 ha with rfl | ha
    · rw [Stages.stage, h, AddMonoidHom.zero_comp, AddMonoidHom.comp_zero]
    · rw [ih ha, AddMonoidHom.zero_comp]

omit [DecidableEq ι] in
theorem InOrder.nodup {order : List ι} (h : InOrder next order) : order.Nodup := by
  induction order with
  | nil => exact List.nodup_nil
  | cons a order ih => exact List.nodup_cons.2 ⟨h.1, ih h.2.2⟩

/-- The sum over a list in which one node is told apart. -/
theorem sum_map_update {order : List ι} (horder : order.Nodup) {b : ι} (hb : b ∈ order)
    (f : ι → A →+ A) (buses : ι → A) (x : A) :
    (order.map fun a => f a (Function.update buses b (buses b + x) a)).sum =
      (order.map fun a => f a (buses a)).sum + f b x := by
  induction order with
  | nil => cases hb
  | cons a order ih =>
    obtain ⟨ha, horder⟩ := List.nodup_cons.1 horder
    rw [List.map_cons, List.sum_cons, List.map_cons, List.sum_cons]
    by_cases hab : a = b
    · subst hab
      have hrest : (order.map fun c => f c (Function.update buses a (buses a + x) c)) =
          order.map fun c => f c (buses c) :=
        List.map_congr_left fun c hc => by
          rw [Function.update_of_ne (ne_of_mem_of_not_mem hc ha)]
      rw [hrest, Function.update_self, map_add, add_right_comm]
    · rw [Function.update_of_ne hab, ih horder (List.mem_of_ne_of_mem (Ne.symm hab) hb), add_assoc]

/-- Signals that are scattered over the nodes, each on one at most: the nodes together give what
each signal gives at its node. -/
theorem sum_scattered {γ : Type*} {order : List ι} (horder : order.Nodup) (f : ι → A →+ A)
    (dest : γ → Option ι) (x : γ → A) {signals : List γ}
    (hdest : ∀ c ∈ signals, ∀ a, dest c = some a → a ∈ order) :
    (order.map fun a => f a (signals.map fun c => if dest c = some a then x c else 0).sum).sum =
      (signals.map fun c => (dest c).elim 0 fun a => f a (x c)).sum := by
  induction signals with
  | nil => simp
  | cons c signals ih =>
    -- the first signal is on its own node only
    have hfirst : (order.map fun a => f a (if dest c = some a then x c else 0)).sum =
        (dest c).elim 0 fun a => f a (x c) := by
      cases hc : dest c with
      | none => simp
      | some b =>
        have hupdate := sum_map_update horder (hdest c List.mem_cons_self b hc) f (fun _ => 0) (x c)
        simp only [map_zero, List.map_const', List.sum_replicate, nsmul_zero, zero_add] at hupdate
        rw [Option.elim_some, ← hupdate]
        refine congrArg List.sum (List.map_congr_left fun a _ => congrArg (f a) ?_)
        by_cases hab : b = a
        · rw [hab, if_pos rfl, Function.update_self]
        · rw [if_neg fun h => hab (Option.some.inj h), Function.update_of_ne (Ne.symm hab)]
    rw [List.map_cons, List.sum_cons, ← hfirst,
      ← ih fun d hd => hdest d (List.mem_cons_of_mem _ hd), ← List.sum_map_add]
    simp only [List.map_cons, List.sum_cons, map_add]

/-- **What comes out is what was on the buses, carried along the routes.** -/
theorem device_flow {order : List ι} (horder : InOrder next order) {routes : ι → List ι}
    (hroutes : ∀ a ∈ order, Route next a (routes a)) (mix : Mix ι A) :
    (flow next stages mix order).device =
      mix.device + (order.map fun a => stages.along (routes a) (mix.buses a)).sum := by
  induction order generalizing mix with
  | nil => simp [flow]
  | cons a order ih =>
    obtain ⟨ha, hnext, horder⟩ := horder
    have ih := ih horder (fun b hb => hroutes b (List.mem_cons_of_mem _ hb))
      (process next stages mix a)
    have hroute := hroutes a List.mem_cons_self
    rw [flow, List.foldl_cons]
    refine Eq.trans ih ?_
    rw [List.map_cons, List.sum_cons]
    -- the nodes that are left are not the one that was processed
    have hrest : ∀ f : ι → A → A,
        (order.map fun c => f c (Function.update mix.buses a
          (stages.inserts a (mix.buses a)) c)) = order.map fun c => f c (mix.buses c) :=
      fun f => List.map_congr_left fun c hc => by rw [Function.update_of_ne (ne_of_mem_of_not_mem hc ha)]
    cases hb : next a with
    | none =>
      have hlast : routes a = [a] := hroute.unique (.last hb)
      unfold process
      rw [hb]
      dsimp only
      rw [hrest fun c => stages.along (routes c), hlast, add_assoc]
      rfl
    | some b =>
      have hmem := hnext b hb
      have hfeeds : routes a = a :: routes b :=
        hroute.unique (.feeds hb (hroutes b (List.mem_cons_of_mem _ hmem)))
      unfold process
      rw [hb]
      dsimp only
      rw [sum_map_update horder.nodup hmem, hrest fun c => stages.along (routes c), hfeeds,
        add_comm (List.sum _)]
      rfl

/-- **What is added to a bus comes out carried along its route.** -/
theorem device_flow_add {order : List ι} (horder : InOrder next order)
    (hends : ∀ a ∈ order, Ends next a) {a : ι} (ha : a ∈ order) {path : List ι}
    (hpath : Route next a path) (buses : ι → A) (device x : A) :
    (flow next stages ⟨Function.update buses a (buses a + x), device⟩ order).device =
      (flow next stages ⟨buses, device⟩ order).device + stages.along path x := by
  classical
  choose! routes hroutes using fun b (hb : b ∈ order) => exists_route (hends b hb)
  rw [device_flow horder hroutes, device_flow horder hroutes,
    sum_map_update horder.nodup ha (fun b => stages.along (routes b)), (hroutes a ha).unique hpath,
    add_assoc]

end SignalFlow

end OneBeat
