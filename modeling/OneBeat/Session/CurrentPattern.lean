import OneBeat.Session.CallRules
import OneBeat.Session.Published
import OneBeat.Session.QuietEdits

/-!
# The current pattern

Whether the pattern that is being edited exists.  The selection lives outside the history, and
`ob_engine_project_undo` and `ob_engine_project_redo` repair the selected instrument but not the
current pattern.

* `Session.Real` : if there is a pattern at all, the current one is there.
* `Session.real_call` : a call keeps this when it meets `Session.Steady`.
* `Session.real_run` : so does a run whose calls all do.
-/

namespace OneBeat

/-! ### Commands that leave the patterns alone -/

namespace Command

/-- The command neither creates nor deletes a pattern. -/
def LeavesPatterns (command : Command) : Prop :=
  command.createdPatterns = [] ∧ command.removedPatterns = []

variable {command : Command}

theorem LeavesPatterns.spares (h : command.LeavesPatterns) (id : PatternId) :
    command.Spares id := by
  unfold Spares
  rw [h.1, h.2]
  exact ⟨List.not_mem_nil, List.not_mem_nil⟩

theorem LeavesPatterns.samePatterns_apply (h : command.LeavesPatterns) (project : Tables) :
    SamePatterns project (command.apply project).state :=
  fun id => (stepSpares_apply command project).contains id (h.spares id)

theorem leavesPatterns_composite {commands : List Command}
    (h : ∀ command ∈ commands, command.LeavesPatterns) : (composite commands).LeavesPatterns := by
  induction commands with
  | nil => exact ⟨rfl, rfl⟩
  | cons command commands ih =>
    obtain ⟨hcreated, hremoved⟩ := h command List.mem_cons_self
    obtain ⟨hcreated', hremoved'⟩ := ih fun c hc => h c (List.mem_cons_of_mem _ hc)
    rw [createdPatterns] at hcreated'
    rw [removedPatterns] at hremoved'
    refine ⟨?_, ?_⟩
    · rw [createdPatterns, createdPatternsAll, hcreated, hcreated', List.append_nil]
    · rw [removedPatterns, removedPatternsAll, hremoved, hremoved', List.append_nil]

end Command

/-- What a factory builds, if anything, leaves the patterns alone. -/
def Leaves (command : Option Command) : Prop := ∀ c, command = some c → c.LeavesPatterns

section

variable (project : Tables)

theorem leaves_editInstrument (id : InstrumentId) (field : ChangeField)
    (mutator : Instrument → Instrument) : Leaves (editInstrument project id field mutator) :=
  builds_map (fun _ => ⟨rfl, rfl⟩) _

theorem leaves_editPatternMeta (id : PatternId) (field : ChangeField)
    (mutator : PatternMeta → PatternMeta) : Leaves (editPatternMeta project id field mutator) :=
  builds_map (fun _ => ⟨rfl, rfl⟩) _

theorem leaves_editLane (id : ArrangementLaneId) (field : ChangeField)
    (mutator : ArrangementLane → ArrangementLane) : Leaves (editLane project id field mutator) :=
  builds_map (fun _ => ⟨rfl, rfl⟩) _

theorem leaves_editClip (id : ClipId) (field : ChangeField) (mutator : Clip → Clip) :
    Leaves (editClip project id field mutator) :=
  builds_map (fun _ => ⟨rfl, rfl⟩) _

theorem leaves_reorderInstrument (id : InstrumentId) (order : ℤ) :
    Leaves (reorderInstrument project id order) := by
  unfold reorderInstrument
  split
  · exact builds_none
  dsimp only
  refine builds_ite builds_none (builds_some (Command.leavesPatterns_composite ?_))
  intro command hcommand
  obtain ⟨entry, -, hentry⟩ := List.mem_filterMap.1 hcommand
  exact builds_ite builds_none (leaves_editInstrument project _ _ _) command hentry

theorem leaves_addInstrument (auto : Bool) (id : InstrumentId) (track : MixerTrackId)
    (name : String) (plugin : PluginRef) :
    (addInstrument project auto id track name plugin).LeavesPatterns := by
  unfold addInstrument
  cases auto with
  | true | false => exact ⟨rfl, rfl⟩

end

/-- An entry point that executes something leaves the patterns alone. -/
def Reply.Leaves : Reply → Prop
  | .model command => OneBeat.Leaves command
  | _ => True

namespace Session

variable {s s' : Session}

theorem quietEdits_leavesPatterns (project : Tables) :
    QuietEdits Command.LeavesPatterns project where
  instrument _ _ := ⟨rfl, rfl⟩
  edit _ := ⟨rfl, rfl⟩
  effectParam _ := ⟨rfl, rfl⟩
  note _ := ⟨rfl, rfl⟩
  transport _ := ⟨rfl, rfl⟩
  addLane _ _ := ⟨rfl, rfl⟩
  addClip _ _ := ⟨rfl, rfl⟩
  removeLane _ := ⟨rfl, rfl⟩
  removeClip _ := ⟨rfl, rfl⟩
  composite := Command.leavesPatterns_composite

/-- **No edit creates or deletes a pattern.** -/
theorem leaves_reply (edit : Edit) : (s.reply edit).Leaves := by
  have hleaves : (s.reply edit).Builds Command.LeavesPatterns := by
    cases hedit : edit.restacks with
    | false => exact (quietEdits_leavesPatterns s.project).reply edit hedit
    | true =>
      cases edit with
      | instrumentReorder id order =>
        rw [reply]
        split
        · trivial
        · exact Reply.builds_ite trivial (leaves_reorderInstrument _ _ _)
      | instrumentAddEmpty => exact builds_some (leaves_addInstrument _ _ _ _ _ _)
      | _ => cases hedit
  cases hreply : s.reply edit with
  | model command => exact hreply ▸ hleaves
  | _ => trivial

/-! ### Sessions with the same patterns -/

/-- If there is a pattern at all, the current one is there. -/
def Real (s : Session) : Prop :=
  (∃ id, s.project.patterns.contains id = true) →
    ∃ id, s.currentPattern = some id ∧ s.project.patterns.contains id = true

/-- The same patterns, and the same one of them is current. -/
structure KeepsPatterns (s s' : Session) : Prop where
  current : s'.currentPattern = s.currentPattern
  same : SamePatterns s.project s'.project

theorem KeepsPatterns.refl (s : Session) : s.KeepsPatterns s := ⟨rfl, fun _ => rfl⟩

theorem KeepsPatterns.trans {s'' : Session} (h : s.KeepsPatterns s') (h' : s'.KeepsPatterns s'') :
    s.KeepsPatterns s'' :=
  ⟨h'.current.trans h.current, fun id => (h'.same id).trans (h.same id)⟩

theorem KeepsPatterns.real (h : s.KeepsPatterns s') (hs : s.Real) : s'.Real := by
  rintro ⟨id, hid⟩
  obtain ⟨current, hcurrent, hthere⟩ := hs ⟨id, (h.same id).symm.trans hid⟩
  exact ⟨current, h.current.trans hcurrent, (h.same current).trans hthere⟩

/-- The current pattern is there. -/
theorem real_of_contains {id : PatternId} (hcurrent : s.currentPattern = some id)
    (hid : s.project.patterns.contains id = true) : s.Real := fun _ => ⟨id, hcurrent, hid⟩

theorem real_of_project (hs : s.Real) (hcurrent : s'.currentPattern = s.currentPattern)
    (hproject : s'.project = s.project) : s'.Real := by
  unfold Real
  rw [hcurrent, hproject]
  exact hs

variable {host again : InstrumentId → HostAnswer}

theorem keepsPatterns_flush (s : Session) : s.KeepsPatterns s.flush := by
  obtain ⟨_, _, _, _, _, hflush⟩ := s.flush_eq
  rw [hflush]
  exact ⟨rfl, fun _ => rfl⟩

/-- A publish resizes clips and names instruments. -/
theorem keepsPatterns_publishModel (s : Session) (replaced : Bool) :
    s.KeepsPatterns (s.publishModel host replaced) := by
  have hfits : s.KeepsPatterns s.fitClipsToPatterns := by
    refine ⟨rfl, fun id => ?_⟩
    refine Tables.samePatterns_foldl _ (fun project entry project' h id => ?_) s.project id
    unfold Tables.updateClip at h
    split_ifs at h
    cases h
    rfl
  have hnames : ∀ (names : List (InstrumentId × String)) (project : Tables),
      SamePatterns project (project.nameLanes names) := fun names project id => by
    refine Tables.samePatterns_foldl _ (fun project entry project' h id => ?_) project id
    unfold Tables.updateInstrument at h
    split_ifs at h
    cases h
    rfl
  have hflush := hfits.trans (keepsPatterns_flush _)
  exact ⟨hflush.current, fun id => (hnames _ _ id).trans (hflush.same id)⟩

theorem keepsPatterns_execute (s : Session) {command : Option Command} (h : Leaves command) :
    s.KeepsPatterns (s.execute command).2 := by
  refine ⟨rfl, ?_⟩
  cases command with
  | none => exact fun _ => rfl
  | some c =>
    rw [(execute_some s c).2]
    exact (h c rfl).samePatterns_apply s.project

theorem callRule_keepsPatterns (s : Session) :
    CallRule s.KeepsPatterns fun _ command => Leaves command where
  alike h hbus _ _ hcurrent := ⟨hcurrent.trans h.current, fun id => by
    rw [Session.project, hbus]
    exact h.same id⟩
  publishModel _ h := h.trans (keepsPatterns_publishModel _ _)
  execute h hleaves := h.trans (keepsPatterns_execute _ hleaves)

theorem keepsPatterns_executeModel (host : InstrumentId → HostAnswer) (s : Session)
    {command : Option Command} (h : Leaves command) :
    s.KeepsPatterns (s.executeModel host command).2 :=
  (callRule_keepsPatterns s).executeModel (.refl s) host h

/-! ### Steps of the history -/

/-- The current pattern is there and `entry` does not touch it, or there is no pattern and `entry`
touches no other than the current one. -/
def Spared (s : Session) (entry : Command) : Prop :=
  (∃ id, s.currentPattern = some id ∧ s.project.patterns.contains id = true ∧ entry.Spares id) ∨
    ((∀ id, s.project.patterns.contains id = false) ∧
      ∀ id, ¬ entry.Spares id → s.currentPattern = some id)

/-- Taking `entry` back takes every pattern away. -/
def TakesAll (s : Session) (entry : Command) : Prop :=
  entry.removedPatterns = [] ∧ (entry.revert s.project).ok = true ∧
    ∀ id, s.project.patterns.contains id = true → id ∈ entry.createdPatterns

theorem Spared.real {entry : Command} (h : s.Spared entry)
    (hcurrent : s'.currentPattern = s.currentPattern)
    (hspares : ∀ id, entry.Spares id →
      s'.project.patterns.contains id = s.project.patterns.contains id) : s'.Real := by
  rcases h with ⟨id, hid, hthere, hspared⟩ | ⟨hnone, htouched⟩
  · exact real_of_contains (hcurrent.trans hid) ((hspares id hspared).trans hthere)
  · rintro ⟨id, hid⟩
    by_cases hspared : entry.Spares id
    · rw [hspares id hspared, hnone id] at hid
      cases hid
    · exact ⟨id, hcurrent.trans (htouched id hspared), hid⟩

/-- Taking an entry back leaves a current pattern. -/
theorem real_of_revert {entry : Command} (h : s.Spared entry ∨ s.TakesAll entry)
    (hcurrent : s'.currentPattern = s.currentPattern)
    (hproject : s'.project = (entry.revert s.project).state) : s'.Real := by
  rcases h with h | ⟨hremoved, hok, hall⟩
  · refine h.real hcurrent fun id hid => ?_
    rw [hproject]
    exact (Command.stepSpares_revert entry s.project).contains id hid
  · rintro ⟨id, hid⟩
    rw [hproject, Command.contains_revert_of_ok entry s.project hremoved hok id] at hid
    simp only [Bool.and_eq_true, decide_eq_true_eq] at hid
    exact absurd (hall id hid.2) hid.1

theorem real_undo (hs : s.Real)
    (h : ∀ entry, s.bus.undoStack.head? = some entry → s.Spared entry ∨ s.TakesAll entry) :
    s.undo.2.Real := by
  cases hstack : s.bus.undoStack with
  | nil => exact real_of_project hs rfl (undo_nil hstack).2
  | cons entry entries =>
    exact real_of_revert (h entry (by rw [hstack]; rfl)) rfl (undo_cons hstack).2

theorem real_redo (hs : s.Real)
    (h : ∀ entry, s.bus.redoStack.head? = some entry → s.Spared entry) : s.redo.2.Real := by
  cases hstack : s.bus.redoStack with
  | nil => exact real_of_project hs rfl (redo_nil hstack).2
  | cons entry entries =>
    refine (h entry (by rw [hstack]; rfl)).real rfl fun id hid => ?_
    rw [(redo_cons hstack).2]
    exact (Command.stepSpares_apply entry s.project).contains id hid

theorem real_abortTransaction (hs : s.Real)
    (h : ∀ commands, s.bus.opened.head? = some commands →
      s.Spared (.composite commands) ∨ s.TakesAll (.composite commands)) :
    s.abortTransaction.Real := by
  cases hopened : s.bus.opened with
  | nil =>
    refine real_of_project hs rfl ?_
    unfold abortTransaction CommandBus.abortTransaction project
    rw [hopened]
  | cons commands outer =>
    refine real_of_revert (h commands (by rw [hopened]; rfl)) rfl ?_
    unfold abortTransaction CommandBus.abortTransaction project
    rw [hopened]

/-! ### Transactions -/

/-- While the pattern is there, or is not, the command leaves it so; and once it is applied, taking
it back does, too. -/
def Minds (id : PatternId) (there : Bool) (build : Tables → Option Command) : Prop :=
  ∀ project c, project.patterns.contains id = there → build project = some c →
    (c.apply project).state.patterns.contains id = there ∧
      ((c.apply project).ok = true → c.Spares id)

theorem minds_of_leaves {id : PatternId} {there : Bool} {build : Tables → Option Command}
    (h : ∀ project, Leaves (build project)) : Minds id there build := by
  intro project c hthere hc
  have hleaves := h project c hc
  exact ⟨(hleaves.samePatterns_apply project id).trans hthere, fun _ => hleaves.spares id⟩

/-- A pattern that is there is not added once more. -/
theorem minds_addPattern (id copy : PatternId) (name : Tables → String) (length : ℤ) :
    Minds id true fun project => some (addPattern project copy (name project) length) := by
  intro project c hthere hc
  obtain rfl := Option.some_inj.1 hc
  by_cases hsame : id = copy
  · subst hsame
    have hrefused : ∀ pattern, project.restorePattern id pattern = none := fun pattern => by
      exact if_pos (by simp [hthere])
    simp [addPattern, Command.apply, AddedEntity.apply, AddedEntity.restore, hrefused,
      Outcome.ofOption, Outcome.map, hthere]
  · have hspares : (addPattern project copy (name project) length).Spares id :=
      ⟨by simpa [addPattern, Command.createdPatterns] using hsame, List.not_mem_nil⟩
    exact ⟨((Command.stepSpares_apply _ project).contains id hspares).trans hthere,
      fun _ => hspares⟩

/-- The pattern is there, or is not, and no command of the innermost transaction touches it. -/
def Minded (id : PatternId) (there : Bool) (outer : List (List Command)) (s : Session) : Prop :=
  s.project.patterns.contains id = there ∧
    ∃ commands, s.bus.opened = commands :: outer ∧ ∀ c ∈ commands, c.Spares id

theorem opened_execute {command : Command} {commands : List Command}
    {outer : List (List Command)} (h : s.bus.opened = commands :: outer)
    (hok : (command.apply s.project).ok = true) : (s.execute (some command)).2.bus.opened =
      (commands ++ [(command.apply s.project).command]) :: outer := by
  unfold execute CommandBus.execute CommandBus.record project at *
  dsimp only
  rw [if_pos hok]
  dsimp only
  rw [h]

theorem opened_execute_of_not_ok {command : Command} (hok : (command.apply s.project).ok = false) :
    (s.execute (some command)).2.bus.opened = s.bus.opened := by
  unfold execute CommandBus.execute project at *
  dsimp only
  rw [if_neg (by simp [hok])]

theorem Minded.execute {id : PatternId} {there : Bool} {outer : List (List Command)}
    (h : s.Minded id there outer) {build : Tables → Option Command}
    (hbuild : Minds id there build) : (s.execute (build s.project)).2.Minded id there outer := by
  obtain ⟨hthere, commands, hopened, hspare⟩ := h
  cases hc : build s.project with
  | none => exact ⟨hthere, commands, hopened, hspare⟩
  | some c =>
    obtain ⟨hafter, htouches⟩ := hbuild s.project c hthere hc
    refine ⟨(congrArg (·.patterns.contains id) (execute_some s c).2).trans hafter, ?_⟩
    cases hok : (c.apply s.project).ok with
    | false => exact ⟨commands, (opened_execute_of_not_ok hok).trans hopened, hspare⟩
    | true =>
      refine ⟨_, opened_execute hopened hok, fun c' hc' => ?_⟩
      rcases List.mem_append.1 hc' with hc' | hc'
      · exact hspare c' hc'
      · obtain rfl := List.mem_singleton.1 hc'
        have hstep := Command.stepSpares_apply c s.project
        exact (htouches hok).congr hstep.created hstep.removed

theorem Minded.executeAll {id : PatternId} {there : Bool} {outer : List (List Command)}
    {builds : List (Tables → Option Command)} (h : s.Minded id there outer)
    (hbuilds : ∀ build ∈ builds, Minds id there build) :
    (s.executeAll builds).2.Minded id there outer := by
  induction builds generalizing s with
  | nil => exact h
  | cons build builds ih =>
    have hexecuted := h.execute (hbuilds build List.mem_cons_self)
    unfold Session.executeAll
    dsimp only
    split_ifs
    · exact ih hexecuted fun build' hbuild' => hbuilds build' (List.mem_cons_of_mem _ hbuild')
    · exact hexecuted

theorem spares_composite {id : PatternId} {commands : List Command}
    (h : ∀ c ∈ commands, c.Spares id) : (Command.composite commands).Spares id := by
  induction commands with
  | nil => exact ⟨List.not_mem_nil, List.not_mem_nil⟩
  | cons c commands ih =>
    exact Command.spares_cons.2
      ⟨h c List.mem_cons_self, ih fun c' hc' => h c' (List.mem_cons_of_mem _ hc')⟩

theorem project_commitTransaction (s : Session) : s.commitTransaction.project = s.project := by
  unfold commitTransaction CommandBus.commitTransaction project
  dsimp only
  split <;> rfl

/-- **A transaction minds a pattern that all its commands mind**, whether it is taken back or
not. -/
theorem contains_transact {id : PatternId} {there : Bool}
    {builds : List (Tables → Option Command)} (hbuilds : ∀ build ∈ builds, Minds id there build)
    (hthere : s.project.patterns.contains id = there) :
    (s.transact builds).2.project.patterns.contains id = there := by
  have hbegun : s.beginTransaction.Minded id there s.bus.opened :=
    ⟨hthere, [], rfl, fun c hc => by cases hc⟩
  obtain ⟨hafter, commands, hopened, hspare⟩ := hbegun.executeAll hbuilds
  unfold transact
  dsimp only
  split_ifs
  · rw [project_commitTransaction]
    exact hafter
  · have habort : (s.beginTransaction.executeAll builds).2.abortTransaction.project =
        ((Command.composite commands).revert
          (s.beginTransaction.executeAll builds).2.project).state := by
      unfold abortTransaction CommandBus.abortTransaction project
      rw [hopened]
    rw [habort, (Command.stepSpares_revert _ _).contains id (spares_composite hspare)]
    exact hafter

theorem currentPattern_executeAll (builds : List (Tables → Option Command)) (s : Session) :
    (s.executeAll builds).2.currentPattern = s.currentPattern := by
  induction builds generalizing s with
  | nil => rfl
  | cons build builds ih =>
    unfold executeAll
    dsimp only
    split_ifs
    · exact ih _
    · rfl

theorem currentPattern_transact (builds : List (Tables → Option Command)) (s : Session) :
    (s.transact builds).2.currentPattern = s.currentPattern := by
  have h := currentPattern_executeAll builds s.beginTransaction
  unfold transact
  dsimp only
  split_ifs
  · exact h
  · exact h

/-- A transaction of commands that leave the patterns alone. -/
theorem keepsPatterns_transact {builds : List (Tables → Option Command)}
    (hbuilds : ∀ build ∈ builds, ∀ project, Leaves (build project)) (s : Session) :
    s.KeepsPatterns (s.transact builds).2 :=
  ⟨currentPattern_transact builds s, fun _ =>
    contains_transact (fun build hbuild => minds_of_leaves (hbuilds build hbuild)) rfl⟩

/-- A transaction that minds the current pattern leaves one. -/
theorem real_transact {id : PatternId} {builds : List (Tables → Option Command)}
    (hs : s.Real) (hid : s.project.patterns.contains id = true)
    (hbuilds : ∀ current, ∀ build ∈ builds, Minds current true build) :
    (s.transact builds).2.Real := by
  obtain ⟨current, hcurrent, hthere⟩ := hs ⟨id, hid⟩
  exact real_of_contains ((currentPattern_transact builds s).trans hcurrent)
    (contains_transact (hbuilds current) hthere)

/-! ### Patterns that are made -/

theorem contains_execute_addPattern {copy : PatternId} {name : String} {length : ℤ}
    (hdone : (s.execute (some (addPattern s.project copy name length))).1 = true) :
    (s.execute (some (addPattern s.project copy name length))).2.project.patterns.contains copy =
      true := by
  rw [(execute_some _ _).1] at hdone
  rw [(execute_some _ _).2]
  unfold addPattern at hdone ⊢
  simp only [Command.apply, AddedEntity.apply, AddedEntity.restore] at hdone ⊢
  generalize hrestored : s.project.restorePattern _ _ = restored at hdone ⊢
  cases restored with
  | none => cases hdone
  | some project' => exact (Tables.contains_restorePattern hrestored).trans (by simp)

theorem contains_executeAll {id : PatternId} {builds : List (Tables → Option Command)}
    (hbuilds : ∀ build ∈ builds, Minds id true build)
    (hthere : s.project.patterns.contains id = true) :
    (s.executeAll builds).2.project.patterns.contains id = true := by
  induction builds generalizing s with
  | nil => exact hthere
  | cons build builds ih =>
    have hexecuted : (s.execute (build s.project)).2.project.patterns.contains id = true := by
      cases hc : build s.project with
      | none => exact hthere
      | some c =>
        rw [(execute_some s c).2]
        exact (hbuilds build List.mem_cons_self s.project c hthere hc).1
    unfold executeAll
    dsimp only
    split_ifs
    · exact ih (fun build' hbuild' => hbuilds build' (List.mem_cons_of_mem _ hbuild')) hexecuted
    · exact hexecuted

/-- What was added is there, when all that followed went through. -/
theorem contains_executeAll_of_mem {copy : PatternId} {name : Tables → String} {length : ℤ}
    {builds : List (Tables → Option Command)}
    (hmem : (fun project => some (addPattern project copy (name project) length)) ∈ builds)
    (hbuilds : ∀ build ∈ builds, Minds copy true build)
    (hdone : (s.executeAll builds).1 = true) :
    (s.executeAll builds).2.project.patterns.contains copy = true := by
  induction builds generalizing s with
  | nil => cases hmem
  | cons build builds ih =>
    have htail : ∀ build ∈ builds, Minds copy true build :=
      fun build' hbuild' => hbuilds build' (List.mem_cons_of_mem _ hbuild')
    unfold executeAll at hdone ⊢
    dsimp only at hdone ⊢
    split_ifs at hdone ⊢ with hok
    · rcases List.mem_cons.1 hmem with rfl | hmem
      · exact contains_executeAll htail (contains_execute_addPattern hok)
      · exact ih hmem htail hdone
    · exact absurd hdone hok

theorem contains_transact_of_mem {copy : PatternId} {name : Tables → String} {length : ℤ}
    {builds : List (Tables → Option Command)}
    (hmem : (fun project => some (addPattern project copy (name project) length)) ∈ builds)
    (hbuilds : ∀ build ∈ builds, Minds copy true build)
    (hdone : (s.transact builds).1 = true) :
    (s.transact builds).2.project.patterns.contains copy = true := by
  unfold transact at hdone ⊢
  dsimp only at hdone ⊢
  split_ifs at hdone ⊢ with hok
  rw [project_commitTransaction]
  exact contains_executeAll_of_mem hmem hbuilds hok

/-- Going on with what was made: it is there, or nothing was made. -/
theorem real_continueWith {id : PatternId} {done : Bool × Session} (hfail : done.2.Real)
    (hdone : done.1 = true → done.2.project.patterns.contains id = true) :
    (continueWith host id done).2.Real := by
  unfold continueWith
  split_ifs with h
  · refine (keepsPatterns_publishModel { done.2 with currentPattern := some id } false).real ?_
    exact real_of_contains (s := { done.2 with currentPattern := some id }) rfl (hdone h)
  · exact hfail

theorem minds_clonePattern (id copy : PatternId) (source : Pattern) (name : String) :
    ∀ build ∈ clonePattern copy source name, Minds id true build := by
  intro build hbuild
  unfold clonePattern at hbuild
  rcases List.mem_append.1 hbuild with hbuild | hbuild
  · rcases List.mem_pair.1 hbuild with rfl | rfl
    · exact minds_addPattern id copy (fun _ => name) source.length
    · exact minds_of_leaves fun project => leaves_editPatternMeta project _ _ _
  · obtain ⟨entry, -, rfl⟩ := List.mem_map.1 hbuild
    exact minds_of_leaves fun project => builds_some ⟨rfl, rfl⟩

theorem mem_clonePattern (copy : PatternId) (source : Pattern) (name : String) :
    (fun project => some (addPattern project copy name source.length)) ∈
      clonePattern copy source name :=
  List.mem_append_left _ List.mem_cons_self

/-! ### Taking back what failed -/

/-- The entry that an undo would take back does not touch the current pattern. -/
def TopSpared (s : Session) : Prop :=
  ∀ entry, s.bus.undoStack.head? = some entry → s.Spared entry

theorem KeepsPatterns.spared (h : s.KeepsPatterns s') {entry : Command} (hs : s.Spared entry) :
    s'.Spared entry := by
  rcases hs with ⟨id, hcurrent, hthere, hspares⟩ | ⟨hnone, htouched⟩
  · exact .inl ⟨id, h.current.trans hcurrent, (h.same id).trans hthere, hspares⟩
  · exact .inr ⟨fun id => (h.same id).trans (hnone id),
      fun id hid => h.current.trans (htouched id hid)⟩

theorem spared_of_leaves (hs : s.Real) {entry : Command} (h : entry.LeavesPatterns) :
    s.Spared entry := by
  by_cases hsome : ∃ id, s.project.patterns.contains id = true
  · obtain ⟨id, hcurrent, hthere⟩ := hs hsome
    exact .inl ⟨id, hcurrent, hthere, h.spares id⟩
  · push Not at hsome
    exact .inr ⟨fun id => Bool.eq_false_of_not_eq_true (hsome id),
      fun id hid => absurd (h.spares id) hid⟩

/-- Only commands that leave the patterns alone are merged. -/
theorem leaves_coalesceWith {entry next merged : Command}
    (h : entry.coalesceWith next = some merged) : merged.LeavesPatterns := by
  unfold Command.coalesceWith at h
  split at h
  · exact builds_map (fun _ => ⟨rfl, rfl⟩) _ merged h
  · exact builds_map (fun _ => ⟨rfl, rfl⟩) _ merged h
  · exact builds_map (fun _ => ⟨rfl, rfl⟩) _ merged h
  · exact builds_some ⟨rfl, rfl⟩ merged h
  · cases h

/-- What is recorded comes on top, or into the gesture that is open. -/
theorem head_undoStack_record {command : Command} {bus : CommandBus}
    (hleaves : command.LeavesPatterns) (entry : Command)
    (h : (bus.record command).undoStack.head? = some entry) :
    entry.LeavesPatterns ∨ bus.opened ≠ [] ∧ bus.undoStack.head? = some entry := by
  unfold CommandBus.record at h
  split at h
  next hopened => exact .inr ⟨by simp [hopened], h⟩
  next hopened =>
    left
    split at h
    · obtain rfl := Option.some_inj.1 h
      exact hleaves
    · split at h
      next merged hmerged =>
        obtain rfl := Option.some_inj.1 h
        split_ifs at hmerged
        exact leaves_coalesceWith hmerged
      · obtain rfl := Option.some_inj.1 h
        exact hleaves

theorem undoStack_publishModel (s : Session) (replaced : Bool) :
    (s.publishModel host replaced).bus.undoStack = s.bus.undoStack := by
  obtain ⟨_, _, _, _, _, hflush⟩ := s.fitClipsToPatterns.flush_eq
  unfold publishModel
  rw [hflush]
  rfl

/-- Outside a gesture an undo takes back what was just executed. -/
theorem topSpared_executeModel (host : InstrumentId → HostAnswer) (hs : s.Real)
    {command : Option Command} (hleaves : Leaves command)
    (hdone : (s.executeModel host command).1 = true) (h : s.bus.opened = [] ∨ s.TopSpared) :
    (s.executeModel host command).2.TopSpared := by
  have hkeeps := keepsPatterns_executeModel host s hleaves
  intro entry hentry
  cases command with
  | none => cases hdone
  | some c =>
    have hok : (s.execute (some c)).1 = true := by
      unfold executeModel at hdone
      dsimp only at hdone
      split_ifs at hdone with hok
      · exact hok
      · exact absurd hdone hok
    unfold executeModel at hentry
    dsimp only at hentry
    rw [if_pos hok, undoStack_publishModel] at hentry
    have happlied : (c.apply s.project).ok = true := (execute_some s c).1.symm.trans hok
    have hrecorded : (s.execute (some c)).2.bus =
        { s.bus with project := (c.apply s.project).state }.record
          (c.apply s.project).command := by
      unfold execute CommandBus.execute project at *
      dsimp only
      rw [if_pos happlied]
    rw [hrecorded] at hentry
    have hstep := Command.stepSpares_apply c s.project
    rcases head_undoStack_record ⟨hstep.created.trans (hleaves c rfl).1,
      hstep.removed.trans (hleaves c rfl).2⟩ entry hentry with hentry | ⟨hopened, htop⟩
    · exact spared_of_leaves (hkeeps.real hs) hentry
    · exact hkeeps.spared (h.resolve_left hopened entry htop)

theorem real_takeBack (hs : s.Real) (h : s.TopSpared) : (s.takeBack again).Real :=
  (keepsPatterns_publishModel s.undo.2 false).real
    (real_undo hs fun entry hentry => .inl (h entry hentry))

/-! ### Call by call -/

/-- **What a call must meet.**  A step of the history must not take the current pattern away, nor
bring one when there is none; a plug-in that fails to load inside a gesture is such a step. -/
def Steady (s : Session) : Call → Prop
  | .projectUndo _ => ∀ entry, s.bus.undoStack.head? = some entry →
      s.Spared entry ∨ s.TakesAll entry
  | .projectRedo _ => ∀ entry, s.bus.redoStack.head? = some entry → s.Spared entry
  | .rackGestureAbort _ => ∀ commands, s.bus.opened.head? = some commands →
      s.Spared (.composite commands) ∨ s.TakesAll (.composite commands)
  | .instrumentReplace id plugin host again =>
    (s.bus.opened = [] ∨ s.TopSpared) ∨ (s.instrumentReplace host again id plugin).1 = true
  | .instanceAdd id track plugin host again =>
    (s.bus.opened = [] ∨ s.TopSpared) ∨ (s.instanceAdd host again id track plugin).1 = true
  | _ => True

theorem real_instrumentReplace (hs : s.Real) (id : InstrumentId) (plugin : PluginRef)
    (h : s.Steady (.instrumentReplace id plugin host again)) :
    (s.instrumentReplace host again id plugin).2.Real := by
  have hleaves : Leaves (replaceInstrument s.project id plugin) := leaves_editInstrument _ _ _ _
  have hreplaced := (keepsPatterns_executeModel host s hleaves).real hs
  have htop := topSpared_executeModel host hs hleaves
  unfold Steady at h
  unfold instrumentReplace at h ⊢
  dsimp only at h ⊢
  split_ifs at h ⊢ with hfailed
  · exact hreplaced
  · exact hreplaced
  · exact real_takeBack hreplaced (htop (by simpa using hfailed) (by simpa using h))

theorem real_instanceAdd (hs : s.Real) (id : InstrumentId) (track : MixerTrackId)
    (plugin : PluginRef) (h : s.Steady (.instanceAdd id track plugin host again)) :
    (s.instanceAdd host again id track plugin).2.Real := by
  have hleaves : Leaves (some (addInstrumentNamed s.project true id track plugin)) :=
    builds_some (leaves_addInstrument _ _ _ _ _ _)
  have hadded := (keepsPatterns_executeModel host s hleaves).real hs
  have htop := topSpared_executeModel host hs hleaves
  unfold Steady at h
  unfold instanceAdd at h ⊢
  dsimp only at h ⊢
  split_ifs at h ⊢ with hfailed
  · exact hadded
  · split at h
    · exact hadded
    · split_ifs at h ⊢
      · exact hadded
      · exact real_takeBack hadded (htop (by simpa using hfailed) (by simpa using h))

theorem real_projectUndo (hs : s.Real) (h : s.Steady (.projectUndo host)) :
    (s.projectUndo host).2.Real := by
  have hundone := real_undo hs h
  unfold projectUndo
  dsimp only
  split_ifs
  · exact hundone
  · exact (((callRule_keepsPatterns _).repairSelection (.refl _)).trans
      (keepsPatterns_publishModel _ _)).real hundone

theorem real_projectRedo (hs : s.Real) (h : s.Steady (.projectRedo host)) :
    (s.projectRedo host).2.Real := by
  have hredone := real_redo hs h
  unfold projectRedo
  dsimp only
  split_ifs
  · exact hredone
  · exact (((callRule_keepsPatterns _).repairSelection (.refl _)).trans
      (keepsPatterns_publishModel _ _)).real hredone

/-- What is selected is there. -/
theorem real_selectPattern {id : PatternId} (h : s.project.patterns.contains id = true) :
    ({ s with currentPattern := some id }.publishModel host).Real :=
  (keepsPatterns_publishModel { s with currentPattern := some id } false).real
    (real_of_contains (s := { s with currentPattern := some id }) rfl h)

theorem real_patternCreate (hs : s.Real) (id : PatternId) (name : String) :
    (s.patternCreate host id name).2.Real := by
  unfold patternCreate continueWith
  generalize (if name = "" then derivedPatternName s.project "Pattern" else name) = name
  split_ifs with hdone
  · exact real_selectPattern (contains_execute_addPattern hdone)
  · refine real_of_project hs rfl ?_
    rw [(execute_some _ _).2]
    rw [(execute_some _ _).1] at hdone
    exact Command.state_apply_of_not_ok rfl (Bool.eq_false_of_not_eq_true hdone)

theorem real_patternSelect (hs : s.Real) (id : PatternId) : (s.patternSelect host id).2.Real := by
  unfold patternSelect
  split_ifs with hmissing
  · exact hs
  · exact real_selectPattern (by simpa using hmissing)

theorem real_patternPreviewStart (hs : s.Real) (id : PatternId) :
    (s.patternPreviewStart host id).2.Real := by
  unfold patternPreviewStart
  split_ifs with hmissing
  · exact hs
  · have hthere : s.project.patterns.contains id = true := by simpa using hmissing
    exact (keepsPatterns_publishModel _ _).real (real_of_contains rfl hthere)

theorem real_patternPreviewChannelStart (hs : s.Real) (id : PatternId)
    (instrument : InstrumentId) : (s.patternPreviewChannelStart host id instrument).2.Real := by
  unfold patternPreviewChannelStart
  split_ifs with hmissing
  · exact hs
  · rw [not_or] at hmissing
    have hthere : s.project.patterns.contains id = true := by simpa using hmissing.1
    exact (keepsPatterns_publishModel _ _).real (real_of_contains rfl hthere)

/-- A pattern that is left is in the list that is shown. -/
theorem exists_head_orderedPatterns {project : Tables}
    (h : ∃ id, project.patterns.contains id = true) :
    ∃ id, (orderedPatterns project).head?.map Prod.fst = some id ∧
      project.patterns.contains id = true := by
  obtain ⟨id, hid⟩ := h
  obtain ⟨pattern, hget⟩ := OrderedMap.contains_eq_true_iff.1 hid
  have hperm : (orderedPatterns project).Perm project.patterns.entries :=
    List.perm_insertionSort _ _
  have hmem := hperm.mem_iff.2 (OrderedMap.get?_eq_some_iff.1 hget)
  cases hordered : orderedPatterns project with
  | nil =>
    rw [hordered] at hmem
    cases hmem
  | cons first rest =>
    refine ⟨first.1, rfl, OrderedMap.contains_eq_true_iff.2 ⟨first.2, ?_⟩⟩
    refine OrderedMap.get?_eq_some_iff.2 (hperm.mem_iff.1 ?_)
    rw [hordered]
    exact List.mem_cons_self

/-- Deleting a pattern leaves the selection and the other patterns alone. -/
theorem executeModel_removePattern (host : InstrumentId → HostAnswer) (s : Session)
    (id : PatternId) :
    let removed := (s.executeModel host (some (OneBeat.removePattern id))).2
    removed.currentPattern = s.currentPattern ∧ ∀ k, k ≠ id →
      removed.project.patterns.contains k = s.project.patterns.contains k := by
  have hothers : ∀ k, k ≠ id →
      (s.execute (some (OneBeat.removePattern id))).2.project.patterns.contains k =
        s.project.patterns.contains k := by
    intro k hk
    rw [(execute_some _ _).2]
    exact (Command.stepSpares_apply _ _).contains k
      ⟨List.not_mem_nil, by simpa [OneBeat.removePattern, Command.removedPatterns] using hk⟩
  unfold executeModel
  dsimp only
  split_ifs
  · have hkeeps : KeepsPatterns _ ((s.execute
        (some (OneBeat.removePattern id))).2.publishModel host) := keepsPatterns_publishModel _ _
    exact ⟨hkeeps.current, fun k hk => (hkeeps.same k).trans (hothers k hk)⟩
  · exact ⟨rfl, hothers⟩

/-- A command by itself that fails does nothing. -/
theorem project_executeModel_of_not_done {command : Command}
    (hsingle : command.isComposite = false)
    (h : ¬ (s.executeModel host (some command)).1 = true) :
    (s.executeModel host (some command)).2.project = s.project := by
  unfold executeModel at h ⊢
  dsimp only at h ⊢
  split_ifs at h ⊢ with hok
  · exact absurd rfl h
  · rw [(execute_some _ _).1] at hok
    rw [(execute_some _ _).2]
    exact Command.state_apply_of_not_ok hsingle (Bool.eq_false_of_not_eq_true hok)

/-- The selection lands on the first pattern that is left. -/
theorem real_patternRemove (hs : s.Real) (id : PatternId) :
    (s.patternRemove host again id).2.Real := by
  obtain ⟨hcurrent, hothers⟩ := executeModel_removePattern host s id
  unfold patternRemove
  split_ifs with hrefused
  · exact hs
  simp only [not_or, Bool.not_eq_true', Bool.not_eq_false] at hrefused
  dsimp only
  split_ifs with hfailed hselected
  · refine real_of_project hs hcurrent ?_
    exact project_executeModel_of_not_done rfl (by simpa using hfailed)
  · refine (keepsPatterns_publishModel _ _).real fun hsome => ?_
    obtain ⟨first, hhead, hthere⟩ := exists_head_orderedPatterns hsome
    exact ⟨first, (congrArg (Option.or · _) hhead).trans rfl, hthere⟩
  · obtain ⟨current, hcurrent', hthere⟩ := hs ⟨id, hrefused.1⟩
    have hne : current ≠ id := by
      rintro rfl
      exact hselected (hcurrent.trans hcurrent')
    exact real_of_contains (hcurrent.trans hcurrent') ((hothers current hne).trans hthere)

theorem real_patternDuplicate (hs : s.Real) (copy id : PatternId) :
    (s.patternDuplicate host copy id).2.Real := by
  unfold patternDuplicate
  split
  · exact hs
  next source hsource =>
    have hthere := OrderedMap.contains_eq_true_iff.2 ⟨source, hsource⟩
    exact real_continueWith
      (real_transact hs hthere fun current => minds_clonePattern current copy source _)
      (contains_transact_of_mem (mem_clonePattern copy source _)
        (minds_clonePattern copy copy source _))

theorem keepsPatterns_patternReorder (s : Session) (id : PatternId) (order : ℤ) :
    s.KeepsPatterns (s.patternReorder host id order).2 := by
  unfold patternReorder
  split
  · exact .refl s
  dsimp only
  split
  · split
    · exact .refl s
    · refine (callRule_keepsPatterns s).published
        (keepsPatterns_transact (fun build hbuild project => ?_) s)
      obtain ⟨entry, -, rfl⟩ := List.mem_map.1 hbuild
      exact leaves_editPatternMeta project _ _ _
  · exact .refl s

theorem keepsPatterns_clipDuplicate (s : Session) (copy id : ClipId)
    (lane : Option ArrangementLaneId) (start : ℤ) :
    s.KeepsPatterns (s.clipDuplicate host copy id lane start).2 := by
  unfold clipDuplicate
  split
  · exact .refl s
  dsimp only
  split
  · exact .refl s
  · refine (callRule_keepsPatterns s).published
        (keepsPatterns_transact (fun build hbuild project => ?_) s)
    rcases List.mem_pair.1 hbuild with rfl | rfl
    · exact builds_some ⟨rfl, rfl⟩
    · exact leaves_editClip project _ _ _

theorem real_clipsMakeUnique (hs : s.Real) (copy : PatternId) (ids : List ClipId) :
    (s.clipsMakeUnique host copy ids).2.Real := by
  unfold clipsMakeUnique
  split
  · exact hs
  next source hsource =>
    obtain ⟨shared, -, hget⟩ := Option.bind_eq_some_iff.1 hsource
    have hthere := OrderedMap.contains_eq_true_iff.2 ⟨source, hget⟩
    have hbuilds : ∀ k, ∀ build ∈ clonePattern copy source
        (derivedPatternName s.project source.name) ++ ids.map fun id project =>
          editClip project id .source fun clip => { clip with source := .pattern copy },
        Minds k true build := by
      intro k build hbuild
      rcases List.mem_append.1 hbuild with hbuild | hbuild
      · exact minds_clonePattern k copy source _ build hbuild
      · obtain ⟨id, -, rfl⟩ := List.mem_map.1 hbuild
        exact minds_of_leaves fun project => leaves_editClip project _ _ _
    exact real_continueWith (real_transact hs hthere hbuilds)
      (contains_transact_of_mem (List.mem_append_left _ (mem_clonePattern copy source _))
        (hbuilds copy))

theorem minds_splitChannel (k : PatternId) (ids : SplitIds) (pattern : Pattern) (original : Clip)
    (sourceOrder : ℤ) (entry : (InstrumentId × NoteSequence) × ℕ) :
    ∀ build ∈ s.splitChannel ids pattern original sourceOrder entry, Minds k true build := by
  intro build hbuild
  unfold splitChannel at hbuild
  dsimp only at hbuild
  rcases List.mem_append.1 hbuild with hbuild | hbuild
  · rcases List.mem_append.1 hbuild with hbuild | hbuild
    · simp only [List.mem_cons, List.not_mem_nil, or_false] at hbuild
      rcases hbuild with rfl | rfl | rfl
      · exact minds_addPattern k _ (fun project => uniquePatternName project _) _
      · exact minds_of_leaves fun project => leaves_editPatternMeta project _ _ _
      · exact minds_of_leaves fun _ => builds_some ⟨rfl, rfl⟩
    · split_ifs at hbuild
      · cases hbuild
      · rcases List.mem_pair.1 hbuild with rfl | rfl
        · exact minds_of_leaves fun _ => builds_some ⟨rfl, rfl⟩
        · exact minds_of_leaves fun project => leaves_editLane project _ _ _
  · rcases List.mem_pair.1 hbuild with rfl | rfl
    · exact minds_of_leaves fun _ => builds_some ⟨rfl, rfl⟩
    · exact minds_of_leaves fun project => leaves_editClip project _ _ _

/-- The first channel gets the first of the new patterns. -/
theorem exists_mem_splitChannel (ids : SplitIds) (pattern : Pattern) (original : Clip)
    (sourceOrder : ℤ) {channels : List (InstrumentId × NoteSequence)}
    (h : ¬ channels.length < 2) : ∃ (name : Tables → String) (length : ℤ),
      (fun project => some (addPattern project (ids.pattern 0) (name project) length)) ∈
        channels.zipIdx.flatMap (s.splitChannel ids pattern original sourceOrder) := by
  cases channels with
  | nil => simp at h
  | cons channel channels =>
    have hfirst : ∃ (name : Tables → String) (length : ℤ),
        (fun project => some (addPattern project (ids.pattern 0) (name project) length)) ∈
          s.splitChannel ids pattern original sourceOrder (channel, 0) := by
      have hhead : ∀ {α : Type} {a : α} {as bs cs : List α}, a ∈ (a :: as) ++ bs ++ cs :=
        List.mem_append_left _ (List.mem_append_left _ List.mem_cons_self)
      exact ⟨fun project => uniquePatternName project _, patternEffectiveLength pattern, hhead⟩
    obtain ⟨name, length, hmem⟩ := hfirst
    exact ⟨name, length, List.mem_flatMap.2 ⟨(channel, 0), by simp, hmem⟩⟩

theorem real_clipSplitByChannel (hs : s.Real) (ids : SplitIds) (id : ClipId) :
    (s.clipSplitByChannel host ids id).2.Real := by
  unfold clipSplitByChannel
  split
  · exact hs
  next original horiginal =>
  split
  · exact hs
  next pattern hpattern =>
    dsimp only
    split_ifs with hfew
    · exact hs
    · obtain ⟨shared, -, hget⟩ := Option.bind_eq_some_iff.1 hpattern
      have hthere := OrderedMap.contains_eq_true_iff.2 ⟨pattern, hget⟩
      obtain ⟨name, length, hmem⟩ := exists_mem_splitChannel (s := s) ids pattern original
        (((s.project.lanes.get? original.lane).map ArrangementLane.order).getD 0) hfew
      refine real_continueWith (real_transact hs hthere ?hminds)
        (contains_transact_of_mem
          (List.mem_append_left _ (List.mem_append_right _ hmem)) (?hminds _))
      intro k build hbuild
      rcases List.mem_append.1 hbuild with hbuild | hbuild
      · rcases List.mem_append.1 hbuild with hbuild | hbuild
        · obtain ⟨entry, -, rfl⟩ := List.mem_map.1 hbuild
          exact minds_of_leaves fun project => leaves_editLane project _ _ _
        · obtain ⟨entry, -, hentry⟩ := List.mem_flatMap.1 hbuild
          exact minds_splitChannel k ids pattern original _ entry build hentry
      · obtain rfl := List.mem_singleton.1 hbuild
        exact minds_of_leaves fun _ => builds_some ⟨rfl, rfl⟩

/-! ### Projects -/

theorem contains_freshProject (ids : FreshIds) :
    (freshProject ids).patterns.contains ids.pattern = true := by
  simp [freshProject, OrderedMap.contains]

theorem real_projectOpen (hs : s.Real) (loaded : Option Tables) :
    (s.projectOpen host loaded).2.Real := by
  unfold projectOpen
  cases loaded with
  | none => exact real_of_project hs rfl rfl
  | some project =>
    refine (keepsPatterns_publishModel _ _).real ?_
    rintro ⟨id, hid⟩
    have hmem : id ∈ project.patterns.keys :=
      OrderedMap.mem_keys.2 (OrderedMap.contains_eq_true_iff.1 hid)
    obtain ⟨first, hfirst⟩ := Option.isSome_iff_exists.1
      (List.isSome_head?.2 (List.ne_nil_of_mem hmem))
    exact ⟨first, hfirst, OrderedMap.contains_eq_true_iff.2
      (OrderedMap.mem_keys.1 (List.mem_of_head? hfirst))⟩

theorem keepsPatterns_projectSave (s : Session) (states : List (InstrumentId × String × String)) :
    s.KeepsPatterns (s.projectSave states).2 := by
  refine ⟨rfl, fun id => ?_⟩
  refine Tables.samePatterns_foldl states (fun project entry project' h id => ?_) s.project id
  unfold Tables.updateInstrument at h
  split_ifs at h
  cases h
  rfl

theorem keepsPatterns_projectSetName (s : Session) (name : String) :
    s.KeepsPatterns (s.projectSetName name).2 := by
  unfold projectSetName
  split_ifs
  · exact .refl s
  · exact .refl s
  · have hleaves : Leaves (some (setProjectMeta s.project { s.project.metadata with name })) :=
      builds_some ⟨rfl, rfl⟩
    have h := keepsPatterns_execute s hleaves
    exact ⟨h.current, h.same⟩

theorem real_edit (hs : s.Real) (edit : Edit) : (s.edit host edit).2.Real := by
  have hleaves := leaves_reply (s := s) edit
  unfold Session.edit
  cases hreply : s.reply edit with
  | refused | done => exact hs
  | model command =>
    rw [hreply] at hleaves
    exact (keepsPatterns_executeModel host s hleaves).real hs

/-! ### Every call -/

/-- **A call that meets the condition leaves a current pattern.** -/
theorem real_call (hs : s.Real) (call : Call) (h : s.Steady call) : (s.call call).2.Real := by
  cases call with
  | edit edit host => exact real_edit hs edit
  | instrumentSelect id =>
    exact ((callRule_keepsPatterns s).instrumentSelect (.refl s) id).real hs
  | instrumentReplace id plugin host again => exact real_instrumentReplace hs id plugin h
  | instrumentReplaceSample id name path host =>
    have hreplaced := keepsPatterns_executeModel host s
      (leaves_editInstrument s.project id .plugin fun instrument =>
        { instrument with plugin := samplePlugin name path })
    exact ((callRule_keepsPatterns s).instrumentReplaceSample hreplaced).real hs
  | instrumentDuplicate track copy id host =>
    have hleaves : Leaves (duplicateInstrument s.project track copy id) :=
      builds_map (fun _ => ⟨rfl, rfl⟩) _
    exact ((callRule_keepsPatterns s).instrumentDuplicate
      (keepsPatterns_executeModel host s hleaves)).real hs
  | instrumentRemove id host =>
    have hleaves : Leaves (some (OneBeat.removeInstrument id)) := builds_some ⟨rfl, rfl⟩
    exact ((callRule_keepsPatterns s).instrumentRemove (.refl s) fun left hleft _ =>
      (callRule_keepsPatterns s).executeModel hleft host hleaves).real hs
  | instrumentAddSample id track name path host =>
    exact ((callRule_keepsPatterns s).instrumentAddSample (keepsPatterns_executeModel host s
      (builds_some (leaves_addInstrument s.project true id track name _)))).real hs
  | instanceAdd id track plugin host again => exact real_instanceAdd hs id track plugin h
  | instanceRemove host =>
    exact ((callRule_keepsPatterns s).instanceRemove (.refl s) fun id =>
      keepsPatterns_executeModel host s (builds_some ⟨rfl, rfl⟩)).real hs
  | projectUndo host => exact real_projectUndo hs h
  | projectRedo host => exact real_projectRedo hs h
  | rackSetRowGrid id grid | rackGestureBegin => exact of_ite (P := Real) hs hs
  | rackSetLength steps host =>
    exact ((callRule_keepsPatterns s).rackSetLength (.refl s) steps
      (fun _ _ _ => leaves_editClip _ _ _ _) fun _ _ _ => leaves_editPatternMeta _ _ _ _).real hs
  | rackGestureCommit host =>
    have hcommitted : s.commitTransaction.Real :=
      real_of_project hs rfl (project_commitTransaction s)
    exact of_ite (P := Real) hs ((keepsPatterns_publishModel _ _).real hcommitted)
  | rackGestureAbort host =>
    have haborted : s.abortTransaction.Real := real_abortTransaction hs h
    exact of_ite (P := Real) hs ((keepsPatterns_publishModel _ _).real haborted)
  | patternSelect id host => exact real_patternSelect hs id
  | patternPreviewStart id host => exact real_patternPreviewStart hs id
  | patternPreviewChannelStart id instrument host =>
    exact real_patternPreviewChannelStart hs id instrument
  | patternPreviewStop host =>
    have hstopped : Real { s with
        patternPreview := false, previewInstrument := none, dirty := true } :=
      real_of_project hs rfl rfl
    exact of_ite (P := Real) ((keepsPatterns_publishModel _ _).real hstopped) hs
  | patternCreate id name host => exact real_patternCreate hs id name
  | patternDuplicate copy id host => exact real_patternDuplicate hs copy id
  | patternRemove id host again => exact real_patternRemove hs id
  | patternReorder id order host => exact (keepsPatterns_patternReorder s id order).real hs
  | clipDuplicate copy id lane start host =>
    exact (keepsPatterns_clipDuplicate s copy id lane start).real hs
  | clipsMakeUnique copy ids host => exact real_clipsMakeUnique hs copy ids
  | clipSplitByChannel ids id host => exact real_clipSplitByChannel hs ids id
  | projectNew ids host =>
    exact (keepsPatterns_publishModel _ _).real (real_of_contains rfl (contains_freshProject ids))
  | projectOpen loaded host => exact real_projectOpen hs loaded
  | projectSave states => exact (keepsPatterns_projectSave s states).real hs
  | projectSetName name => exact (keepsPatterns_projectSetName s name).real hs

theorem real_create (ids : FreshIds) (sampleRate : Double) : (create host ids sampleRate).Real :=
  (keepsPatterns_publishModel _ _).real (real_of_contains rfl (contains_freshProject ids))

/-- **There is a current pattern in every state of a run** whose calls meet the condition. -/
theorem real_run {ids : FreshIds} {sampleRate : Double} {calls : List Call}
    (hrun : system.run (create host ids sampleRate) calls = some s)
    (hsteady : ∀ before call s', before ++ [call] <+: calls →
      system.run (create host ids sampleRate) before = some s' → s'.Steady call) : s.Real := by
  induction calls using List.reverseRecOn generalizing s with
  | nil =>
    obtain rfl := Option.some_inj.1 hrun
    exact real_create ids sampleRate
  | append_singleton calls call ih =>
    obtain ⟨t, hbefore, hstep⟩ := TransitionSystem.run_concat_eq_some.1 hrun
    obtain rfl := Option.some_inj.1 hstep
    have ht := ih hbefore fun before call s' hpre =>
      hsteady before call s' (hpre.trans (List.prefix_append _ _))
    exact real_call ht call (hsteady calls call t (List.prefix_refl _) hbefore)

/-! ### A pattern that was undone -/

/-- Create a pattern, and take that back. -/
def createThenUndo : List Call := [.patternCreate ⟨4⟩ "" noPlugins, .projectUndo noPlugins]

/-- The pattern that was created is gone and still current. -/
theorem not_real_createThenUndo : ∃ s,
    system.run (create noPlugins smallIds (.finite 48000)) createThenUndo = some s ∧
      ¬ s.Real := by
  refine ⟨_, rfl, fun h => ?_⟩
  obtain ⟨id, hcurrent, hthere⟩ := h ⟨⟨2⟩, by decide +kernel⟩
  obtain rfl : id = ⟨4⟩ := by
    refine Option.some_inj.1 (hcurrent.symm.trans ?_)
    decide +kernel
  revert hthere
  decide +kernel

/-- Create a lane, and take that back. -/
def laneThenUndo : List Call := [.edit (.laneCreate ⟨5⟩ "") noPlugins, .projectUndo noPlugins]

/-- The history step there touches no pattern. -/
theorem real_run_laneThenUndo : ∃ s,
    system.run (create noPlugins smallIds (.finite 48000)) laneThenUndo = some s ∧ s.Real := by
  refine ⟨_, rfl, real_run (rfl : system.run (create noPlugins smallIds (.finite 48000))
    laneThenUndo = some _) fun before call s' hpre hbefore => ?_⟩
  change before ++ [call] <+: [.edit (.laneCreate ⟨5⟩ "") noPlugins] ++ _ at hpre
  rcases List.prefix_concat_iff.1 hpre with heq | hpre
  · obtain ⟨rfl, rfl⟩ := List.append_singleton_inj.1 heq
    obtain rfl := Option.some_inj.1 hbefore
    intro entry hentry
    have hcreated : some [] = some entry.createdPatterns :=
      Eq.trans (by decide +kernel) (congrArg (Option.map Command.createdPatterns) hentry)
    have hremoved : some [] = some entry.removedPatterns :=
      Eq.trans (by decide +kernel) (congrArg (Option.map Command.removedPatterns) hentry)
    have hleaves : entry.LeavesPatterns :=
      ⟨(Option.some_inj.1 hcreated).symm, (Option.some_inj.1 hremoved).symm⟩
    exact .inl (.inl ⟨⟨2⟩, by decide +kernel, by decide +kernel, hleaves.spares _⟩)
  · change before ++ [call] <+: [] ++ _ at hpre
    obtain ⟨-, rfl⟩ := List.append_singleton_inj.1
      ((List.prefix_concat_iff.1 hpre).resolve_right (by simp))
    trivial

end Session

end OneBeat
