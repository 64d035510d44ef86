import OneBeat.Session.Published

/-!
# The project store

`features/project/project_store.dart`: new, open, save, save as and rename, over the engine's
project and the bundles on disk.

An engine call succeeds, or fails without effect and says why; which it does is open (`Answers`), as
is what the machine finds when it starts or loads a project.

* `ProjectStore.changesNothing_iff` : a failed action changes nothing, unless it had already given
  the project another name.
-/

namespace OneBeat

/-- `ProjectOutcome` -/
inductive ProjectOutcome
  | done
  | cancelled
  | failed
  deriving DecidableEq

structure ProjectResult where
  outcome : ProjectOutcome
  message : String := ""

namespace ProjectResult

def done (message : String) : ProjectResult := ⟨.done, message⟩

def cancelled : ProjectResult := ⟨.cancelled, ""⟩

def failed (message : String) : ProjectResult := ⟨.failed, message⟩

end ProjectResult

/-- What is answered to the calls of an action: why each fails, if it does, and what the machine
finds where one succeeds. -/
structure Answers where
  newProject : Option String := none
  setProjectName : Option String := none
  saveProject : Option String := none
  openProject : Option String := none
  delete : Option String := none
  host : InstrumentId → HostAnswer
  ids : FreshIds
  /-- The references of the states that a save writes. -/
  states : List (InstrumentId × String × String) := []
  /-- What the loader makes of the bundle that is opened. -/
  loaded : Tables

/-- The store, the engine under it and the disk. -/
structure ProjectStore where
  session : Session
  path : String := ""
  savedHash : UInt64
  modified : Bool := false
  message : String := ""
  bundles : String → Option Tables

/-! ### Names and paths -/

namespace ProjectText

def projectExtension : String := "obt"

/-- White space, as `trim` knows it. -/
def isWhitespace (c : Char) : Bool :=
  let code := c.toNat
  (0x9 ≤ code && code ≤ 0xD) || (0x2000 ≤ code && code ≤ 0x200A) ||
    [0x20, 0x85, 0xA0, 0x1680, 0x2028, 0x2029, 0x202F, 0x205F, 0x3000, 0xFEFF].contains code

def trim (text : String) : String :=
  .ofList ((text.toList.dropWhile isWhitespace).reverse.dropWhile isWhitespace).reverse

/-- `_fileName` -/
def fileName (path : String) : String :=
  .ofList (path.toList.reverse.takeWhile (· ≠ '/')).reverse

/-- `_parentOf` -/
def parentOf (path : String) : String :=
  match path.toList.reverse.dropWhile (· ≠ '/') with
  | [] | [_] => "/"
  | _ :: front => .ofList front.reverse

/-- `_projectNameOf` -/
def projectNameOf (path : String) : String :=
  let file := (fileName path).toList
  let ending := ("." ++ projectExtension).toList
  if ending.isSuffixOf file then .ofList (file.take (file.length - ending.length)) else .ofList file

/-- Why a name cannot be a project's. -/
def validateName (candidate : String) : Option String :=
  let trimmed := (trim candidate).toList
  if trimmed.isEmpty then some "A project needs a name."
  else if trimmed.contains '/' || trimmed.contains ':' then
    some "A project name cannot contain “/” or “:”."
  else if trimmed.head? = some '.' then some "A project name cannot start with a dot."
  else none

end ProjectText

open ProjectText

namespace ProjectStore

variable (projectHash : Tables → UInt64) (answers : Answers) (s : ProjectStore)

def name : String := s.session.project.metadata.name

/-- `isProjectModified` -/
def isProjectModified : Bool := projectHash s.session.project ≠ s.savedHash

/-- `_report` -/
def report (result : ProjectResult) : ProjectResult × ProjectStore :=
  (result, { s with message := result.message })

/-- `_write` -/
def write (destination : String) : ProjectResult × ProjectStore :=
  match answers.saveProject with
  | some error =>
    (.failed ("The project could not be saved to “" ++ fileName destination ++ "”. " ++ error), s)
  | none =>
    let session := (s.session.projectSave answers.states).2
    (.done ("Saved “" ++ fileName destination ++ "”."),
      { s with
        session
        path := destination
        savedHash := projectHash session.project
        modified := false
        bundles := Function.update s.bundles destination (some session.project) })

/-- The engine takes a name, or says why not. -/
def setProjectName (name : String) : Option String × ProjectStore :=
  match answers.setProjectName with
  | some error => (some error, s)
  | none => (none, { s with session := (s.session.projectSetName name).2 })

/-! ### The actions -/

def newProject : ProjectResult × ProjectStore :=
  match answers.newProject with
  | some error => s.report (.failed ("The new project could not be created. " ++ error))
  | none =>
    let session := (s.session.projectNew answers.host answers.ids).2
    { s with
      session
      path := ""
      savedHash := projectHash session.project
      modified := false }.report (.done "Started a new project.")

/-- The name that was chosen is taken where it can be; keeping the old one is no failure. -/
def saveAs (destination : Option String) : ProjectResult × ProjectStore :=
  match destination with
  | none => s.report .cancelled
  | some destination =>
    let chosen := projectNameOf destination
    let named := if chosen ≠ "" ∧ chosen ≠ s.name then (s.setProjectName answers chosen).2 else s
    let written := named.write projectHash answers destination
    written.2.report written.1

def save (destination : Option String) : ProjectResult × ProjectStore :=
  if s.path = "" then s.saveAs projectHash answers destination
  else
    let written := s.write projectHash answers s.path
    written.2.report written.1

/-- `open` -/
def openProject (chosen : Option String) : ProjectResult × ProjectStore :=
  match chosen with
  | none => s.report .cancelled
  | some chosen =>
    match answers.openProject with
    | some error =>
      s.report (.failed ("“" ++ fileName chosen ++
        "” could not be opened, so the project you had open is still here. " ++ error))
    | none =>
      let session := (s.session.projectOpen answers.host (some answers.loaded)).2
      let opened := { s with
        session
        path := chosen
        savedHash := projectHash session.project }
      { opened with modified := opened.isProjectModified projectHash }.report
        (.done ("Opened “" ++ fileName chosen ++ "”."))

/-- The bundle a project is renamed to. -/
def renamedPath (wanted : String) : String :=
  parentOf s.path ++ "/" ++ wanted ++ "." ++ projectExtension

def rename (requested : String) : ProjectResult × ProjectStore :=
  let wanted := trim requested
  match validateName wanted with
  | some problem => s.report (.failed problem)
  | none =>
    if wanted = s.name ∧ s.path = "" then s.report (.done "")
    else if s.path = "" then
      match s.setProjectName answers wanted with
      | (some error, named) => named.report (.failed error)
      | (none, named) =>
        named.report (.done ("Renamed to “" ++ wanted ++ "”. It is saved on first save."))
    else
      let previous := s.path
      let destination := s.renamedPath wanted
      if destination ≠ previous ∧ (s.bundles destination).isSome then
        s.report (.failed ("A project called “" ++ wanted ++ "” is already in that folder. " ++
          "Choose another name, or rename the other project first."))
      else
        match s.setProjectName answers wanted with
        | (some error, named) => named.report (.failed error)
        | (none, named) =>
          match named.write projectHash answers destination with
          | (⟨.failed, message⟩, written) => written.report ⟨.failed, message⟩
          | (_, written) =>
            if destination = previous then
              written.report (.done ("Renamed to “" ++ wanted ++ "”."))
            else
              match answers.delete with
              | some error =>
                written.report (.done ("Renamed to “" ++ wanted ++ "”. The old bundle “" ++
                  fileName previous ++ "” is still on disk: " ++ error))
              | none =>
                { written with bundles := Function.update written.bundles previous none }.report
                  (.done ("Renamed to “" ++ wanted ++ "”."))

end ProjectStore

/-- What the user does, with what the panels answer. -/
inductive ProjectAction
  | newProject
  | save (destination : Option String)
  | saveAs (destination : Option String)
  | openProject (chosen : Option String)
  | rename (requested : String)

namespace ProjectStore

variable (projectHash : Tables → UInt64) (answers : Answers) (s : ProjectStore)

def act : ProjectAction → ProjectResult × ProjectStore
  | .newProject => s.newProject projectHash answers
  | .save destination => s.save projectHash answers destination
  | .saveAs destination => s.saveAs projectHash answers destination
  | .openProject chosen => s.openProject projectHash answers chosen
  | .rename requested => s.rename projectHash answers requested

/-! ### What a failure leaves -/

/-- What is asked of an action that fails. -/
structure Unchanged (before after : ProjectStore) : Prop where
  name : after.name = before.name
  path : after.path = before.path
  modified : after.modified = before.modified
  isProjectModified : after.isProjectModified projectHash = before.isProjectModified projectHash
  undoStack : after.session.bus.undoStack = before.session.bus.undoStack
  redoStack : after.session.bus.redoStack = before.session.bus.redoStack
  bundles : after.bundles = before.bundles

/-- The destination carries another name, the engine takes it, and the save fails. -/
def NamesFirst : Option String → Prop
  | none => False
  | some destination =>
    projectNameOf destination ≠ "" ∧ projectNameOf destination ≠ s.name ∧
      answers.setProjectName = none ∧ answers.saveProject.isSome = true

/-- The project on disk is given another usable name, the engine takes it, and the save fails. -/
def RenamesFirst (requested : String) : Prop :=
  validateName (trim requested) = none ∧ s.path ≠ "" ∧ trim requested ≠ s.name ∧
    ¬(s.renamedPath (trim requested) ≠ s.path ∧
      (s.bundles (s.renamedPath (trim requested))).isSome = true) ∧
    answers.setProjectName = none ∧ answers.saveProject.isSome = true

/-- The action gives the project another name, and its save fails. -/
def NamesAndFails : ProjectAction → Prop
  | .newProject => False
  | .openProject _ => False
  | .save destination => s.path = "" ∧ s.NamesFirst answers destination
  | .saveAs destination => s.NamesFirst answers destination
  | .rename requested => s.RenamesFirst answers requested

variable {projectHash answers s}

theorem unchanged_report (result : ProjectResult) :
    Unchanged projectHash s (s.report result).2 :=
  ⟨rfl, rfl, rfl, rfl, rfl, rfl, rfl⟩

/-- The engine takes a name. -/
theorem name_projectSetName (session : Session) {name : String} (hempty : name ≠ "") :
    (session.projectSetName name).2.project.metadata.name = name := by
  unfold Session.projectSetName
  by_cases hsame : session.project.metadata.name = name
  · rw [if_neg hempty, if_pos hsame]
    exact hsame
  rw [if_neg hempty, if_neg hsame]
  set metadata : ProjectMeta := { session.project.metadata with name }
  have hexecute : (session.bus.execute (some (setProjectMeta session.project metadata))).2.project =
      session.project.setMeta metadata := by
    have hok : ((setProjectMeta session.project metadata).apply session.bus.project).ok = true :=
      rfl
    rw [CommandBus.execute]
    simp only [hok, if_true]
    rw [Session.project_record]
    rfl
  exact congrArg (fun project : Tables => project.metadata.name) hexecute

theorem projectSetName_same (session : Session) {name : String}
    (hsame : session.project.metadata.name = name) : (session.projectSetName name).2 = session := by
  unfold Session.projectSetName
  split_ifs <;> rfl

theorem write_failed {destination : String}
    (h : (s.write projectHash answers destination).1.outcome = .failed) :
    answers.saveProject.isSome = true ∧ (s.write projectHash answers destination).2 = s := by
  unfold write at h ⊢
  cases hsave : answers.saveProject with
  | some error => exact ⟨rfl, rfl⟩
  | none =>
    rw [hsave] at h
    cases h

theorem write_of_isSome (projectHash : Tables → UInt64) (s : ProjectStore) (destination : String)
    (h : answers.saveProject.isSome = true) :
    (s.write projectHash answers destination).1.outcome = .failed ∧
      (s.write projectHash answers destination).2 = s := by
  obtain ⟨error, herror⟩ := Option.isSome_iff_exists.1 h
  unfold write
  rw [herror]
  exact ⟨rfl, rfl⟩

theorem unchanged_newProject
    (h : (s.newProject projectHash answers).1.outcome = .failed) :
    Unchanged projectHash s (s.newProject projectHash answers).2 := by
  unfold newProject at h ⊢
  cases hnew : answers.newProject with
  | some error => exact unchanged_report _
  | none =>
    rw [hnew] at h
    exact absurd h ProjectOutcome.noConfusion

theorem unchanged_openProject (chosen : Option String)
    (h : (s.openProject projectHash answers chosen).1.outcome = .failed) :
    Unchanged projectHash s (s.openProject projectHash answers chosen).2 := by
  unfold openProject at h ⊢
  cases chosen with
  | none => exact absurd h ProjectOutcome.noConfusion
  | some chosen =>
    dsimp only at h ⊢
    cases hopen : answers.openProject with
    | some error => exact unchanged_report _
    | none =>
      rw [hopen] at h
      exact absurd h ProjectOutcome.noConfusion

/-- A store whose project has another name is not the one before. -/
theorem not_unchanged_of_named {name : String} (hempty : name ≠ "") (hnew : name ≠ s.name)
    (result : ProjectResult) : ¬Unchanged projectHash s
      ({ s with session := (s.session.projectSetName name).2 }.report result).2 := by
  intro h
  exact hnew ((name_projectSetName s.session hempty).symm.trans h.name)

theorem saveAs_iff (destination : Option String) :
    ((s.saveAs projectHash answers destination).1.outcome = .failed →
      Unchanged projectHash s (s.saveAs projectHash answers destination).2) ↔
      ¬s.NamesFirst answers destination := by
  cases destination with
  | none => exact iff_of_true nofun not_false
  | some destination =>
    unfold saveAs NamesFirst
    dsimp only
    by_cases hchosen : projectNameOf destination ≠ "" ∧ projectNameOf destination ≠ s.name
    · rw [if_pos hchosen]
      cases hset : answers.setProjectName with
      | some error =>
        have hkept : s.setProjectName answers (projectNameOf destination) = (some error, s) := by
          rw [setProjectName, hset]
        rw [hkept]
        refine iff_of_true (fun hfailed => ?_) (by simp)
        rw [(write_failed hfailed).2]
        exact unchanged_report _
      | none =>
        have hnamed : s.setProjectName answers (projectNameOf destination) =
            (none, { s with
              session := (s.session.projectSetName (projectNameOf destination)).2 }) := by
          rw [setProjectName, hset]
        rw [hnamed]
        dsimp only
        cases hsave : answers.saveProject.isSome with
        | true =>
          -- the engine has the name of the bundle that could not be written
          obtain ⟨hfails, hsame⟩ := write_of_isSome projectHash
            { s with session := (s.session.projectSetName (projectNameOf destination)).2 }
            destination hsave
          refine iff_of_false (fun hall => ?_) (fun hnot => hnot ⟨hchosen.1, hchosen.2, rfl, rfl⟩)
          have hunchanged := hall hfails
          rw [hsame] at hunchanged
          exact not_unchanged_of_named hchosen.1 hchosen.2 _ hunchanged
        | false =>
          refine iff_of_true (fun hfailed => ?_) (by simp)
          rw [(write_failed hfailed).1] at hsave
          cases hsave
    · rw [if_neg hchosen]
      refine iff_of_true (fun hfailed => ?_) fun hnames => hchosen ⟨hnames.1, hnames.2.1⟩
      rw [(write_failed hfailed).2]
      exact unchanged_report _

theorem save_iff (destination : Option String) :
    ((s.save projectHash answers destination).1.outcome = .failed →
      Unchanged projectHash s (s.save projectHash answers destination).2) ↔
      ¬(s.path = "" ∧ s.NamesFirst answers destination) := by
  unfold save
  by_cases hpath : s.path = ""
  · rw [if_pos hpath, saveAs_iff, and_iff_right hpath]
  · rw [if_neg hpath]
    refine iff_of_true (fun hfailed => ?_) fun hnames => hpath hnames.1
    dsimp only at hfailed ⊢
    rw [(write_failed hfailed).2]
    exact unchanged_report _

theorem ne_empty_of_validateName {name : String} (h : validateName name = none) : name ≠ "" := by
  rintro rfl
  exact absurd h (by decide)

theorem rename_iff (requested : String) :
    ((s.rename projectHash answers requested).1.outcome = .failed →
      Unchanged projectHash s (s.rename projectHash answers requested).2) ↔
      ¬s.RenamesFirst answers requested := by
  unfold rename RenamesFirst
  dsimp only
  cases hvalid : validateName (trim requested) with
  | some problem => exact iff_of_true (fun _ => unchanged_report _) fun h => nomatch h.1
  | none =>
    dsimp only
    by_cases hsame : trim requested = s.name ∧ s.path = ""
    · rw [if_pos hsame]
      exact iff_of_true nofun fun h => h.2.1 hsame.2
    rw [if_neg hsame]
    by_cases hpath : s.path = ""
    · rw [if_pos hpath]
      refine iff_of_true ?_ fun h => h.2.1 hpath
      unfold setProjectName
      cases answers.setProjectName with
      | some error => exact fun _ => unchanged_report _
      | none => exact nofun
    rw [if_neg hpath]
    by_cases htaken : s.renamedPath (trim requested) ≠ s.path ∧
        (s.bundles (s.renamedPath (trim requested))).isSome = true
    · rw [if_pos htaken]
      exact iff_of_true (fun _ => unchanged_report _) fun h => h.2.2.2.1 htaken
    rw [if_neg htaken]
    unfold setProjectName
    cases hset : answers.setProjectName with
    | some error => exact iff_of_true (fun _ => unchanged_report _) (by simp)
    | none =>
      dsimp only
      unfold write
      cases hsave : answers.saveProject with
      | some error =>
        -- the name was set before the write that fails
        dsimp only [ProjectResult.failed]
        by_cases hname : trim requested = s.name
        · rw [projectSetName_same s.session hname.symm]
          exact iff_of_true (fun _ => unchanged_report _) fun h => h.2.2.1 hname
        · refine iff_of_false (fun hall => ?_) fun hnot =>
            hnot ⟨rfl, hpath, hname, htaken, rfl, rfl⟩
          exact not_unchanged_of_named (ne_empty_of_validateName hvalid) hname _ (hall rfl)
      | none =>
        refine iff_of_true ?_ (by simp)
        dsimp only [ProjectResult.done]
        split_ifs
        · exact nofun
        · cases answers.delete <;> exact nofun

/-- **A failed action changes nothing**, unless it had given the project another name before its
save failed. -/
theorem changesNothing_iff (projectHash : Tables → UInt64) (answers : Answers) (s : ProjectStore)
    (action : ProjectAction) :
    ((s.act projectHash answers action).1.outcome = .failed →
      Unchanged projectHash s (s.act projectHash answers action).2) ↔
      ¬s.NamesAndFails answers action := by
  cases action with
  | newProject =>
    rw [act, NamesAndFails]
    exact iff_of_true unchanged_newProject not_false
  | save destination => exact save_iff destination
  | saveAs destination => exact saveAs_iff destination
  | openProject chosen =>
    rw [act, NamesAndFails]
    exact iff_of_true (unchanged_openProject chosen) not_false
  | rename requested =>
    rw [act, NamesAndFails]
    exact rename_iff requested

/-- A project that has not been saved. -/
def untitled : ProjectStore where
  session := .create Session.noPlugins Session.smallIds (.finite 48000)
  savedHash := 0
  bundles _ := none

def diskFull : Answers where
  saveProject := some "There is no space left on the disk."
  host := Session.noPlugins
  ids := Session.smallIds
  loaded := freshProject Session.smallIds

/-- **A project that could not be saved** has the name it was to be saved under. -/
theorem not_changesNothing :
    (untitled.act (fun _ => 0) diskFull (.saveAs (some "/songs/Night Drive.obt"))).1.outcome =
      .failed ∧
    ¬Unchanged (fun _ => 0) untitled
      (untitled.act (fun _ => 0) diskFull (.saveAs (some "/songs/Night Drive.obt"))).2 := by
  refine ⟨by decide +kernel, fun h => ?_⟩
  exact absurd h.name (by decide +kernel)

end ProjectStore

end OneBeat
