import OneBeat.Session.PendingStates

/-!
# Opens that fail

`ob_engine_project_open` builds the project of a file beside the one that is open, so that a file
that cannot be read costs nothing.  Two things are cleared before it tries: the chunks that wait for
their plug-ins, and the lengths the patterns had at the last publish, by which a clip that fits its
pattern is told from one the user has cut (`fitClipsToPatterns`).

* `OpenStates.untouched_iff` : it leaves everything as it was exactly when there is nothing at the
  path, or when nothing was remembered.
* `OpenStates.clip_left_behind` : what was forgotten is missed by an edit that comes later.
-/

namespace OneBeat

open Bundle (Chunk)

/-- What `ob_engine_project_open` finds at a path. -/
inductive AtPath
  /-- `std::filesystem::exists` says no, or throws. -/
  | nothing
  /-- No `project.json`, or one that cannot be read, or one that `loadProjectJson` refuses. -/
  | unreadable
  /-- A project, with the sidecars that can be read and match their checksums. -/
  | project (project : Tables) (files : InstrumentId → Option Chunk)

namespace OpenStates

/-- A call, and whether it answers OK. -/
def attempt (p : OpenStates) (c : StateCall) : Bool × OpenStates :=
  ((p.session.call c.call).1, p.call c)

/-- `ob_engine_project_open`. -/
def projectOpenAt (p : OpenStates) (path : String) (found : AtPath)
    (host : InstrumentId → HostAnswer) (takes : ℕ → InstrumentId → Bool) : Bool × OpenStates :=
  if path = "" then (false, p)
  else
    match found with
    | .nothing => (false, p)
    -- what was remembered is cleared before the file is read
    | .unreadable => p.attempt ⟨.projectOpen none host, fun _ => none, takes⟩
    | .project opened files => p.attempt ⟨.projectOpen (some opened) host, files, takes⟩

/-- No lengths are remembered, and no chunk waits. -/
def Forgetful (p : OpenStates) : Prop :=
  p.session.patternLengths = .empty ∧ p.states.pending = .empty

/-- The same session, but for what it remembered. -/
def forget (p : OpenStates) : OpenStates where
  session := { p.session with patternLengths := .empty }
  states := { p.states with pending := .empty }

/-- As if nothing had been tried: the same session, and the same after any calls. -/
def Untouched (p q : OpenStates) : Prop :=
  q = p ∧ ∀ calls, system.run q calls = system.run p calls

variable {p : OpenStates} {path : String} {found : AtPath} {host : InstrumentId → HostAnswer}
  {takes : ℕ → InstrumentId → Bool}

theorem forgetful_forget (p : OpenStates) : p.forget.Forgetful := ⟨rfl, rfl⟩

theorem forget_eq_self_iff : p.forget = p ↔ p.Forgetful := by
  constructor
  · intro h
    rw [← h]
    exact forgetful_forget p
  · rintro ⟨hlengths, hpending⟩
    obtain ⟨session, states⟩ := p
    simp only [forget, OpenStates.mk.injEq]
    dsimp only at hlengths hpending
    rw [← hlengths, ← hpending]
    exact ⟨rfl, rfl⟩

theorem untouched_iff_eq {q : OpenStates} : p.Untouched q ↔ q = p :=
  ⟨And.left, fun h => ⟨h, fun calls => by rw [h]⟩⟩

/-- A file that cannot be read is noticed after the session has forgotten. -/
theorem call_unreadable (p : OpenStates) (host : InstrumentId → HostAnswer)
    (files : InstrumentId → Option Chunk) (takes : ℕ → InstrumentId → Bool) :
    p.call ⟨.projectOpen none host, files, takes⟩ = p.forget := by
  unfold call begun forget
  simp [Session.call, Session.projectOpen, Restoring.publishAll]

/-- **What an open that fails does.** -/
theorem projectOpenAt_cases (hfails : (p.projectOpenAt path found host takes).1 = false) :
    ((path = "" ∨ found = .nothing) ∧ (p.projectOpenAt path found host takes).2 = p) ∨
      (path ≠ "" ∧ found = .unreadable ∧
        (p.projectOpenAt path found host takes).2 = p.forget) := by
  unfold projectOpenAt at hfails ⊢
  by_cases hpath : path = ""
  · rw [if_pos hpath]
    exact .inl ⟨.inl hpath, rfl⟩
  · rw [if_neg hpath] at hfails ⊢
    cases found with
    | nothing => exact .inl ⟨.inr rfl, rfl⟩
    | unreadable => exact .inr ⟨hpath, rfl, call_unreadable p host _ takes⟩
    | project project files => cases hfails

/-- **An open that fails is as if it had not been tried** exactly when there was nothing to open, or
nothing to forget. -/
theorem untouched_iff (p : OpenStates) (path : String) (found : AtPath)
    (host : InstrumentId → HostAnswer) (takes : ℕ → InstrumentId → Bool)
    (hfails : (p.projectOpenAt path found host takes).1 = false) :
    p.Untouched (p.projectOpenAt path found host takes).2 ↔
      path = "" ∨ found = .nothing ∨ p.Forgetful := by
  rw [untouched_iff_eq]
  rcases projectOpenAt_cases hfails with ⟨hnothing, hq⟩ | ⟨hpath, rfl, hq⟩
  · rw [hq]
    exact iff_of_true rfl (or_assoc.1 (.inl hnothing))
  · rw [hq, forget_eq_self_iff]
    simp [hpath]

/-- Without a file there is nothing to forget. -/
theorem untouched_iff_nothing :
    (create Session.noPlugins Session.smallIds (.finite 48000)).Untouched
        ((create Session.noPlugins Session.smallIds (.finite 48000)).projectOpenAt "gone.onebeat"
          .nothing Session.noPlugins fun _ _ => true).2 ↔
      "gone.onebeat" = "" ∨ AtPath.nothing = .nothing ∨
        (create Session.noPlugins Session.smallIds (.finite 48000)).Forgetful :=
  untouched_iff _ _ _ _ _ rfl

/-! ### A clip that is left behind -/

/-- A new session, with an instrument that has a note behind the end of the pattern. -/
def longPattern : List StateCall :=
  [{ call := .edit (.instrumentAddEmpty ⟨4⟩ ⟨5⟩ "") Session.noPlugins },
    { call := .edit (.noteAdd ⟨4⟩ 3840 240 60 100) Session.noPlugins }]

/-- Remove the instrument; its notes go with it, and the pattern is a bar long again. -/
def removeInstrument : StateCall where
  call := .instrumentRemove ⟨4⟩ Session.noPlugins

/-- The lengths of the clips. -/
def clipLengths (p : OpenStates) : List ℤ :=
  p.session.project.clips.entries.map fun entry => entry.2.length

/-- **The clip does not follow its pattern** after an open that failed in between. -/
theorem clip_left_behind : ∃ p,
    system.run (create Session.noPlugins Session.smallIds (.finite 48000)) longPattern = some p ∧
      (p.projectOpenAt "broken.onebeat" .unreadable Session.noPlugins fun _ _ => true).1 = false ∧
      (p.call removeInstrument).clipLengths = [3840] ∧
      ((p.projectOpenAt "broken.onebeat" .unreadable Session.noPlugins
        fun _ _ => true).2.call removeInstrument).clipLengths = [7680] ∧
      ¬ p.Untouched (p.projectOpenAt "broken.onebeat" .unreadable Session.noPlugins
        fun _ _ => true).2 := by
  have hfollows : ((system.run (create Session.noPlugins Session.smallIds (.finite 48000))
      longPattern).map fun p => (p.call removeInstrument).clipLengths) = some [3840] := by
    decide +kernel
  have hleft : ((system.run (create Session.noPlugins Session.smallIds (.finite 48000))
      longPattern).map fun p => ((p.projectOpenAt "broken.onebeat" .unreadable Session.noPlugins
        fun _ _ => true).2.call removeInstrument).clipLengths) = some [7680] := by
    decide +kernel
  obtain ⟨p, hrun, hp⟩ := Option.map_eq_some_iff.1 hfollows
  rw [hrun, Option.map_some, Option.some_inj] at hleft
  refine ⟨p, hrun, rfl, hp, hleft, ?_⟩
  rintro ⟨hq, -⟩
  rw [hq, hp] at hleft
  cases hleft

end OpenStates

end OneBeat
