import OneBeat.Lib.TransitionSystem

/-!
# Gestures of the editors

The piano roll, the playlist and the channel rack group their edits by gestures, over the one
transaction that `ob_engine_rack_gesture_begin` opens: there is no second one while it is open, and
who opened it is not kept.

A state has the flags of the three stores, who opened what is open, and who closed what so far.  A
call of a method comes with the client calls in it that throw, the one that opens a gesture first,
the one that closes it last; how many edits lie between them is open.

* `GestureState.Owned` : what is asked of the gestures;
* `GestureState.owned_iff` : they keep to it in every state of a run exactly when every step meets
  `GestureState.Careful`.
-/

namespace OneBeat

/-- What opens a gesture: a drag of a store, or a method that closes it before it returns. -/
inductive GestureOwner
  | rollDrag
  | playlistDrag
  | paint
  | velocityPaint
  | method
  deriving DecidableEq

inductive PianoDragKind
  | none | velocity | move | resize | erase | marquee
  deriving DecidableEq

inductive ClipDragKind
  | none | move | resizeEnd | resizeStart | offset | marquee
  deriving DecidableEq

structure GestureState where
  /-- Who opened the gesture that is open in the engine. -/
  opened : Option GestureOwner := none
  /-- What was closed: who opened it, and who closed it. -/
  closed : List (GestureOwner × GestureOwner) := []
  rollKind : PianoDragKind := .none
  rollGestureOpen : Bool := false
  clipKind : ClipDragKind := .none
  playlistGestureOpen : Bool := false
  painting : Bool := false
  velocityPainting : Bool := false
  deriving DecidableEq

/-- The methods of the stores, as far as gestures go. -/
inductive GestureMethod
  /-- `beginVelocityGesture`, `beginMove`, `beginResize` and `beginErase`. -/
  | rollBegin (kind : PianoDragKind)
  | rollMarquee
  | rollEndDrag
  | rollCancelDrag
  | rollPaste (notes : ℕ)
  | beginClipDrag (kind : ClipDragKind)
  | beginMarquee
  /-- `endMarquee` and `cancelMarquee`. -/
  | endMarquee
  | endClipDrag
  | cancelClipDrag
  /-- `PlaylistStore.duplicateSelection` and `deleteSelection`, `RackStore.addNotesEvery`,
  `cutNotes` and `pasteNotes`. -/
  | grouped (edits : ℕ)
  | beginPaint
  | commitPaint
  | abortPaint
  | beginVelocityPaint
  | commitVelocityPaint
  | abortVelocityPaint
  /-- All others: they edit, or they do not, outside or inside of what is open. -/
  | other
  deriving DecidableEq

/-- A call of a method, and which of the client calls in it throw. -/
structure GestureCall where
  method : GestureMethod
  throws : ℕ → Bool := fun _ => false

namespace GestureState

variable (s : GestureState)

/-! ### The engine -/

/-- `ob_engine_rack_gesture_begin`; none when it throws. -/
def gestureBegin (owner : GestureOwner) (throws : Bool) : Option GestureState :=
  if throws || s.opened.isSome then none else some { s with opened := some owner }

/-- `ob_engine_rack_gesture_commit` and `abort`; none when it throws. -/
def gestureClose (owner : GestureOwner) (throws : Bool) : Option GestureState :=
  match s.opened with
  | none => none
  | some opener =>
    if throws then none else some { s with opened := none, closed := (opener, owner) :: s.closed }

/-! ### The stores -/

/-- A gesture around some edits, with nothing to undo it when one of them throws. -/
def grouped (edits : ℕ) (throws : ℕ → Bool) : GestureState :=
  match s.gestureBegin .method (throws 0) with
  | none => s
  | some begun =>
    if (List.range edits).any fun k => throws (k + 1) then begun
    else (begun.gestureClose .method (throws (edits + 1))).getD begun

/-- `_beginGesture` of the piano roll, for a drag. -/
def rollBeginGesture (throws : Bool) : GestureState :=
  if s.rollGestureOpen then s
  else
    match s.gestureBegin .rollDrag throws with
    | none => s
    | some begun => { begun with rollGestureOpen := true }

def rollBegin (kind : PianoDragKind) (throws : ℕ → Bool) : GestureState :=
  if kind = .none ∨ kind = .marquee then s
  else if s.rollKind = kind ∧ (kind = .velocity ∨ kind = .erase) then s
  else { s with rollKind := kind }.rollBeginGesture (throws 0)

/-- `endDrag` and `cancelDrag`: the drag is over before its gesture is closed. -/
def rollClose (throws : ℕ → Bool) : GestureState :=
  if s.rollKind = .none then s
  else
    let ended := { s with rollKind := .none }
    if s.rollGestureOpen then
      match ended.gestureClose .rollDrag (throws 0) with
      | none => ended
      | some closed => { closed with rollGestureOpen := false }
    else ended

/-- `pasteClipboard`: it joins a gesture of the roll that is open, and closes it. -/
def rollPaste (notes : ℕ) (throws : ℕ → Bool) : GestureState :=
  if notes = 0 then s
  else
    let begun :=
      if s.rollGestureOpen then some s
      else (s.gestureBegin .method (throws 0)).map fun begun =>
        { begun with rollGestureOpen := true }
    match begun with
    | none => s
    | some begun =>
      if (List.range notes).any fun k => throws (k + 1) then begun
      else
        match begun.gestureClose .method (throws (notes + 1)) with
        | none => begun
        | some closed => { closed with rollGestureOpen := false }

/-- The kind is set first; a drag without clips is none. -/
def beginClipDrag (kind : ClipDragKind) (throws : ℕ → Bool) : GestureState :=
  if kind = .none ∨ kind = .marquee then s
  else
    let dragged := { s with clipKind := kind }
    match dragged.gestureBegin .playlistDrag (throws 0) with
    | none => dragged
    | some begun => { begun with playlistGestureOpen := true }

/-- `endMarquee` and `cancelMarquee` close no gesture. -/
def endMarquee : GestureState :=
  if s.clipKind = .marquee then { s with clipKind := .none } else s

/-- `endClipDrag` and `cancelClipDrag`. -/
def clipClose (throws : ℕ → Bool) : GestureState :=
  if s.clipKind = .none then s
  else
    let ended := { s with clipKind := .none }
    if s.playlistGestureOpen then
      match ended.gestureClose .playlistDrag (throws 0) with
      | none => ended
      | some closed => { closed with playlistGestureOpen := false }
    else ended

/-- `commitPaint` and `abortPaint`; none when the client throws. -/
def paintClose (throws : Bool) : Option GestureState :=
  if s.painting then
    (s.gestureClose .paint throws).map fun closed => { closed with painting := false }
  else some s

/-- A paint that goes on is aborted, and the rows are read again; then the flag is set before the
gesture is begun. -/
def beginPaint (throws : ℕ → Bool) : GestureState :=
  match s.paintClose (throws 0) with
  | none => s
  | some stopped =>
    if s.painting && throws 1 then stopped
    else
      let painting := { stopped with painting := true }
      (painting.gestureBegin .paint (throws 2)).getD painting

def beginVelocityPaint (throws : ℕ → Bool) : GestureState :=
  if s.velocityPainting then s
  else
    let painting := { s with velocityPainting := true }
    (painting.gestureBegin .velocityPaint (throws 0)).getD painting

/-- `commitVelocityPaint` and `abortVelocityPaint`. -/
def velocityPaintClose (throws : ℕ → Bool) : GestureState :=
  if s.velocityPainting then
    match s.gestureClose .velocityPaint (throws 0) with
    | none => s
    | some closed => { closed with velocityPainting := false }
  else s

def step (call : GestureCall) : GestureState :=
  match call.method with
  | .rollBegin kind => s.rollBegin kind call.throws
  | .rollMarquee => { s with rollKind := .marquee }
  | .rollEndDrag | .rollCancelDrag => s.rollClose call.throws
  | .rollPaste notes => s.rollPaste notes call.throws
  | .beginClipDrag kind => s.beginClipDrag kind call.throws
  | .beginMarquee => { s with clipKind := .marquee }
  | .endMarquee => s.endMarquee
  | .endClipDrag | .cancelClipDrag => s.clipClose call.throws
  | .grouped edits => s.grouped edits call.throws
  | .beginPaint => s.beginPaint call.throws
  | .commitPaint | .abortPaint => (s.paintClose (call.throws 0)).getD s
  | .beginVelocityPaint => s.beginVelocityPaint call.throws
  | .commitVelocityPaint | .abortVelocityPaint => s.velocityPaintClose call.throws
  | .other => s

def system : TransitionSystem GestureState GestureCall where
  step s call := some (s.step call)

/-! ### What is asked -/

/-- The drag a gesture was opened for goes on; a method has returned. -/
def InProgress : GestureOwner → Prop
  | .rollDrag => s.rollKind ≠ .none
  | .playlistDrag => s.clipKind ≠ .none
  | .paint => s.painting = true
  | .velocityPaint => s.velocityPainting = true
  | .method => False

/-- Every gesture was closed by what opened it, and what is open belongs to a drag that goes on. -/
structure Owned : Prop where
  closed : ∀ closing ∈ s.closed, closing.1 = closing.2
  inProgress : ∀ owner, s.opened = some owner → s.InProgress owner

/-- Nothing that is called after the gesture is open throws. -/
def Unbroken (edits : ℕ) (throws : ℕ → Bool) : Prop := ∀ k ≤ edits, throws (k + 1) = false

instance (edits : ℕ) (throws : ℕ → Bool) : Decidable (Unbroken edits throws) :=
  inferInstanceAs (Decidable (∀ _ ≤ _, _))

/-- A gesture cannot be begun, or nothing in it throws. -/
def GroupsWell (edits : ℕ) (throws : ℕ → Bool) : Prop :=
  throws 0 = true ∨ s.opened ≠ none ∨ Unbroken edits throws

/-- What a paint closes, if its client call goes through, is its own. -/
def PaintsOwn (painting : Bool) (owner : GestureOwner) (throws : ℕ → Bool) : Prop :=
  painting = true → throws 0 = false → ∀ opener, s.opened = some opener → opener = owner

/-- A step keeps to its own gesture: a group of edits is not broken off, a paste does not end a drag
of the roll, a drag that ends can close its gesture, a marquee does not take a drag's place, and a
paint closes nothing that it did not open. -/
def Careful (call : GestureCall) : Prop :=
  match call.method with
  | .rollEndDrag | .rollCancelDrag =>
    s.rollKind ≠ .none → s.rollGestureOpen = true → call.throws 0 = false
  | .rollPaste notes =>
    notes = 0 ∨
      if s.rollGestureOpen then ¬Unbroken notes call.throws else s.GroupsWell notes call.throws
  | .endMarquee => s.clipKind = .marquee → s.playlistGestureOpen = false
  | .endClipDrag | .cancelClipDrag =>
    s.clipKind ≠ .none → s.playlistGestureOpen = true → call.throws 0 = false
  | .grouped edits => s.GroupsWell edits call.throws
  | .beginPaint | .commitPaint | .abortPaint => s.PaintsOwn s.painting .paint call.throws
  | .commitVelocityPaint | .abortVelocityPaint =>
    s.PaintsOwn s.velocityPainting .velocityPaint call.throws
  | _ => True

/-- What holds where the gestures have been owned all along: the flags say whose the open one is. -/
structure Flagged : Prop extends s.Owned where
  roll : s.rollGestureOpen = true ↔ s.opened = some .rollDrag
  playlist : s.playlistGestureOpen = true ↔ s.opened = some .playlistDrag

variable {s}

/-! ### One call -/

/-- A gesture is begun where none is open and nothing throws. -/
theorem gestureBegin_cases (s : GestureState) (owner : GestureOwner) (throws : Bool) :
    s.gestureBegin owner throws = none ∧ (throws = true ∨ s.opened ≠ none) ∨
      s.gestureBegin owner throws = some { s with opened := some owner } ∧
        throws = false ∧ s.opened = none := by
  rw [gestureBegin]
  cases throws <;> cases s.opened <;> simp

theorem gestureClose_eq {owner opener : GestureOwner} (h : s.opened = some opener) :
    s.gestureClose owner false =
      some { s with opened := none, closed := (opener, owner) :: s.closed } := by
  rw [gestureClose, h]
  rfl

theorem gestureClose_of_throws (owner : GestureOwner) : s.gestureClose owner true = none := by
  rw [gestureClose]
  cases s.opened <;> rfl

theorem gestureClose_of_none {owner : GestureOwner} {throws : Bool} (h : s.opened = none) :
    s.gestureClose owner throws = none := by
  rw [gestureClose, h]

theorem flags_of_gestureClose {owner : GestureOwner} {throws : Bool} {closed : GestureState}
    (h : s.gestureClose owner throws = some closed) :
    closed.rollGestureOpen = s.rollGestureOpen ∧
      closed.playlistGestureOpen = s.playlistGestureOpen := by
  rw [gestureClose] at h
  split at h
  · cases h
  · obtain ⟨-, h⟩ := Option.ite_none_left_eq_some.1 h
    obtain rfl := Option.some_inj.1 h
    exact ⟨rfl, rfl⟩

theorem unbroken_iff {edits : ℕ} {throws : ℕ → Bool} : Unbroken edits throws ↔
    ((List.range edits).any fun k => throws (k + 1)) = false ∧ throws (edits + 1) = false := by
  rw [Unbroken, List.any_eq_false]
  constructor
  · intro h
    refine ⟨fun k hk => ?_, h edits (Nat.le_refl _)⟩
    rw [h k (Nat.le_of_lt (List.mem_range.1 hk))]
    exact Bool.false_ne_true
  · rintro ⟨hedits, hlast⟩ k hk
    rcases Nat.lt_or_eq_of_le hk with hlt | rfl
    · exact Bool.not_eq_true _ ▸ hedits k (List.mem_range.2 hlt)
    · exact hlast

/-- What is broken off, and not by an edit, is broken off by the commit. -/
theorem throws_last {edits : ℕ} {throws : ℕ → Bool} (hunbroken : ¬Unbroken edits throws)
    (hedits : ¬((List.range edits).any fun k => throws (k + 1)) = true) :
    throws (edits + 1) = true := by
  by_contra hlast
  rw [Bool.not_eq_true] at hedits hlast
  exact hunbroken (unbroken_iff.2 ⟨hedits, hlast⟩)

theorem not_groupsWell {edits : ℕ} {throws : ℕ → Bool} (hfirst : throws 0 = false)
    (hopened : s.opened = none) (hunbroken : ¬Unbroken edits throws) :
    ¬s.GroupsWell edits throws := by
  rintro (hthrows | hother | hwell)
  · rw [hthrows] at hfirst
    cases hfirst
  · exact hother hopened
  · exact hunbroken hwell

/-! ### One method -/

/-- A careful call keeps what holds, and any other breaks what is asked. -/
def Decides (careful : Prop) (after : GestureState) : Prop :=
  (careful → after.Flagged) ∧ (¬careful → ¬after.Owned)

theorem decides_of_flagged {careful : Prop} {after : GestureState} (hcareful : careful)
    (h : after.Flagged) : Decides careful after :=
  ⟨fun _ => h, fun hnot => absurd hcareful hnot⟩

theorem decides_of_not {careful : Prop} {after : GestureState} (hcareful : ¬careful)
    (h : ¬after.Owned) : Decides careful after :=
  ⟨fun hnot => absurd hnot hcareful, fun _ => h⟩

/-- Nothing is open, and what was closed last was its own. -/
theorem Flagged.close (h : s.Flagged) {owner : GestureOwner} {after : GestureState}
    (hopened : after.opened = none) (hclosed : after.closed = (owner, owner) :: s.closed)
    (hroll : after.rollGestureOpen = false) (hplaylist : after.playlistGestureOpen = false) :
    after.Flagged where
  closed closing hclosing := by
    rw [hclosed] at hclosing
    rcases List.mem_cons.1 hclosing with rfl | hclosing
    · rfl
    · exact h.closed closing hclosing
  inProgress owner howner := by
    rw [hopened] at howner
    cases howner
  roll := by simp [hopened, hroll]
  playlist := by simp [hopened, hplaylist]

/-- What is open and whose stays; its drag goes on. -/
theorem Flagged.keep (h : s.Flagged) {after : GestureState} (hopened : after.opened = s.opened)
    (hclosed : after.closed = s.closed) (hroll : after.rollGestureOpen = s.rollGestureOpen)
    (hplaylist : after.playlistGestureOpen = s.playlistGestureOpen)
    (hgoes : ∀ owner, s.opened = some owner → after.InProgress owner) : after.Flagged where
  closed closing hclosing := h.closed closing (hclosed ▸ hclosing)
  inProgress owner howner := hgoes owner (hopened ▸ howner)
  roll := by
    rw [hroll, hopened]
    exact h.roll
  playlist := by
    rw [hplaylist, hopened]
    exact h.playlist

/-- A drag is begun where nothing is open. -/
theorem Flagged.begin (h : s.Flagged) {owner : GestureOwner} {after : GestureState}
    (hopened : after.opened = some owner) (hclosed : after.closed = s.closed)
    (hroll : after.rollGestureOpen = true ↔ owner = .rollDrag)
    (hplaylist : after.playlistGestureOpen = true ↔ owner = .playlistDrag)
    (hgoes : after.InProgress owner) : after.Flagged where
  closed closing hclosing := h.closed closing (hclosed ▸ hclosing)
  inProgress other hother := by
    rw [hopened] at hother
    obtain rfl := Option.some_inj.1 hother
    exact hgoes
  roll := by
    rw [hroll, hopened, Option.some_inj]
  playlist := by
    rw [hplaylist, hopened, Option.some_inj]

theorem Flagged.flags_of_none (h : s.Flagged) (hopened : s.opened = none) :
    s.rollGestureOpen = false ∧ s.playlistGestureOpen = false := by
  constructor
  · rw [Bool.eq_false_iff, Ne, h.roll, hopened]
    exact nofun
  · rw [Bool.eq_false_iff, Ne, h.playlist, hopened]
    exact nofun

/-- While something else is open, the roll has no gesture. -/
theorem Flagged.roll_eq_false (h : s.Flagged) {owner : GestureOwner}
    (hopened : s.opened = some owner) (hne : owner ≠ .rollDrag) : s.rollGestureOpen = false := by
  rw [Bool.eq_false_iff, Ne, h.roll, hopened, Option.some_inj]
  exact hne

/-- While something else is open, the playlist has no gesture. -/
theorem Flagged.playlist_eq_false (h : s.Flagged) {owner : GestureOwner}
    (hopened : s.opened = some owner) (hne : owner ≠ .playlistDrag) :
    s.playlistGestureOpen = false := by
  rw [Bool.eq_false_iff, Ne, h.playlist, hopened, Option.some_inj]
  exact hne

theorem not_owned_of_method {after : GestureState} (h : after.opened = some .method) :
    ¬after.Owned := fun howned => howned.inProgress .method h

theorem not_owned_of_closed {after : GestureState} {opener owner : GestureOwner}
    (h : (opener, owner) ∈ after.closed) (hne : opener ≠ owner) : ¬after.Owned :=
  fun howned => hne (howned.closed _ h)

theorem decides_grouped (h : s.Flagged) (edits : ℕ) (throws : ℕ → Bool) :
    Decides (s.GroupsWell edits throws) (s.grouped edits throws) := by
  rw [grouped]
  rcases s.gestureBegin_cases .method (throws 0) with
    ⟨hbegin, hthrows⟩ | ⟨hbegin, hfirst, hopened⟩
  · rw [hbegin]
    exact decides_of_flagged (hthrows.elim .inl fun hopened => .inr (.inl hopened)) h
  obtain ⟨hroll, hplaylist⟩ := h.flags_of_none hopened
  rw [hbegin]
  dsimp only
  by_cases hunbroken : Unbroken edits throws
  · obtain ⟨hedits, hlast⟩ := unbroken_iff.1 hunbroken
    rw [hedits, hlast, gestureClose_eq rfl]
    exact decides_of_flagged (.inr (.inr hunbroken)) (h.close rfl rfl hroll hplaylist)
  · refine decides_of_not (not_groupsWell hfirst hopened hunbroken) ?_
    split_ifs with hedits
    · exact not_owned_of_method rfl
    · rw [throws_last hunbroken hedits, gestureClose_of_throws]
      exact not_owned_of_method rfl

theorem decides_rollPaste (h : s.Flagged) (notes : ℕ) (throws : ℕ → Bool) :
    Decides (notes = 0 ∨
        if s.rollGestureOpen then ¬Unbroken notes throws else s.GroupsWell notes throws)
      (s.rollPaste notes throws) := by
  rw [rollPaste]
  by_cases hnone : notes = 0
  · rw [if_pos hnone]
    exact decides_of_flagged (.inl hnone) h
  rw [if_neg hnone, or_iff_right hnone]
  by_cases hroll : s.rollGestureOpen = true
  · -- the paste is in a drag of the roll, and its commit is the drag's
    rw [if_pos hroll, if_pos hroll]
    dsimp only
    have hopened := h.roll.1 hroll
    by_cases hunbroken : Unbroken notes throws
    · obtain ⟨hedits, hlast⟩ := unbroken_iff.1 hunbroken
      rw [hedits, hlast, gestureClose_eq hopened]
      refine decides_of_not (not_not.2 hunbroken) ?_
      exact not_owned_of_closed (List.mem_cons_self ..) nofun
    · refine decides_of_flagged hunbroken ?_
      split_ifs with hedits
      · exact h
      · rw [throws_last hunbroken hedits, gestureClose_of_throws]
        exact h
  · rw [if_neg hroll, if_neg hroll]
    rcases s.gestureBegin_cases .method (throws 0) with
      ⟨hbegin, hthrows⟩ | ⟨hbegin, hfirst, hopened⟩
    · rw [hbegin]
      exact decides_of_flagged (hthrows.elim .inl fun hopened => .inr (.inl hopened)) h
    obtain ⟨-, hplaylist⟩ := h.flags_of_none hopened
    rw [hbegin, Option.map_some]
    dsimp only
    by_cases hunbroken : Unbroken notes throws
    · obtain ⟨hedits, hlast⟩ := unbroken_iff.1 hunbroken
      rw [hedits, hlast, gestureClose_eq rfl]
      exact decides_of_flagged (.inr (.inr hunbroken)) (h.close rfl rfl rfl hplaylist)
    · refine decides_of_not (not_groupsWell hfirst hopened hunbroken) ?_
      split_ifs with hedits
      · exact not_owned_of_method rfl
      · rw [throws_last hunbroken hedits, gestureClose_of_throws]
        exact not_owned_of_method rfl

/-- The roll is dragged in another way, or no more where it has no gesture. -/
theorem Flagged.setRollKind (h : s.Flagged) {kind : PianoDragKind}
    (hkind : s.rollGestureOpen = true → kind ≠ .none) : ({ s with rollKind := kind } : GestureState).Flagged := by
  refine h.keep rfl rfl rfl rfl fun owner howner => ?_
  have hgoes := h.inProgress owner howner
  cases owner with
  | rollDrag => exact hkind (h.roll.2 howner)
  | playlistDrag | paint | velocityPaint | method => exact hgoes

theorem Flagged.setClipKind (h : s.Flagged) {kind : ClipDragKind}
    (hkind : s.playlistGestureOpen = true → kind ≠ .none) : ({ s with clipKind := kind } : GestureState).Flagged := by
  refine h.keep rfl rfl rfl rfl fun owner howner => ?_
  have hgoes := h.inProgress owner howner
  cases owner with
  | playlistDrag => exact hkind (h.playlist.2 howner)
  | rollDrag | paint | velocityPaint | method => exact hgoes

theorem Flagged.rollBegin (h : s.Flagged) (kind : PianoDragKind) (throws : ℕ → Bool) :
    (s.rollBegin kind throws).Flagged := by
  rw [GestureState.rollBegin]
  split_ifs with hnone hsame
  · exact h
  · exact h
  rw [not_or] at hnone
  have hset := h.setRollKind fun _ => hnone.1
  rw [rollBeginGesture]
  split_ifs with hroll
  · exact hset
  rcases gestureBegin_cases { s with rollKind := kind } .rollDrag (throws 0) with
    ⟨hbegin, -⟩ | ⟨hbegin, -, hopened⟩
  · rw [hbegin]
    exact hset
  rw [hbegin]
  exact hset.begin rfl rfl (by simp) (by simp [(h.flags_of_none hopened).2]) hnone.1

theorem Flagged.beginClipDrag (h : s.Flagged) (kind : ClipDragKind) (throws : ℕ → Bool) :
    (s.beginClipDrag kind throws).Flagged := by
  rw [GestureState.beginClipDrag]
  split_ifs with hnone
  · exact h
  rw [not_or] at hnone
  have hset := h.setClipKind fun _ => hnone.1
  dsimp only
  rcases gestureBegin_cases { s with clipKind := kind } .playlistDrag (throws 0) with
    ⟨hbegin, -⟩ | ⟨hbegin, -, hopened⟩
  · rw [hbegin]
    exact hset
  rw [hbegin]
  exact hset.begin rfl rfl (by simp [(h.flags_of_none hopened).1]) (by simp) hnone.1

theorem decides_rollClose (h : s.Flagged) (throws : ℕ → Bool) :
    Decides (s.rollKind ≠ .none → s.rollGestureOpen = true → throws 0 = false)
      (s.rollClose throws) := by
  rw [rollClose]
  by_cases hkind : s.rollKind = .none
  · rw [if_pos hkind]
    exact decides_of_flagged (fun hdrag => absurd hkind hdrag) h
  rw [if_neg hkind]
  dsimp only
  by_cases hroll : s.rollGestureOpen = true
  · rw [if_pos hroll]
    have hopened := h.roll.1 hroll
    cases hfirst : throws 0 with
    | true =>
      rw [gestureClose_of_throws]
      refine decides_of_not (fun hall => absurd (hall hkind hroll) nofun) fun howned => ?_
      exact howned.inProgress .rollDrag hopened rfl
    | false =>
      rw [gestureClose_eq (s := { s with rollKind := .none }) hopened]
      have hplaylist := h.playlist_eq_false hopened nofun
      exact decides_of_flagged (fun _ _ => rfl) (h.close rfl rfl rfl hplaylist)
  · rw [if_neg hroll]
    exact decides_of_flagged (fun _ hopen => absurd hopen hroll)
      (h.setRollKind fun hopen => absurd hopen hroll)

theorem decides_clipClose (h : s.Flagged) (throws : ℕ → Bool) :
    Decides (s.clipKind ≠ .none → s.playlistGestureOpen = true → throws 0 = false)
      (s.clipClose throws) := by
  rw [clipClose]
  by_cases hkind : s.clipKind = .none
  · rw [if_pos hkind]
    exact decides_of_flagged (fun hdrag => absurd hkind hdrag) h
  rw [if_neg hkind]
  dsimp only
  by_cases hplaylist : s.playlistGestureOpen = true
  · rw [if_pos hplaylist]
    have hopened := h.playlist.1 hplaylist
    cases hfirst : throws 0 with
    | true =>
      rw [gestureClose_of_throws]
      refine decides_of_not (fun hall => absurd (hall hkind hplaylist) nofun) fun howned => ?_
      exact howned.inProgress .playlistDrag hopened rfl
    | false =>
      rw [gestureClose_eq (s := { s with clipKind := .none }) hopened]
      have hroll := h.roll_eq_false hopened nofun
      exact decides_of_flagged (fun _ _ => rfl) (h.close rfl rfl hroll rfl)
  · rw [if_neg hplaylist]
    exact decides_of_flagged (fun _ hopen => absurd hopen hplaylist)
      (h.setClipKind fun hopen => absurd hopen hplaylist)

theorem decides_endMarquee (h : s.Flagged) :
    Decides (s.clipKind = .marquee → s.playlistGestureOpen = false) s.endMarquee := by
  rw [endMarquee]
  by_cases hkind : s.clipKind = .marquee
  case neg =>
    rw [if_neg hkind]
    exact decides_of_flagged (fun hmarquee => absurd hmarquee hkind) h
  rw [if_pos hkind]
  by_cases hplaylist : s.playlistGestureOpen = true
  · refine decides_of_not (fun hall => ?_) fun howned => ?_
    · rw [hall hkind] at hplaylist
      cases hplaylist
    · exact howned.inProgress .playlistDrag (h.playlist.1 hplaylist) rfl
  · exact decides_of_flagged (fun _ => by simpa using hplaylist)
      (h.setClipKind fun hopen => absurd hopen hplaylist)

/-! ### The paints -/

/-- A paint closes what is open, whoever opened it. -/
theorem decides_close (h : s.Flagged) (owner : GestureOwner) (hroll : owner ≠ .rollDrag)
    (hplaylist : owner ≠ .playlistDrag) {throws : ℕ → Bool} {after : GestureState}
    (hnone : s.gestureClose owner (throws 0) = none → after = s)
    (hsome : ∀ closed, s.gestureClose owner (throws 0) = some closed →
      after.opened = closed.opened ∧ after.closed = closed.closed ∧
        after.rollGestureOpen = s.rollGestureOpen ∧
          after.playlistGestureOpen = s.playlistGestureOpen) :
    Decides (s.PaintsOwn true owner throws) after := by
  cases hopened : s.opened with
  | none =>
    rw [hnone (gestureClose_of_none hopened)]
    refine decides_of_flagged (fun _ _ opener hopener => ?_) h
    rw [hopened] at hopener
    cases hopener
  | some opener =>
    cases hfirst : throws 0 with
    | true =>
      -- the flag and the gesture stay as they were
      rw [hnone (by rw [hfirst, gestureClose_of_throws])]
      exact decides_of_flagged (fun _ hfalse => by rw [hfirst] at hfalse; cases hfalse) h
    | false =>
      rw [hfirst, gestureClose_eq hopened] at hsome
      obtain ⟨hnothing, hclosed, hroll', hplaylist'⟩ := hsome _ rfl
      by_cases hown : opener = owner
      · subst hown
        refine decides_of_flagged (fun _ _ other hother => ?_) (h.close hnothing hclosed
          (hroll'.trans (h.roll_eq_false hopened hroll))
          (hplaylist'.trans (h.playlist_eq_false hopened hplaylist)))
        exact (Option.some_inj.1 (hopened.symm.trans hother)).symm
      · -- a drag of another store is closed, or a group that was broken off
        refine decides_of_not (fun hall => hown (hall rfl hfirst opener hopened)) ?_
        exact not_owned_of_closed (hclosed ▸ List.mem_cons_self ..) hown

/-- Where a paint closes a gesture, it is its own and the flag goes down with it. -/
theorem decides_paintClose (h : s.Flagged) (throws : ℕ → Bool) :
    Decides (s.PaintsOwn s.painting .paint throws) ((s.paintClose (throws 0)).getD s) := by
  rw [paintClose]
  cases hpainting : s.painting with
  | false => exact decides_of_flagged nofun h
  | true =>
    rw [if_pos rfl]
    refine decides_close h .paint nofun nofun (fun hnone => ?_) fun closed hclosed => ?_
    · rw [hnone]
      rfl
    · have hflags := flags_of_gestureClose hclosed
      rw [hclosed, Option.map_some, Option.getD_some]
      exact ⟨rfl, rfl, hflags⟩

theorem decides_velocityPaintClose (h : s.Flagged) (throws : ℕ → Bool) :
    Decides (s.PaintsOwn s.velocityPainting .velocityPaint throws)
      (s.velocityPaintClose throws) := by
  rw [velocityPaintClose]
  cases hpainting : s.velocityPainting with
  | false => exact decides_of_flagged nofun h
  | true =>
    rw [if_pos rfl]
    refine decides_close h .velocityPaint nofun nofun (fun hnone => ?_) fun closed hclosed => ?_
    · rw [hnone]
    · have hflags := flags_of_gestureClose hclosed
      rw [hclosed]
      exact ⟨rfl, rfl, hflags⟩

/-- A gesture that is no drag is begun, or not. -/
theorem Flagged.begins (h : s.Flagged) (owner : GestureOwner) (hgoes : s.InProgress owner)
    (hroll : owner ≠ .rollDrag) (hplaylist : owner ≠ .playlistDrag) (throws : Bool) :
    ((s.gestureBegin owner throws).getD s).Flagged := by
  rcases s.gestureBegin_cases owner throws with ⟨hbegin, -⟩ | ⟨hbegin, -, hopened⟩
  · rw [hbegin]
    exact h
  obtain ⟨hroll', hplaylist'⟩ := h.flags_of_none hopened
  rw [hbegin]
  exact h.begin rfl rfl (by simp [hroll, hroll']) (by simp [hplaylist, hplaylist']) hgoes

/-- A paint flag goes up; whatever is open goes on. -/
theorem Flagged.beginVelocityPaint (h : s.Flagged) (throws : ℕ → Bool) :
    (s.beginVelocityPaint throws).Flagged := by
  rw [GestureState.beginVelocityPaint]
  split_ifs with hpainting
  · exact h
  have hset : ({ s with velocityPainting := true } : GestureState).Flagged := by
    refine h.keep rfl rfl rfl rfl fun owner howner => ?_
    have hgoes := h.inProgress owner howner
    cases owner with
    | velocityPaint => rfl
    | rollDrag | playlistDrag | paint | method => exact hgoes
  exact hset.begins .velocityPaint rfl nofun nofun (throws 0)

/-- The paint is begun, whether or not the engine lets it. -/
theorem Flagged.paint (h : s.Flagged) (throws : Bool) :
    ((({ s with painting := true } : GestureState).gestureBegin .paint throws).getD
      { s with painting := true }).Flagged := by
  have hset : ({ s with painting := true } : GestureState).Flagged := by
    refine h.keep rfl rfl rfl rfl fun owner howner => ?_
    have hgoes := h.inProgress owner howner
    cases owner with
    | paint => rfl
    | rollDrag | playlistDrag | velocityPaint | method => exact hgoes
  exact hset.begins .paint rfl nofun nofun throws

theorem decides_beginPaint (h : s.Flagged) (throws : ℕ → Bool) :
    Decides (s.PaintsOwn s.painting .paint throws) (s.beginPaint throws) := by
  have hclose := decides_paintClose h throws
  rw [beginPaint]
  cases hstopped : s.paintClose (throws 0) with
  | none =>
    rw [hstopped] at hclose
    exact hclose
  | some stopped =>
    rw [hstopped, Option.getD_some] at hclose
    dsimp only
    by_cases hread : (s.painting && throws 1) = true
    · rw [if_pos hread]
      exact hclose
    rw [if_neg hread]
    refine ⟨fun hcareful => (hclose.1 hcareful).paint (throws 2), fun hnot howned => ?_⟩
    -- what was closed and was not its own stays among the closed
    have hkept : ∀ closing ∈ stopped.closed, closing.1 = closing.2 := by
      intro closing hclosing
      refine howned.closed closing ?_
      rw [gestureBegin]
      split_ifs <;> exact hclosing
    have hopened : stopped.opened = none := by
      rw [paintClose] at hstopped
      split_ifs at hstopped with hpainting
      · obtain ⟨closed, hclosed, rfl⟩ := Option.map_eq_some_iff.1 hstopped
        rw [gestureClose] at hclosed
        split at hclosed
        · cases hclosed
        · obtain ⟨-, hclosed⟩ := Option.ite_none_left_eq_some.1 hclosed
          obtain rfl := Option.some_inj.1 hclosed
          rfl
      · exact absurd (fun hpaint => absurd hpaint hpainting) hnot
    refine hclose.2 hnot ⟨hkept, fun owner howner => ?_⟩
    rw [hopened] at howner
    cases howner

/-! ### Runs -/

/-- **A step is careful or breaks what is asked.** -/
theorem decides_step (h : s.Flagged) (call : GestureCall) :
    Decides (s.Careful call) (s.step call) := by
  obtain ⟨method, throws⟩ := call
  cases method with
  | rollBegin kind => exact decides_of_flagged trivial (h.rollBegin kind throws)
  | rollMarquee => exact decides_of_flagged trivial (h.setRollKind nofun)
  | rollEndDrag | rollCancelDrag => exact decides_rollClose h throws
  | rollPaste notes => exact decides_rollPaste h notes throws
  | beginClipDrag kind => exact decides_of_flagged trivial (h.beginClipDrag kind throws)
  | beginMarquee => exact decides_of_flagged trivial (h.setClipKind fun _ => nofun)
  | endMarquee => exact decides_endMarquee h
  | endClipDrag | cancelClipDrag => exact decides_clipClose h throws
  | grouped edits => exact decides_grouped h edits throws
  | beginPaint => exact decides_beginPaint h throws
  | commitPaint | abortPaint => exact decides_paintClose h throws
  | beginVelocityPaint => exact decides_of_flagged trivial (h.beginVelocityPaint throws)
  | commitVelocityPaint | abortVelocityPaint => exact decides_velocityPaintClose h throws
  | other => exact decides_of_flagged trivial h

theorem flagged_start : ({} : GestureState).Flagged where
  closed := nofun
  inProgress := nofun
  roll := by decide
  playlist := by decide

/-- **Every gesture is closed by what opened it, and in time**, in every state of a run, exactly
when every step of it is careful. -/
theorem owned_iff {calls : List GestureCall} (hrun : system.run {} calls = some s) :
    (∀ before s', before <+: calls → system.run {} before = some s' → s'.Owned) ↔
      ∀ before call s', before ++ [call] <+: calls → system.run {} before = some s' →
        s'.Careful call := by
  have hstep (before : List GestureCall) (s : GestureState) (call : GestureCall)
      (s' : GestureState) (_ : system.run {} before = some s) (h : s.Flagged)
      (hcall : system.step s call = some s') : s'.Flagged ↔ s.Careful call := by
    obtain rfl := Option.some_inj.1 hcall
    refine ⟨fun hafter => ?_, (decides_step h call).1⟩
    by_contra hnot
    exact (decides_step h call).2 hnot hafter.toOwned
  have hflagged := system.always_iff Flagged Careful flagged_start hstep hrun
  rw [← hflagged]
  constructor
  · intro howned before s' hpre hbefore
    induction before using List.reverseRecOn generalizing s' with
    | nil =>
      obtain rfl := Option.some_inj.1 hbefore
      exact flagged_start
    | append_singleton before call ih =>
      obtain ⟨t, ht, hstep⟩ := TransitionSystem.run_concat_eq_some.1 hbefore
      have hprevious := ih t ((List.prefix_append _ _).trans hpre) ht
      have hafter := howned _ s' hpre hbefore
      obtain rfl := Option.some_inj.1 hstep
      by_contra hnot
      refine hnot ((decides_step hprevious call).1 ?_)
      by_contra hcareless
      exact (decides_step hprevious call).2 hcareless hafter
  · exact fun h before s' hpre hbefore => (h before s' hpre hbefore).toOwned

/-- A paste of two notes, and then a drag that is dropped. -/
def pasteThenDrag : List GestureCall :=
  [⟨.rollPaste 2, fun _ => false⟩, ⟨.rollBegin .move, fun _ => false⟩,
    ⟨.rollCancelDrag, fun _ => false⟩]

theorem owned_iff_pasteThenDrag : ∃ s, system.run {} pasteThenDrag = some s ∧
    ((∀ before s', before <+: pasteThenDrag → system.run {} before = some s' → s'.Owned) ↔
      ∀ before call s', before ++ [call] <+: pasteThenDrag → system.run {} before = some s' →
        s'.Careful call) :=
  ⟨_, rfl, owned_iff rfl⟩

/-- **A paste ends the drag it is made in**; a paste in the rack that breaks off leaves its gesture
open; and a paint that could not be begun ends the drag of another store. -/
theorem not_owned : (∃ s, system.run {} [⟨.rollBegin .move, fun _ => false⟩,
      ⟨.rollPaste 1, fun _ => false⟩] = some s ∧ ¬s.Owned) ∧
    (∃ s, system.run {} [⟨.grouped 2, fun k => k == 1⟩] = some s ∧ ¬s.Owned) ∧
    ∃ s, system.run {} [⟨.beginClipDrag .move, fun _ => false⟩, ⟨.beginPaint, fun _ => false⟩,
      ⟨.commitPaint, fun _ => false⟩] = some s ∧ ¬s.Owned :=
  ⟨⟨_, rfl, not_owned_of_closed (List.mem_cons_self ..) nofun⟩, ⟨_, rfl, not_owned_of_method rfl⟩,
    ⟨_, rfl, not_owned_of_closed (List.mem_cons_self ..) nofun⟩⟩

end GestureState

end OneBeat
