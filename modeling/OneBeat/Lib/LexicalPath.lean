import Mathlib.Data.List.Basic
import Mathlib.Data.List.Infix

/-!
# Lexical paths

A path is text, and its components are what stands between the slashes.  From a directory it is
walked one component at a time, without a look at what there is on the disk: an empty component and
`.` stay, `..` goes up, and any other goes down.

* `join` : a path put onto a directory; an absolute one takes its place.
* `stays` : the path is relative and never goes above where it started.
* `prefix_join_iff` : that is what keeps it in a directory whose name it does not know.
-/

namespace OneBeat

namespace LexicalPath

/-- A component of a path. -/
abbrev Component := List Char

/-- The names from the root down. -/
abbrev Location := List Component

def components (text : List Char) : List Component := text.splitOn '/'

def isAbsolute (text : List Char) : Bool := text.head? = some '/'

/-- One component further. -/
def enter (location : Location) (component : Component) : Location :=
  if component = [] ∨ component = ['.'] then location
  else if component = ['.', '.'] then location.dropLast
  else location ++ [component]

def follow (location : Location) (path : List Component) : Location := path.foldl enter location

/-- Where the walk along a path starts. -/
def start (base : Location) (text : List Char) : Location := if isAbsolute text then [] else base

/-- `base / text`. -/
def join (base : Location) (text : List Char) : Location :=
  follow (start base text) (components text)

/-- The walk does not go above where it started, `depth` names up. -/
def staysFrom : ℕ → List Component → Bool
  | _, [] => true
  | depth, component :: path =>
    if component = [] ∨ component = ['.'] then staysFrom depth path
    else if component = ['.', '.'] then decide (0 < depth) && staysFrom (depth - 1) path
    else staysFrom (depth + 1) path

/-- A relative path that does not go above where it started. -/
def stays (text : List Char) : Bool := !isAbsolute text && staysFrom 0 (components text)

variable {base location : Location} {path : List Component} {text : List Char}

theorem staysFrom_take {depth : ℕ} (h : staysFrom depth path = true) (count : ℕ) :
    staysFrom depth (path.take count) = true := by
  induction path generalizing depth count with
  | nil => rw [List.take_nil]; exact h
  | cons component path ih =>
    cases count with
    | zero => rfl
    | succ count =>
      rw [List.take_succ_cons]
      rw [staysFrom] at h ⊢
      split_ifs at h ⊢ with hstay hup
      · exact ih h count
      · rw [Bool.and_eq_true] at h ⊢
        exact ⟨h.1, ih h.2 count⟩
      · exact ih h count

/-- A walk that stays is below where it started. -/
theorem prefix_follow {below : Location} (h : staysFrom below.length path = true) :
    base <+: follow (base ++ below) path := by
  induction path generalizing below with
  | nil => exact List.prefix_append base below
  | cons component path ih =>
    rw [follow, List.foldl_cons]
    rw [staysFrom] at h
    rw [enter]
    split_ifs at h ⊢ with hstay hup
    · exact ih h
    · -- up: there is something below to leave
      cases below using List.reverseRecOn with
      | nil => cases h
      | append_singleton below name =>
        rw [List.length_append, List.length_singleton, Bool.and_eq_true] at h
        rw [← List.append_assoc, List.dropLast_concat]
        exact ih h.2
    · rw [List.append_assoc]
      refine ih ?_
      rw [List.length_append]
      exact h

theorem prefix_follow_take (h : staysFrom 0 path = true) (count : ℕ) :
    base <+: follow base (path.take count) := by
  have hfollow : base <+: follow (base ++ []) (path.take count) := prefix_follow (staysFrom_take h count)
  rwa [List.append_nil] at hfollow

theorem prefix_join (h : stays text = true) : base <+: join base text := by
  obtain ⟨habsolute, hstays⟩ := Bool.and_eq_true_iff.1 h
  rw [Bool.not_eq_true'] at habsolute
  rw [join, start, habsolute]
  have hfollow : base <+: follow base ((components text).take (components text).length) :=
    prefix_follow_take hstays _
  rwa [List.take_length] at hfollow

/-- A name that is not on the path is not come to. -/
theorem follow_getElem?_ne {name : Component} (hname : name ∉ path) {index : ℕ}
    (h : location[index]? ≠ some name) : (follow location path)[index]? ≠ some name := by
  induction path generalizing location with
  | nil => exact h
  | cons component path ih =>
    obtain ⟨hne, hpath⟩ := not_or.1 (List.mem_cons.not.1 hname)
    rw [follow, List.foldl_cons]
    refine ih hpath ?_
    rw [enter]
    split_ifs with hstay hup
    · exact h
    · rw [List.getElem?_dropLast]
      split_ifs
      · exact h
      · exact nofun
    · rcases lt_trichotomy index location.length with hlt | heq | hgt
      · rwa [List.getElem?_append_left hlt]
      · subst heq
        rw [List.getElem?_concat_length]
        exact fun heq => hne (Option.some.inj heq).symm
      · rw [List.getElem?_eq_none (by rw [List.length_append, List.length_singleton]; omega)]
        exact nofun

/-- A walk that goes above a directory does not come back to it, unless it knows its name. -/
theorem staysFrom_of_prefix {name : Component} (hname : name ∉ path) {below : Location}
    (h : base ++ [name] <+: follow (base ++ [name] ++ below) path) :
    staysFrom below.length path = true := by
  induction path generalizing below with
  | nil => rfl
  | cons component path ih =>
    obtain ⟨-, hpath⟩ := not_or.1 (List.mem_cons.not.1 hname)
    rw [follow, List.foldl_cons, enter] at h
    rw [staysFrom]
    split_ifs at h ⊢ with hstay hup
    · exact ih hpath h
    · cases below using List.reverseRecOn with
      | nil =>
        -- the walk has left the directory
        have hat : (follow base path)[base.length]? = some name := by
          rw [List.append_nil, List.dropLast_concat] at h
          obtain ⟨rest, hrest⟩ := h
          have hrest : base ++ [name] ++ rest = follow base path := hrest
          rw [← hrest, List.append_assoc, List.getElem?_append_right le_rfl, Nat.sub_self]
          rfl
        exact absurd hat (follow_getElem?_ne hpath (by rw [List.getElem?_eq_none le_rfl]; exact nofun))
      | append_singleton below last =>
        rw [← List.append_assoc, List.dropLast_concat] at h
        rw [List.length_append, List.length_singleton, Bool.and_eq_true, decide_eq_true_eq]
        exact ⟨Nat.succ_pos _, ih hpath h⟩
    · rw [List.append_assoc] at h
      have := ih hpath h
      rwa [List.length_append] at this

/-- **A path stays in a directory whose name is not on it exactly when it never goes above it.** -/
theorem prefix_join_iff {name : Component} (hname : name ∉ components text) :
    base ++ [name] <+: join (base ++ [name]) text ↔ stays text = true := by
  refine ⟨fun h => ?_, prefix_join⟩
  rw [join, start] at h
  rw [stays, Bool.and_eq_true, Bool.not_eq_true']
  cases habsolute : isAbsolute text with
  | true =>
    rw [habsolute, if_pos rfl] at h
    -- from the root the name of the directory would have to be on the path
    obtain ⟨rest, hrest⟩ := h
    have hat : (follow [] (components text))[base.length]? = some name := by
      rw [← hrest, List.append_assoc, List.getElem?_append_right le_rfl, Nat.sub_self]
      rfl
    exact absurd hat (follow_getElem?_ne hname nofun)
  | false =>
    rw [habsolute] at h
    have hbelow : base ++ [name] <+: follow (base ++ [name] ++ []) (components text) := by
      rwa [List.append_nil]
    exact ⟨rfl, staysFrom_of_prefix hname hbelow⟩

/-- Names that are long enough are not on a path. -/
theorem exists_notMem (path : List Component) :
    ∃ length, ∀ name : Component, length < name.length → name ∉ path := by
  induction path with
  | nil => exact ⟨0, fun _ _ => List.not_mem_nil⟩
  | cons component path ih =>
    obtain ⟨length, hlength⟩ := ih
    refine ⟨max component.length length, fun name hlong hmem => ?_⟩
    rcases List.mem_cons.1 hmem with rfl | hmem
    · exact absurd hlong (not_lt.2 (le_max_left _ _))
    · exact hlength name (lt_of_le_of_lt (le_max_right _ _) hlong) hmem

end LexicalPath

end OneBeat
