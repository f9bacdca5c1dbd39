import AgentDocker.Core.Board
import AgentDocker.Lib.Outcomes

/-!
# The shape of a board

What the person may change of a board: its name, its lanes, the lane agents
pull from and the one they pull into. A shape is checked before a board takes
it, and cards that are in lanes it no longer has stay as they are.
-/

namespace AgentDocker.Core

open Lib

structure NamedLane extends Lane where
  /-- What it is called, trimmed. -/
  name : String
deriving DecidableEq, Repr

structure Shape where
  name : String
  lanes : List NamedLane
  /-- The lane agents pull from. -/
  pullSource : String
  /-- The lane a pull puts a card in. -/
  pullTarget : String
deriving DecidableEq, Repr

def lanesMax : Nat := 16

def slugChars : Nat := 32

def nameChars : Nat := 40

def validSlug (slug : String) : Bool :=
  decide (slug ≠ "") && decide (slug.length ≤ slugChars) &&
    slug.toList.all fun c => c.isLower || c.isDigit || c == '-' || c == '_'

def validName (name : String) : Bool := decide (name ≠ "") && decide (name.length ≤ nameChars)

namespace Shape

def lane (shape : Shape) (slug : String) : Option NamedLane :=
  shape.lanes.find? fun l => decide (l.slug = slug)

def checkLanes : List NamedLane → List String → Except String Unit
  | [], _ => .ok ()
  | lane :: rest, seen => do
      require (validSlug lane.slug) "a lane's slug is lowercase letters, digits, - and _"
      require (decide (lane.slug ∉ seen)) "two lanes have the same slug"
      require (validName lane.name) "a lane's name is one to forty characters"
      checkLanes rest (lane.slug :: seen)

/-- Whether a slug names a lane of a category. -/
def isLane (shape : Shape) (slug : String) (category : Column) : Bool :=
  (shape.lane slug).any fun l => decide (l.category = category)

/-- Lanes that make sense together: some, not too many, each slug once and well
formed; a pull source that is a Ready lane and a pull target that is an In
progress lane; somewhere for a card to be done. -/
def check (shape : Shape) (slug : String) : Except String Unit := do
  require (validName shape.name) "a board's name is one to forty characters"
  require (validSlug slug) "a board's slug is lowercase letters, digits, - and _"
  require (!shape.lanes.isEmpty && decide (shape.lanes.length ≤ lanesMax))
    "a board has one to sixteen lanes"
  checkLanes shape.lanes []
  require (shape.isLane shape.pullSource .ready) "the pull source is a Ready lane on the board"
  require (shape.isLane shape.pullTarget .inProgress)
    "the pull target is an In progress lane on the board"
  require (shape.lanes.any fun l => decide (l.category = .done)) "a board has a Done lane"

/-- What a shape that passes its check is. -/
structure Sound (shape : Shape) : Prop where
  lanes_ne : shape.lanes ≠ []
  slugs : (shape.lanes.map fun l => l.slug).Nodup
  source : ∃ l ∈ shape.lanes, l.slug = shape.pullSource ∧ l.category = .ready
  target : ∃ l ∈ shape.lanes, l.slug = shape.pullTarget ∧ l.category = .inProgress
  done : ∃ l ∈ shape.lanes, l.category = .done

theorem checkLanes_ok {lanes : List NamedLane} {seen : List String}
    (h : checkLanes lanes seen = .ok ()) :
    (lanes.map fun l => l.slug).Nodup ∧ ∀ l ∈ lanes, l.slug ∉ seen := by
  induction lanes generalizing seen with
  | nil => simp
  | cons _ _ ih =>
    simp only [checkLanes, bind_eq_ok, require_ok, exists_const, decide_eq_true_eq] at h
    obtain ⟨-, hnew, -, h⟩ := h
    obtain ⟨hnodup, hrest⟩ := ih h
    simp only [List.mem_cons, not_or] at hrest
    refine ⟨List.nodup_cons.mpr ⟨fun hmem => ?_, hnodup⟩,
      List.forall_mem_cons.mpr ⟨hnew, fun l hl => (hrest l hl).2⟩⟩
    obtain ⟨l, hl, heq⟩ := List.mem_map.mp hmem
    exact (hrest l hl).1 heq

theorem exists_of_isLane {shape : Shape} {slug : String} {category : Column}
    (h : shape.isLane slug category = true) :
    ∃ l ∈ shape.lanes, l.slug = slug ∧ l.category = category := by
  unfold isLane lane at h
  cases hfind : shape.lanes.find? fun l => decide (l.slug = slug) with
  | none => simp [hfind] at h
  | some l =>
    rw [hfind] at h
    exact ⟨l, List.mem_of_find?_eq_some hfind, by simpa using List.find?_some hfind,
      by simpa using h⟩

theorem check_ok {shape : Shape} {slug : String} (h : shape.check slug = .ok ()) :
    shape.Sound := by
  simp only [check, bind_eq_ok, require_ok, exists_const, Bool.and_eq_true] at h
  obtain ⟨-, -, ⟨hsome, -⟩, _, hlanes, hsource, htarget, hdone⟩ := h
  refine ⟨by simpa using hsome, (checkLanes_ok hlanes).1, exists_of_isLane hsource,
    exists_of_isLane htarget, by simpa using hdone⟩

end Shape

namespace Board

/-- The board in another shape. -/
def reshape (b : Board) (shape : Shape) (h : shape.lanes ≠ []) : Board :=
  { b with
    lanes := shape.lanes.map NamedLane.toLane
    lanes_ne := by simpa using h
    pullTarget := shape.pullTarget }

/-- The board a project has before anybody shapes it: the classic lanes, called
main. Agents pull from its Ready lane. -/
def classic (project : ProjectId) (keyPrefix : String) : Board where
  project := project
  slug := main
  lanes := [⟨"backlog", .backlog⟩, ⟨"ready", .ready⟩, ⟨"in_progress", .inProgress⟩,
    ⟨"review", .review⟩, ⟨"done", .done⟩]
  lanes_ne := by simp
  pullTarget := "in_progress"
  keyPrefix := keyPrefix
  lastKey := 0

/-- No two lanes of one slug. -/
def Distinct (b : Board) : Prop := (b.lanes.map Lane.slug).Nodup

theorem reshape_distinct {b : Board} {shape : Shape} (h : shape.Sound) :
    (b.reshape shape h.lanes_ne).Distinct := by
  show ((shape.lanes.map NamedLane.toLane).map Lane.slug).Nodup
  rw [List.map_map]
  exact h.slugs

theorem classic_distinct (project : ProjectId) (keyPrefix : String) :
    (classic project keyPrefix).Distinct := by
  show (["backlog", "ready", "in_progress", "review", "done"] : List String).Nodup
  decide

variable {b : Board}

theorem lane_eq_some (hb : b.Distinct) {l : Lane} (hl : l ∈ b.lanes) : b.lane l.slug = some l := by
  cases hfind : b.lane l.slug with
  | none =>
    have := List.find?_eq_none.mp hfind l hl
    simp at this
  | some k =>
    have hk : k.slug = l.slug := by simpa using List.find?_some hfind
    rw [List.inj_on_of_nodup_map hb (List.mem_of_find?_eq_some hfind) hl hk]

/-- A lane a card is drawn in is one of the board's. -/
theorem laneOf_mem (lane : Option String) (column : Column) : b.laneOf lane column ∈ b.lanes := by
  unfold laneOf
  cases hown : (lane.bind b.lane).filter fun l => decide (l.category = column) with
  | some =>
    obtain ⟨hbind, -⟩ := Option.filter_eq_some_iff.mp hown
    obtain ⟨_, -, hlane⟩ := Option.bind_eq_some_iff.mp hbind
    exact List.mem_of_find?_eq_some hlane
  | none =>
    cases hfirst : b.first column with
    | some => exact List.mem_of_find?_eq_some hfirst
    | none => exact List.head_mem _

/-- A card with a lane of its own category is drawn there. -/
theorem laneOf_own (hb : b.Distinct) {l : Lane} (hl : l ∈ b.lanes) :
    b.laneOf (some l.slug) l.category = l := by
  unfold laneOf
  rw [Option.bind_some, lane_eq_some hb hl, Option.filter_some]
  simp

end Board

end AgentDocker.Core
