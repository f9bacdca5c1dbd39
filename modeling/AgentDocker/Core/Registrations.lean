import AgentDocker.Core.Lease
import Mathlib.Data.List.Dedup

/-!
# Registrations of one provider session

A session that is resumed after its agent ended registers again under another
agent, so one session has several registrations, each a key and the instant it
was made. A sample of the session belongs to the registration current when it
was made. `registrationAt` asks that for one instant; `registrationWindows`
lists the span of instants each registration owns, for the pass that attributes
samples counted before anybody registered.
-/

namespace AgentDocker.Core

variable {K : Type}

variable (registrations : List (K × Time))

/-- The registration made at an instant. Two made at the same one cannot be
told apart, and neither is it. -/
def soleAt (time : Time) : Option K :=
  match registrations.filter fun r => decide (r.2 = time) with
  | [(key, _)] => some key
  | _ => none

/-- The latest instant at or before `now`, or the first of all. -/
def currentAt (times : List Time) (now : Time) : Option Time :=
  (times.filter fun time => decide (time ≤ now)).max?.or times.min?

/-- Which registration a sample produced at `now` belongs to. -/
def registrationAt (now : Time) : Option K :=
  (currentAt (registrations.map Prod.snd) now).bind (soleAt registrations)

/-- The span `[since, upTo)` of sample times a registration owns, open where
there is no bound. -/
structure Window (K : Type) where
  key : K
  since : Option Time
  upTo : Option Time
deriving DecidableEq, Repr

def Window.contains (w : Window K) (now : Time) : Bool :=
  w.since.all (fun since => decide (since ≤ now)) && w.upTo.all fun upTo => decide (now < upTo)

/-- The instants of the registrations, sorted and each once: in a sorted list
what is repeated stands together. -/
def windowTimes : List Time :=
  ((registrations.map Prod.snd).insertionSort (· ≤ ·)).dedup

/-- The window of the `i`th instant, unless it is nobody's: the first also owns
everything before it. -/
def windowOf (time : Time) (i : Nat) : Option (Window K) :=
  (soleAt registrations time).map fun key =>
    ⟨key, if 0 < i then some time else none, (windowTimes registrations)[i + 1]?⟩

def registrationWindows : List (Window K) :=
  (windowTimes registrations).zipIdx.filterMap fun p => windowOf registrations p.1 p.2

/-- Whose a sample nobody had is after a pass over the windows: the first that
contains it takes it, and a sample that is somebody's is not taken again. -/
def reconciled (windows : List (Window K)) (now : Time) : Option K :=
  windows.foldl (fun held w => held.or (if w.contains now then some w.key else none)) none

end AgentDocker.Core
