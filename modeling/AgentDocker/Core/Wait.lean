import AgentDocker.Core.Lease
import AgentDocker.Lib.Search

/-!
# Who is waiting for what, and whether that can ever finish

Waiting is a fact the daemon keeps: a queue of waiters, served by priority and
then by arrival, and beside it the waits that were ended to break a ring and
that their claims have not read yet.

Three things hold of every queue and are fields of it: it stands in the order
it is served in, tickets are handed out once, and a wait that was ended is not
also queued. The first is why the source may place a newcomer by binary
search; here a newcomer is put before the first waiter it is served ahead of.

The deadlock check is a depth-first search over the lease table and the queue.
Its recursion visits an agent at most once, so fuel for every lease is enough,
and it is the search of `Lib.Search` read over agents: `walk_eq_search`.
-/

namespace AgentDocker.Core

open Lib Keyed

def minPriority : Int := -9

def maxPriority : Int := 9

def validPriority (priority : Int) : Bool :=
  decide (minPriority ≤ priority) && decide (priority ≤ maxPriority)

structure Waiter where
  ticket : Nat
  agent : AgentId
  resource : ResourceKey
  mode : LeaseMode
  since : Time
  priority : Int
deriving DecidableEq, Repr

namespace Waiter

/-- Served before: higher priority first, then arrival. -/
def aheadOf (w v : Waiter) : Bool :=
  decide (v.priority < w.priority) ||
    (decide (w.priority = v.priority) && decide (w.ticket < v.ticket))

theorem aheadOf_iff {w v : Waiter} :
    w.aheadOf v = true ↔
      v.priority < w.priority ∨ (w.priority = v.priority ∧ w.ticket < v.ticket) := by
  simp [aheadOf]

/-- The order a queue stands in. -/
def before (w v : Waiter) : Prop := v.aheadOf w = false

instance (w v : Waiter) : Decidable (w.before v) :=
  inferInstanceAs (Decidable (_ = _))

theorem before_iff {w v : Waiter} :
    w.before v ↔ v.priority < w.priority ∨ (w.priority = v.priority ∧ w.ticket ≤ v.ticket) := by
  rw [before, ← Bool.not_eq_true, aheadOf_iff]
  omega

instance : Std.Total before :=
  ⟨fun w v => by rw [before_iff, before_iff]; omega⟩

instance : IsTrans Waiter before :=
  ⟨fun w v u => by rw [before_iff, before_iff, before_iff]; omega⟩

/-- Whether `other` stands in `mine`'s way: it wants something that overlaps,
and one of them wants it exclusively. -/
def blocks (other mine : Waiter) : Bool :=
  other.resource.overlaps mine.resource &&
    (other.mode == .exclusive || mine.mode == .exclusive)

end Waiter

/-- One step of a deadlock: an agent, what it waits for, and who holds it. -/
structure Blocked where
  agent : AgentId
  resource : ResourceKey
  heldBy : AgentId
deriving DecidableEq, Repr

structure WaitQueue where
  waiters : Keyed Waiter.ticket
  /-- Waits ended to break a ring, until their claims read it or leave. -/
  broken : Keyed (Prod.fst : Nat × List Blocked → Nat)
  nextTicket : Nat
  sorted : waiters.rows.Pairwise Waiter.before
  fresh : ∀ w ∈ waiters, w.ticket < nextTicket
  brokenFresh : ∀ b ∈ broken, b.1 < nextTicket
  apart : ∀ w ∈ waiters, ∀ b ∈ broken, w.ticket ≠ b.1

namespace WaitQueue

def new : WaitQueue where
  waiters := .empty
  broken := .empty
  nextTicket := 0
  sorted := List.Pairwise.nil
  fresh := by simp
  brokenFresh := by simp
  apart := by simp

/-- A newcomer among waiters who all came before it. -/
def place (waiters : Keyed Waiter.ticket) (w : Waiter)
    (h : ∀ v ∈ waiters, v.ticket < w.ticket) : Keyed Waiter.ticket where
  rows := waiters.rows.orderedInsert Waiter.before w
  nodup := by
    rw [((List.perm_orderedInsert Waiter.before w waiters.rows).map _).nodup_iff]
    rw [List.map_cons, List.nodup_cons]
    refine ⟨fun hmem => ?_, waiters.nodup⟩
    obtain ⟨v, hv, _⟩ := List.mem_map.mp hmem
    have := h v hv
    omega

@[simp] theorem mem_place {waiters : Keyed Waiter.ticket} {w v : Waiter}
    {h : ∀ v ∈ waiters, v.ticket < w.ticket} :
    v ∈ place waiters w h ↔ v = w ∨ v ∈ waiters :=
  List.mem_orderedInsert _

/-- Take a place: behind every waiter of the same or a higher priority, ahead
of every lower one. -/
def join (q : WaitQueue) (agent : AgentId) (resource : ResourceKey) (mode : LeaseMode)
    (priority : Int) (now : Time) : WaitQueue × Nat :=
  let w : Waiter := ⟨q.nextTicket, agent, resource, mode, now, priority⟩
  ({ waiters := place q.waiters w q.fresh
     broken := q.broken
     nextTicket := q.nextTicket + 1
     sorted := q.sorted.orderedInsert w
     fresh := by
       intro v hv
       rcases mem_place.mp hv with rfl | hv
       · exact Nat.lt_succ_self _
       · exact Nat.lt_succ_of_lt (q.fresh v hv)
     brokenFresh := fun b hb => Nat.lt_succ_of_lt (q.brokenFresh b hb)
     apart := by
       intro v hv b hb
       rcases mem_place.mp hv with rfl | hv
       · exact Nat.ne_of_gt (q.brokenFresh b hb)
       · exact q.apart v hv b hb }, q.nextTicket)

section

variable (q : WaitQueue) (ticket : Nat)

/-- Give up a place, whatever ended the wait. -/
def leave : WaitQueue × Option Waiter :=
  ({ q with
     waiters := q.waiters.erase ticket
     broken := q.broken.erase ticket
     sorted := q.sorted.sublist List.filter_sublist
     fresh := fun w hw => q.fresh w (mem_erase.mp hw).1
     brokenFresh := fun b hb => q.brokenFresh b (mem_erase.mp hb).1
     apart := fun w hw b hb =>
       q.apart w (mem_erase.mp hw).1 b (mem_erase.mp hb).1 },
    q.waiters.get? ticket)

/-- End a wait to break a ring: it leaves the queue, and the ring is kept for
its claim to read. -/
def breakRing (cycle : List Blocked) : WaitQueue × Option Waiter :=
  match h : q.waiters.get? ticket with
  | none => (q, none)
  | some waiter =>
    ({ q with
       waiters := q.waiters.erase ticket
       broken := q.broken.insert (ticket, cycle)
       sorted := q.sorted.sublist List.filter_sublist
       fresh := fun w hw => q.fresh w (mem_erase.mp hw).1
       brokenFresh := by
         intro b hb
         rcases mem_insert.mp hb with rfl | ⟨hb, -⟩
         · obtain ⟨hmem, ht⟩ := get?_eq_some.mp h
           exact ht ▸ q.fresh waiter hmem
         · exact q.brokenFresh b hb
       apart := by
         intro w hw b hb
         obtain ⟨hw, hne⟩ := mem_erase.mp hw
         rcases mem_insert.mp hb with rfl | ⟨hb, -⟩
         · exact hne
         · exact q.apart w hw b hb }, some waiter)

/-- The ring this ticket's wait was ended to break, if it was. -/
def deadlocked : Option (List Blocked) :=
  (q.broken.get? ticket).map Prod.snd

/-- How many waiters are ahead of this one and in its way. -/
def position : Option Nat :=
  (q.waiters.get? ticket).map fun mine =>
    q.waiters.rows.countP fun other => other.aheadOf mine && other.blocks mine

def isNext : Bool :=
  q.position ticket == some 0

end

def all (q : WaitQueue) : List Waiter := q.waiters.rows

/-! ## What the operations do to the queue -/

variable {q : WaitQueue} {ticket : Nat} {w : Waiter}

@[simp] theorem mem_join {agent : AgentId} {resource : ResourceKey} {mode : LeaseMode}
    {priority : Int} {now : Time} :
    w ∈ (q.join agent resource mode priority now).1.waiters ↔
      w = ⟨q.nextTicket, agent, resource, mode, now, priority⟩ ∨ w ∈ q.waiters :=
  List.mem_orderedInsert _

@[simp] theorem mem_leave : w ∈ (q.leave ticket).1.waiters ↔ w ∈ q.waiters ∧ w.ticket ≠ ticket :=
  mem_erase

@[simp] theorem mem_leave_broken {b : Nat × List Blocked} :
    b ∈ (q.leave ticket).1.broken ↔ b ∈ q.broken ∧ b.1 ≠ ticket :=
  mem_erase

/-- What ending a queued wait leaves. -/
theorem breakRing_some (cycle : List Blocked) (h : q.waiters.get? ticket = some w) :
    (q.breakRing ticket cycle).2 = some w ∧
      (q.breakRing ticket cycle).1.waiters = q.waiters.erase ticket ∧
      (q.breakRing ticket cycle).1.broken = q.broken.insert (ticket, cycle) ∧
      (q.breakRing ticket cycle).1.nextTicket = q.nextTicket := by
  unfold breakRing
  split
  · next hnone => rw [h] at hnone; cases hnone
  next v hsome =>
  rw [h] at hsome
  cases hsome
  exact ⟨rfl, rfl, rfl, rfl⟩

theorem deadlocked_eq_some {cycle : List Blocked} :
    q.deadlocked ticket = some cycle ↔ (ticket, cycle) ∈ q.broken := by
  rw [deadlocked, Option.map_eq_some_iff]
  constructor
  · rintro ⟨⟨_, _⟩, hget, rfl⟩
    obtain ⟨hmem, rfl⟩ := get?_eq_some.mp hget
    exact hmem
  · intro h
    exact ⟨(ticket, cycle), get?_eq_some.mpr ⟨h, rfl⟩, rfl⟩

/-- A waiter is next exactly when nobody ahead of it is in its way. -/
theorem isNext_iff (hw : w ∈ q.waiters) : q.isNext w.ticket = true ↔
      ∀ v ∈ q.waiters, v.aheadOf w = true → v.blocks w = false := by
  have hget : q.waiters.get? w.ticket = some w := get?_eq_some.mpr ⟨hw, rfl⟩
  rw [isNext, position, hget, Option.map_some, beq_iff_eq, Option.some.injEq, List.countP_eq_zero]
  constructor
  · intro h v hv hahead
    have := h v hv
    simpa [hahead] using this
  · intro h v hv
    by_cases hahead : v.aheadOf w = true
    · simp [h v hv hahead]
    · simp [hahead]

theorem isNext_mem (h : q.isNext ticket = true) : ∃ w ∈ q.waiters, w.ticket = ticket := by
  rw [isNext, position, beq_iff_eq, Option.map_eq_some_iff] at h
  obtain ⟨w, hget, -⟩ := h
  exact ⟨w, get?_eq_some.mp hget⟩

end WaitQueue

/-! ## Would waiting close a ring? -/

/-- What an agent waits for, by the map the source collects from the queue: a
later entry of the same agent replaces an earlier one. -/
def waitingOn (waits : List (AgentId × ResourceKey)) (agent : AgentId) : Option ResourceKey :=
  (waits.reverse.find? fun w => decide (w.1 = agent)).map Prod.snd

/-- An agent that waits for one thing waits for that. -/
theorem waitingOn_eq_some {waits : List (AgentId × ResourceKey)} {agent : AgentId}
    {resource : ResourceKey} (h : (agent, resource) ∈ waits)
    (hone : ∀ r, (agent, r) ∈ waits → r = resource) :
    waitingOn waits agent = some resource := by
  rw [waitingOn, Option.map_eq_some_iff]
  cases hf : waits.reverse.find? fun w => decide (w.1 = agent) with
  | none =>
    have := List.find?_eq_none.mp hf (agent, resource) (List.mem_reverse.mpr h)
    simp at this
  | some found =>
    obtain ⟨a, r⟩ := found
    have hmem := List.mem_reverse.mp (List.mem_of_find?_eq_some hf)
    have ha : a = agent := by simpa using List.find?_some hf
    rw [ha] at hmem
    exact ⟨(a, r), rfl, hone r hmem⟩

/-- The loop of one step of the search, over the leases not looked at yet. -/
def walkHolders (walk : AgentId → ResourceKey → List Blocked → List AgentId →
      Visit AgentId Blocked) (source : AgentId) (want : ResourceKey) (requester : AgentId)
    (waiting : AgentId → Option ResourceKey) :
    List (ResourceKey × AgentId) → List Blocked → List AgentId → Visit AgentId Blocked
  | [], path, seen => ⟨false, path, seen⟩
  | (held, holder) :: rest, path, seen =>
    if !held.overlaps want then
      walkHolders walk source want requester waiting rest path seen
    -- Holding something you also want is a renewal, not a deadlock.
    else if holder = source then
      walkHolders walk source want requester waiting rest path seen
    else
      let path := path ++ [⟨source, want, holder⟩]
      if holder = requester then
        ⟨true, path, seen⟩
      else if holder ∈ seen then
        walkHolders walk source want requester waiting rest path.dropLast seen
      else
        let seen := holder :: seen
        match waiting holder with
        | none => walkHolders walk source want requester waiting rest path.dropLast seen
        | some next =>
          let v := walk holder next path seen
          if v.found then v
          else walkHolders walk source want requester waiting rest v.path.dropLast v.seen

def walk (requester : AgentId) (holders : List (ResourceKey × AgentId))
    (waiting : AgentId → Option ResourceKey) :
    Nat → AgentId → ResourceKey → List Blocked → List AgentId → Visit AgentId Blocked
  | 0, _, _, path, seen => ⟨false, path, seen⟩
  | n + 1, source, want, path, seen =>
    walkHolders (walk requester holders waiting n) source want requester waiting holders
      path seen

def deadlock (requester : AgentId) (resource : ResourceKey)
    (holders : List (ResourceKey × AgentId)) (waits : List (AgentId × ResourceKey)) :
    Option (List Blocked) :=
  let v := walk requester holders (waitingOn waits) (holders.length + 1) requester resource
    [] [requester]
  if v.found then some v.path else none

/-! ## The search as a search -/

/-- What an agent wants when `requester` asks for `resource`. -/
def wants (requester : AgentId) (resource : ResourceKey)
    (waits : List (AgentId × ResourceKey)) (agent : AgentId) : Option ResourceKey :=
  if agent = requester then some resource else waitingOn waits agent

/-- The steps from an agent that wants something: to every other holder of
something that overlaps it, in table order. -/
def stepsFor (holders : List (ResourceKey × AgentId)) (agent : AgentId)
    (want : ResourceKey) : List (Blocked × AgentId) :=
  (holders.filter fun h => h.1.overlaps want && decide (h.2 ≠ agent)).map
    fun h => (⟨agent, want, h.2⟩, h.2)

def stepsFrom (requester : AgentId) (resource : ResourceKey)
    (holders : List (ResourceKey × AgentId)) (waits : List (AgentId × ResourceKey))
    (agent : AgentId) : List (Blocked × AgentId) :=
  match wants requester resource waits agent with
  | none => []
  | some want => stepsFor holders agent want

theorem mem_stepsFor {holders : List (ResourceKey × AgentId)} {agent b : AgentId}
    {want : ResourceKey} {e : Blocked} :
    (e, b) ∈ stepsFor holders agent want ↔ e = ⟨agent, want, b⟩ ∧ b ≠ agent ∧
        ∃ held, (held, b) ∈ holders ∧ held.overlaps want = true := by
  simp only [stepsFor, List.mem_map, List.mem_filter, Prod.mk.injEq, Bool.and_eq_true,
    decide_eq_true_eq]
  constructor
  · rintro ⟨⟨held, _⟩, ⟨hmem, hov, hne⟩, rfl, rfl⟩
    exact ⟨rfl, hne, held, hmem, hov⟩
  · rintro ⟨rfl, hne, held, hmem, hov⟩
    exact ⟨(held, b), ⟨hmem, hov, hne⟩, rfl, rfl⟩

theorem stepsFor_append (holders more : List (ResourceKey × AgentId)) (agent : AgentId)
    (want : ResourceKey) :
    stepsFor (holders ++ more) agent want =
      stepsFor holders agent want ++ stepsFor more agent want := by
  simp [stepsFor]

theorem stepsFor_cons {held want : ResourceKey} {agent b : AgentId}
    (rest : List (ResourceKey × AgentId)) (hov : held.overlaps want = true) (hne : b ≠ agent) :
    stepsFor ((held, b) :: rest) agent want =
      (⟨agent, want, b⟩, b) :: stepsFor rest agent want := by
  simp [stepsFor, hov, hne]

section Search

variable {requester : AgentId} {resource : ResourceKey}
    {holders : List (ResourceKey × AgentId)} {waits : List (AgentId × ResourceKey)}

/-- One agent's loop is the scan of its steps, given that the walk from an
agent that waits is the search from it. -/
theorem walkHolders_eq_scan {n : Nat}
    {walk : AgentId → ResourceKey → List Blocked → List AgentId → Visit AgentId Blocked}
    (hwalk : ∀ agent want path seen, agent ≠ requester → waitingOn waits agent = some want →
      walk agent want path seen =
        search (stepsFrom requester resource holders waits) requester n agent path seen)
    {source : AgentId} {want : ResourceKey} {rest : List (ResourceKey × AgentId)}
    {path : List Blocked} {seen : List AgentId} :
    walkHolders walk source want requester (waitingOn waits) rest path seen =
      scan (search (stepsFrom requester resource holders waits) requester n) requester
        (stepsFor rest source want) path seen := by
  induction rest generalizing path seen with
  | nil => rfl
  | cons h rest ih =>
    obtain ⟨held, holder⟩ := h
    rw [walkHolders]
    by_cases hov : held.overlaps want = true
    · by_cases hsrc : holder = source
      · have hskip : stepsFor ((held, holder) :: rest) source want = stepsFor rest source want := by
          simp [stepsFor, hov, hsrc]
        simp only [hov, hsrc, Bool.not_true, Bool.false_eq_true, if_false, if_true]
        rw [hsrc] at hskip
        rw [hskip, ih]
      · rw [stepsFor_cons rest hov hsrc, scan]
        simp only [hov, hsrc, Bool.not_true, Bool.false_eq_true, if_false, List.dropLast_concat]
        by_cases hreq : holder = requester
        · simp [hreq]
        · simp only [hreq, if_false]
          by_cases hseen : holder ∈ seen
          · simp only [hseen, if_true, ih]
          · simp only [hseen, if_false]
            cases hw : waitingOn waits holder with
            | some next => simp only [hwalk holder next _ _ hreq hw, ih]
            | none =>
              -- An agent that waits for nothing has no steps, and the
              -- search that enters it turns around at once.
              have hnone : ∀ path seen, search
                  (stepsFrom requester resource holders waits) requester n holder
                  path seen = ⟨false, path, seen⟩ := by
                intro path seen
                cases n with
                | zero => rfl
                | succ =>
                  simp only [search, stepsFrom, wants, hreq, if_false, hw, scan]
              simp only [hnone, Bool.false_eq_true, if_false, List.dropLast_concat, ih]
    · have hskip : stepsFor ((held, holder) :: rest) source want = stepsFor rest source want := by
        simp [stepsFor, hov]
      simp only [hov, Bool.not_false, if_true]
      rw [hskip, ih]

theorem walk_eq_search (n : Nat) (agent : AgentId) (want : ResourceKey) (path : List Blocked)
    (seen : List AgentId) (hwants : wants requester resource waits agent = some want) :
    walk requester holders (waitingOn waits) n agent want path seen =
      search (stepsFrom requester resource holders waits) requester n agent path seen := by
  induction n generalizing agent want path seen with
  | zero => rfl
  | succ _ ih =>
    rw [walk, search, stepsFrom, hwants]
    refine walkHolders_eq_scan (fun a r p s ha hr => ih a r p s ?_)
    rw [wants, if_neg ha, hr]

theorem stepsFrom_holder (agent : AgentId) :
    ∀ x ∈ stepsFrom requester resource holders waits agent, x.2 ∈ holders.map Prod.snd := by
  rintro ⟨_, b⟩ hx
  rw [stepsFrom] at hx
  split at hx
  · cases hx
  · obtain ⟨-, -, held, hmem, -⟩ := mem_stepsFor.mp hx
    exact List.mem_map.mpr ⟨(held, b), hmem, rfl⟩

/-- The cycle reported is the first way from the requester back to itself. -/
theorem deadlock_eq_some {cycle : List Blocked} :
    deadlock requester resource holders waits = some cycle ↔
      First (stepsFrom requester resource holders waits) requester [requester] requester
        cycle := by
  have hfuel : (holders.map Prod.snd).length < holders.length + 1 := by simp
  rw [← search_found_iff stepsFrom_holder hfuel, deadlock]
  simp only [walk_eq_search _ requester resource _ _ (show wants requester resource waits
    requester = some resource by simp [wants])]
  split
  · next h => rw [h]; simp
  · next h => simp [h]

/-- No cycle reported: no way leads from the requester back to itself. -/
theorem deadlock_eq_none (h : deadlock requester resource holders waits = none) :
    ¬ Reaches (stepsFrom requester resource holders waits) requester [requester]
      requester := by
  have hfuel : (holders.map Prod.snd).length < holders.length + 1 := by simp
  rw [deadlock] at h
  simp only [walk_eq_search _ requester resource _ _ (show wants requester resource waits
    requester = some resource by simp [wants])] at h
  split at h
  · cases h
  · next hlost => exact search_lost stepsFrom_holder hfuel (by simpa using hlost)

end Search

/-! ## Where a ring is broken -/

structure Victim where
  step : Nat
  /-- The queued wait to end; `none` for the claim that found the ring. -/
  ticket : Option Nat
deriving DecidableEq, Repr

/-- One wait a ring could be broken at. -/
structure Candidate where
  step : Nat
  priority : Int
  ticket : Option Nat
deriving DecidableEq, Repr

/-- Whether `d` is as good a victim as `c`: the lowest priority, then the
newcomer, then the latest ticket. -/
def Candidate.yields (c d : Candidate) : Bool :=
  decide (d.priority < c.priority) ||
    (decide (d.priority = c.priority) &&
      match c.ticket, d.ticket with
      | _, none => true
      | none, some _ => false
      | some t, some u => decide (t ≤ u))

def victim (cycle : List Blocked) (priority : Int) (waiters : List Waiter) : Victim :=
  let queued := (cycle.zipIdx.drop 1).flatMap fun (blocked, step) =>
    (waiters.filter fun w => decide (w.agent = blocked.agent) &&
      decide (w.resource = blocked.resource)).map fun w =>
        (⟨step, w.priority, some w.ticket⟩ : Candidate)
  let newcomer : Candidate := ⟨0, priority, none⟩
  let chosen := match queued ++ [newcomer] with
    | [] => newcomer
    | first :: rest => rest.foldl (fun best c => if best.yields c then c else best) first
  ⟨chosen.step, chosen.ticket⟩

theorem foldl_yields_mem (rest : List Candidate) (first : Candidate) :
    rest.foldl (fun best c => if best.yields c then c else best) first ∈ first :: rest := by
  induction rest generalizing first with
  | nil => simp
  | cons c _ ih =>
    rw [List.foldl_cons]
    rcases List.mem_cons.mp (ih (if first.yields c then c else first)) with h | h
    · rw [h]
      split <;> simp
    · exact List.mem_cons_of_mem _ (List.mem_cons_of_mem _ h)

/-- A queued wait chosen as the victim is one of the waiters. -/
theorem victim_mem {cycle : List Blocked} {priority : Int} {waiters : List Waiter}
    {ticket : Nat} (h : (victim cycle priority waiters).ticket = some ticket) :
    ∃ w ∈ waiters, w.ticket = ticket := by
  rw [victim] at h
  split at h
  · cases h
  next first rest heq =>
  have hmem := foldl_yields_mem rest first
  rw [← heq, List.mem_append, List.mem_singleton] at hmem
  rcases hmem with hmem | hnew
  · obtain ⟨⟨_, _⟩, -, hcand⟩ := List.mem_flatMap.mp hmem
    obtain ⟨w, hw, hwc⟩ := List.mem_map.mp hcand
    rw [← hwc] at h
    exact ⟨w, (List.mem_filter.mp hw).1, Option.some.inj h⟩
  · rw [hnew] at h
    cases h

end AgentDocker.Core
