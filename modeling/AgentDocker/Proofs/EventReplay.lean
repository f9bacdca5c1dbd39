import AgentDocker.Store.EventReplay

/-!
# A replay leaves nothing out

Three checks stand between a cursor and a silent gap. The anchor is made anew
from the stored event and has to be the cursor, so the event the client saw last
is still there and still says the same. The count of rows after it has to be the
distance to the head, and as numbers are distinct that leaves no room for a
missing one. And each frame has to be one number after the frame before.

So what is answered is what is stored: every event after the anchor, in order.
-/

namespace AgentDocker.Store.EventLog

open Lib

variable {E : Type} {c : Codec E} {fails : Query → Option String} {log : EventLog}

theorem ask_ok {α : Type} {query : Query} {answer a : α} (h : ask fails query answer = .ok a) :
    a = answer := by
  unfold ask at h
  split at h
  · cases h
  · cases h
    rfl

theorem decode_ok {row : EventRow} {event : E} (h : decode c row = .ok event) :
    c.parse row.json = some event ∧ c.seq event = row.seq := by
  unfold decode at h
  split at h
  · cases h
  next parsed hparse =>
  split at h
  · next hseq =>
    cases h
    exact ⟨hparse, hseq⟩
  · cases h

/-- A frame shows a row: the event it holds, and where it stands. -/
def Shows (c : Codec E) (id : String) (row : EventRow) (frame : Frame E) : Prop :=
  c.parse row.json = some frame.event ∧ c.seq frame.event = row.seq ∧
    frame.cursor = cursor c id row.seq row.json

/-- The frames of rows that follow a cursor: one for each row, numbered on from it. -/
theorem frames_ok {id : String} {rows : List EventRow} {head last : EventCursor} {bytes : Nat}
    {fs : List (Frame E)} (h : frames c id rows head bytes = .ok (last, fs)) :
    List.Forall₂ (Shows c id) rows fs ∧
      rows.map EventRow.seq = List.range' (head.seq + 1) rows.length ∧
      last.seq = head.seq + rows.length := by
  induction rows generalizing head bytes fs with
  | nil =>
    cases h
    exact ⟨.nil, rfl, rfl⟩
  | cons row rest ih =>
    simp only [frames, bind_eq_ok, require_ok, pure_eq_ok, exists_const, decide_eq_true_eq] at h
    obtain ⟨_, hevent, hnext, -, ⟨_, _⟩, hrest, heq⟩ := h
    cases heq
    obtain ⟨hparse, hseq⟩ := decode_ok hevent
    rw [hseq] at hnext hrest
    obtain ⟨hshow, hseqs, hlast⟩ := ih hrest
    refine ⟨.cons ⟨hparse, hseq, by rw [hseq]⟩ hshow, ?_, ?_⟩
    · rw [List.map_cons, List.length_cons, List.range'_succ, hseqs, ← hnext]
      rfl
    · rw [hlast, List.length_cons]
      show row.seq + rest.length = _
      omega

theorem le_foldl_max {a : Nat} {l : List Nat} (init : Nat) (h : a ≤ init ∨ a ∈ l) :
    a ≤ l.foldl max init := by
  induction l generalizing init with
  | nil => simpa using h
  | cons b _ ih =>
    refine ih (max init b) ?_
    rcases h with h | h
    · exact .inl (h.trans (Nat.le_max_left ..))
    · rcases List.mem_cons.mp h with rfl | h
      · exact .inl (Nat.le_max_right ..)
      · exact .inr h

/-- No event is numbered above the head. -/
theorem seq_le_maxEventSeq {row : EventRow} (h : row ∈ log.events) : row.seq ≤ log.maxEventSeq :=
  (le_foldl_max 0 (.inr (List.mem_map_of_mem h))).trans (Nat.le_max_right ..)

/-- Every event stored after a number, in order. -/
def after (log : EventLog) (seq : Nat) : List EventRow :=
  sortBy EventRow.seq (log.events.rows.filter fun row => decide (seq < row.seq))

theorem page_eq_after (seq : Nat) : log.page seq log.maxEventSeq = log.after seq := by
  refine congrArg (sortBy EventRow.seq) (List.filter_congr fun row hrow => ?_)
  have hle : row.seq ≤ log.maxEventSeq := seq_le_maxEventSeq hrow
  simp [hle]

theorem measure_fst (startSeq headSeq : Nat) :
    (log.measure startSeq headSeq).1 = (log.page startSeq headSeq).length :=
  (sortBy_perm _ _).length_eq.symm

/-- Where a replay starts: at the log's beginning, or at an event that is stored. -/
theorem anchor_ok {id : String} {startSeq : Nat} {start : EventCursor}
    (h : anchor c fails log id startSeq = .ok start) :
    start.seq = startSeq ∧ (startSeq ≠ 0 → ∃ row ∈ log.events, row.seq = startSeq ∧
        start = cursor c id startSeq row.json) := by
  unfold anchor at h
  split at h
  · next hzero =>
    cases h
    exact ⟨hzero.symm, fun hne => absurd hzero hne⟩
  · simp only [bind_eq_ok] at h
    obtain ⟨_, hfound, h⟩ := h
    split at h
    · cases h
    next row =>
    simp only [bind_eq_ok, pure_eq_ok] at h
    obtain ⟨-, -, rfl⟩ := h
    have hget := (Option.filter_eq_some_iff.mp (ask_ok hfound).symm).1
    obtain ⟨hrow, hseq⟩ := Keyed.get?_eq_some.mp hget
    exact ⟨rfl, fun _ => ⟨row, hrow, hseq, rfl⟩⟩

/-- What a client that is answered may rely on: the log goes on from its cursor. -/
structure Continues (c : Codec E) (log : EventLog) (from? : Option EventCursor)
    (replay : EventReplay E) : Prop where
  /-- It starts where the client was, in this log. -/
  start : ∀ a, from? = some a → replay.start = a ∧ log.logId = some a.log
  /-- The event the client saw last is stored, word for word. -/
  anchored : ∀ a json, from? = some a → a.seq ≠ 0 → a.digest = c.digest json →
    ⟨a.seq, json⟩ ∈ log.events
  /-- The frames are the stored events after it. -/
  frames : ∃ id, log.logId = some id ∧
    List.Forall₂ (Shows c id) (log.after replay.start.seq) replay.frames
  numbered : replay.frames.map (fun f => c.seq f.event) =
    List.range' (replay.start.seq + 1) (log.maxEventSeq - replay.start.seq)
  head : replay.head.seq = log.maxEventSeq

theorem Shows.seqs {id : String} {rows : List EventRow} {fs : List (Frame E)}
    (h : List.Forall₂ (Shows c id) rows fs) :
    fs.map (fun f => c.seq f.event) = rows.map EventRow.seq := by
  induction h with
  | nil => rfl
  | cons hshow _ ih => rw [List.map_cons, List.map_cons, ih, hshow.2.1]

/-- A replay that is answered leaves nothing out, and starts at an event that was
neither pruned nor changed. -/
theorem eventReplay_continues (c : Codec E) (hdigest : Function.Injective c.digest)
    (fails : Query → Option String) (log : EventLog) (from? : Option EventCursor)
    (replay : EventReplay E) (h : eventReplay c fails log from? = .ok replay) :
    Continues c log from? replay := by
  simp only [eventReplay, bind_eq_ok] at h
  obtain ⟨_, hfound, h⟩ := h
  split at h
  · next id =>
    simp only [bind_eq_ok, require_ok, exists_const, pure_eq_ok] at h
    obtain ⟨-, headSeq, hhead, hvalid, start, hstart, hsame, ⟨count, bytes⟩, hcount, hgap, rows,
      hrows, ⟨last, fs⟩, hframes, rfl⟩ := h
    have hid : log.logId = some id := (ask_ok hfound).symm
    obtain rfl := ask_ok hhead
    obtain rfl := ask_ok hrows
    obtain ⟨hseq, hstored⟩ := anchor_ok hstart
    obtain ⟨hshow, hseqs, hlast⟩ := frames_ok hframes
    -- the rows counted are the rows of the page
    have hlength : (log.page start.seq log.maxEventSeq).length = log.maxEventSeq - start.seq := by
      rw [← measure_fst, hseq, ← ask_ok hcount]
      simp only [Bool.and_eq_true, decide_eq_true_eq] at hgap
      exact hgap.1.1
    have hle : start.seq ≤ log.maxEventSeq := by
      rw [hseq]
      cases from? with
      | none => exact Nat.le_refl _
      | some =>
        simp only [Option.all_some, Bool.and_eq_true, decide_eq_true_eq] at hvalid
        exact hvalid.2
    rw [← hseq] at hshow hseqs hlast
    rw [hlength] at hseqs hlast
    refine ⟨fun a ha => ?_, fun a json ha hne hjson => ?_, ⟨id, hid, ?_⟩, ?_, ?_⟩
    · subst ha
      simp only [Option.all_some, Bool.and_eq_true, decide_eq_true_eq] at hvalid hsame
      exact ⟨hsame.symm, by rw [hvalid.1.2, hid]⟩
    · subst ha
      simp only [Option.all_some, decide_eq_true_eq] at hsame
      obtain ⟨row, hrow, hrowSeq, hmade⟩ := hstored hne
      have hdig : a.digest = c.digest row.json := by
        rw [hsame, hmade]
        exact if_neg hne
      have hsameJson : row.json = json := hdigest (hdig.symm.trans hjson)
      have hsameSeq : row.seq = a.seq := hrowSeq
      rw [← hsameJson, ← hsameSeq]
      exact hrow
    · rw [← page_eq_after]
      exact hshow
    · exact (Shows.seqs hshow).trans hseqs
    · show last.seq = _
      omega
  · cases h

namespace Sample

def id : String := "0123456789abcdef0123456789abcdef"

def hash : String := "0123456789abcdef0123456789abcdef0123456789abcdef0123456789abcdef"

/-- Two texts that are events, and a digest that tells all texts apart. -/
def codec : Codec Nat where
  digest := Equiv.swap "second" hash
  parse json := if json = "second" then some 2 else if json = "third" then some 3 else none
  seq event := event
  frameBytes _ _ := 100

/-- Three events were stored, and the first was pruned. -/
def pruned : EventLog := ⟨some id, ⟨[⟨3, "third"⟩, ⟨2, "second"⟩], by decide⟩, 3⟩

end Sample

/-- A client that saw the second event is sent the third. -/
theorem eventReplay_continues_pruned :
    Continues Sample.codec Sample.pruned (some ⟨Sample.id, 2, Sample.hash⟩)
      ⟨⟨Sample.id, 2, Sample.hash⟩, ⟨Sample.id, 3, "third"⟩, [⟨⟨Sample.id, 3, "third"⟩, 3⟩]⟩ :=
  eventReplay_continues Sample.codec (Equiv.injective _) (fun _ => none) Sample.pruned _ _
    (by decide +kernel)

end AgentDocker.Store.EventLog
