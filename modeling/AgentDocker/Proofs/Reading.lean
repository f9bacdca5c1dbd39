import AgentDocker.Lib.Runs
import AgentDocker.Proofs.Scans

/-!
# Reading does not depend on how it is cut

However a transcript is cut into snapshots, sessions, passes and batches, what is
committed is what reading its complete records one by one gives: each batch goes on
where the last one ended, whatever became of the sessions between.

Whether the file still is the one a cursor was made from is another matter. Nothing but
the digest says that the records before the cursor are those. A session that hashes them
all again knows: two chains of one digest over as many bytes are over the same records.
-/

namespace AgentDocker.Host

open Lib

variable {Json Codex Meta Sample Digest : Type}
variable {f : Formats Json Codex Meta Sample} {h : Digests Digest} {runtime : Runtime} {limit : Nat}

/-! ## Steps -/

theorem capture_ok {first again : Disk} {captured : Cursor Codex Digest}
    (hok : Cursor.capture f h runtime first again = .ok captured) :
    captured = .fresh f h runtime first.generation := by
  unfold Cursor.capture at hok
  split at hok <;> cases hok <;> rfl

namespace Reading

variable {s s' : Reading Codex Meta Sample Digest} {op : Op}

section Steps

variable [DecidableEq Codex] [DecidableEq Digest]

/-- What a step does, in the words the invariants are about. -/
inductive Moves (f : Formats Json Codex Meta Sample) (h : Digests Digest) (runtime : Runtime)
    (s : Reading Codex Meta Sample Digest) : Op → Reading Codex Meta Sample Digest → Prop
  | stays (op : Op) : Moves f h runtime s op s
  | rewritten (disk : Disk) :
      Moves f h runtime s (.rewrite disk) { s with disk, session := none, proposal := none }
  | grows (op : Op) {disk : Disk} (hdisk : s.disk.bytes <+: disk.bytes) :
      Moves f h runtime s op { s with disk }
  | captures (op : Op) {disk : Disk} (hdisk : s.disk.bytes <+: disk.bytes)
      (generation : Generation) :
      Moves f h runtime s op { s with disk, captured := some (.fresh f h runtime generation) }
  | closes (op : Op) {disk : Disk} (hdisk : s.disk.bytes <+: disk.bytes) :
      Moves f h runtime s op { s with disk, session := none, proposal := none }
  | opens (op : Op) {captured : Cursor Codex Digest} {unchanged : Bool}
      {session : Session Codex Meta Digest} (hcaptured : s.captured = some captured)
      (hstart : Session.start h captured s.committed unchanged = .ok session) :
      Moves f h runtime s op { s with session := some session, proposal := none }
  | passes (op : Op) {disk last : Disk} (hdisk : s.disk.bytes <+: disk.bytes)
      {session session' : Session Codex Meta Digest} {bytes elapsed : Nat} {turns : List Nat}
      (hsession : s.session = some session) (hproposal : s.proposal = none)
      (hok : session.prepareNext f h s.disk last bytes elapsed turns = .ok session') :
      Moves f h runtime s op { s with disk, session := some session' }
  | scans {g : Growth} {disk last : Disk} (hdisk : s.disk.bytes <+: disk.bytes)
      {session session' : Session Codex Meta Digest} {budget : Budget} {pace : Pace}
      {batch : Batch Codex Sample Digest} (hsession : s.session = some session)
      (hproposal : s.proposal = none)
      (hok : session.scan f h s.disk last budget pace = .ok (batch, session')) :
      Moves f h runtime s (.scan budget pace g)
        { s with disk, session := some session', proposal := some batch }
  | commits (op : Op) {session : Session Codex Meta Digest} {batch : Batch Codex Sample Digest}
      (hsession : s.session = some session) (hproposal : s.proposal = some batch)
      (hcursor : batch.cursor = session.cursor) :
      Moves f h runtime s op { s with
        proposal := none
        committed := some batch.cursor
        samples := s.samples ++ batch.samples
        gaps := s.gaps ++ batch.gaps
        made := s.made ++ batch.lines }

theorem begins_grow {d : Disk} {g : Growth} : d.bytes <+: (d.grow g).bytes :=
  List.prefix_append ..

theorem validate_ok {session : Session Codex Meta Digest} {disk : Disk} {c : Cursor Codex Digest}
    (hok : (session.validate disk c).isOk = true) : c = session.cursor := by
  unfold Session.validate at hok
  split at hok
  · cases hok
  next hsame =>
  rw [not_or, not_not] at hsame
  exact hsame.2

theorem step_moves : Moves f h runtime s op (s.step f h runtime op) := by
  cases op with
  | append => exact .grows _ begins_grow
  | rewrite disk => exact .rewritten disk
  | capture =>
    simp only [step]
    split
    · next captured hok =>
      rw [capture_ok hok]
      exact .captures _ begins_grow s.disk.generation
    · exact .grows _ begins_grow
  | openSession unchanged =>
    simp only [step]
    split
    · exact .stays _
    next captured hcaptured =>
    have hstart : (if unchanged = true then Session.atUnchangedSnapshot h captured s.committed
        else Session.atSnapshot h captured s.committed) =
        (Session.start h captured s.committed unchanged :
          Except ReadError (Session Codex Meta Digest)) := by
      cases unchanged <;> rfl
    rw [hstart]
    split
    · next session hok => exact .opens _ hcaptured hok
    · exact .closes _ (List.prefix_refl _)
  | prepareNext _ _ _ g =>
    simp only [step]
    split
    · next session hsession hproposal =>
      split
      · next session' hok => exact .passes _ begins_grow hsession hproposal hok
      · have hsame : ({ s with disk := s.disk.grow g, session := none } :
            Reading Codex Meta Sample Digest) =
            { s with disk := s.disk.grow g, session := none, proposal := none } := by
          rw [← hproposal]
        rw [hsame]
        exact .closes _ begins_grow
    · exact .grows _ begins_grow
  | scan =>
    simp only [step]
    split
    · next session hsession hproposal =>
      split
      · next batch session' hok => exact .scans begins_grow hsession hproposal hok
      · exact .grows _ begins_grow
    · exact .grows _ begins_grow
  | commit =>
    simp only [step]
    split
    · next session batch hsession hproposal =>
      split
      · next hok => exact .commits _ hsession hproposal (validate_ok hok.1)
      · exact .closes _ (List.prefix_refl _)
    · exact .stays _

end Steps

/-! ## What every run keeps -/

/-- The records of a batch that is not committed yet. -/
def pending (s : Reading Codex Meta Sample Digest) : List (List UInt8) :=
  (s.proposal.map (·.lines)).getD []

theorem pending_none (hproposal : s.proposal = none) : s.made ++ s.pending = s.made := by
  rw [pending, hproposal, Option.map_none, Option.getD_none, List.append_nil]

variable {batch : Batch Codex Sample Digest} {unchanged : Bool}

theorem pending_some (hproposal : s.proposal = some batch) :
    s.made ++ s.pending = s.made ++ batch.lines := by
  rw [pending, hproposal, Option.map_some, Option.getD_some]

/-- Cursors are made from records, and a session goes on from the committed one. -/
structure Sound (f : Formats Json Codex Meta Sample) (h : Digests Digest) (runtime : Runtime)
    (s : Reading Codex Meta Sample Digest) : Prop where
  captured : ∀ c, s.captured = some c → c = .fresh f h runtime c.generation
  records : ∀ line ∈ s.made ++ s.pending, IsRecord newline line
  start : s.committed = none → s.made = []
  committed : ∀ c, s.committed = some c → Covers h runtime c s.made
  session : ∀ σ, s.session = some σ → σ.replayParser = false ∧ σ.recoverMeta = false ∧
    Covers h runtime σ.cursor (s.made ++ s.pending)

theorem sound_initial {disk : Disk} :
    Sound f h runtime (initial disk : Reading Codex Meta Sample Digest) :=
  ⟨by simp [initial], by simp [initial, pending], fun _ => rfl, by simp [initial],
    by simp [initial]⟩

variable {session : Session Codex Meta Digest} {captured : Cursor Codex Digest}

theorem Sound.starts (hs : Sound f h runtime s)
    (hstart : Session.start h captured s.committed unchanged = .ok session) :
    Session.Starts h session :=
  Session.start_starts (fun c hc => (hs.committed c hc).version) hstart

theorem Sound.covers_start (hs : Sound f h runtime s) (hcaptured : s.captured = some captured)
    (hstart : Session.start h captured s.committed unchanged = .ok session) :
    Covers h runtime session.cursor s.made := by
  have hagree := Session.start_cursor hstart
  cases hcommitted : s.committed with
  | none =>
    rw [hcommitted, Option.getD_none, hs.captured captured hcaptured] at hagree
    rw [hs.start hcommitted]
    exact (covers_fresh captured.generation).agree hagree
  | some previous =>
    rw [hcommitted, Option.getD_some] at hagree
    exact (hs.committed previous hcommitted).agree hagree

theorem Sound.closed (hs : Sound f h runtime s) (disk : Disk) :
    Sound f h runtime { s with disk, session := none, proposal := none } := by
  refine { hs with records := fun line hline => ?_, session := by simp }
  rw [pending_none rfl] at hline
  exact hs.records line (List.mem_append_left _ hline)

/-- A scan goes on from the records the session has. -/
theorem Sound.scan_takes [DecidableEq Digest] (hs : Sound f h runtime s)
    {session' : Session Codex Meta Digest} {last : Disk} {budget : Budget} {pace : Pace}
    (hsession : s.session = some session) (hproposal : s.proposal = none)
    (hok : session.scan f h s.disk last budget pace = .ok (batch, session')) :
    Takes f h budget.recordBytes { cursor := { session.cursor with quarantinedAtBudget := none } }
        batch.toTaken (s.disk.bytes.drop s.made.flatten.length) batch.lines ∧
      Covers h runtime batch.cursor (s.made ++ batch.lines) := by
  obtain ⟨-, -, hcovers⟩ := hs.session session hsession
  obtain ⟨-, ⟨lines, htakes⟩, -⟩ := Session.scan_ok hok
  obtain rfl : batch.lines = lines := htakes.taken
  rw [pending_none hproposal] at hcovers
  rw [hcovers.offset] at htakes
  exact ⟨htakes, htakes.covers (hcovers.agree ⟨rfl, rfl, rfl, rfl, rfl⟩)⟩

theorem Sound.moves [DecidableEq Digest] (hs : Sound f h runtime s)
    (hmoves : Moves f h runtime s op s') : Sound f h runtime s' := by
  cases hmoves with
  | stays => exact hs
  | rewritten disk => exact hs.closed disk
  | grows => exact { hs with }
  | captures =>
    refine { hs with captured := fun c hc => ?_ }
    cases hc
    rfl
  | closes => exact hs.closed _
  | opens _ hcaptured hstart =>
    have hstarts := hs.starts hstart
    refine { hs.closed s.disk with session := fun σ hσ => ?_ }
    cases hσ
    rw [pending_none rfl]
    exact ⟨hstarts.replayParser, hstarts.recoverMeta, hs.covers_start hcaptured hstart⟩
  | passes _ _ hsession _ hok =>
    obtain ⟨hreplay, hrecover, hcovers⟩ := hs.session _ hsession
    have hpassed := (Session.prepareNext_ok hreplay hrecover hok).1
    refine { hs with session := fun σ hσ => ?_ }
    cases hσ
    exact ⟨hpassed.replayParser, hpassed.recoverMeta, hcovers.agree hpassed.cursor⟩
  | scans _ hsession hproposal hok =>
    obtain ⟨hreplay, hrecover, -⟩ := hs.session _ hsession
    obtain ⟨htakes, hcovers⟩ := hs.scan_takes hsession hproposal hok
    obtain ⟨-, -, rfl⟩ := Session.scan_ok hok
    refine { hs with records := fun line hline => ?_, session := fun σ hσ => ?_ }
    · rw [pending_some rfl] at hline
      rcases List.mem_append.mp hline with hline | hline
      · exact hs.records line (List.mem_append_left _ hline)
      · exact htakes.records line hline
    · cases hσ
      exact ⟨hreplay, hrecover, hcovers⟩
  | commits _ hsession hproposal hcursor =>
    obtain ⟨hreplay, hrecover, hcovers⟩ := hs.session _ hsession
    have hrecords := hs.records
    rw [pending_some hproposal] at hcovers hrecords
    refine ⟨hs.captured, ?_, by simp, fun c hc => ?_, fun σ hσ => ?_⟩
    · rw [pending_none rfl]
      exact hrecords
    · cases hc
      rw [hcursor]
      exact hcovers
    · rw [hsession] at hσ
      cases hσ
      rw [pending_none rfl]
      exact ⟨hreplay, hrecover, hcovers⟩

/-! ## What is counted -/

/-- Committed, and about to be committed, is what reading one by one gives, where every
budget has the one limit. -/
structure Counted (f : Formats Json Codex Meta Sample) (runtime : Runtime) (limit : Nat)
    (s : Reading Codex Meta Sample Digest) : Prop where
  start : s.committed = none → s.samples = [] ∧ s.gaps = []
  committed : ∀ c, s.committed = some c →
    readOneByOne f runtime limit s.made = ⟨c.offset, c.codex, s.samples, s.gaps⟩
  session : ∀ σ, s.session = some σ → s.proposal = none →
    readOneByOne f runtime limit s.made = ⟨σ.cursor.offset, σ.cursor.codex, s.samples, s.gaps⟩
  proposal : ∀ batch, s.proposal = some batch →
    readOneByOne f runtime limit (s.made ++ batch.lines) = batch.progress s.samples s.gaps

theorem counted_initial {disk : Disk} :
    Counted f runtime limit (initial disk : Reading Codex Meta Sample Digest) :=
  ⟨fun _ => ⟨rfl, rfl⟩, by simp [initial], by simp [initial], by simp [initial]⟩

theorem Counted.start_session (hcounted : Counted f runtime limit s) (hs : Sound f h runtime s)
    (hcaptured : s.captured = some captured)
    (hstart : Session.start h captured s.committed unchanged = .ok session) :
    readOneByOne f runtime limit s.made =
      ⟨session.cursor.offset, session.cursor.codex, s.samples, s.gaps⟩ := by
  have hagree := Session.start_cursor hstart
  rw [hagree.offset, hagree.codex]
  cases hcommitted : s.committed with
  | none =>
    obtain ⟨hsamples, hgaps⟩ := hcounted.start hcommitted
    rw [Option.getD_none, hs.captured captured hcaptured, hs.start hcommitted, hsamples, hgaps]
    rfl
  | some previous => exact hcounted.committed previous hcommitted

/-- The limit every scan of a run is given. -/
def Op.shares (limit : Nat) : Op → Prop
  | .scan budget _ _ => budget.recordBytes = limit
  | _ => True

theorem Counted.moves [DecidableEq Digest] (hcounted : Counted f runtime limit s)
    (hs : Sound f h runtime s) (hshares : op.shares limit) (hmoves : Moves f h runtime s op s') :
    Counted f runtime limit s' := by
  cases hmoves with
  | stays => exact hcounted
  | rewritten | closes => exact ⟨hcounted.start, hcounted.committed, by simp, by simp⟩
  | grows | captures => exact { hcounted with }
  | opens _ hcaptured hstart =>
    refine ⟨hcounted.start, hcounted.committed, fun σ hσ _ => ?_, by simp⟩
    cases hσ
    exact hcounted.start_session hs hcaptured hstart
  | passes _ _ hsession hproposal hok =>
    obtain ⟨hreplay, hrecover, -⟩ := hs.session _ hsession
    have hagree := (Session.prepareNext_ok hreplay hrecover hok).1.cursor
    refine { hcounted with session := fun σ hσ _ => ?_ }
    cases hσ
    rw [hagree.offset, hagree.codex]
    exact hcounted.session _ hsession hproposal
  | scans _ hsession hproposal hok =>
    obtain ⟨htakes, -⟩ := hs.scan_takes hsession hproposal hok
    obtain ⟨-, -, hcovers⟩ := hs.session _ hsession
    refine ⟨hcounted.start, hcounted.committed, by simp, fun batch hbatch => ?_⟩
    cases hbatch
    have hprogress := htakes.progress s.samples s.gaps
    rw [show _ = limit from hshares, hcovers.runtime] at hprogress
    have hbefore := hcounted.session _ hsession hproposal
    rw [readOneByOne] at hbefore ⊢
    rw [hprogress, List.foldl_append, hbefore, Taken.progress, List.append_nil, List.append_nil]
  | commits _ hsession hproposal hcursor =>
    have hprogress := hcounted.proposal _ hproposal
    refine ⟨by simp, fun c hc => ?_, fun σ hσ _ => ?_, by simp⟩
    · cases hc
      exact hprogress
    · rw [hsession] at hσ
      cases hσ
      rw [← hcursor]
      exact hprogress

/-! ## A file that only grows -/

/-- The writer appends. -/
def Op.appends : Op → Prop
  | .rewrite _ => False
  | _ => True

/-- What cursors were made from is still there. -/
def Held (s : Reading Codex Meta Sample Digest) : Prop :=
  (s.made ++ s.pending).flatten <+: s.disk.bytes

theorem Held.made (hheld : Held s) : s.made.flatten <+: s.disk.bytes := by
  rw [Held, List.flatten_append] at hheld
  exact (List.prefix_append ..).trans hheld

theorem Held.moves [DecidableEq Digest] (hheld : Held s) (hs : Sound f h runtime s)
    (happends : op.appends) (hmoves : Moves f h runtime s op s') : Held s' := by
  cases hmoves with
  | stays => exact hheld
  | rewritten => exact absurd happends id
  | grows _ hdisk | captures _ hdisk | passes _ hdisk => exact hheld.trans hdisk
  | closes _ hdisk =>
    rw [Held, pending_none rfl]
    exact hheld.made.trans hdisk
  | opens =>
    rw [Held, pending_none rfl]
    exact hheld.made
  | scans hdisk hsession hproposal hok =>
    rw [Held, pending_some rfl]
    obtain ⟨htakes, -⟩ := hs.scan_takes hsession hproposal hok
    rw [List.flatten_append]
    exact (append_begins hheld.made htakes.begins).trans hdisk
  | commits _ _ hproposal =>
    rw [Held, pending_none rfl]
    rwa [Held, pending_some hproposal] at hheld

/-! ## A file that is rewritten -/

/-- A whole proof hashes the file there is, and a ready one found what its cursor was
made from. -/
def Verified (h : Digests Digest) (s : Reading Codex Meta Sample Digest) : Prop :=
  ∀ σ, s.session = some σ → σ.whole = true → ∃ lines, Session.Hashed h σ s.disk.bytes lines ∧
      (σ.ready = true → lines = s.made ++ s.pending ∧ σ.line = [])

theorem Verified.grow (hv : Verified h s) {disk : Disk} (hdisk : s.disk.bytes <+: disk.bytes) :
    Verified h { s with disk } := by
  intro σ hσ hwhole
  obtain ⟨lines, hhashed, hready⟩ := hv σ hσ hwhole
  exact ⟨lines, hhashed.mono hdisk, hready⟩

/-- Ready after a pass: the digest came out over as many bytes, so over the same records. -/
theorem Sound.passes_made (hs : Sound f h runtime s) (hinj : LinkInjective h.recordDigest)
    {session' : Session Codex Meta Digest} (hsession : s.session = some session)
    (hproposal : s.proposal = none) (hpassed : Session.Passed session session') {bytes : List UInt8}
    {lines : List (List UInt8)} (hhashed : Session.Hashed h session' bytes lines)
    (hready : session'.ready = true) : lines = s.made ∧ session'.line = [] := by
  obtain ⟨-, -, hcovers⟩ := hs.session session hsession
  have hrecords := hs.records
  rw [pending_none hproposal] at hcovers hrecords
  obtain ⟨hchecked, hline, hdigest⟩ := hpassed.ready hready
  have hlength := hhashed.checked
  rw [hchecked, hcovers.offset, hline, List.append_nil] at hlength
  rw [hhashed.digest, hcovers.digest] at hdigest
  exact ⟨chain_inj hinj (fun line hl => (hhashed.records line hl).ne_nil)
    (fun line hl => (hrecords line hl).ne_nil) hlength.symm hdigest, hline⟩

theorem Verified.moves [DecidableEq Digest] (hv : Verified h s) (hs : Sound f h runtime s)
    (hinj : LinkInjective h.recordDigest) (hmoves : Moves f h runtime s op s') : Verified h s' := by
  have hs' := hs.moves hmoves
  cases hmoves with
  | stays => exact hv
  | rewritten | closes => exact fun σ hσ => by cases hσ
  | grows _ hdisk | captures _ hdisk => exact hv.grow hdisk
  | opens _ _ hstart =>
    intro σ hσ hwhole
    cases hσ
    have hstarts := hs.starts hstart
    obtain ⟨hchecked, hline, hdigest⟩ := hstarts.whole hwhole
    refine ⟨[], ⟨by simp, by simp [hline], by simp [hline], by simp [hline, hchecked], hdigest⟩, ?_⟩
    intro hready
    rw [hstarts.ready] at hready
    cases hready
  | passes _ hdisk hsession hproposal hok =>
    obtain ⟨hreplay, hrecover, -⟩ := hs.session _ hsession
    obtain ⟨hpassed, hhashes⟩ := Session.prepareNext_ok hreplay hrecover hok
    intro σ hσ hwhole
    cases hσ
    obtain ⟨before, hbefore, -⟩ := hv _ hsession (hpassed.whole ▸ hwhole)
    obtain ⟨lines, hhashed⟩ := hhashes before hbefore
    refine ⟨lines, hhashed.mono hdisk, fun hready => ?_⟩
    have hmade := hs.passes_made hinj hsession hproposal hpassed hhashed hready
    have hsame : s.made ++ s.pending = s.made := pending_none hproposal
    exact ⟨hmade.1.trans hsame.symm, hmade.2⟩
  | scans hdisk hsession hproposal hok =>
    obtain ⟨htakes, hcovers⟩ := hs.scan_takes hsession hproposal hok
    obtain ⟨hready, -, rfl⟩ := Session.scan_ok hok
    intro σ hσ hwhole
    cases hσ
    obtain ⟨_, hhashed, hmade⟩ := hv _ hsession hwhole
    obtain ⟨rfl, hline⟩ := hmade hready
    have hrecords := hs'.records
    have hbegins := hhashed.begins
    rw [pending_none hproposal, hline, List.append_nil] at hbegins
    refine ⟨s.made ++ _, ⟨hrecords, by simp [hline], ?_, ?_, hcovers.digest⟩, fun _ => ⟨rfl, hline⟩⟩
    · rw [hline, List.append_nil, List.flatten_append]
      exact (append_begins hbegins htakes.begins).trans hdisk
    · rw [hline, List.append_nil]
      exact hcovers.offset
  | commits _ _ hproposal =>
    intro σ hσ hwhole
    obtain ⟨lines, hhashed, hmade⟩ := hv σ hσ hwhole
    refine ⟨lines, hhashed, fun hready => ?_⟩
    rw [pending_none rfl, ← pending_some hproposal]
    exact hmade hready

/-! ## Runs -/

/-- What is committed is what reading the file's complete records one by one gives, up to
the committed offset. -/
structure Accounted (f : Formats Json Codex Meta Sample) (runtime : Runtime) (limit : Nat)
    (s : Reading Codex Meta Sample Digest) (offset : Nat) : Prop where
  within : offset ≤ s.disk.bytes.length
  /-- The offset is after a complete record. -/
  complete : (records newline (s.disk.bytes.take offset)).flatten = s.disk.bytes.take offset
  /-- The records before it are the file's first ones. -/
  first : records newline (s.disk.bytes.take offset) <+: records newline s.disk.bytes
  samples : s.samples =
    (readOneByOne f runtime limit (records newline (s.disk.bytes.take offset))).samples
  gaps : s.gaps = (readOneByOne f runtime limit (records newline (s.disk.bytes.take offset))).gaps

/-- Where the next session goes on. -/
def offset (s : Reading Codex Meta Sample Digest) : Nat := (s.committed.map (·.offset)).getD 0

theorem Sound.offset_eq (hs : Sound f h runtime s) : s.offset = s.made.flatten.length := by
  unfold offset
  cases hcommitted : s.committed with
  | none => simp [hs.start hcommitted]
  | some c => exact (hs.committed c hcommitted).offset

theorem Counted.made (hcounted : Counted f runtime limit s) (hs : Sound f h runtime s) :
    s.samples = (readOneByOne f runtime limit s.made).samples ∧
      s.gaps = (readOneByOne f runtime limit s.made).gaps := by
  cases hcommitted : s.committed with
  | none =>
    obtain ⟨hsamples, hgaps⟩ := hcounted.start hcommitted
    rw [hs.start hcommitted, hsamples, hgaps]
    exact ⟨rfl, rfl⟩
  | some c =>
    rw [hcounted.committed c hcommitted]
    exact ⟨rfl, rfl⟩

theorem accounted (hs : Sound f h runtime s) (hcounted : Counted f runtime limit s)
    (hheld : Held s) : Accounted f runtime limit s s.offset := by
  have hmade : ∀ line ∈ s.made, IsRecord newline line :=
    fun line hline => hs.records line (List.mem_append_left _ hline)
  have htake : s.disk.bytes.take s.offset = s.made.flatten := by
    rw [hs.offset_eq]
    exact (List.prefix_iff_eq_take.mp hheld.made).symm
  have hrecords : records newline (s.disk.bytes.take s.offset) = s.made := by
    rw [htake, records_flatten hmade]
  obtain ⟨hsamples, hgaps⟩ := hcounted.made hs
  refine ⟨?_, ?_, ?_, ?_, ?_⟩
  · rw [hs.offset_eq]
    exact hheld.made.length_le
  · rw [hrecords, htake]
  · rw [hrecords]
    exact records_begin hmade hheld.made
  · rw [hrecords, hsamples]
  · rw [hrecords, hgaps]

/-- A session that proves the whole prefix is ready only where the file begins with what
the committed cursor was made from. -/
def Proven (s : Reading Codex Meta Sample Digest) : Prop :=
  ∀ σ c, s.session = some σ → s.committed = some c → σ.ready = true → σ.whole = true →
    s.disk.bytes.take c.offset = s.made.flatten

theorem Verified.proven (hv : Verified h s) (hs : Sound f h runtime s) : Proven s := by
  intro σ c hσ hc hready hwhole
  obtain ⟨_, hhashed, hmade⟩ := hv σ hσ hwhole
  obtain ⟨rfl, hline⟩ := hmade hready
  have hbegins := hhashed.begins
  rw [hline, List.append_nil, List.flatten_append] at hbegins
  rw [(hs.committed c hc).offset]
  exact (List.prefix_iff_eq_take.mp ((List.prefix_append ..).trans hbegins)).symm

/-- However an appended transcript is cut, what is committed is what one reading gives;
and where it was rewritten, only a file that begins as before is taken for it. -/
theorem reading_ignores_cuts [DecidableEq Codex] [DecidableEq Digest]
    (f : Formats Json Codex Meta Sample) (h : Digests Digest) (runtime : Runtime) (limit : Nat)
    (disk : Disk) (ops : List Op) :
    ((∀ op ∈ ops, op.appends ∧ op.shares limit) →
      Always (step f h runtime) (fun s => Accounted f runtime limit s s.offset)
        (initial disk) ops) ∧
    (LinkInjective h.recordDigest → Always (step f h runtime)
        (Proven : Reading Codex Meta Sample Digest → Prop) (initial disk) ops) := by
  refine ⟨fun hops => ?_, fun hinj => ?_⟩
  · have hrun : Always (step f h runtime)
        (fun s => Sound f h runtime s ∧ Counted f runtime limit s ∧ Held s) (initial disk) ops := by
      refine always_of_each (C := fun _ op => op.appends ∧ op.shares limit)
        ⟨sound_initial, counted_initial, List.nil_prefix⟩ ?_ (.of_mem hops)
      rintro s op ⟨hs, hcounted, hheld⟩ ⟨happends, hshares⟩
      have hmoves : Moves f h runtime s op (s.step f h runtime op) := step_moves
      exact ⟨hs.moves hmoves, hcounted.moves hs hshares hmoves, hheld.moves hs happends hmoves⟩
    exact hrun.imp fun s hs => accounted hs.1 hs.2.1 hs.2.2
  · have hrun : Always (step f h runtime) (fun s => Sound f h runtime s ∧ Verified h s)
        (initial disk) ops := by
      refine always_of_invariant ⟨sound_initial, fun σ hσ => by cases hσ⟩ ?_
      rintro _ _ ⟨hs, hv⟩
      exact ⟨hs.moves step_moves, hv.moves hs hinj step_moves⟩
    exact hrun.imp fun s hs => hs.2.proven hs.1

/-! ## Samples -/

/-- Every line is a sample, unless it begins with `x`. -/
def plain : Formats (List UInt8) Unit Unit (List UInt8) where
  decode := fun line => if line.head? = some 120 then none else some line
  envelope := fun _ => none
  start := ()
  feed := fun codex line _ => (.ok (some line), codex)
  claude := fun line => .ok (some line)
  sessionMeta := fun _ => none
  recoverParent := fun codex _ => codex

/-- A digest that keeps everything. -/
def verbatim : Digests (List (List UInt8)) := ⟨[], fun digest line => line :: digest⟩

theorem verbatim_injective : LinkInjective verbatim.recordDigest := by
  intro digest line digest' line' heq
  exact ⟨(List.cons.inj heq).2, (List.cons.inj heq).1⟩

def oneRecord : Budget := ⟨20, 4, 1, 1⟩

def manyRecords : Budget := ⟨20, 4, 10, 1⟩

/-- Two batches of one session while the writer finishes a record, and a session that
proves them in passes of three bytes and reads on. -/
def cutRun : List Op :=
  [.capture {}, .openSession false, .prepareNext 9 1 [] {},
    .scan oneRecord { after := [8, 8, 8] } {}, .commit true, .append ⟨[98, 10], some 1⟩,
    .scan manyRecords { after := [8, 8, 8] } ⟨[99], some 2⟩, .commit true,
    .capture {}, .openSession true, .prepareNext 3 1 [0, 0, 0] {}, .prepareNext 3 1 [8, 8] {},
    .scan manyRecords { after := [0, 0, 8] } {}, .commit true]

/-- `a`, a line that cannot be read, and a part of `bb`. -/
def sampleDisk : Disk := ⟨[97, 10, 120, 10, 98], 0, 0⟩

/-- The file is rewritten and begins as before, and the session after it is ready. -/
def rewrittenRun : List Op :=
  cutRun ++ [.rewrite ⟨[97, 10, 120, 10, 98, 98, 10, 100, 10], 3, 0⟩, .capture {},
    .openSession false, .prepareNext 9 1 [8, 8, 8, 8] {}]

theorem scan_first_sample : ∃ batch,
    scan plain verbatim sampleDisk sampleDisk .claude none manyRecords { after := [8, 8] } =
        .ok batch ∧
      batch.lines <+: records newline sampleDisk.bytes ∧
      readOneByOne plain .claude 4 batch.lines = batch.progress [] [] :=
  Exists.imp (fun _ hok => ⟨hok, scan_first hok⟩) ⟨_, rfl⟩

/-- The file has grown by the time the scan is done. -/
theorem scanChecked_rechecked_grown : ∃ batch,
    scanChecked plain verbatim sampleDisk (sampleDisk.append [10] 1) .claude
        (some (.fresh plain verbatim .claude sampleDisk.generation)) manyRecords true
        { after := [8, 8] } = .ok batch ∧
      ((sampleDisk.append [10] 1).bytes.drop 0).take batch.lines.flatten.length =
        batch.lines.flatten :=
  Exists.imp (fun _ hok => ⟨hok, scanChecked_rechecked verbatim_injective hok⟩) ⟨_, rfl⟩

theorem reading_ignores_cuts_sample :
    Always (step plain verbatim .claude) (fun s => Accounted plain .claude 4 s s.offset)
        (initial sampleDisk) cutRun ∧
      (run (step plain verbatim .claude) (initial sampleDisk) cutRun).samples =
        [[97, 10], [98, 98, 10]] ∧
      (run (step plain verbatim .claude) (initial sampleDisk) cutRun).gaps =
        [⟨2, 2, "invalid JSON record"⟩] ∧
      Always (step plain verbatim .claude) Proven (initial sampleDisk) rewrittenRun ∧
      (run (step plain verbatim .claude) (initial sampleDisk) rewrittenRun).session.map
        (fun σ => (σ.ready, σ.whole)) = some (true, true) := by
  refine ⟨(reading_ignores_cuts plain verbatim .claude 4 sampleDisk cutRun).1 ?_, by decide +kernel,
    by decide +kernel,
    (reading_ignores_cuts plain verbatim .claude 4 sampleDisk rewrittenRun).2 verbatim_injective,
    by decide +kernel⟩
  simp [cutRun, Op.appends, Op.shares, oneRecord, manyRecords]

end Reading

end AgentDocker.Host
