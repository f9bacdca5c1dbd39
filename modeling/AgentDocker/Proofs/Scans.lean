import AgentDocker.Host.Session
import AgentDocker.Lib.Outcomes

/-!
# What a scan takes in and a session proves

A loop that reads stops only between records, so a scan takes in the next complete
records of its file, and a cursor carries everything the record after them is read
with. What that amounts to is said by `readOneByOne`, which knows nothing of budgets,
batches and sessions.

A pass of a proof stops anywhere. What it has hashed are the file's first records and a
part of the next one, however its pieces were cut.
-/

namespace AgentDocker.Host

open Lib

variable {Json Codex Meta Sample Digest : Type}
variable {f : Formats Json Codex Meta Sample} {h : Digests Digest} {runtime : Runtime} {limit : Nat}

/-! ## One by one -/

/-- What reading records has come to. -/
structure Progress (Codex Sample : Type) where
  offset : Nat
  codex : Codex
  samples : List Sample
  gaps : List Gap

/-- One record more: it is counted, or passed over, or a gap after which the parser
starts anew. -/
def Progress.next (f : Formats Json Codex Meta Sample) (runtime : Runtime) (limit : Nat)
    (p : Progress Codex Sample) (line : List UInt8) : Progress Codex Sample :=
  let offset := p.offset + line.length
  match parseRecord f runtime limit p.codex p.offset line with
  | (.ok (some sample), codex) => { p with offset, codex, samples := p.samples ++ [sample] }
  | (.ok none, codex) => { p with offset, codex }
  | (.error reason, _) =>
    { p with offset, codex := f.start, gaps := p.gaps ++ [⟨p.offset, line.length, reason⟩] }

/-- Records read one by one, from the start of a file. -/
def readOneByOne (f : Formats Json Codex Meta Sample) (runtime : Runtime) (limit : Nat)
    (lines : List (List UInt8)) : Progress Codex Sample :=
  lines.foldl (Progress.next f runtime limit) ⟨0, f.start, [], []⟩

/-! ## What a scan takes in -/

variable {budget : Budget} {c : Cursor Codex Digest} {last opened : Disk} {turns : List Nat}
  {line rest : List UInt8} {b b' : Taken Codex Sample Digest}

theorem readLine_eq (hend : (Taken.readLine limit rest).getLast? = some newline) :
    Taken.readLine limit rest = readUntil newline rest := by
  unfold Taken.readLine at hend ⊢
  dsimp only at hend ⊢
  split at hend
  · next hlong =>
    rw [if_pos hlong]
    have hnot := not_mem_of_readUntil hlong.2
    rw [readUntil_of_not_mem hnot] at hlong ⊢
    have hlength : (rest.take (limit + 1)).length = limit + 1 := by
      have := hlong.1
      simp only [List.length_take] at this ⊢
      omega
    rw [hlength, ← readUntil_append_of_not_mem hnot, List.take_append_drop]
  next hshort =>
  rw [if_neg hshort]
  exact (readUntil_of_begins (List.take_prefix ..) hend).symm

/-- Where a reader stands that had `samples` and `gaps` before. -/
def Taken.progress (b : Taken Codex Sample Digest) (samples : List Sample) (gaps : List Gap) :
    Progress Codex Sample :=
  ⟨b.cursor.offset, b.cursor.codex, samples ++ b.samples, gaps ++ b.gaps⟩

theorem progress_take {samples : List Sample} {gaps : List Gap} :
    (b.take f h limit line).progress samples gaps =
      (b.progress samples gaps).next f b.cursor.runtime limit line := by
  simp only [Taken.take, Taken.progress, Progress.next]
  cases parseRecord f b.cursor.runtime limit b.cursor.codex b.cursor.offset line with
  | mk parsed =>
    cases parsed with
    | error => simp
    | ok sample => cases sample <;> simp

/-- `b'` is what has been taken in once `lines`, the next records of `rest`, are. -/
structure Takes (f : Formats Json Codex Meta Sample) (h : Digests Digest) (limit : Nat)
    (b b' : Taken Codex Sample Digest) (rest : List UInt8) (lines : List (List UInt8)) : Prop where
  records : ∀ line ∈ lines, IsRecord newline line
  begins : lines.flatten <+: rest
  taken : b'.lines = b.lines ++ lines
  version : b'.cursor.version = b.cursor.version
  runtime : b'.cursor.runtime = b.cursor.runtime
  offset : b'.cursor.offset = b.cursor.offset + lines.flatten.length
  digest : b'.cursor.prefixDigest = chain h.recordDigest b.cursor.prefixDigest lines
  progress : ∀ samples gaps, b'.progress samples gaps =
    lines.foldl (Progress.next f b.cursor.runtime limit) (b.progress samples gaps)

/-- A loop stops where it is, and at most notes its budget. -/
theorem Takes.stop (b : Taken Codex Sample Digest) (rest : List UInt8) (quarantined : Option Nat) :
    Takes f h limit b { b with cursor.quarantinedAtBudget := quarantined } rest [] :=
  ⟨by simp, List.nil_prefix, by simp, rfl, rfl, by simp, rfl, fun _ _ => rfl⟩

theorem Takes.cons {lines : List (List UInt8)} (hline : IsRecord newline line)
    (htakes : Takes f h limit (b.take f h limit line) b' rest lines) :
    Takes f h limit b b' (line ++ rest) (line :: lines) := by
  refine ⟨?_, ?_, ?_, htakes.version, htakes.runtime, ?_, htakes.digest, fun samples gaps => ?_⟩
  · rw [List.forall_mem_cons]
    exact ⟨hline, htakes.records⟩
  · rw [List.flatten_cons, List.prefix_append_right_inj]
    exact htakes.begins
  · rw [htakes.taken]
    simp [Taken.take]
  · have hoffset := htakes.offset
    simp only [Taken.take] at hoffset
    rw [List.flatten_cons, List.length_append]
    omega
  · rw [htakes.progress, progress_take]
    rfl

/-- A loop takes complete records in, as they come. -/
theorem loop_takes {late : Nat → Bool} {starting length left : Nat} (b : Taken Codex Sample Digest)
    (rest : List UInt8) :
    ∃ lines, Takes f h budget.recordBytes b
      (Taken.loop f h budget late starting length left b rest).1 rest lines := by
  induction left generalizing b rest with
  | zero =>
    rw [Taken.loop]
    split <;> exact ⟨[], Takes.stop b rest b.cursor.quarantinedAtBudget⟩
  | succ _ ih =>
    have hstop : Takes f h budget.recordBytes b b rest [] :=
      Takes.stop b rest b.cursor.quarantinedAtBudget
    rw [Taken.loop]
    dsimp only
    split
    · exact ⟨[], hstop⟩
    · split
      · exact ⟨[], hstop⟩
      · split
        · next hend =>
          have hline := readLine_eq hend
          rw [hline] at hend ⊢
          obtain ⟨_, htakes⟩ := ih (b.take f h budget.recordBytes (readUntil newline rest))
            (rest.drop (readUntil newline rest).length)
          have hcons := htakes.cons (isRecord_readUntil hend)
          rw [readUntil_append_drop] at hcons
          exact ⟨_, hcons⟩
        · split
          · split
            · exact ⟨[], hstop⟩
            · exact ⟨[], Takes.stop b rest (some budget.bytes)⟩
          · split <;> exact ⟨[], hstop⟩

theorem refuse_ok {p : Prop} [Decidable p] {e : ReadError} {u : Unit} :
    refuse p e = .ok u ↔ ¬ p := by
  rw [refuse]
  split <;> simp_all

theorem readOn_takes {cursor : Cursor Codex Digest} {late : Nat → Bool} :
    ∃ lines, Takes f h budget.recordBytes { cursor } (readOn f h opened cursor budget late).1
      (opened.bytes.drop cursor.offset) lines := by
  obtain ⟨lines, htakes⟩ := loop_takes { cursor } (List.take _ (opened.bytes.drop cursor.offset))
  exact ⟨lines, { htakes with begins := htakes.begins.trans (List.take_prefix ..) }⟩

section Scan

variable [DecidableEq Digest]

variable {batch : Batch Codex Sample Digest} {prepared : Bool} {budget : Budget}
  {prior : Cursor Codex Digest} {last opened : Disk} {pace : Pace}

theorem scanFrom_ok {cursor : Cursor Codex Digest}
    (hok : scanFrom f h opened runtime (some prior) budget prepared pace = .ok cursor) :
    prior.version = cursorVersion ∧ cursor = { prior with quarantinedAtBudget := none } := by
  simp only [scanFrom, bind_eq_ok, pure_eq_ok, refuse_ok, not_or, not_not] at hok
  obtain ⟨_, ⟨hversion, -, -⟩, _, -, _, -, _, -, rfl⟩ := hok
  exact ⟨hversion, rfl⟩

/-- A scan reads the next records of the file it opened. -/
theorem scanChecked_ok
    (hok : scanChecked f h opened last runtime (some prior) budget prepared pace = .ok batch) :
    ∃ lines, Takes f h budget.recordBytes { cursor := { prior with quarantinedAtBudget := none } }
      batch.toTaken (opened.bytes.drop prior.offset) lines := by
  simp only [scanChecked, bind_eq_ok, pure_eq_ok] at hok
  obtain ⟨_, -, _, hfrom, _, -, _, -, _, -, _, -, rfl⟩ := hok
  obtain ⟨-, rfl⟩ := scanFrom_ok hfrom
  exact readOn_takes

/-- A standalone scan from the start counts the file's first records one by one. -/
theorem scan_first (hok : scan f h opened last runtime none budget pace = .ok batch) :
    batch.lines <+: records newline opened.bytes ∧
      readOneByOne f runtime budget.recordBytes batch.lines = batch.progress [] [] := by
  simp only [scan, scanChecked, bind_eq_ok, pure_eq_ok] at hok
  obtain ⟨_, -, cursor, hfrom, _, -, _, -, _, -, _, -, rfl⟩ := hok
  obtain rfl : Cursor.fresh f h runtime opened.generation = cursor := Except.ok.inj hfrom
  obtain ⟨_, htakes⟩ := readOn_takes (f := f) (h := h)
  have htaken := htakes.taken
  refine ⟨?_, ?_⟩
  · rw [htaken]
    exact records_begin htakes.records htakes.begins
  · rw [htaken, htakes.progress]
    rfl

end Scan

/-! ## What is checked of a proposal -/

/-- Hashing again reads as far as the cursor, whatever the pieces. -/
theorem rehash_ok {offset covered : Nat} {digest digest' : Digest} {line' : List UInt8}
    (hpart : newline ∉ line) (hrest : covered + rest.length ≤ offset)
    (hok : Cursor.rehash h offset turns covered digest line rest = .ok (digest', line')) :
    ∃ lines, (∀ l ∈ lines, IsRecord newline l) ∧ digest' = chain h.recordDigest digest lines ∧
      lines.flatten ++ line' = line ++ rest ∧ covered + rest.length = offset := by
  fun_induction Cursor.rehash h offset turns covered digest line rest with
  | case1 | case2 => cases hok
  | case3 covered digest line rest _ buffered turns piece hpiece line' after hend ih =>
    have hsplit : piece ++ after = rest :=
      List.prefix_iff_eq_append.mp ((readUntil_begins ..).trans (List.take_prefix ..))
    have hlength := congrArg List.length hsplit
    rw [List.length_append] at hlength
    obtain ⟨lines, hlines, hdigest, hbytes, _⟩ := ih List.not_mem_nil (by omega) hok
    have hrecord : IsRecord newline line' :=
      ((part_append_readUntil hpart (mt List.isEmpty_iff.mpr hpiece)).resolve_right
        fun h => h.1 hend).2
    refine ⟨line' :: lines, List.forall_mem_cons.mpr ⟨hrecord, hlines⟩, hdigest, ?_, by omega⟩
    rw [List.flatten_cons, List.append_assoc, hbytes, List.nil_append, List.append_assoc, hsplit]
  | case4 covered digest line rest _ buffered turns piece hpiece line' after hend ih =>
    have hsplit : piece ++ after = rest :=
      List.prefix_iff_eq_append.mp ((readUntil_begins ..).trans (List.take_prefix ..))
    have hlength := congrArg List.length hsplit
    rw [List.length_append] at hlength
    have hpart' : newline ∉ line' :=
      ((part_append_readUntil hpart (mt List.isEmpty_iff.mpr hpiece)).resolve_left
        fun h => hend h.1).2
    obtain ⟨lines, hlines, hdigest, hbytes, _⟩ := ih hpart' (by omega) hok
    exact ⟨lines, hlines, hdigest, by rw [hbytes, List.append_assoc, hsplit], by omega⟩
  | case5 turns covered digest line rest hstop =>
    cases hok
    obtain rfl : rest = [] := List.eq_nil_of_length_eq_zero (by omega)
    exact ⟨[], List.forall_mem_nil _, rfl, by simp, by simp at hrest ⊢; omega⟩

/-- A suffix that is still valid holds the records its cursor was made from. -/
theorem validateSuffix_ok [DecidableEq Digest] {start : Nat} {digest : Digest} {late within : Bool}
    {lines : List (List UInt8)} (hinj : LinkInjective h.recordDigest)
    (hrecords : ∀ l ∈ lines, IsRecord newline l) (hoffset : c.offset = start + lines.flatten.length)
    (hdigest : c.prefixDigest = chain h.recordDigest digest lines)
    (hok : c.validateSuffix h opened last start digest turns late within = .ok ()) :
    (opened.bytes.drop start).take lines.flatten.length = lines.flatten := by
  simp only [Cursor.validateSuffix, bind_eq_ok, refuse_ok, not_or, not_not] at hok
  obtain ⟨_, -, _, -, _, -, ⟨_, line'⟩, hrehash, _, ⟨hline, hsame⟩, -⟩ := hok
  have hlength : c.offset - start = lines.flatten.length := by omega
  rw [hlength] at hrehash
  have hbound : start + ((opened.bytes.drop start).take lines.flatten.length).length ≤
      c.offset := by
    rw [List.length_take]
    omega
  obtain ⟨lines', hrecords', hdigest', hbytes, _⟩ :=
    rehash_ok List.not_mem_nil hbound hrehash
  obtain rfl : line' = [] := hline
  rw [List.append_nil, List.nil_append] at hbytes
  have heq : lines' = lines := by
    refine chain_inj hinj (fun l hl => (hrecords' l hl).ne_nil)
      (fun l hl => (hrecords l hl).ne_nil) ?_ (hdigest'.symm.trans (hsame.trans hdigest))
    rw [hbytes]
    omega
  rw [← hbytes, heq]

/-- What a session's scan proposes was still in the file when the scan was done, whatever
had become of the file meanwhile. -/
theorem scanChecked_rechecked [DecidableEq Digest] {prior : Cursor Codex Digest} {pace : Pace}
    {batch : Batch Codex Sample Digest} (hinj : LinkInjective h.recordDigest)
    (hok : scanChecked f h opened last runtime (some prior) budget true pace = .ok batch) :
    (last.bytes.drop prior.offset).take batch.lines.flatten.length = batch.lines.flatten := by
  obtain ⟨lines, htakes⟩ := scanChecked_ok hok
  obtain rfl : batch.lines = lines := htakes.taken
  simp only [scanChecked, bind_eq_ok, pure_eq_ok] at hok
  obtain ⟨_, -, _, _, _, -, _, -, _, hrecheck, _, -, rfl⟩ := hok
  exact validateSuffix_ok hinj htakes.records htakes.offset htakes.digest hrecheck

/-! ## What a session proves -/

/-- Cursors that differ at most in the generation, the quarantine and the anchor. -/
structure Agree (c c' : Cursor Codex Digest) : Prop where
  version : c'.version = c.version
  runtime : c'.runtime = c.runtime
  offset : c'.offset = c.offset
  digest : c'.prefixDigest = c.prefixDigest
  codex : c'.codex = c.codex

/-- A cursor after `lines`, of the version and runtime read now. -/
structure Covers (h : Digests Digest) (runtime : Runtime) (c : Cursor Codex Digest)
    (lines : List (List UInt8)) : Prop where
  version : c.version = cursorVersion
  runtime : c.runtime = runtime
  offset : c.offset = lines.flatten.length
  digest : c.prefixDigest = chain h.recordDigest h.zero lines

theorem Covers.agree {c' : Cursor Codex Digest} {lines : List (List UInt8)}
    (hcovers : Covers h runtime c lines) (hagree : Agree c c') : Covers h runtime c' lines :=
  ⟨hagree.version.trans hcovers.version, hagree.runtime.trans hcovers.runtime,
    hagree.offset.trans hcovers.offset, hagree.digest.trans hcovers.digest⟩

theorem covers_fresh (generation : Generation) :
    Covers h runtime (Cursor.fresh f h runtime generation) [] :=
  ⟨rfl, rfl, rfl, rfl⟩

theorem Takes.covers {before lines : List (List UInt8)} (htakes : Takes f h limit b b' rest lines)
    (hcovers : Covers h runtime b.cursor before) :
    Covers h runtime b'.cursor (before ++ lines) := by
  refine ⟨htakes.version.trans hcovers.version, htakes.runtime.trans hcovers.runtime, ?_, ?_⟩
  · rw [htakes.offset, hcovers.offset, List.flatten_append, List.length_append]
  · rw [htakes.digest, hcovers.digest, chain_append]

namespace Session

/-- What a proof has hashed of a file: records from its start, and a part of the next. -/
structure Hashed (h : Digests Digest) (s : Session Codex Meta Digest) (bytes : List UInt8)
    (lines : List (List UInt8)) : Prop where
  records : ∀ line ∈ lines, IsRecord newline line
  part : newline ∉ s.line
  begins : lines.flatten ++ s.line <+: bytes
  checked : s.checked = (lines.flatten ++ s.line).length
  digest : s.prefixDigest = chain h.recordDigest h.zero lines

variable {unchanged : Bool} {captured : Cursor Codex Digest} {last opened : Disk}
  {lines : List (List UInt8)} {turns : List Nat} {bytes rest : List UInt8}
  {previous : Option (Cursor Codex Digest)} {s s' : Session Codex Meta Digest}

theorem Hashed.mono {more : List UInt8} (hs : Hashed h s bytes lines) (hmore : bytes <+: more) :
    Hashed h s more lines :=
  { hs with begins := hs.begins.trans hmore }

/-- What a pass leaves as it is. -/
structure Alike (s s' : Session Codex Meta Digest) : Prop where
  cursor : s'.cursor = s.cursor
  whole : s'.whole = s.whole
  replayParser : s'.replayParser = s.replayParser
  recoverMeta : s'.recoverMeta = s.recoverMeta

theorem hash_alike (s : Session Codex Meta Digest) (piece : List UInt8) :
    Alike s (s.hash f h piece) := by
  unfold hash
  dsimp only
  split <;> exact ⟨rfl, rfl, rfl, rfl⟩

theorem prove_alike (hok : s.prove f h turns rest = .ok s') : Alike s s' := by
  induction turns generalizing s rest with
  | nil =>
    cases hok
    exact ⟨rfl, rfl, rfl, rfl⟩
  | cons buffered _ ih =>
    rw [prove] at hok
    dsimp only at hok
    split at hok
    · split at hok
      · cases hok
        exact ⟨rfl, rfl, rfl, rfl⟩
      · split at hok
        · cases hok
        · have hhash := hash_alike (f := f) (h := h) s
            (readUntil newline (rest.take (buffered + 1)))
          have hrest := ih hok
          exact ⟨hrest.cursor.trans hhash.cursor, hrest.whole.trans hhash.whole,
            hrest.replayParser.trans hhash.replayParser,
            hrest.recoverMeta.trans hhash.recoverMeta⟩
    · cases hok
      exact ⟨rfl, rfl, rfl, rfl⟩

/-- A piece finishes a record, or is a part of it still. -/
theorem Hashed.hash {n : Nat} (hs : Hashed h s bytes lines)
    (hrest : lines.flatten ++ s.line ++ rest <+: bytes)
    (hne : readUntil newline (rest.take n) ≠ []) :
    ∃ lines', Hashed h (s.hash f h (readUntil newline (rest.take n))) bytes lines' ∧
      lines'.flatten ++ (s.hash f h (readUntil newline (rest.take n))).line ++
        rest.drop (readUntil newline (rest.take n)).length <+: bytes := by
  have hpiece : readUntil newline (rest.take n) <+: rest :=
    (readUntil_begins ..).trans (List.take_prefix ..)
  have hcases := part_append_readUntil hs.part hne
  generalize readUntil newline (rest.take n) = piece at hpiece hcases ⊢
  obtain ⟨after, rfl⟩ := hpiece
  rcases hcases with ⟨hend, hrecord⟩ | ⟨hend, hpart⟩
  · have hhash : (s.hash f h piece).line = [] ∧
        (s.hash f h piece).checked = s.checked + piece.length ∧
        (s.hash f h piece).prefixDigest = h.recordDigest s.prefixDigest (s.line ++ piece) := by
      simp only [Session.hash, if_pos hend, and_self]
    obtain ⟨hline, hchecked, hdigest⟩ := hhash
    have hflatten : (lines ++ [s.line ++ piece]).flatten = lines.flatten ++
        (s.line ++ piece) := by simp
    refine ⟨lines ++ [s.line ++ piece], ⟨?_, ?_, ?_, ?_, ?_⟩, ?_⟩
    · intro line hmem
      rcases List.mem_append.mp hmem with hmem | hmem
      · exact hs.records line hmem
      · rw [List.mem_singleton.mp hmem]
        exact hrecord
    · simp [hline]
    · refine List.IsPrefix.trans ?_ hrest
      rw [hline, hflatten, List.append_nil]
      exact ⟨after, by simp⟩
    · rw [hchecked, hs.checked, hline, hflatten]
      simp [Nat.add_assoc]
    · rw [hdigest, hs.digest, chain_concat]
    · rw [hline, hflatten, List.append_nil]
      simpa using hrest
  · have hhash : (s.hash f h piece).line = s.line ++ piece ∧
        (s.hash f h piece).checked = s.checked + piece.length ∧
        (s.hash f h piece).prefixDigest = s.prefixDigest := by
      simp only [Session.hash, if_neg hend, and_self]
    obtain ⟨hline, hchecked, hdigest⟩ := hhash
    refine ⟨lines, ⟨hs.records, ?_, ?_, ?_, ?_⟩, ?_⟩
    · rw [hline]
      exact hpart
    · refine List.IsPrefix.trans ?_ hrest
      rw [hline]
      exact ⟨after, by simp⟩
    · rw [hchecked, hs.checked, hline]
      simp [Nat.add_assoc]
    · rw [hdigest, hs.digest]
    · rw [hline]
      simpa using hrest

theorem Hashed.prove (hs : Hashed h s bytes lines)
    (hrest : lines.flatten ++ s.line ++ rest <+: bytes) (hok : s.prove f h turns rest = .ok s') :
    ∃ lines', Hashed h s' bytes lines' := by
  induction turns generalizing s rest lines with
  | nil =>
    cases hok
    exact ⟨lines, hs⟩
  | cons buffered _ ih =>
    rw [Session.prove] at hok
    dsimp only at hok
    split at hok
    · split at hok
      · cases hok
        exact ⟨lines, hs⟩
      next hpiece =>
      split at hok
      · cases hok
      · have hne : readUntil newline (rest.take (buffered + 1)) ≠ [] := by simpa using hpiece
        obtain ⟨_, hs', hrest'⟩ := hs.hash (f := f) hrest hne
        exact ih hs' hrest' hok
    · cases hok
      exact ⟨lines, hs⟩

/-- A session goes on from the committed cursor, or from the start. -/
theorem start_cursor (hok : start h captured previous unchanged = .ok s) :
    Agree (previous.getD captured) s.cursor := by
  cases previous with
  | none =>
    cases hok
    exact ⟨rfl, rfl, rfl, rfl, rfl⟩
  | some =>
    simp only [start] at hok
    split at hok
    · cases hok
    · split at hok
      · cases hok
      · cases hok
        split <;> exact ⟨rfl, rfl, rfl, rfl, rfl⟩

/-- Nothing is hashed yet. A cursor of this version is neither replayed nor mended. -/
structure Starts (h : Digests Digest) (s : Session Codex Meta Digest) : Prop where
  replayParser : s.replayParser = false
  recoverMeta : s.recoverMeta = false
  ready : s.ready = false
  whole : s.whole = true → s.checked = 0 ∧ s.line = [] ∧ s.prefixDigest = h.zero

theorem start_starts (hversion : ∀ c, previous = some c → c.version = cursorVersion)
    (hok : start h captured previous unchanged = .ok s) : Starts h s := by
  cases previous with
  | none =>
    cases hok
    exact ⟨rfl, rfl, rfl, fun _ => ⟨rfl, rfl, rfl⟩⟩
  | some previous =>
    have hreplay : decide (3 ≤ previous.version ∧ previous.version ≤ 6) = false := by
      rw [hversion previous rfl]
      decide
    have hrecover : decide (previous.version = 7) = false := by
      rw [hversion previous rfl]
      decide
    simp only [start] at hok
    split at hok
    · cases hok
    · split at hok
      · cases hok
      · cases hok
        refine ⟨hreplay, hrecover, rfl, fun hwhole => ?_⟩
        rw [Option.isNone_iff_eq_none] at hwhole
        simp [hwhole]

/-- A pass hashes on, and is ready only where the digest came out. -/
structure Passed (s s' : Session Codex Meta Digest) : Prop where
  cursor : Agree s.cursor s'.cursor
  whole : s'.whole = s.whole
  replayParser : s'.replayParser = false
  recoverMeta : s'.recoverMeta = false
  ready : s'.ready = true → s'.checked = s.cursor.offset ∧ s'.line = [] ∧
    s'.prefixDigest = s.cursor.prefixDigest

variable [DecidableEq Digest]

theorem conclude_ok (hreplay : s.replayParser = false) (hrecover : s.recoverMeta = false)
    (hok : s.conclude f h = .ok s') :
    Passed s s' ∧ s'.checked = s.checked ∧ s'.line = s.line ∧ s'.prefixDigest = s.prefixDigest := by
  unfold conclude at hok
  split at hok
  · next hchecked =>
    split at hok
    · cases hok
    next hsame =>
    rw [not_or, not_not, not_not] at hsame
    cases hok
    have hproven : ({ s with ready := true } : Session Codex Meta Digest).proven f h =
        { s with ready := true, cursor.lastRecord := s.lastRecord } := by
      simp [proven, hreplay, hrecover]
    rw [hproven]
    exact ⟨⟨⟨rfl, rfl, rfl, rfl, rfl⟩, rfl, hreplay, hrecover,
      fun _ => ⟨hchecked, hsame.1, hsame.2⟩⟩, rfl, rfl, rfl⟩
  · cases hok
    exact ⟨⟨⟨rfl, rfl, rfl, rfl, rfl⟩, rfl, hreplay, hrecover, by simp⟩, rfl, rfl, rfl⟩

theorem prepareNext_ok {bytes elapsed : Nat} (hreplay : s.replayParser = false)
    (hrecover : s.recoverMeta = false)
    (hok : s.prepareNext f h opened last bytes elapsed turns = .ok s') :
    Passed s s' ∧ ∀ lines, Hashed h s opened.bytes lines →
      ∃ lines', Hashed h s' opened.bytes lines' := by
  simp only [prepareNext, bind_eq_ok] at hok
  obtain ⟨_, -, _, -, _, hprove, _, -, hconclude⟩ := hok
  have halike := prove_alike hprove
  obtain ⟨hpassed, hchecked, hline, hdigest⟩ := conclude_ok (halike.replayParser.trans hreplay)
    (halike.recoverMeta.trans hrecover) hconclude
  have hcursor := hpassed.cursor
  have hready := hpassed.ready
  rw [halike.cursor] at hcursor hready
  refine ⟨⟨hcursor, hpassed.whole.trans halike.whole, hpassed.replayParser, hpassed.recoverMeta,
    hready⟩, fun lines hs => ?_⟩
  have hrest : lines.flatten ++ s.line ++ (opened.bytes.drop s.checked).take
      (min bytes (s.cursor.offset - s.checked)) <+: opened.bytes := by
    obtain ⟨_, hrest⟩ := hs.begins
    rw [hs.checked, ← hrest, List.drop_left, List.prefix_append_right_inj]
    exact List.take_prefix ..
  obtain ⟨lines', hσ⟩ := hs.prove hrest hprove
  refine ⟨lines', hσ.records, ?_, ?_, ?_, hdigest.trans hσ.digest⟩
  · rw [hline]
    exact hσ.part
  · rw [hline]
    exact hσ.begins
  · rw [hchecked, hline]
    exact hσ.checked

theorem scan_ok {budget : Budget} {pace : Pace} {batch : Batch Codex Sample Digest}
    (hok : s.scan f h opened last budget pace = .ok (batch, s')) :
    s.ready = true ∧ (∃ lines, Takes f h budget.recordBytes
        { cursor := { s.cursor with quarantinedAtBudget := none } } batch.toTaken
        (opened.bytes.drop s.cursor.offset) lines) ∧
      s' = { s with
        cursor := batch.cursor, checked := batch.cursor.offset,
        prefixDigest := batch.cursor.prefixDigest } := by
  simp only [scan, bind_eq_ok, pure_eq_ok, refuse_ok, Prod.mk.injEq] at hok
  obtain ⟨_, hready, _, hscan, rfl, rfl⟩ := hok
  exact ⟨by simpa using hready, scanChecked_ok hscan, rfl⟩

end Session

end AgentDocker.Host
