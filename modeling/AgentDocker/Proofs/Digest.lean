import AgentDocker.Core.Digest
import AgentDocker.Lib.Runs

/-!
# What the digests of a reader account for

Folding one entry more can make the text longer, so the number shown is the first that fits
on the way down, which is the largest; and the counts do not depend on where the text is
cut.
-/

namespace AgentDocker.Core.Journal.Reading

open Lib

variable (reader : Reader) (s : Reading) (budget : DigestBudget) (now : Time)

/-! ## One digest -/

/-- The news up to where the cursor moves. -/
def counted (head : Nat) : List JournalEntry :=
  (s.news reader).filter fun entry => entry.seq ≤ head

/-- What holds of one digest. -/
structure Accounts (d : Digest) : Prop where
  counts : d.shown + d.collapsed + d.otherBranches = (s.counted reader d.headSeq).length
  shown : let most := min (s.matched reader).length (max 1 budget.maxEntries)
    d.shown = min most (max 1
      (Nat.findGreatest (fun n => (s.render reader now n).length ≤ budget.maxChars) most))
  short : d.text.length ≤ budget.maxChars

/-- Of the numbers up to `most` the largest that fits, or one; none when there is none. -/
theorem fold_eq (render : Nat → String) (maxChars most : Nat) : fold render maxChars most =
    min most (max 1 (Nat.findGreatest (fun n => (render n).length ≤ maxChars) most)) := by
  induction most with
  | zero => rfl
  | succ most ih =>
    have hle := Nat.findGreatest_le (P := fun n => (render n).length ≤ maxChars) most
    rw [fold, Nat.findGreatest_succ, ih]
    split_ifs <;> omega

theorem length_truncate_le (text : String) (maxChars : Nat) :
    (truncate text maxChars).length ≤ maxChars := by
  unfold truncate
  split
  · rw [String.length_append, String.length_ofList, List.length_take]
    split
    · have hdots : "…".length = 1 := by decide
      omega
    · have hnone : "".length = 0 := rfl
      omega
  · omega

/-- The newest entry there is, or the cursor where none is newer. -/
theorem headSeq_spec : s.cursor ≤ s.headSeq ∧ (∀ entry ∈ s.entries, entry.seq ≤ s.headSeq) ∧
    (s.headSeq = s.cursor ∨ ∃ entry ∈ s.entries, entry.seq = s.headSeq) := by
  unfold headSeq
  cases hmax : ((s.entries.filter fun entry => s.cursor < entry.seq).map JournalEntry.seq).max? with
  | none =>
    rw [List.max?_eq_none_iff, List.map_eq_nil_iff, List.filter_eq_nil_iff] at hmax
    exact ⟨Nat.le_refl _, fun entry he => by simpa using hmax entry he, .inl rfl⟩
  | some =>
    obtain ⟨hmem, hle⟩ := List.max?_eq_some_iff.mp hmax
    obtain ⟨newest, hnewest, rfl⟩ := List.mem_map.mp hmem
    obtain ⟨hnewest, hafter⟩ := List.mem_filter.mp hnewest
    have hafter : s.cursor < newest.seq := of_decide_eq_true hafter
    refine ⟨hafter.le, fun entry he => ?_, .inr ⟨newest, hnewest, rfl⟩⟩
    by_cases hfresh : s.cursor < entry.seq
    · exact hle _ (List.mem_map_of_mem (List.mem_filter.mpr ⟨he, decide_eq_true hfresh⟩))
    · exact (Nat.le_of_not_lt hfresh).trans hafter.le

theorem counted_headSeq : s.counted reader s.headSeq = s.news reader :=
  List.filter_eq_self.mpr fun entry he =>
    decide_eq_true (s.headSeq_spec.2.1 entry (List.mem_filter.mp he).1)

/-- Of nothing nothing is rendered, so one rule covers both ends. -/
theorem digest_eq : s.digest reader budget now =
    let total := (s.matched reader).length
    let shown := fold (s.render reader now) budget.maxChars (min total (max 1 budget.maxEntries))
    ⟨truncate (s.render reader now shown) budget.maxChars, s.headSeq, shown, total - shown,
      s.otherBranches reader⟩ := by
  unfold digest
  dsimp only
  split
  · next hnone => simp [hnone, fold, render, truncate]
  · rw [Nat.max_comm]

theorem digest_accounts : s.Accounts reader budget now (s.digest reader budget now) := by
  rw [digest_eq]
  refine ⟨?_, fold_eq _ _ _, length_truncate_le _ _⟩
  have hlength := List.length_eq_length_filter_add (l := s.news reader) reader.keeps
  rw [← matched, ← otherBranches] at hlength
  rw [counted_headSeq, hlength]
  dsimp only
  rw [fold_eq]
  omega

/-! ## A reader that looks again and again -/

def Accounted : Move → Prop
  | .append _ => True
  | .look budget now => s.Accounts reader budget now (s.digest reader budget now)

/-- What each digest counts. -/
def told : Reading → List Move → List (List JournalEntry)
  | _, [] => []
  | s, .append more :: rest => told (s.step reader (.append more)) rest
  | s, .look budget now :: rest =>
    s.counted reader (s.digest reader budget now).headSeq ::
      told (s.step reader (.look budget now)) rest

variable {reader s}

theorem begins_run (moves : List Move) : s.entries <+: (run (step reader) s moves).entries := by
  refine Always.last (P := fun t : Reading => s.entries <+: t.entries)
    (always_of_invariant List.prefix_rfl fun t move h => ?_)
  cases move with
  | append more => exact h.trans (List.prefix_append _ more)
  | look => exact h

/-- What a journal has after one cursor is what it has up to the next, and after that. -/
theorem news_append {later : List JournalEntry}
    (hlater : ∀ entry ∈ s.entries, ∀ newer ∈ later, entry.seq < newer.seq) :
    s.news reader ++ news reader ⟨s.entries ++ later, s.headSeq⟩ =
      news reader ⟨s.entries ++ later, s.cursor⟩ := by
  obtain ⟨_, hle, hhead⟩ := s.headSeq_spec
  have hnone : news reader ⟨s.entries, s.headSeq⟩ = [] :=
    List.filter_eq_nil_iff.mpr fun entry he => by simp [hle entry he]
  unfold news at hnone ⊢
  rw [List.filter_append, List.filter_append, hnone, List.nil_append]
  refine congrArg _ (List.filter_congr fun newer hnewer => ?_)
  have hnew : s.headSeq < newer.seq ↔ s.cursor < newer.seq := by
    rcases hhead with hhead | ⟨entry, he, hhead⟩
    · rw [hhead]
    · have := hlater entry he newer hnewer
      omega
  rw [decide_eq_decide.mpr hnew]

/-- Every look accounts for what it counts, and the looks together count what the journal
has after the first cursor, in order and each entry once, but for what is after the last. -/
theorem looks_account (reader : Reader) (s : Reading) (moves : List Move)
    (hjournal : (run (step reader) s moves).entries.Pairwise fun a b => a.seq < b.seq) :
    Each (step reader) (Accounted reader) s moves ∧
      (told reader s moves).flatten ++ (run (step reader) s moves).news reader =
        news reader ⟨(run (step reader) s moves).entries, s.cursor⟩ := by
  refine ⟨Each.of_forall fun s move => ?_, ?_⟩
  · cases move with
    | append => exact trivial
    | look budget now => exact s.digest_accounts reader budget now
  induction moves generalizing s with
  | nil => rfl
  | cons move rest ih =>
    have hrest := ih (s.step reader move) hjournal
    cases move with
    | append => exact hrest
    | look budget now =>
      obtain ⟨_, hlater⟩ := begins_run (s := s.step reader (.look budget now)) rest
      have hhead : (s.digest reader budget now).headSeq = s.headSeq := by rw [digest_eq]
      simp only [run, List.foldl_cons] at hjournal hrest hlater ⊢
      rw [told, List.flatten_cons, List.append_assoc, hrest]
      rw [← hlater] at hjournal ⊢
      simp only [step, hhead, counted_headSeq]
      exact news_append (List.pairwise_append.mp hjournal).2.2

/-- A note of another branch, then a commit. -/
theorem looks_account_two :
    let reader : Reader := ⟨"a", some "main", false⟩
    let entry (seq : Nat) (kind : JournalKind) : JournalEntry := ⟨seq, "b", "x", kind, fun _ => "b"⟩
    let moves := [Move.look ⟨20, 2000⟩ 0, .append [entry 2 .commit], .look ⟨5, 500⟩ 1]
    let last := run (step reader) ⟨[entry 1 .note], 0⟩ moves
    Each (step reader) (Accounted reader) ⟨[entry 1 .note], 0⟩ moves ∧
      (told reader ⟨[entry 1 .note], 0⟩ moves).flatten ++ last.news reader =
        news reader ⟨last.entries, 0⟩ :=
  looks_account _ _ _ (by decide)

end AgentDocker.Core.Journal.Reading
