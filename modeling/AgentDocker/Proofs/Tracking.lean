import AgentDocker.Lib.Runs
import AgentDocker.Store.Tracking

/-!
# The byte count is exact

Each change of a row changes the count by what the row weighs, so the count is the size of
the rows at any time, through writes within writes and whatever is undone of them.
-/

namespace AgentDocker.Store.Tracking

open Lib

def Db.Tracked (db : Db) : Prop := db.bytes = total db.rows

variable {db : Db} {rows : Table → List Row}

theorem total_update (rows : Table → List Row) (table : Table) (next : List Row) :
    total (Function.update rows table next) + totalOf (size table) (rows table) =
      total rows + totalOf (size table) next := by
  cases table <;> simp [total, tables, totalOf] <;> omega

theorem Db.Tracked.change (h : db.Tracked) (c : Change) : (db.change c).Tracked := by
  unfold Tracked at h ⊢
  cases c with
  | insert table row =>
    have := total_update db.rows table (db.rows table ++ [row])
    rw [totalOf_append, totalOf_cons] at this
    simp only [Db.change, h]
    simp only [totalOf, List.foldl_nil] at this
    omega
  | update table i rewrite =>
    simp only [Db.change]
    split
    · exact h
    next old hold =>
    have := total_update db.rows table ((db.rows table).set i (rewrite old))
    have := (totalOf_split (size table) hold (rewrite old)).1
    dsimp only
    omega
  | delete table i =>
    simp only [Db.change]
    split
    · exact h
    next old hold =>
    have := total_update db.rows table ((db.rows table).eraseIdx i)
    have := (totalOf_split (size table) hold old).2
    dsimp only
    omega

theorem change_capacity (db : Db) (c : Change) : (db.change c).capacity = db.capacity := by
  cases c with
  | insert => rfl
  | update | delete =>
    simp only [Db.change]
    split <;> rfl

theorem foldlM_addTable {bytes start : Nat} {left : List Table}
    (h : left.foldlM (addTable rows) start = .ok bytes) :
    bytes = start + totalOf (fun table => totalOf (size table) (rows table)) left := by
  induction left generalizing start with
  | nil => exact (pure_eq_ok.mp h).symm
  | cons _ _ ih =>
    obtain ⟨sum, hsum, hrest⟩ := bind_eq_ok.mp h
    unfold addTable at hsum
    split at hsum
    · cases hsum
      rw [ih hrest, totalOf_cons, Nat.add_assoc]
    · cases hsum

theorem init_ok (h : init rows = .ok db) : db.Tracked ∧ db.capacity = maxBytes := by
  simp only [init, bind_eq_ok, pure_eq_ok] at h
  obtain ⟨bytes, hsum, rfl⟩ := h
  have := foldlM_addTable hsum
  exact ⟨by simp [Db.Tracked, total, this], rfl⟩

/-! ## Writes -/

/-- A write is kept within bounds, or nothing is left of it. -/
theorem usageBoundedWrite_cases (write : Db → Except String Unit × Db) (db : Db) :
    (usageBoundedWrite write db = (.ok true, (write db).2) ∧
        ((write db).2.bytes ≤ db.capacity ∨ (write db).2.bytes ≤ db.bytes)) ∨
      (usageBoundedWrite write db).1 ≠ .ok true ∧ (usageBoundedWrite write db).2 = db := by
  unfold usageBoundedWrite
  split
  · next after hafter =>
    split
    · next hfits => exact .inl ⟨by rw [hafter], by rwa [hafter]⟩
    · exact .inr ⟨by simp, rfl⟩
  · exact .inr ⟨by simp, rfl⟩

/-- What every change of a row keeps, a write keeps. -/
theorem Write.run_keeps {P : Db → Prop} (hchange : ∀ db c, P db → P (db.change c)) (w : Write)
    (h : P db) : P (w.run db).2 := by
  induction w generalizing db with
  | done | fail => exact h
  | look _ ih => exact ih db h
  | change c _ ih => exact ih (hchange db c h)
  | bounded write next ih ihnext =>
    have hinner : P (usageBoundedWrite write.run db).2 := by
      rcases usageBoundedWrite_cases write.run db with ⟨heq, -⟩ | ⟨-, heq⟩
      · rw [heq]
        exact ih h
      · rwa [heq]
    rw [Write.run]
    split
    · next kept after heq =>
      rw [heq] at hinner
      exact ihnext kept hinner
    · next heq =>
      rw [heq] at hinner
      exact hinner

theorem usageTrackingGap_eq_change (upTo : String) (db : Db) :
    ∃ c, (usageTrackingGap upTo db).2 = db.change c := by
  unfold usageTrackingGap
  split
  · exact ⟨.insert .usageGaps _, rfl⟩
  · exact ⟨.update .usageGaps _ _, rfl⟩

/-- The marker is free. -/
theorem usageTrackingGap_bytes (upTo : String) (db : Db) :
    (usageTrackingGap upTo db).2.bytes = db.bytes := by
  unfold usageTrackingGap
  split
  · simp [Db.change, size]
  next i hi =>
  obtain ⟨hlt, hkey, -⟩ := List.findIdx?_eq_some_iff_getElem.mp hi
  simp only [decide_eq_true_eq] at hkey
  simp [Db.change, List.getElem?_eq_getElem hlt, size, hkey]

theorem step_keeps {P : Db → Prop} (hchange : ∀ db c, P db → P (db.change c)) (c : Call)
    (h : P db) :
    P (step db c) := by
  cases c with
  | write w =>
    rcases usageBoundedWrite_cases w.run db with ⟨heq, -⟩ | ⟨-, heq⟩
    · simp only [step, heq]
      exact w.run_keeps hchange h
    · simpa only [step, heq] using h
  | gap upTo =>
    obtain ⟨c, hc⟩ := usageTrackingGap_eq_change upTo db
    simp only [step, hc]
    exact hchange db c h

theorem step_bytes (db : Db) (c : Call) :
    (step db c).bytes ≤ db.capacity ∨ (step db c).bytes ≤ db.bytes := by
  cases c with
  | write w =>
    rcases usageBoundedWrite_cases w.run db with ⟨heq, hfits⟩ | ⟨-, heq⟩
    · simpa only [step, heq] using hfits
    · simp only [step, heq]
      exact .inr (Int.le_refl _)
  | gap upTo => exact .inr (Int.le_of_eq (usageTrackingGap_bytes upTo db))

/-- Whatever is written, the count is the size of the rows; it stays within the capacity
once it is, and a write that takes it past that leaves nothing behind. -/
theorem tracking_exact (rows : Table → List Row) (calls : List Call) {db : Db}
    (h : init rows = .ok db) :
    Always step (fun s => s.bytes = total s.rows ∧ s.capacity = maxBytes ∧
      (db.bytes ≤ maxBytes → s.bytes ≤ maxBytes) ∧ ∀ w : Write,
        (maxBytes < (w.run s).2.bytes → s.bytes < (w.run s).2.bytes →
          (usageBoundedWrite w.run s).1 ≠ .ok true) ∧
        ((usageBoundedWrite w.run s).1 ≠ .ok true → (usageBoundedWrite w.run s).2 = s))
      db calls := by
  obtain ⟨htracked, hcapacity⟩ := init_ok h
  have hrun : Always step (fun s => s.Tracked ∧ s.capacity = maxBytes ∧
      (db.bytes ≤ maxBytes → s.bytes ≤ maxBytes)) db calls := by
    refine always_of_invariant ⟨htracked, hcapacity, fun h => h⟩ fun s c ⟨ht, hc, hb⟩ => ?_
    refine ⟨step_keeps (fun db c h => h.change c) c ht,
      step_keeps (P := fun s => s.capacity = maxBytes)
        (fun db c h => (change_capacity db c).trans h) c hc,
      fun hfits => ?_⟩
    rcases step_bytes s c with h | h <;> omega
  refine hrun.imp fun s ⟨ht, hc, hb⟩ => ⟨ht, hc, hb, fun w => ?_⟩
  rcases usageBoundedWrite_cases w.run s with ⟨heq, hfits⟩ | ⟨hnot, heq⟩
  · rw [heq]
    exact ⟨fun hover hmore => by omega, fun hnot => absurd rfl hnot⟩
  · exact ⟨fun _ _ => hnot, fun _ => heq⟩

/-- So many rows of two columns of a byte each, a hundred and thirty for each of them. -/
def files : Nat → Write
  | 0 => .done
  | n + 1 => .change (.insert .usageFiles fun _ => .text "a") (files n)

theorem files_bytes (n : Nat) (db : Db) : ((files n).run db).2.bytes = db.bytes + 130 * n := by
  induction n generalizing db with
  | zero => simp [files, Write.run]
  | succ _ ih =>
    have hsize : size .usageFiles (fun _ => .text "a") = 130 := by decide
    rw [files, Write.run, ih]
    simp only [Db.change, hsize]
    omega

/-- Two rows, of which one is rewritten and one is deleted; of more than there is room for
nothing stays. -/
theorem tracking_exact_files :
    let rewrites : Write := .change (.update .usageFiles 0 fun _ _ => .text "bb")
      (.change (.delete .usageFiles 1) .done)
    let db := run step ⟨fun _ => [], 0, maxBytes⟩ [.write (files 2), .write rewrites]
    db.bytes = 132 ∧ db.bytes = total db.rows ∧ ∀ n > 2064887, step db (.write (files n)) = db := by
  intro rewrites db
  have hbytes : db.bytes = 132 := by decide
  have hmax : maxBytes = 268435456 := rfl
  have hinit : init (fun _ => []) = .ok ⟨fun _ => [], 0, maxBytes⟩ := rfl
  obtain ⟨hexact, -, -, hbounded⟩ :=
    (tracking_exact (fun _ => []) [.write (files 2), .write rewrites] hinit).last
  refine ⟨hbytes, hexact, fun n hn => ?_⟩
  have hover : ((files n).run db).2.bytes = 132 + 130 * n := hbytes ▸ files_bytes n db
  obtain ⟨hrefused, hundone⟩ := hbounded (files n)
  exact hundone (hrefused (by rw [hover]; omega) (by rw [hover, hbytes]; omega))

end AgentDocker.Store.Tracking
