import AgentDocker.Proofs.Steps

/-!
# Memory and the database

Every change of a lease is one transaction, and memory follows it or, for an
expiry and a handoff, goes ahead and is put back. An expiry is not put back: a
daemon whose storage failed has forgotten the lease and serves nobody any more,
and the row is there when it is opened again.
-/

namespace AgentDocker.Daemon.Service

open AgentDocker.Core Lib

/-- The instants at which leases expired in a run. -/
def instants (ops : List Op) : List Time := ops.filterMap Op.time

theorem Went.mirroring {w w' : Service} {op : Op} (hw : Went w op w') :
    State.Mirroring op.time w.state w'.state := by
  cases hw with
  | still | asked => exact .of_same (fun _ => Iff.rfl) rfl fun h => h
  | turn acts _ _ _ turn =>
    rw [Op.time_of_acts acts]
    exact turn.mirroring
  | aside _ aside => exact aside.mirrors

/-- After every step, as long as storage has not failed, memory has the leases
of the durable rows; once it has, what memory has is still durable, and what it
misses had expired at an instant at which leases expired. -/
theorem write_through (env : Env) (leases : LeaseTable) (faults : Nat → Option String)
    (ops : List Op) :
    ((run step (start env leases faults) ops).state.storageError = none →
      ∀ l, l ∈ (run step (start env leases faults) ops).state.leases ↔
        l ∈ (run step (start env leases faults) ops).state.store.leases) ∧
    (run step (start env leases faults) ops).state.Mirrors (· ∈ instants ops) := by
  have hmirrors : Always step (fun w => w.state.Mirrors (· ∈ instants ops))
      (start env leases faults) ops := by
    refine always_of_each (.of_mem_iff fun _ => Iff.rfl)
      (fun w op h hop => (step_went w op).mirroring _ hop h) (Each.of_mem fun op hop now hnow => ?_)
    exact List.mem_filterMap.mpr ⟨op, hop, hnow⟩
  exact ⟨hmirrors.last.mem_iff, hmirrors.last⟩

/-- A lease that has expired when the disk is full. -/
def expiredUnwritten : List Op :=
  [.request 1 ⟨"a"⟩ (.path "/src" .exclusive 0), .attempt 1 0 ⟨"l1"⟩, .expire 3600]

theorem expiredUnwritten_forgotten : ¬ ∀ (faults : Nat → Option String) (ops : List Op) (l : Lease),
      l ∈ (run step (start .everybody .empty faults) ops).state.leases ↔
        l ∈ (run step (start .everybody .empty faults) ops).state.store.leases := by
  intro h
  let full : Nat → Option String := fun n => if n = 2 then some "disk full" else none
  have hforgotten : ¬ ∀ l ∈ (run step (start .everybody .empty full)
      expiredUnwritten).state.store.leases.rows,
        l ∈ (run step (start .everybody .empty full) expiredUnwritten).state.leases.rows := by
    decide
  exact hforgotten fun l hl => (h full expiredUnwritten l).mpr hl

end AgentDocker.Daemon.Service
