import AgentDocker.Core.Lease
import AgentDocker.Lib.Runs

/-!
# When the lease table keeps holders apart

The promise of an exclusive lease is that nobody else holds an overlapping
one. Claims check it, and every operation that only drops or extends leases
keeps it: what is left is a shadow of what was there. The interesting
operations are the two that change a lease's holder without looking.

Moving everything one agent holds is safe, because whatever the moved leases
were free of conflict with, they still are, and among themselves they stay in
one pair of hands. Moving a part is not: leases of one holder may overlap each
other freely, so a moved lease can be torn from a kept one it overlaps.
`apart_iff_handed_over_whole` says that this is the only way the promise
breaks, and that it always breaks that way.
-/

namespace AgentDocker.Core.LeaseTable

open Lib Keyed

/-- No two leases in different hands overlap with one of them exclusive. -/
def Apart (t : LeaseTable) : Prop :=
  ∀ l ∈ t, ∀ k ∈ t, l.holder ≠ k.holder → l.conflicts k = false

instance : DecidablePred Apart := fun t =>
  inferInstanceAs (Decidable (∀ l ∈ t.rows, ∀ k ∈ t.rows, l.holder ≠ k.holder →
    l.conflicts k = false))

/-! ## Shadows

An operation that neither makes a lease nor changes who holds what in which
mode leaves a table whose leases all have an original. -/

/-- Every lease of `t'` is one of `t` in resource, holder and mode. -/
def Shadows (t' t : LeaseTable) : Prop :=
  ∀ l' ∈ t', ∃ l ∈ t, l'.resource = l.resource ∧ l'.holder = l.holder ∧ l'.mode = l.mode

variable {recipient sender : AgentId} {request : ClaimRequest} {l : Lease} {moves : Lease → Bool}
  {t t' : LeaseTable} {now : Time}

theorem Shadows.of_subset (h : ∀ l ∈ t', l ∈ t) : Shadows t' t :=
  fun l hl => ⟨l, h l hl, rfl, rfl, rfl⟩

theorem Shadows.trans {t'' : LeaseTable} (h₁ : Shadows t'' t') (h₂ : Shadows t' t) :
    Shadows t'' t := by
  intro l'' hl''
  obtain ⟨l', hl', hr', hh', hm'⟩ := h₁ l'' hl''
  obtain ⟨l, hl, hr, hh, hm⟩ := h₂ l' hl'
  exact ⟨l, hl, hr'.trans hr, hh'.trans hh, hm'.trans hm⟩

/-- Writing a changed copy over a lease of the table. -/
theorem Shadows.insert {l' : Lease} (hl : l ∈ t) (hr : l'.resource = l.resource)
    (hh : l'.holder = l.holder) (hm : l'.mode = l.mode) : Shadows (t.insert l') t := by
  intro k hk
  rcases mem_insert.mp hk with rfl | ⟨hk, -⟩
  · exact ⟨l, hl, hr, hh, hm⟩
  · exact ⟨k, hk, rfl, rfl, rfl⟩

theorem Apart.of_shadows (ht : t.Apart) (h : Shadows t' t) : t'.Apart := by
  intro l' hl' k' hk' hne
  obtain ⟨l, hl, hrl, hhl, hml⟩ := h l' hl'
  obtain ⟨k, hk, hrk, hhk, hmk⟩ := h k' hk'
  have hlk := ht l hl k hk (by rw [← hhl, ← hhk]; exact hne)
  rw [Lease.conflicts] at hlk ⊢
  rw [hrl, hml, hrk, hmk]
  exact hlk

theorem owned_ok {id : LeaseId} {holder : AgentId} (h : t.owned id holder = .ok l) :
    l ∈ t ∧ l.id = id ∧ l.holder = holder := by
  unfold owned at h
  split at h
  · cases h
  next lease hget =>
  obtain ⟨hmem, hid⟩ := get?_eq_some.mp hget
  split at h
  · cases h
  next hholder =>
  cases h
  exact ⟨hmem, hid, not_not.mp hholder⟩

theorem existing_mem (h : t.existing request = some l) : l ∈ t :=
  List.mem_of_find?_eq_some h

theorem expire_shadows (now : Time) : Shadows (t.expire now).1 t :=
  .of_subset fun _ hl => (mem_filter.mp hl).1

theorem renew_shadows {id : LeaseId} {holder : AgentId} {ttl : Time} :
    Shadows (t.renew id holder ttl now).1 t := by
  unfold renew
  dsimp only
  split
  · exact expire_shadows now
  next l h =>
  refine Shadows.trans ?_ (expire_shadows now)
  exact Shadows.insert (owned_ok h).1 rfl rfl rfl

theorem release_shadows {id : LeaseId} {holder : AgentId} : Shadows (t.release id holder).1 t := by
  unfold release
  split
  · exact .of_subset fun _ hl => hl
  · exact .of_subset fun _ hl => (mem_erase.mp hl).1

theorem releaseHeld_shadows {holder : AgentId} {onlyAutomatic : Bool} :
    Shadows (t.releaseHeld holder onlyAutomatic).1 t :=
  .of_subset fun _ hl => (mem_filter.mp hl).1

/-! ## Claims -/

/-- A lease nobody is in the way of may be added. -/
theorem Apart.insert_fresh (ht : t.Apart) {id : LeaseId} (hfree : t.inTheWay request = []) :
    Apart (t.insert (fresh request now id)) := by
  have hnew : ∀ k ∈ t, k.holder ≠ request.holder → k.conflicts (fresh request now id) = false := by
    intro k hk hne
    have hb : ¬ k.blocks request.holder request.mode request.resource = true := by
      intro hb
      have : k ∈ t.inTheWay request := List.mem_filter.mpr ⟨hk, hb⟩
      rw [hfree] at this
      cases this
    rw [Lease.blocks_eq] at hb
    simp only [Lease.conflicts, fresh]
    simp only [Bool.and_eq_false_iff, Bool.or_eq_false_iff]
    by_cases hov : k.resource.overlaps request.resource = true
    · right
      simp only [beq_eq_false_iff_ne]
      exact ⟨fun h => hb ⟨hne, hov, .inl h⟩, fun h => hb ⟨hne, hov, .inr h⟩⟩
    · left
      simpa using hov
  intro l hl k hk hne
  rcases mem_insert.mp hl with rfl | ⟨hl, -⟩ <;> rcases mem_insert.mp hk with rfl | ⟨hk, -⟩
  · exact absurd rfl hne
  · rw [Lease.conflicts_comm]
    exact hnew k hk (Ne.symm hne)
  · exact hnew l hl hne
  · exact ht l hl k hk hne

theorem Apart.claimAs (ht : t.Apart) (request : ClaimRequest) (now : Time) (id : LeaseId) :
    (t.claimAs request now id).1.Apart := by
  have hexp := ht.of_shadows (expire_shadows now)
  unfold LeaseTable.claimAs
  dsimp only
  split
  · next l h => exact hexp.of_shadows (Shadows.insert (existing_mem h) rfl rfl rfl)
  · split
    · exact hexp
    · next hfree => exact hexp.insert_fresh (not_not.mp hfree)

/-- A lease of the table that has not run out. -/
def Live (t : LeaseTable) (now : Time) (l : Lease) : Prop := l ∈ t ∧ now < l.expiresAt

/-- A lease its holder already has on that very resource in that mode. -/
def SameClaim (request : ClaimRequest) (l : Lease) : Prop :=
  l.holder = request.holder ∧ l.resource = request.resource ∧ l.mode = request.mode

/-- A lease in other hands that a claim cannot stand beside. -/
def StandsInTheWay (request : ClaimRequest) (l : Lease) : Prop :=
  l.holder ≠ request.holder ∧ l.resource.overlaps request.resource = true ∧
    (l.mode = .exclusive ∨ request.mode = .exclusive)

theorem mem_expire : l ∈ (t.expire now).1 ↔ t.Live now l := by
  rw [expire, mem_filter, Live, Lease.isExpired, Bool.not_eq_true', decide_eq_false_iff_not, not_le]

theorem existing_eq_some (h : t.existing request = some l) : l ∈ t ∧ SameClaim request l := by
  refine ⟨existing_mem h, ?_⟩
  have hl := List.find?_some h
  simpa [SameClaim, and_assoc] using hl

theorem existing_eq_none : t.existing request = none ↔ ∀ l ∈ t, ¬ SameClaim request l := by
  rw [existing, List.find?_eq_none]
  simp only [SameClaim, Bool.and_eq_true, decide_eq_true_eq, and_assoc]
  exact Iff.rfl

theorem mem_inTheWay : l ∈ t.inTheWay request ↔ l ∈ t ∧ StandsInTheWay request l := by
  rw [inTheWay, List.mem_filter, Lease.blocks_eq]
  exact Iff.rfl

/-- The three ways a claim ends: a lease renewed, leases in the way, a lease made. -/
inductive ClaimEnds (t : LeaseTable) (request : ClaimRequest) (now : Time) (id : LeaseId) :
    LeaseTable × Except LeaseError Claimed → Prop where
  | renewed {l : Lease} (live : t.Live now l) (same : SameClaim request l) :
      ClaimEnds t request now id
        ((t.expire now).1.insert (renewedBy request now l),
          .ok (.renewed (renewedBy request now l)))
  | refused {heldBy : List Lease} (none : ∀ l, t.Live now l → ¬ SameClaim request l)
      (blocked : heldBy ≠ []) (nodup : heldBy.Nodup)
      (held : ∀ l, l ∈ heldBy ↔ t.Live now l ∧ StandsInTheWay request l) :
      ClaimEnds t request now id ((t.expire now).1, .error (.conflict request.resource heldBy))
  | made (none : ∀ l, t.Live now l → ¬ SameClaim request l)
      (free : ∀ l, t.Live now l → ¬ StandsInTheWay request l) :
      ClaimEnds t request now id
        ((t.expire now).1.insert (fresh request now id), .ok (.new (fresh request now id)))

theorem claimAs_ends (t : LeaseTable) (request : ClaimRequest) (now : Time) (id : LeaseId) :
    ClaimEnds t request now id (t.claimAs request now id) := by
  unfold LeaseTable.claimAs
  dsimp only
  split
  · next l h =>
    obtain ⟨hl, hsame⟩ := existing_eq_some h
    exact .renewed (mem_expire.mp hl) hsame
  next h =>
  have hnone : ∀ l, t.Live now l → ¬ SameClaim request l :=
    fun l hl => existing_eq_none.mp h l (mem_expire.mpr hl)
  split
  · next hblocked =>
    refine .refused hnone hblocked ?_ ?_
    · exact (List.Nodup.of_map _ (t.expire now).1.nodup).filter _
    · intro l
      rw [mem_inTheWay, mem_expire]
  next hfree =>
  refine .made hnone ?_
  intro l hl hway
  have hmem := mem_inTheWay.mpr ⟨mem_expire.mpr hl, hway⟩
  rw [not_not.mp hfree] at hmem
  cases hmem

/-- What a claim answers and leaves behind, `out` being the table after it and the
answer. -/
structure ClaimFrame (t : LeaseTable) (request : ClaimRequest) (now : Time) (id : LeaseId)
    (out : LeaseTable × Except LeaseError Claimed) : Prop where
  /-- Refused as a conflict exactly when the holder has no such lease and another's is
  in the way. -/
  refused_iff : (∃ resource heldBy, out.2 = .error (.conflict resource heldBy)) ↔
    (¬ ∃ l, t.Live now l ∧ SameClaim request l) ∧ ∃ l, t.Live now l ∧ StandsInTheWay request l
  /-- A refusal lists exactly the leases in the way, each once, and changes no lease. -/
  refused : ∀ err, out.2 = .error err →
    ∃ heldBy, err = .conflict request.resource heldBy ∧ heldBy.Nodup ∧
      (∀ l, l ∈ heldBy ↔ t.Live now l ∧ StandsInTheWay request l) ∧
      ∀ l, l ∈ out.1 ↔ t.Live now l
  /-- A lease made, beside every lease that has not run out, under an id none of them
  has. -/
  made : ∀ lease, out.2 = .ok (.new lease) →
    lease = fresh request now id ∧ lease.expiresAt = now + request.ttl ∧
      ((∀ l, t.Live now l → l.id ≠ id) →
        (¬ t.Live now lease) ∧ ∀ l, l ∈ out.1 ↔ l = lease ∨ t.Live now l)
  /-- Or one of them extended, and no other lease changed. -/
  renewed : ∀ lease, out.2 = .ok (.renewed lease) →
    ∃ old, t.Live now old ∧ SameClaim request old ∧ lease = renewedBy request now old ∧
      lease.expiresAt = now + request.ttl ∧
      ∀ l, l ∈ out.1 ↔ l = lease ∨ (t.Live now l ∧ l ≠ old)

theorem mem_insert_renewed {old : Lease} (hold : old ∈ t) :
    l ∈ t.insert (renewedBy request now old) ↔
      l = renewedBy request now old ∨ (l ∈ t ∧ l ≠ old) := by
  rw [mem_insert]
  refine or_congr Iff.rfl (and_congr_right fun hl => not_congr ?_)
  constructor
  · intro hid
    exact eq_of_key_eq hl hold hid
  · rintro rfl
    rfl

/-- A claim is refused exactly for the unexpired leases of others in its way, makes or
extends one lease otherwise, and leaves every other unexpired lease alone. -/
theorem claimAs_frame (t : LeaseTable) (request : ClaimRequest) (now : Time) (id : LeaseId) :
    ClaimFrame t request now id (t.claimAs request now id) := by
  have hends := claimAs_ends t request now id
  generalize t.claimAs request now id = out at hends ⊢
  cases hends with
  | @renewed old live same =>
    refine ⟨?_, by simp, by simp, ?_⟩
    · refine iff_of_false (by simp) ?_
      rintro ⟨hnone, -⟩
      exact hnone ⟨old, live, same⟩
    · intro lease h
      cases h
      refine ⟨old, live, same, rfl, rfl, ?_⟩
      intro l
      rw [mem_insert_renewed (mem_expire.mpr live), mem_expire]
  | @refused heldBy none blocked nodup held =>
    refine ⟨?_, ?_, by simp, by simp⟩
    · refine iff_of_true ⟨_, _, rfl⟩ ⟨?_, ?_⟩
      · rintro ⟨l, hl, hsame⟩
        exact none l hl hsame
      · obtain ⟨l, hl⟩ := List.exists_mem_of_ne_nil heldBy blocked
        exact ⟨l, (held l).mp hl⟩
    · intro err h
      cases h
      exact ⟨heldBy, rfl, nodup, held, fun l => mem_expire⟩
  | made _ free =>
    refine ⟨?_, by simp, ?_, by simp⟩
    · refine iff_of_false (by simp) ?_
      rintro ⟨-, l, hl, hway⟩
      exact free l hl hway
    · intro lease h
      cases h
      refine ⟨rfl, rfl, ?_⟩
      intro hid
      refine ⟨fun hlive => hid _ hlive rfl, ?_⟩
      intro l
      rw [mem_insert, mem_expire]
      refine or_congr Iff.rfl ⟨And.left, ?_⟩
      intro hl
      exact ⟨hl, hid l hl⟩

/-! ## Handing over -/

theorem mem_handOver : l ∈ (t.handOver moves recipient now).1 ↔
      (∃ m ∈ t, moves m = true ∧ l = handedTo recipient now m) ∨ (l ∈ t ∧ moves l = false) := by
  rw [handOver, mem_update]
  constructor
  · rintro ⟨m, hm, rfl⟩
    split <;> rename_i hmv
    · exact .inl ⟨m, hm, hmv, rfl⟩
    · exact .inr ⟨hm, by simpa using hmv⟩
  · rintro (⟨m, hm, hmv, rfl⟩ | ⟨hl, hlv⟩)
    · exact ⟨m, hm, by rw [if_pos hmv]⟩
    · exact ⟨l, hl, by rw [if_neg (by simp [hlv])]⟩

/-- Leases a handoff tears nothing from: no lease it moves overlaps, with one
of the two exclusive, a lease its sender keeps. -/
def HandedOverWhole (t : LeaseTable) (sender : AgentId) (moves : Lease → Bool) : Prop :=
  ∀ m ∈ t, moves m = true → ∀ k ∈ t, k.holder = sender → moves k = false → m.conflicts k = false

/-- A moved lease against one that stayed. -/
theorem Apart.conflicts_moved (ht : t.Apart)
    (hcond : sender = recipient ∨ HandedOverWhole t sender moves) {m k : Lease} (hm : m ∈ t)
    (hmv : moves m = true) (hms : m.holder = sender) (hk : k ∈ t) (hkv : moves k = false)
    (hne : recipient ≠ k.holder) :
    (handedTo recipient now m).conflicts k = false := by
  by_cases hks : k.holder = sender
  · rcases hcond with rfl | hwhole
    · exact absurd hks.symm hne
    · exact hwhole m hm hmv k hk hks hkv
  · exact ht m hm k hk (fun h => hks (h.symm.trans hms))

/-- Handing some of one holder's leases to another keeps holders apart exactly
when it tears none of them from what the holder keeps. -/
theorem Apart.handOver_iff (ht : t.Apart) (hmoves : ∀ l ∈ t, moves l = true → l.holder = sender) :
    (t.handOver moves recipient now).1.Apart ↔
      (sender = recipient ∨ HandedOverWhole t sender moves) := by
  constructor
  · intro h
    by_cases hsr : sender = recipient
    · exact .inl hsr
    · right
      intro m hm hmv k hk hks hkv
      have hm' : handedTo recipient now m ∈ (t.handOver moves recipient now).1 :=
        mem_handOver.mpr (.inl ⟨m, hm, hmv, rfl⟩)
      have hk' : k ∈ (t.handOver moves recipient now).1 :=
        mem_handOver.mpr (.inr ⟨hk, hkv⟩)
      exact h _ hm' k hk' (fun hne => hsr (hks.symm.trans hne.symm))
  · intro hcond l hl k hk hne
    -- Four cases: each of the two leases moved or stayed.
    rcases mem_handOver.mp hl with ⟨m, hm, hmv, rfl⟩ | ⟨hl, hlv⟩ <;>
      rcases mem_handOver.mp hk with ⟨n, hn, hnv, rfl⟩ | ⟨hk, hkv⟩
    · exact absurd rfl hne
    · exact ht.conflicts_moved hcond hm hmv (hmoves m hm hmv) hk hkv hne
    · rw [Lease.conflicts_comm]
      exact ht.conflicts_moved hcond hn hnv (hmoves n hn hnv) hl hlv (Ne.symm hne)
    · exact ht l hl k hk hne

theorem Apart.transfer (ht : t.Apart) (sender recipient : AgentId) (now : Time) :
    (t.transfer sender recipient now).1.Apart := by
  have hexp := ht.of_shadows (expire_shadows now)
  have hmoves : ∀ l ∈ (t.expire now).1, decide (l.holder = sender) = true →
      l.holder = sender := fun l _ h => of_decide_eq_true h
  refine (hexp.handOver_iff hmoves).mpr (.inr ?_)
  intro m _ _ k _ hks hkv
  exact absurd hks (by simpa using hkv)

theorem Apart.transferSelected_iff (ht : t.Apart) {ids : List LeaseId} :
    (t.transferSelected sender recipient ids now).1.Apart ↔
      (sender = recipient ∨ HandedOverWhole t sender (selected sender ids now)) := by
  refine ht.handOver_iff fun l _ h => ?_
  simp only [selected, Bool.and_eq_true, decide_eq_true_eq] at h
  exact h.1.1

/-! ## Runs -/

/-- One operation on the table, with everything it is given. -/
inductive Op where
  | claimAs (request : ClaimRequest) (now : Time) (id : LeaseId)
  | renew (id : LeaseId) (holder : AgentId) (ttl now : Time)
  | release (id : LeaseId) (holder : AgentId)
  | releaseHeld (holder : AgentId) (onlyAutomatic : Bool)
  | expire (now : Time)
  | transfer (sender recipient : AgentId) (now : Time)
  | transferSelected (sender recipient : AgentId) (ids : List LeaseId) (now : Time)
  /-- The hash map is walked in another order from here on. -/
  | reorder (rows : List Lease)

def step (t : LeaseTable) : Op → LeaseTable
  | .claimAs request now id => (t.claimAs request now id).1
  | .renew id holder ttl now => (t.renew id holder ttl now).1
  | .release id holder => (t.release id holder).1
  | .releaseHeld holder onlyAutomatic => (t.releaseHeld holder onlyAutomatic).1
  | .expire now => (t.expire now).1
  | .transfer sender recipient now => (t.transfer sender recipient now).1
  | .transferSelected sender recipient ids now =>
    (t.transferSelected sender recipient ids now).1
  | .reorder rows => if h : rows.Perm t.rows then t.reorder rows h else t

/-- The condition on one operation: a partial handoff to somebody else takes
along every lease of the sender's that its leases may not be parted from. -/
def PartsNothing (t : LeaseTable) : Op → Prop
  | .transferSelected sender recipient ids now =>
    sender = recipient ∨ HandedOverWhole t sender (selected sender ids now)
  | _ => True

theorem step_apart_iff (ht : t.Apart) (op : Op) : (t.step op).Apart ↔ t.PartsNothing op := by
  cases op with
  | claimAs request now id => exact iff_of_true (ht.claimAs request now id) trivial
  | renew =>
    exact iff_of_true (ht.of_shadows renew_shadows) trivial
  | release =>
    exact iff_of_true (ht.of_shadows release_shadows) trivial
  | releaseHeld =>
    exact iff_of_true (ht.of_shadows releaseHeld_shadows) trivial
  | expire now => exact iff_of_true (ht.of_shadows (expire_shadows now)) trivial
  | transfer sender recipient now =>
    exact iff_of_true (ht.transfer sender recipient now) trivial
  | transferSelected => exact ht.transferSelected_iff
  | reorder =>
    refine iff_of_true ?_ trivial
    rw [step]
    split
    · next h => exact ht.of_shadows (.of_subset fun _ hl => mem_reorder.mp hl)
    · exact ht

/-- From an empty table, holders stay apart throughout a run of operations if
and only if no partial handoff in it parts leases that overlap. -/
theorem apart_iff_handed_over_whole (ops : List Op) :
    Always step Apart Keyed.empty ops ↔ Each step PartsNothing Keyed.empty ops :=
  always_iff_each (Q := fun _ => True) (G := fun _ _ => True) trivial
    nofun (fun _ _ _ _ => trivial)
    (fun _ op _ _ ht => step_apart_iff ht op)
    (Each.of_forall fun _ _ => trivial)

/-- An agent holding a directory and a file in it, then handing over the file
alone: a handoff accepted after its sender claimed more. -/
def partedDirectory : List Op :=
  let sender : AgentId := ⟨"sender"⟩
  let claim (key : String) : ClaimRequest :=
    ⟨⟨key⟩, sender, .exclusive, 300, none, false⟩
  [.claimAs (claim "path:/repo/src/main.rs") 0 ⟨"1"⟩,
    .claimAs (claim "path:/repo/src") 1 ⟨"2"⟩,
    .transferSelected sender ⟨"recipient"⟩ [⟨"1"⟩] 2]

theorem partedDirectory_not_apart : ¬ ∀ ops, Always step Apart Keyed.empty ops := by
  intro h
  exact absurd (h partedDirectory) (by decide)

end AgentDocker.Core.LeaseTable
