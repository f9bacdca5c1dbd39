import AgentDocker.Lib.Totals
import AgentDocker.Proofs.Steps

/-!
# What a quota's leases say

A claim on a quota is granted when what it asks for fits next to what the table
already records. A new lease records what it was granted; a claim of what its
holder already has renews the lease it finds, and that one goes on recording
what it was created with. So the recorded sum stays within the capacity in every
run, and a lease covers what was granted on it as long as nobody asks for more
than the lease they would renew.

`Books` adds to the daemon what was granted on each lease since it was created.
-/

namespace AgentDocker.Daemon

open AgentDocker.Core Lib Keyed

/-! ## The sum the table records -/

theorem committed_eq_total {t : LeaseTable} {q : ResourceKey} :
    t.committed q = t.total (fun l => decide (l.resource = q)) Lease.amount := by
  refine totalOf_perm (List.Perm.filter _ ?_)
  rw [LeaseTable.all, LeaseTable.sorted, List.filter_true]
  exact List.perm_insertionSort _ _

theorem committed_le {t t' : LeaseTable} {q : ResourceKey}
    (h : ∀ l' ∈ t', l'.resource = q →
      ∃ l ∈ t, l'.id = l.id ∧ l'.resource = l.resource ∧ l'.amount = l.amount) :
    t'.committed q ≤ t.committed q := by
  rw [committed_eq_total, committed_eq_total]
  refine total_le fun l' hl' hq => ?_
  rw [decide_eq_true_eq] at hq
  obtain ⟨l, hl, hid, hresource, hamount⟩ := h l' hl' hq
  exact ⟨l, hl, decide_eq_true (hresource.symm.trans hq), hid.symm, hamount.symm⟩

theorem committed_insert_le (t : LeaseTable) (q : ResourceKey) (lease : Lease) :
    LeaseTable.committed (t.insert lease) q ≤ t.committed q + lease.amount := by
  rw [committed_eq_total, committed_eq_total]
  exact total_insert_le t lease

/-! ## What an attempt takes -/

def Response.leaseOf : Response → Option Lease
  | .lease l => some l
  | _ => none

theorem Response.leaseOf_of_isPlain {response : Response} (h : response.isPlain = true) :
    response.leaseOf = none := by
  unfold leaseOf
  split
  · cases h
  · rfl

theorem Response.leaseOf_of_isDeadlock {response : Response} (h : response.isDeadlock = true) :
    response.leaseOf = none := by
  unfold leaseOf
  split
  · cases h
  · rfl

def Phase.leaseOf : Phase → Option Lease
  | .answered response => response.leaseOf
  | _ => none

namespace State

variable {c : Claim} {lease : Lease} {t : LeaseTable} {capacity : Nat} {q : ResourceKey}
  {response : Response} {s s' s₀ : State} {now : Time}

/-- A claim that passes the check fits, where the capacity can be told from a
sum that saturates. -/
theorem overQuota_eq_none (h : s.overQuota c = none) (hquota : c.args.isQuota = true)
    (hcapacity : s.env.quotaCapacity c.holder (String.ofList c.args.resource.value) =
      some capacity) (hbound : capacity < u64Max) :
    s.leases.committed c.args.resource + c.args.want ≤ capacity := by
  simp only [overQuota, hquota, if_true, hcapacity] at h
  split at h
  · cases h
  next hfits =>
  rw [ClaimArgs.want]
  omega

variable {id : LeaseId}

theorem Grants.resource (h : Grants c t now id lease) : lease.resource = c.args.resource := by
  cases h with
  | new _ resource => exact resource
  | renewed _ _ _ on _ eq => exact eq ▸ on

theorem Grants.holder (h : Grants c t now id lease) : lease.holder = c.holder := by
  cases h with
  | new _ _ holder => exact holder
  | renewed _ _ holds _ _ eq => exact eq ▸ holds

theorem isQuota_of_kind {args : ClaimArgs} (hon : args.resource = q)
    (hq : q.kind = "quota".toList) : args.isQuota = true := by
  rw [ClaimArgs.isQuota, hon, hq]
  rfl

/-- A grant that passed the check keeps the recorded sum within the capacity: a
new lease was counted before it was made, and a renewed one already is. -/
theorem committed_grant (hq : q.kind = "quota".toList) (hbound : capacity < u64Max)
    (hs : s.leases.committed q ≤ capacity) (hroom : s.overQuota c = none)
    (hcapacity : c.args.resource = q → s.env.quotaCapacity c.holder (String.ofList q.value) =
      some capacity)
    (hgrants : Grants c s.leases now id lease) :
    LeaseTable.committed (s.leases.insert lease) q ≤ capacity := by
  cases hgrants with
  | new _ resource _ _ amount =>
    by_cases hon : lease.resource = q
    · have hcq : c.args.resource = q := resource.symm.trans hon
      have hquota := isQuota_of_kind hcq hq
      have hfits := overQuota_eq_none hroom hquota (hcq ▸ hcapacity hcq) hbound
      have hinsert := committed_insert_le s.leases q lease
      rw [amount hquota] at hinsert
      exact hinsert.trans (hcq ▸ hfits)
    · refine (committed_le fun l hl hon' => ?_).trans hs
      rcases mem_insert.mp hl with rfl | ⟨hl, -⟩
      · exact absurd hon' hon
      · exact ⟨l, hl, rfl, rfl, rfl⟩
  | @renewed l mem _ _ _ _ eq =>
    refine (committed_le fun k hk _ => ?_).trans hs
    rcases mem_insert.mp hk with rfl | ⟨hk, -⟩
    · rw [eq]
      exact ⟨l, mem, rfl, rfl, rfl⟩
    · exact ⟨k, hk, rfl, rfl, rfl⟩

/-- A granted attempt. -/
structure Granted (s : State) (c : Claim) (now : Time) (id : LeaseId) (s' : State) (lease : Lease) :
    Prop where
  /-- The state its checks are made in: leases have expired in it. -/
  checked : ∃ s₁ : State, (∀ l ∈ s₁.leases, l ∈ s.leases) ∧ s₁.env = s.env ∧
    s₁.overQuota c = none ∧ Grants c s₁.leases now id lease ∧ s'.leases = s₁.leases.insert lease

theorem attempt_spends (s : State) (c : Claim) (now : Time) (id : LeaseId) :
    ((s.attempt c now id).2.phase.leaseOf = none ∧
      ∀ l ∈ (s.attempt c now id).1.leases, l ∈ s.leases) ∨
    ∃ lease, (s.attempt c now id).2.phase.leaseOf = some lease ∧
      Granted s (c.seen s.env) now id (s.attempt c now id).1 lease := by
  unfold attempt
  rcases deadlocked_cases c.guard s with ⟨_, _, _, _, hd⟩ | ⟨_, hd⟩
  · rw [hd]
    exact .inl ⟨rfl, fun l hl => hl⟩
  rw [hd]
  rcases hr : s.attemptHold c now id with ⟨s', c', _⟩
  obtain ⟨s₁, _, passed, hheld⟩ := attemptHold_held hr
  have hends : ∀ outcome, (c'.guard.endLocked s' outcome).1.leases = s'.leases := fun outcome => by
    obtain ⟨-, _, hends⟩ := endLocked_spec c'.guard s' outcome
    exact hends.leases
  cases hheld with
  | refused plain =>
    exact .inl ⟨Response.leaseOf_of_isPlain plain, fun l hl => passed.kept l (hends _ ▸ hl)⟩
  | granted _ _ room grants =>
    exact .inr ⟨_, rfl, s₁, passed.kept, passed.env, room, grants, hends _⟩
  | deadlocked _ _ rings ring =>
    exact .inl ⟨Response.leaseOf_of_isDeadlock ring,
      fun l hl => passed.kept l (rings.leases ▸ hends _ ▸ hl)⟩
  | conflicted =>
    dsimp only
    split <;> exact .inl ⟨rfl, passed.kept⟩
  | joined _ _ _ _ rings _ joins =>
    dsimp only
    split <;> exact .inl ⟨rfl, fun l hl => passed.kept l (rings.leases ▸ joins.leases ▸ hl)⟩

/-- A claim that wakes or goes away makes no lease. -/
theorem Turn.kept {c' : Claim} (h : Turn s c none s' c') : ∀ l ∈ s'.leases, l ∈ s.leases := by
  cases h with
  | woke | read => exact fun l hl => hl
  | ended passed _ _ _ ends => exact ends.leases ▸ passed.kept

end State

/-! ## The books -/

namespace Service

/-- The claim a step grants, in the name it was granted in, and the lease it is
answered with. -/
def granted (w : Service) : Op → Option (Claim × Lease)
  | .attempt number now id => do
      let c ← w.claims.get? number
      let held ← attemptOp now id w.state c
      let lease ← held.2.phase.leaseOf
      return (c.seen w.state.env, lease)
  | _ => none

/-- What holds of every attempt of a claim on `q`, the claim taken in the name of
the record that stays. -/
def OnAttempt (q : ResourceKey) (P : State → Claim → Time → Prop) (w : Service) : Op → Prop
  | .attempt number now _ =>
    ∀ c ∈ w.claims.get? number, c.args.resource = q → P w.state (c.seen w.state.env) now
  | _ => True

/-- The capacity of the quota is `capacity` for whoever attempts. -/
def Metered (q : ResourceKey) (capacity : Nat) : Service → Op → Prop :=
  OnAttempt q fun s c _ =>
    s.env.quotaCapacity c.holder (String.ofList q.value) = some capacity

/-- Nobody who has a lease on the quota asks for more than it records. -/
def Modest (q : ResourceKey) : Service → Op → Prop :=
  OnAttempt q fun s c now => ∀ l ∈ s.leases.rows, l.holder = c.holder → l.resource = q →
    l.isExpired now = false → c.args.want ≤ l.amount

/-- The leases of before a step, as far as a quota counts them. -/
def Recounted (t t' : LeaseTable) : Prop :=
  ∀ l' ∈ t', ∃ l ∈ t, l'.id = l.id ∧ l'.resource = l.resource ∧ l'.amount = l.amount

theorem Recounted.of_subset {t t' : LeaseTable} (h : ∀ l ∈ t', l ∈ t) : Recounted t t' :=
  fun l hl => ⟨l, h l hl, rfl, rfl, rfl⟩

/-- A step grants a claim, or makes no lease. -/
theorem step_spends (w : Service) (op : Op) :
    (w.granted op = none ∧ Recounted w.state.leases (w.step op).state.leases) ∨
    ∃ number now id c lease, op = .attempt number now id ∧ w.claims.get? number = some c ∧
      (∀ l ∈ w.state.leases, l.id ≠ id) ∧ w.granted op = some (c.seen w.state.env, lease) ∧
      State.Granted w.state (c.seen w.state.env) now id (w.step op).state lease := by
  have hother (hacts : ∀ number now, op.acts ≠ some (number, some now)) :
      Recounted w.state.leases (w.step op).state.leases := by
    generalize hw : w.step op = w'
    have hwent := hw ▸ step_went w op
    cases hwent with
    | still | asked => exact .of_subset fun l hl => hl
    | @turn _ time _ _ _ acts _ _ _ turn =>
      cases time with
      | none => exact .of_subset turn.kept
      | some => exact absurd acts (hacts _ _)
    | aside _ aside =>
      intro l' hl'
      obtain ⟨l, hl, hid, hresource, -, -, hamount⟩ := aside.kept l' hl'
      exact ⟨l, hl, hid, hresource, hamount⟩
  cases op with
  | attempt number now id =>
    simp only [granted, step, advance]
    cases hget : w.claims.get? number with
    | none => exact .inl ⟨rfl, .of_subset fun l hl => hl⟩
    | some c =>
      dsimp only
      cases hheld : attemptOp now id w.state c with
      | none => exact .inl ⟨by simp [hheld], .of_subset fun l hl => hl⟩
      | some held =>
        obtain ⟨hid, hattempt⟩ : w.state.leases.get? id = none ∧
            held = w.state.attempt c now id := by
          unfold attemptOp at hheld
          split at hheld
          · next hc => exact ⟨hc.2, (Option.some.inj hheld).symm⟩
          · cases hheld
        rcases State.attempt_spends w.state c now id with ⟨hnone, hkept⟩ |
          ⟨lease, hsome, hgranted⟩
        · refine .inl ⟨?_, .of_subset ?_⟩
          · simp [hheld, hattempt, hnone]
          · rw [hattempt]
            exact hkept
        · refine .inr ⟨number, now, id, c, lease, rfl, hget, get?_eq_none.mp hid, ?_, ?_⟩
          · simp [hheld, hattempt, hsome]
          · rw [hattempt]
            exact hgranted
  | request | wake | drop | renew | release | releaseAll | expire | resume | offer | abort | env
  | reorder => exact .inl ⟨rfl, hother (by simp [Op.acts])⟩

end Service

/-- A daemon, and what was granted on each lease since the lease was created. -/
structure Books where
  service : Service
  granted : List (LeaseId × Nat)

namespace Books

def start (env : Env) (leases : LeaseTable) (faults : Nat → Option String) : Books :=
  ⟨.start env leases faults, []⟩

/-- A grant is entered under its lease, which a new lease starts afresh. -/
def enter (b : Books) : Option (Claim × Lease) → List (LeaseId × Nat)
  | none => b.granted
  | some (c, lease) =>
    (lease.id, c.args.want) ::
      if (b.service.state.leases.get? lease.id).isSome then b.granted
      else b.granted.filter fun g => decide (g.1 ≠ lease.id)

def step (b : Books) (op : Service.Op) : Books :=
  ⟨b.service.step op, b.enter (b.service.granted op)⟩

/-- The sum of what the leases on `q` record. -/
def recorded (q : ResourceKey) (b : Books) : Nat := b.service.state.leases.committed q

/-- A lease records at least every amount that was granted on it. -/
def Covers (granted : List (LeaseId × Nat)) (lease : Lease) : Prop :=
  ∀ g ∈ granted, g.1 = lease.id → g.2 ≤ lease.amount

instance (granted : List (LeaseId × Nat)) (lease : Lease) : Decidable (Covers granted lease) :=
  inferInstanceAs (Decidable (∀ g ∈ granted, _))

/-- A claim on `q` that is granted leaves its holder with a lease on it that
covers what was granted on it. -/
def Accounted (q : ResourceKey) (b : Books) (op : Service.Op) : Prop :=
  ∀ grant ∈ b.service.granted op, grant.1.args.resource = q →
    grant.2 ∈ (b.step op).service.state.leases ∧ grant.2.holder = grant.1.holder ∧
      grant.2.resource = q ∧ (grant.2.id, grant.1.args.want) ∈ (b.step op).granted ∧
      Covers (b.step op).granted grant.2

variable {b : Books} {c : Claim} {lease : Lease} {q : ResourceKey} {op : Service.Op}

/-- A step keeps the recorded sum within the capacity. -/
theorem recorded_step {capacity : Nat} (hq : q.kind = "quota".toList) (hbound : capacity < u64Max)
    (hmetered : b.service.Metered q capacity op) (h : b.recorded q ≤ capacity) :
    (b.step op).recorded q ≤ capacity := by
  rcases Service.step_spends b.service op with ⟨-, hrecorded⟩ |
    ⟨number, now, id, c, lease, rfl, hget, hfresh, -, s₁, hkept, henv, hroom, hgrants, hleases⟩
  · exact (committed_le fun l' hl' _ => hrecorded l' hl').trans h
  · have hs₁ : s₁.leases.committed q ≤ capacity :=
      (committed_le fun l hl _ => ⟨l, hkept l hl, rfl, rfl, rfl⟩).trans h
    show LeaseTable.committed (b.service.step _).state.leases q ≤ capacity
    rw [hleases]
    refine State.committed_grant hq hbound hs₁ hroom (fun hon => ?_) hgrants
    rw [henv]
    exact hmetered c hget (c.seen_args _ ▸ hon)

/-- Every lease on `q` covers what was granted on it. -/
def Covered (q : ResourceKey) (b : Books) : Prop :=
  ∀ l ∈ b.service.state.leases, l.resource = q → Covers b.granted l

theorem enter_other {g : LeaseId × Nat} (hg : g ∈ b.enter (some (c, lease)))
    (hne : g.1 ≠ lease.id) : g ∈ b.granted := by
  rcases List.mem_cons.mp hg with rfl | hg
  · exact absurd rfl hne
  · split at hg
    · exact hg
    · exact List.mem_of_mem_filter hg

/-- The lease of a modest grant covers what is entered under it. -/
theorem Covered.grant {s₁ : State} {now : Time} {id : LeaseId} (h : b.Covered q)
    (hq : q.kind = "quota".toList) (hkept : ∀ l ∈ s₁.leases, l ∈ b.service.state.leases)
    (hfresh : ∀ l ∈ b.service.state.leases, l.id ≠ id) (hcq : c.args.resource = q)
    (hmodest : ∀ l ∈ b.service.state.leases.rows, l.holder = c.holder → l.resource = q →
      l.isExpired now = false → c.args.want ≤ l.amount)
    (hgrants : State.Grants c s₁.leases now id lease) :
    Covers (b.enter (some (c, lease))) lease := by
  intro g hg hid
  cases hgrants with
  | new named _ _ _ amount =>
    have hquota := State.isQuota_of_kind hcq hq
    have hnone : b.service.state.leases.get? lease.id = none :=
      get?_eq_none.mpr fun l hl => named ▸ hfresh l hl
    rcases List.mem_cons.mp hg with rfl | hg
    · exact (amount hquota).ge
    · rw [hnone] at hg
      simp [hid] at hg
  | @renewed l mem live holds on _ eq =>
    have hl := hkept _ mem
    have hlid : lease.id = l.id := by rw [eq]; rfl
    have hamount : lease.amount = l.amount := by rw [eq]; rfl
    rw [hamount]
    rcases List.mem_cons.mp hg with rfl | hg
    · exact hmodest l hl holds (on.trans hcq) live
    · have hold : g ∈ b.granted := by
        split at hg
        · exact hg
        · exact List.mem_of_mem_filter hg
      exact h l hl (on.trans hcq) g hold (hid.trans hlid)

theorem Covered.step (h : b.Covered q) (hq : q.kind = "quota".toList)
    (hmodest : b.service.Modest q op) :
    (b.step op).Covered q ∧ b.Accounted q op := by
  rcases Service.step_spends b.service op with ⟨hnone, hrecorded⟩ |
    ⟨number, now, id, c, lease, rfl, hget, hfresh, hsome, s₁, hkept, -, -, hgrants, hleases⟩
  · constructor
    · intro l' hl' hon g hg hid
      obtain ⟨l, hl, hlid, hresource, hamount⟩ := hrecorded l' hl'
      rw [Books.step, hnone] at hg
      rw [hamount]
      exact h l hl (hresource.symm.trans hon) g hg (hid.trans hlid)
    · intro grant hgrant
      rw [hnone] at hgrant
      cases hgrant
  · have hcovers (hon : lease.resource = q) :
        Covers (b.enter (some (c.seen b.service.state.env, lease))) lease := by
      have hcq : (c.seen b.service.state.env).args.resource = q :=
        hgrants.resource.symm.trans hon
      exact h.grant hq hkept hfresh hcq (hmodest c hget (c.seen_args _ ▸ hcq)) hgrants
    have hstep : (b.step (.attempt number now id)).granted =
        b.enter (some (c.seen b.service.state.env, lease)) := by
      rw [Books.step, hsome]
    constructor
    · intro l' hl' hon
      change l' ∈ (b.service.step _).state.leases at hl'
      rw [hleases] at hl'
      rw [hstep]
      rcases mem_insert.mp hl' with rfl | ⟨hl', hne⟩
      · exact hcovers hon
      · intro g hg hid
        exact h l' (hkept l' hl') hon g (enter_other hg (hid.trans_ne hne)) hid
    · intro grant hgrant hon
      rw [hsome] at hgrant
      cases hgrant
      have hlease := hgrants.resource.trans hon
      refine ⟨?_, hgrants.holder, hlease, ?_, ?_⟩
      · show lease ∈ (b.service.step _).state.leases
        rw [hleases]
        exact mem_insert.mpr (.inl rfl)
      · rw [hstep]
        exact List.mem_cons_self
      · rw [hstep]
        exact hcovers hlease

/-! ## Whole runs -/

instance (q : ResourceKey) (capacity : Nat) (w : Service) (op : Service.Op) :
    Decidable (w.Metered q capacity op) := by
  cases op <;> unfold Service.Metered Service.OnAttempt <;> infer_instance

instance (q : ResourceKey) (w : Service) (op : Service.Op) : Decidable (w.Modest q op) := by
  cases op <;> unfold Service.Modest Service.OnAttempt <;> infer_instance

instance (q : ResourceKey) (b : Books) (op : Service.Op) : Decidable (b.Accounted q op) :=
  inferInstanceAs (Decidable (∀ grant ∈ b.service.granted op, _))

/-- In every run on a quota of fixed capacity the leases record no more than the
capacity, and where nobody asks for more than the lease they already have on it
records, every granted claim leaves its holder with a lease that covers what was
granted on it. -/
theorem quota_accounted (q : ResourceKey) (hq : q.kind = "quota".toList) (capacity : Nat)
    (hbound : capacity < u64Max) (env : Env) (leases : LeaseTable)
    (hfits : leases.committed q ≤ capacity) (faults : Nat → Option String) (ops : List Service.Op)
    (hmetered : Each step (fun b => b.service.Metered q capacity) (start env leases faults) ops) :
    Always step (fun b => b.recorded q ≤ capacity) (start env leases faults) ops ∧
      (Each step (fun b => b.service.Modest q) (start env leases faults) ops →
        Each step (Accounted q) (start env leases faults) ops) := by
  refine ⟨always_of_each hfits (fun b op h hm => recorded_step hq hbound hm h) hmetered,
    fun hmodest => ?_⟩
  have hcovered : Always step (Covered q) (start env leases faults) ops :=
    always_of_each (fun l _ _ g hg => by cases hg)
      (fun b op h hm => (h.step hq hm).1) hmodest
  exact (hcovered.each.and hmodest).imp fun b op h => (h.1.step hq h.2).2

/-- Every id is a running agent's, and every quota has this capacity. -/
def metered (capacity : Nat) : Env :=
  { Env.everybody with quotaCapacity := fun _ _ => some capacity }

def tokens : ResourceKey := ⟨"quota:tokens"⟩

/-- A claim on `tokens`, for an hour. -/
def ask (amount : Nat) : ClaimArgs := ⟨tokens, .shared, some amount, 3600, none, 0, 0, false⟩

/-- One agent takes one token and then five more of ten: it is granted both
times, and its lease goes on recording one. -/
theorem quota_underRecorded : ¬ ∀ ops : List Service.Op,
      Each step (fun b => b.service.Metered tokens 10)
        (start (metered 10) .empty fun _ => none) ops →
      Each step (Accounted tokens) (start (metered 10) .empty fun _ => none) ops := by
  intro h
  have hrun := h [.request 1 ⟨"a"⟩ (ask 1), .attempt 1 0 ⟨"l1"⟩, .request 2 ⟨"a"⟩ (ask 5),
    .attempt 2 1 ⟨"l2"⟩] (by decide +kernel)
  revert hrun
  decide +kernel

/-- Two agents share ten tokens; one renews what it has, the other asks for more
than is left. -/
def shared : List Service.Op :=
  [.request 1 ⟨"a"⟩ (ask 5), .attempt 1 0 ⟨"l1"⟩, .request 2 ⟨"b"⟩ (ask 4), .attempt 2 1 ⟨"l2"⟩,
    .request 3 ⟨"a"⟩ (ask 1), .attempt 3 2 ⟨"l3"⟩, .request 4 ⟨"c"⟩ (ask 2), .attempt 4 3 ⟨"l4"⟩]

theorem quota_accounted_shared :
    Always step (fun b => b.recorded tokens ≤ 10) (start (metered 10) .empty fun _ => none)
        shared ∧
      Each step (Accounted tokens) (start (metered 10) .empty fun _ => none) shared ∧
      (run step (start (metered 10) .empty fun _ => none) shared).recorded tokens = 9 := by
  have h := quota_accounted tokens (by decide) 10 (by decide) (metered 10) .empty (by decide)
    (fun _ => none) shared (by decide +kernel)
  exact ⟨h.1, h.2 (by decide +kernel), by decide +kernel⟩

end Books

end AgentDocker.Daemon
