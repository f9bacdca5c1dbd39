import AgentDocker.Daemon.Admission
import AgentDocker.Proofs.Quotas

/-!
# What a denial reaches

A rule speaks of one action, and the action of a claim names one resource. A
lease covers whatever lies beneath its resource, and no rule is asked about
that: a denied path is safe from being claimed itself, and from nothing else.
`granted_encloses` is the half that holds; `tree_leaves_root` says why the other
half fails for the most natural rule there is.
-/

namespace AgentDocker.Core

namespace ResourceKey

/-- Whether a lease on this resource covers a path: it is the path's own, or of
something the path lies beneath. -/
def coversPath (r : ResourceKey) (path : String) : Bool :=
  decide (r = ⟨"path:" ++ path⟩) ||
    (r.kind == "path".toList && isAncestor r.value path.toList)

end ResourceKey

end AgentDocker.Core

namespace AgentDocker.Daemon

open AgentDocker.Core Lib

/-! ## The order of the rules -/

section

variable {p p' : Policy} {agent : Subject} {action : String}

theorem check_allow_of_perm (hperm : p.rules.Perm p'.rules)
    (h : p.check agent action = .allow) : p'.check agent action = .allow := by
  have hcovering : (p.covering agent).Perm (p'.covering agent) := hperm.filter _
  have hwhitelisting : (p.whitelisting agent).Perm (p'.whitelisting agent) :=
    hcovering.filter _
  obtain ⟨hdenies, hallows⟩ := Policy.check_eq_allow.mp h
  refine Policy.check_eq_allow.mpr ⟨fun r hr => hdenies r (hcovering.mem_iff.mpr hr), ?_⟩
  rcases hallows with hnone | ⟨r, hr, hallows⟩
  · rw [hnone] at hwhitelisting
    exact .inl hwhitelisting.nil_eq.symm
  · exact .inr ⟨r, hwhitelisting.mem_iff.mp hr, hallows⟩

theorem check_allow_perm (hperm : p.rules.Perm p'.rules) :
    p.check agent action = .allow ↔ p'.check agent action = .allow :=
  ⟨check_allow_of_perm hperm, check_allow_of_perm hperm.symm⟩

/-- What two policies allow does not depend on the order of their rules, only the rule a
refusal names does; and whatever a project's policy says, the host alone allows it too. -/
theorem checkPolicies_allow_perm (host host' : Policy) (project project' : Option Policy)
    (agent : Subject) (action : String) (hhost : host.rules.Perm host'.rules)
    (hproject : Option.Rel (fun p p' => p.rules.Perm p'.rules) project project') :
    (checkPolicies host project agent action = .allow ↔
        checkPolicies host' project' agent action = .allow) ∧
      (checkPolicies host project agent action = .allow →
        checkPolicies host' none agent action = .allow) := by
  simp only [checkPolicies_eq_allow, check_allow_perm hhost]
  refine ⟨and_congr_right fun _ => ?_, fun h => ⟨h.1, by simp⟩⟩
  cases hproject with
  | none => simp
  | some hperm => simpa using check_allow_perm hperm

end

/-- A reviewer may read and send, and nobody claims the migrations; the files say it in
another order. -/
theorem checkPolicies_allow_perm_reviewer :
    let reviewer : Subject := ⟨"reviewer", "codex", none, [], ["reviewer"]⟩
    let reviews : Rule := ⟨none, none, none, none, [("role", "reviewer")], ["send:**"], []⟩
    let docs : Rule := ⟨none, some "codex", none, none, [], ["claim:path:/docs/**"], []⟩
    let migrations : Rule := ⟨none, none, none, none, [], [], ["claim:path:/migrations/**"]⟩
    (checkPolicies ⟨[reviews, docs, migrations]⟩ (some ⟨[docs, migrations]⟩) reviewer
        "claim:path:/docs/a" = .allow ↔
      checkPolicies ⟨[migrations, docs, reviews]⟩ (some ⟨[migrations, docs]⟩) reviewer
        "claim:path:/docs/a" = .allow) ∧
      checkPolicies ⟨[migrations, docs, reviews]⟩ none reviewer "claim:path:/docs/a" = .allow := by
  intro reviewer reviews docs migrations
  have h := checkPolicies_allow_perm ⟨[reviews, docs, migrations]⟩ ⟨[migrations, docs, reviews]⟩
    (some ⟨[docs, migrations]⟩) (some ⟨[migrations, docs]⟩) reviewer "claim:path:/docs/a"
    (by decide) (.some (by decide))
  exact ⟨h.1, h.2 (by decide +kernel)⟩

/-! ## Tree rules -/

/-- The rule that denies everybody the tree beneath a directory. -/
def denyTree (root : String) : Policy :=
  ⟨[⟨none, none, none, none, [], [], ["claim:path:" ++ root ++ "/**"]⟩]⟩

variable {root : String}

theorem denyTree_check {agent : Subject} {action : String} (h : Plain root) :
    (denyTree root).check agent action = .allow ↔
      ¬ bytes ("claim:path:" ++ root ++ "/") <+: bytes action := by
  have hplain : Plain ("claim:path:" ++ root) := .append (by decide) h
  rw [← matchesGlob_tree hplain, Policy.check_eq_allow, Bool.not_eq_true]
  simp [denyTree, Policy.covering, Policy.whitelisting, Rule.covers, Rule.denies]

/-- Such a rule denies every path beneath the directory and leaves the directory
itself, whose lease covers them all. -/
theorem tree_leaves_root (h : Plain root) {agent : Subject} {child : String} :
    (denyTree root).check agent (claimAction ⟨"path:" ++ (root ++ "/" ++ child)⟩) ≠ .allow ∧
      (denyTree root).check agent (claimAction ⟨"path:" ++ root⟩) = .allow := by
  have haction (path : String) : claimAction ⟨"path:" ++ path⟩ = "claim:path:" ++ path := by
    rfl
  rw [haction, haction]
  constructor
  · rw [ne_eq, denyTree_check h, not_not, ← String.append_assoc, ← String.append_assoc,
      bytes_append _ child]
    exact List.prefix_append _ _
  · rw [denyTree_check h, bytes_append _ "/"]
    intro hbegins
    have hslash : (bytes "/").length = 1 := by decide
    have hlength := hbegins.length_le
    rw [List.length_append, hslash] at hlength
    omega

theorem tree_leaves_root_src :
    let writer : Subject := ⟨"writer", "codex", none, [], []⟩
    (denyTree "/src").check writer (claimAction ⟨"path:" ++ ("/src" ++ "/" ++ "a")⟩) ≠ .allow ∧
      (denyTree "/src").check writer (claimAction ⟨"path:" ++ "/src"⟩) = .allow :=
  tree_leaves_root (by decide)

namespace Admission

/-- The claims that still may attempt were let in, for the resource they are
on. -/
def LetIn (a : Admission) : Prop :=
  ∀ c ∈ a.service.claims, c.inFlight = true →
    ∃ r ∈ a.admitted, r.number = c.number ∧ r.resource = c.args.resource ∧
      r.policies.permits r.requester (claimAction r.resource) = .allow

/-- Whoever is granted a lease was let in for its resource; and if a path was
denied them that the lease covers, then the lease is on something above the
path, never on the path. -/
def Encloses (a : Admission) : Op → Prop
  | .hold op => ∀ grant ∈ a.service.granted op, ∃ r ∈ a.admitted, r.number = grant.1.number ∧
      r.policies.permits r.requester (claimAction grant.2.resource) = .allow ∧
      ∀ path, r.policies.permits r.requester (claimAction ⟨"path:" ++ path⟩) ≠ .allow →
        grant.2.resource.coversPath path = true →
        grant.2.resource ≠ ⟨"path:" ++ path⟩ ∧
          ResourceKey.isAncestor grant.2.resource.value path.toList = true
  | _ => True

theorem refusesEarly_answers {s : State} {args : ClaimArgs} (h : refusesEarly s args = true)
    {number : Nat} {holder : AgentId} : (s.requestClaim number holder args).2.inFlight = false := by
  unfold State.requestClaim
  split
  · rfl
  next hstorage =>
  split
  · rfl
  next htransfer =>
  split
  · rfl
  · next hpriority => simp [refusesEarly, hstorage, htransfer, hpriority] at h

theorem requestClaim_args {s : State} {number : Nat} {holder : AgentId} {args : ClaimArgs} :
    (s.requestClaim number holder args).2.args = args := by
  unfold State.requestClaim
  split
  · rfl
  · split
    · rfl
    · split
      · rfl
      · split <;> rfl

variable {a : Admission} {number : Nat} {w : Service}

/-- A hold of the lock lets nobody in. -/
theorem LetIn.hold (h : a.LetIn) {op : Service.Op}
    (hop : ∀ number holder args, op ≠ .request number holder args) :
    LetIn { a with service := a.service.step op } := by
  have hwent := a.service.step_went op
  intro d hd hflight
  generalize a.service.step op = w at hwent hd
  cases hwent with
  | still | aside => exact h d hd hflight
  | asked => exact (hop _ _ _ rfl).elim
  | turn _ _ mem inFlight turn =>
    rcases Keyed.mem_insert.mp hd with rfl | ⟨hd, -⟩
    · rw [turn.number, turn.args]
      exact h _ mem inFlight
    · exact h d hd hflight

theorem step_request_claims (hnew : ¬ (w.claims.get? number).isSome) {holder : AgentId}
    {args : ClaimArgs} :
    (w.step (.request number holder args)).claims =
      w.claims.insert (w.state.requestClaim number holder args).2 := by
  rw [Service.step, if_neg hnew]

theorem LetIn.claim (h : a.LetIn) (number : Nat) (requester : AgentId) (args : ClaimArgs)
    (localised : Option ResourceKey) :
    (a.claim number requester args localised).LetIn := by
  unfold Admission.claim
  split
  · exact h
  next hnew =>
  split
  · next hearly =>
    intro d hd hflight
    rw [step_request_claims hnew] at hd
    rcases Keyed.mem_insert.mp hd with rfl | ⟨hd, -⟩
    · rw [refusesEarly_answers hearly] at hflight
      cases hflight
    · exact h d hd hflight
  · split
    · exact h
    next resource =>
    split
    · exact h
    next hallow =>
    intro d hd hflight
    rw [step_request_claims hnew] at hd
    rcases Keyed.mem_insert.mp hd with rfl | ⟨hd, -⟩
    · refine ⟨_, List.mem_append_right _ (List.mem_singleton_self _), ?_, ?_, hallow⟩
      · exact (Service.requestClaim_asked a.service.state number requester _).1.symm
      · rw [requestClaim_args]
    · obtain ⟨r, hr, hrest⟩ := h d hd hflight
      exact ⟨r, List.mem_append_left _ hr, hrest⟩

theorem LetIn.step (h : a.LetIn) (op : Op) : (a.step op).LetIn := by
  cases op with
  | claim number requester args localised => exact h.claim number requester args localised
  | load => exact h
  | hold op =>
    cases op with
    | request => exact h
    | _ => exact h.hold (by simp)

/-- Only a claim that is still in flight is granted. -/
theorem inFlight_of_granted {now : Time} {id : LeaseId} {c : Claim} {grant : Claim × Lease}
    (hget : w.claims.get? number = some c) (h : w.granted (.attempt number now id) = some grant) :
    c.inFlight = true := by
  simp only [Service.granted, hget, Option.bind_eq_bind, Option.bind_some,
    Option.bind_eq_some_iff] at h
  obtain ⟨_, hheld, -⟩ := h
  simp [Claim.inFlight, (Service.attemptOp_turn hheld).1]

/-- What a step grants, it grants to a claim that was let in. -/
theorem LetIn.encloses (h : a.LetIn) {op : Op} : a.Encloses op := by
  cases op with
  | claim | load => exact trivial
  | hold op =>
    intro grant hgrant
    rcases a.service.step_spends op with ⟨hnone, -⟩ |
      ⟨number, now, id, c, lease, rfl, hget, -, hsome, s₁, -, -, -, hgrants, -⟩
    · rw [hnone] at hgrant
      cases hgrant
    · obtain rfl := Option.some.inj (hsome.symm.trans hgrant)
      obtain ⟨r, hr, hnumber, hresource, hallow⟩ :=
        h c (Keyed.get?_eq_some.mp hget).1 (inFlight_of_granted hget hsome)
      have hlease : lease.resource = r.resource := by
        rw [hgrants.resource, c.seen_args, hresource]
      refine ⟨r, hr, hnumber.trans (c.seen_number _).symm, hlease ▸ hallow,
        fun path hdenied hcovers => ?_⟩
      have hne : lease.resource ≠ ⟨"path:" ++ path⟩ := by
        intro heq
        rw [← heq, hlease] at hdenied
        exact hdenied hallow
      refine ⟨hne, ?_⟩
      simp only [ResourceKey.coversPath, hne, decide_false, Bool.false_or,
        Bool.and_eq_true] at hcovers
      exact hcovers.2

/-- In every run, whatever the policies say and however they change, a lease
that covers a path denied to its requester is on a proper ancestor of the path
that was not denied. -/
theorem granted_encloses (policies : Policies) (env : Env) (leases : LeaseTable)
    (faults : Nat → Option String) (ops : List Op) :
    Each step Encloses (start policies env leases faults) ops :=
  each_of_invariant (P := LetIn) (by
    intro c hc
    exact absurd hc Keyed.not_mem_empty) (fun _ op h => h.step op) (fun _ op h => h.encloses)

/-! The migrations of a repository, denied to everybody. -/

/-- Everybody has the same record, and the host's policy is all there is. -/
def guarded : Policies where
  registry _ := some ⟨"writer", "codex", none, [], []⟩
  host := ⟨denyTree "/repo/migrations", true, none⟩
  projects _ := none

/-- A writer claims the repository. -/
def wholesale : List Op :=
  [.claim 1 ⟨"a"⟩ (.path "/repo" .exclusive 0) (some ⟨"path:/repo"⟩), .hold (.attempt 1 0 ⟨"l1"⟩)]

/-- What a lease covers was not denied to its requester. -/
def Unbypassed (a : Admission) : Op → Prop
  | .hold op => ∀ grant ∈ a.service.granted op, ∀ r ∈ a.admitted, r.number = grant.1.number →
      ∀ path, r.policies.permits r.requester (claimAction ⟨"path:" ++ path⟩) ≠ .allow →
        grant.2.resource.coversPath path = false
  | _ => True

/-- It is granted a lease that covers a migration it was denied. -/
theorem wholesale_bypasses :
    ¬ Each step Unbypassed (start guarded .everybody .empty fun _ => none) wholesale := by
  intro h
  have hgrant : ((step (start guarded .everybody .empty fun _ => none)
        (.claim 1 ⟨"a"⟩ (.path "/repo" .exclusive 0) (some ⟨"path:/repo"⟩))).service.granted
      (.attempt 1 0 ⟨"l1"⟩)).map
      (fun grant => (grant.1.number, grant.2.resource.coversPath "/repo/migrations/001.sql")) =
      some (1, true) := by
    decide +kernel
  have hadmitted : (step (start guarded .everybody .empty fun _ => none)
        (.claim 1 ⟨"a"⟩ (.path "/repo" .exclusive 0) (some ⟨"path:/repo"⟩))).admitted.any
      (fun r => decide (r.number = 1) && decide (r.policies.permits r.requester
        (claimAction ⟨"path:" ++ "/repo/migrations/001.sql"⟩) ≠ .allow)) = true := by
    decide +kernel
  obtain ⟨grant, hgrant, heq⟩ := Option.map_eq_some_iff.mp hgrant
  obtain ⟨r, hr, hdenied⟩ := List.any_eq_true.mp hadmitted
  rw [Bool.and_eq_true, decide_eq_true_eq, decide_eq_true_eq] at hdenied
  obtain ⟨hnumber, hcovers⟩ := Prod.mk.inj heq
  have hnot := h.2.1 grant hgrant r hr (hdenied.1.trans hnumber.symm) _ hdenied.2
  rw [hcovers] at hnot
  cases hnot

end Admission

end AgentDocker.Daemon
