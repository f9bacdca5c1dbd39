import AgentDocker.Connector.Server

/-!
# What an operation of the store can do

Every invariant of the authorization server's store is about what an operation
can do at all, so this is said once. Most operations are quiet: they gain
nothing, lose nothing that still counts and leave every grant's standing alone.
The others change one thing each, and `Effect` has a constructor for each of
them, with the event an observer sees.
-/

namespace AgentDocker.Connector

open AgentDocker.Core Lib
open Store

/-- The part of a grant that decides what its tokens are worth. -/
def Grant.standing (g : Grant) : Option String × Option Time := (g.refreshHash, g.revokedAt)

theorem Grant.active_of_standing {g g' : Grant} (h : g.standing = g'.standing) :
    g.active = g'.active := by
  have hrevoked : g.revokedAt = g'.revokedAt := congrArg Prod.snd h
  rw [Grant.active, Grant.active, hrevoked]

/-! ## What an operation can do -/

/-- Nothing is gained, and nothing that still counts is lost. -/
structure Quiet (now : Time) (s s' : Store) : Prop where
  codes : ∀ k c, s'.codes.get k = some c → s.codes.get k = some c
  accessOf : ∀ k a, s'.access.get k = some a → s.access.get k = some a
  accessKept : ∀ k a, s.access.get k = some a → now < a.expiresAt → s'.access.get k = some a
  grants : ∀ g, (s'.grants.get g).map Grant.standing = (s.grants.get g).map Grant.standing

variable {consent : Consent} {d : Digests} {drawn : Drawn} {issued : Issued}
  {form : List (String × String)} {extra : List String} {error : OAuthError} {s s' : Store}
  {g : String} {now : Time}

theorem Quiet.refl : Quiet now s s :=
  ⟨fun _ _ h => h, fun _ _ h => h, fun _ _ h _ => h, fun _ => rfl⟩

theorem Quiet.of_grants (hcodes : s'.codes = s.codes) (haccess : s'.access = s.access)
    (h : ∀ g, (s'.grants.get g).map Grant.standing = (s.grants.get g).map Grant.standing) :
    Quiet now s s' :=
  ⟨fun _ _ hk => hcodes ▸ hk, fun _ _ hk => haccess ▸ hk, fun _ _ hk _ => haccess ▸ hk, h⟩

theorem quiet_prune : Quiet now s (s.prune now) := by
  refine ⟨fun k c h => ?_, fun k a h => ?_, fun k a h hlive => ?_, fun _ => rfl⟩ <;>
    rw [prune, Map.get_retain, Option.filter_eq_some_iff] at *
  · exact h.1
  · exact h.1
  · exact ⟨h, by simpa using hlive⟩

/-- A grant changed in what its tokens do not depend on. -/
theorem standing_modify {grants : Map String Grant} {id : String} {f : Grant → Grant}
    (hf : ∀ g, (f g).standing = g.standing) (g : String) :
    ((grants.modify id f).get g).map Grant.standing = (grants.get g).map Grant.standing := by
  rw [Map.get_modify]
  split
  · rw [Option.map_map]
    exact Option.map_congr fun x _ => hf x
  · rfl

/-- What an operation at `now` that draws `draws` may do to the store, and what
is seen of it. -/
inductive Effect (d : Digests) (now : Time) (draws : List String) (s s' : Store) :
    Option Event → Prop where
  | quiet (h : Quiet now s s') : Effect d now draws s s' none
  | coded (code : String) (pending : Pending) (c : Code) (hdrawn : code ∈ draws)
      (hclient : c.clientId = pending.clientId) (huri : c.redirectUri = pending.redirectUri)
      (hchallenge : c.codeChallenge = pending.codeChallenge)
      (hexpires : c.expiresAt = now + codeLifetime)
      (hcodes : s'.codes = s.codes.set (d.hash code) c)
      (haccess : s'.access = s.access) (hgrants : s'.grants = s.grants) :
      Effect d now draws s s' (some (.coded code pending now))
  | consented (form : List (String × String)) (consent : Consent) (code : String) (found : Code)
      (hcode : field form "code" = some code)
      (hfound : s.codes.get (d.hash code) = some found) (hlive : now < found.expiresAt)
      (hredeem : redeemable d found form = .ok ()) (hgone : s'.codes.get (d.hash code) = none)
      (h : Quiet now s s') : Effect d now draws s s' (some (.consented form consent now))
  | gave (g : String) (issued : Issued) (used : Option String) (grant : Grant)
      (haccessDrawn : issued.accessToken ∈ draws) (hrefreshDrawn : issued.refreshToken ∈ draws)
      (hcodes : ∀ k c, s'.codes.get k = some c → s.codes.get k = some c)
      (hnew : s'.access.get (d.hash issued.accessToken) = some ⟨g, now + accessLifetime⟩)
      (haccessOf : ∀ k a, k ≠ d.hash issued.accessToken → s'.access.get k = some a →
        s.access.get k = some a)
      (haccessKept : ∀ k a, k ≠ d.hash issued.accessToken → s.access.get k = some a →
        now < a.expiresAt → s'.access.get k = some a)
      (hgrant : s'.grants.get g = some grant) (hactive : grant.active = true)
      (hrefresh : grant.refreshHash = some (d.hash issued.refreshToken))
      (hothers : ∀ g', g' ≠ g →
        (s'.grants.get g').map Grant.standing = (s.grants.get g').map Grant.standing)
      (hused : ∀ r, used = some r →
        ∃ old, s.grants.get g = some old ∧ old.refreshHash = some (d.hash r)) :
      Effect d now draws s s' (some (.gave g issued used now))
  | revoked (g : String) (grant : Grant) (hcodes : s'.codes = s.codes)
      (haccess : ∀ k a, s'.access.get k = some a ↔ s.access.get k = some a ∧ a.grant ≠ g)
      (hgrant : s'.grants.get g = some grant) (hrefresh : grant.refreshHash = none)
      (hended : grant.active = false)
      (hothers : ∀ g', g' ≠ g → s'.grants.get g' = s.grants.get g') :
      Effect d now draws s s' (some (.revoked g))
  | restarted (hcodes : ∀ k, s'.codes.get k = none) (haccess : ∀ k, s'.access.get k = none)
      (hgrants : s'.grants = s.grants) : Effect d now draws s s' (some .restarted)

/-! ## What each operation does -/

theorem makeRoom_quiet {cap : Nat} :
    Quiet now s (s.makeRoom cap now).2 := by
  simp only [makeRoom]
  split
  · exact .refl
  · split <;> exact .of_grants rfl rfl fun _ => rfl

theorem registerClient_quiet {body : Json} {clientId : String} :
    Quiet now s (s.registerClient body extra now clientId).2 := by
  simp only [registerClient]
  split
  · exact .refl
  · exact .of_grants rfl rfl fun _ => rfl

theorem admitMetadataClient_quiet {clientId : String} {document : Json} :
    Quiet now s (s.admitMetadataClient clientId document extra now).2 := by
  simp only [admitMetadataClient]
  split
  · exact .refl
  · exact .of_grants rfl rfl fun _ => rfl

theorem observeClient_quiet {fingerprint : Fingerprint} :
    Quiet now s (s.observeClient g fingerprint now).2 := by
  simp only [observeClient]
  split
  · exact .refl
  · exact .of_grants rfl rfl (standing_modify fun _ => rfl)

theorem authenticate_quiet {bearer : String} :
    Quiet now s (s.authenticate d bearer now).2 := by
  simp only [authenticate]
  split
  · exact .refl
  next access haccess =>
  split
  · next hexpired =>
    -- The token taken out has expired.
    refine ⟨fun _ _ h => h, fun k a h => ?_, fun k a h hlive => ?_, fun _ => rfl⟩
    · rw [Map.get_remove] at h
      split at h
      · cases h
      · exact h
    · rw [Map.get_remove, if_neg]
      · exact h
      · rintro rfl
        obtain rfl : access = a := by rw [haccess] at h; exact Option.some.inj h
        exact absurd hlive (not_lt.mpr hexpired)
  · split
    · exact .refl
    · split
      · exact .refl
      · exact .of_grants rfl rfl (standing_modify fun _ => rfl)

theorem redeemCode_quiet : Quiet now s (s.redeemCode d form now).2 := by
  have hprune : Quiet now s (s.prune now) := quiet_prune
  -- Taking a code out of the pruned store gains nothing either.
  have hremove : ∀ k, Quiet now s
      { s.prune now with codes := (s.prune now).codes.remove k } := by
    intro k
    refine { hprune with codes := fun k' c h => hprune.codes k' c ?_ }
    rw [Map.get_remove] at h
    split at h
    · cases h
    · exact h
  simp only [redeemCode]
  split
  · exact hprune
  · split
    · exact hprune
    · split <;> exact hremove _

theorem redeemCode_ok (h : s.redeemCode d form now = (.ok consent, s')) :
    ∃ code found, field form "code" = some code ∧
      (s.prune now).codes.get (d.hash code) = some found ∧ redeemable d found form = .ok () ∧
      s'.codes.get (d.hash code) = none := by
  simp only [redeemCode] at h
  split at h
  · cases h
  next code hcode =>
  split at h
  · cases h
  next found hfound =>
  split at h
  · cases h
  next hredeem =>
  cases h
  exact ⟨code, found, hcode, hfound, hredeem, by rw [Map.get_remove, if_pos rfl]⟩

variable {draws : List String}

theorem redeemCode_effect : Effect d now draws s ((Op.redeemCode form).act d s now).1
      ((Op.redeemCode form).act d s now).2 := by
  have hquiet : Quiet now s (s.redeemCode d form now).2 := redeemCode_quiet
  simp only [Op.act]
  split
  · next consent s' hok =>
    rw [hok] at hquiet
    obtain ⟨code, found, hcode, hfound, hredeem, hgone⟩ := redeemCode_ok hok
    rw [prune, Map.get_retain, Option.filter_eq_some_iff] at hfound
    exact .consented form consent code found hcode hfound.1 (by simpa using hfound.2) hredeem
      hgone hquiet
  next error s' herror =>
  rw [herror] at hquiet
  exact .quiet hquiet

/-- New tokens: the grant was active, and only it and the new token change. -/
theorem tokensFor_ok (h : tokensFor d s g now drawn = (.ok issued, s')) :
    issued = ⟨drawn.accessToken, drawn.refreshToken, accessLifetime⟩ ∧ s'.codes = s.codes ∧
      s'.access = s.access.set (d.hash issued.accessToken) ⟨g, now + accessLifetime⟩ ∧
      (∃ grant, s'.grants.get g = some grant ∧ grant.active = true ∧
        grant.refreshHash = some (d.hash issued.refreshToken)) ∧
      ∀ g', g' ≠ g → s'.grants.get g' = s.grants.get g' := by
  simp only [tokensFor] at h
  split at h
  · cases h
  next grant hgrant =>
  split at h
  · cases h
  next hactive =>
  cases h
  refine ⟨rfl, rfl, rfl, ⟨rotated d now drawn grant, ?_, ?_, rfl⟩, fun g' hne => ?_⟩
  · rw [Map.get_modify, if_pos rfl, hgrant, Option.map_some]
  · simpa [Grant.active, rotated] using hactive
  · rw [Map.get_modify, if_neg hne]

theorem tokensFor_error (h : tokensFor d s g now drawn = (.error error, s')) : s' = s := by
  simp only [tokensFor] at h
  split at h
  · cases h; rfl
  · split at h
    · cases h; rfl
    · cases h

/-- Tokens for a grant of a store that only quietly differs from the one before,
but for the grant itself. -/
theorem tokensFor_effect {mid : Store} {used : Option String}
    (hcodes : ∀ k c, mid.codes.get k = some c → s.codes.get k = some c)
    (haccessOf : ∀ k a, mid.access.get k = some a → s.access.get k = some a)
    (haccessKept : ∀ k a, s.access.get k = some a → now < a.expiresAt → mid.access.get k = some a)
    (hothers : ∀ g', g' ≠ g → (mid.grants.get g').map Grant.standing =
      (s.grants.get g').map Grant.standing)
    (hdraws : drawn.accessToken ∈ draws ∧ drawn.refreshToken ∈ draws)
    (hused : ∀ r, used = some r → ∃ old, s.grants.get g = some old ∧
      old.refreshHash = some (d.hash r))
    (h : tokensFor d mid g now drawn = (.ok issued, s')) :
    Effect d now draws s (given d used now (.ok issued, s')).1
      (given d used now (.ok issued, s')).2 := by
  obtain ⟨rfl, hcodes', haccess, ⟨grant, hgrant, hactive, hrefresh⟩, hrest⟩ := tokensFor_ok h
  have hnew : s'.access.get (d.hash drawn.accessToken) = some ⟨g, now + accessLifetime⟩ := by
    rw [haccess, Map.get_set, if_pos rfl]
  simp only [given, hnew, Option.map_some]
  refine .gave g _ used grant hdraws.1 hdraws.2 ?_ hnew ?_ ?_ hgrant hactive hrefresh ?_ hused
  · intro k c hk
    exact hcodes k c (hcodes' ▸ hk)
  · intro k a hne hk
    rw [haccess, Map.get_set, if_neg hne] at hk
    exact haccessOf k a hk
  · intro k a hne hk hlive
    rw [haccess, Map.get_set, if_neg hne]
    exact haccessKept k a hk hlive
  · intro g' hne
    rw [hrest g' hne, hothers g' hne]

theorem issue_effect {agent : AgentIdentity}
    (hdraws : drawn.accessToken ∈ draws ∧ drawn.refreshToken ∈ draws) :
    Effect d now draws s ((Op.issue consent agent g drawn).act d s now).1
      ((Op.issue consent agent g drawn).act d s now).2 := by
  have hothers : ∀ g', g' ≠ g →
      ((s.grants.set g (grantFor consent agent now)).get g').map Grant.standing =
        (s.grants.get g').map Grant.standing := by
    intro g' hne
    rw [Map.get_set, if_neg hne]
  simp only [Op.act, issue]
  cases hmade : tokensFor d { s with grants := s.grants.set g (grantFor consent agent now) } g now
      drawn with
  | mk answer s' =>
    cases answer with
    | ok =>
      refine tokensFor_effect ?_ ?_ ?_ hothers hdraws ?_ hmade
      · exact fun _ _ h => h
      · exact fun _ _ h => h
      · exact fun _ _ h _ => h
      · exact fun r hr => absurd hr.symm (Option.some_ne_none r)
    | error =>
      -- A grant just inserted is active, so this does not happen.
      simp [tokensFor, Map.get_set, grantFor, Grant.active] at hmade

theorem tokensFor_active (h : tokensFor d s g now drawn = (.ok issued, s')) {grant : Grant}
    (hgrant : s.grants.get g = some grant) : grant.active = true := by
  simp only [tokensFor, hgrant] at h
  split at h
  · cases h
  · next hactive => simpa using hactive

/-- A refresh that is answered: the token was that of a grant that was active,
and the answer is that grant's new tokens. -/
theorem refresh_ok (h : s.refresh d form now drawn = (.ok issued, s')) :
    ∃ token g grant, field form "refresh_token" = some token ∧ s.grants.get g = some grant ∧
      grant.refreshHash = some (d.hash token) ∧ grant.active = true ∧
      tokensFor d (s.prune now) g now drawn = (.ok issued, s') := by
  simp only [refresh] at h
  split at h
  · cases h
  next token htoken =>
  split at h
  · cases h
  next g grant hfound =>
  split at h
  · cases h
  · obtain ⟨hgrant, hhash⟩ := Map.find?_sorted hfound
    exact ⟨token, g, grant, htoken, hgrant, by simpa using hhash,
      tokensFor_active h hgrant, h⟩

theorem refresh_error (h : s.refresh d form now drawn = (.error error, s')) : s' = s.prune now := by
  simp only [refresh] at h
  split at h
  · cases h; rfl
  · split at h
    · cases h; rfl
    · split at h
      · cases h; rfl
      · exact tokensFor_error h

theorem refresh_effect (hdraws : drawn.accessToken ∈ draws ∧ drawn.refreshToken ∈ draws) :
    Effect d now draws s ((Op.refresh form drawn).act d s now).1
      ((Op.refresh form drawn).act d s now).2 := by
  have hprune : Quiet now s (s.prune now) := quiet_prune
  simp only [Op.act]
  cases hanswer : s.refresh d form now drawn with
  | mk answer =>
    cases answer with
    | error =>
      rw [refresh_error hanswer]
      exact .quiet hprune
    | ok =>
      obtain ⟨token, _, grant, htoken, hgrant, hhash, -, hmade⟩ := refresh_ok hanswer
      refine tokensFor_effect hprune.codes hprune.accessOf hprune.accessKept
        (fun g' _ => hprune.grants g') hdraws ?_ hmade
      intro r hr
      obtain rfl : token = r := by rw [htoken] at hr; exact Option.some.inj hr
      exact ⟨grant, hgrant, hhash⟩

theorem revoke_effect :
    Effect d now draws s ((Op.revoke g).act d s now).1 ((Op.revoke g).act d s now).2 := by
  simp only [Op.act, revoke]
  split
  · next grant s' h =>
    split at h
    · cases h
    next old hgrant =>
    cases h
    refine .revoked g (Store.ended now old) rfl (fun k a => ?_) ?_ rfl rfl (fun g' hne => ?_)
    · rw [Map.get_retain, Option.filter_eq_some_iff]
      simp
    · rw [Map.get_modify, if_pos rfl, hgrant, Option.map_some]
    · rw [Map.get_modify, if_neg hne]
  next s' h =>
  split at h
  · cases h
    exact .quiet .refl
  · cases h

theorem Op.effect (d : Digests) (s : Store) (now : Time) (op : Op) :
    Effect d now op.draws s (op.act d s now).1 (op.act d s now).2 := by
  cases op with
  | registerClient => exact .quiet registerClient_quiet
  | admitMetadataClient => exact .quiet admitMetadataClient_quiet
  | makeRoom => exact .quiet makeRoom_quiet
  | beginAuthorization => exact .quiet .refl
  | completeAuthorization pending agentName generated project code =>
    exact .coded code pending (codeFor pending agentName generated project now)
      (by simp [Op.draws]) rfl rfl rfl rfl rfl rfl rfl
  | redeemCode => exact redeemCode_effect
  | issue => exact issue_effect ⟨by simp [Op.draws], by simp [Op.draws]⟩
  | refresh => exact refresh_effect ⟨by simp [Op.draws], by simp [Op.draws]⟩
  | authenticate => exact .quiet authenticate_quiet
  | observeClient => exact .quiet observeClient_quiet
  | revoke => exact revoke_effect
  | restart => exact .restarted (fun _ => Map.get_empty) (fun _ => Map.get_empty) rfl

end AgentDocker.Connector
