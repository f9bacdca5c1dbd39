import AgentDocker.Proofs.StoreEffects

/-!
# Codes, refresh tokens and access tokens

What the maps of the store say about the past. A code in the store went out
once and has not come back; a refresh hash in a grant is that of a token nobody
has used; an access token in the store was given out since the last restart for
a grant not ended since, and every such token that has not expired is there.
Each is an invariant of the machine of store operations, proved from `Effect`.

Hashes are taken to be injective, and the tokens drawn to be distinct.
-/

namespace AgentDocker.Connector

open AgentDocker.Core Lib
open Store

/-! ## What the history says -/

/-- A form with this code was answered with a consent. -/
def Used (history : List Event) (code : String) : Prop :=
  ∃ form consent time, .consented form consent time ∈ history ∧ field form "code" = some code

/-- A refresh with this token was answered with tokens. -/
def Spent (history : List Event) (token : String) : Prop :=
  ∃ g issued time, .gave g issued (some token) time ∈ history

/-- The access token was given out for the grant at `time`, and since then there
has been no restart and no end of the grant. History is newest first. -/
inductive Live (bearer g : String) (time : Time) : List Event → Prop where
  | gave {issued : Issued} {used : Option String} {older : List Event}
      (h : issued.accessToken = bearer) : Live bearer g time (.gave g issued used time :: older)
  | later {event : Event} {older : List Event} (h : Live bearer g time older)
      (hrestart : event ≠ .restarted) (hrevoked : event ≠ .revoked g) :
      Live bearer g time (event :: older)

/-- The form answered with a consent at `time` redeems a code of the history:
one that went out less than its lifetime ago, for a request whose challenge the
form's verifier meets and whose client and callback the form does not belie, and
that was answered with no consent before. -/
def Redeems (d : Digests) (history : List Event) (form : List (String × String))
    (time : Time) : Prop :=
  ∃ code pending issuedAt, field form "code" = some code ∧
    .coded code pending issuedAt ∈ history ∧ time < issuedAt + codeLifetime ∧
    (∃ verifier, field form "code_verifier" = some verifier ∧
      d.s256 verifier = pending.codeChallenge) ∧
    (∀ id, field form "client_id" = some id → id = pending.clientId) ∧
    (∀ uri, field form "redirect_uri" = some uri → uri = pending.redirectUri) ∧
    ¬ Used history code

variable {found : Code} {d : Digests} {grant : Grant} {issued : Issued}
  {form : List (String × String)} {history : List Event} {draws : List String} {e : Option Event}
  {used : Option String} {srv : Server} {s s' : Store} {bearer code g token : String} {now : Time}
  {input : Time × Op}

theorem redeemable_ok (h : redeemable d found form = .ok ()) :
    (∃ verifier, field form "code_verifier" = some verifier ∧
      d.s256 verifier = found.codeChallenge) ∧
    (∀ id, field form "client_id" = some id → id = found.clientId) ∧
    (∀ uri, field form "redirect_uri" = some uri → uri = found.redirectUri) := by
  simp only [redeemable] at h
  split at h
  · cases h
  next hclient =>
  split at h
  · cases h
  next huri =>
  split at h
  · cases h
  next verifier hverifier =>
  split at h
  · cases h
  next hmatches =>
  refine ⟨⟨verifier, hverifier, ?_⟩, fun id hid => ?_, fun uri huri' => ?_⟩
  · exact Classical.byContradiction fun hne => hmatches (.inr (.inr hne))
  · simpa [hid] using hclient
  · simpa [huri'] using huri

/-! ## Codes -/

/-- A code in the store went out and has not come back. -/
structure CodesKept (d : Digests) (srv : Server) : Prop where
  out : ∀ k c, srv.store.codes.get k = some c → ∃ code pending issuedAt, k = d.hash code ∧
    .coded code pending issuedAt ∈ srv.history ∧ c.clientId = pending.clientId ∧
    c.redirectUri = pending.redirectUri ∧ c.codeChallenge = pending.codeChallenge ∧
    c.expiresAt = issuedAt + codeLifetime ∧ ¬ Used srv.history code
  redeemed : ∀ form consent time older,
    .consented form consent time :: older <:+ srv.history → Redeems d older form time
  drawn : ∀ code pending time, .coded code pending time ∈ srv.history → code ∈ srv.drawn

theorem CodesKept.used_drawn (h : CodesKept d srv) (hused : Used srv.history code) :
    code ∈ srv.drawn := by
  obtain ⟨form, consent, time, hmem, hcode⟩ := hused
  obtain ⟨newer, older, heq⟩ := List.append_of_mem hmem
  obtain ⟨code', pending, issuedAt, hcode', hcoded, -⟩ :=
    h.redeemed form consent time older ⟨newer, heq.symm⟩
  obtain rfl : code = code' := by rw [hcode] at hcode'; exact Option.some.inj hcode'
  refine h.drawn code pending issuedAt ?_
  rw [heq]
  exact List.mem_append_right _ (List.mem_cons_of_mem _ hcoded)

/-- Whether an event is about a code. -/
def Event.aboutCode : Event → Bool
  | .coded .. | .consented .. => true
  | _ => false

theorem used_append (he : ∀ event ∈ e, event.aboutCode = false) :
    Used (e.toList ++ history) code ↔ Used history code := by
  cases e with
  | none => exact Iff.rfl
  | some event =>
    have hnot := he event rfl
    constructor
    · rintro ⟨form, consent, time, hmem, hcode⟩
      rcases List.mem_cons.mp hmem with rfl | hmem
      · cases hnot
      · exact ⟨form, consent, time, hmem, hcode⟩
    · rintro ⟨form, consent, time, hmem, hcode⟩
      exact ⟨form, consent, time, List.mem_cons_of_mem _ hmem, hcode⟩

/-- A step that adds no code and says nothing about one. -/
theorem CodesKept.aside (h : CodesKept d srv)
    (hcodes : ∀ k c, s'.codes.get k = some c → srv.store.codes.get k = some c)
    (he : ∀ event ∈ e, event.aboutCode = false) :
    CodesKept d ⟨s', e.toList ++ srv.history, now, draws ++ srv.drawn⟩ := by
  refine ⟨fun k c hk => ?_, fun form consent time older hsuffix => ?_,
    fun code pending time hmem => ?_⟩
  · obtain ⟨code, pending, issuedAt, hkey, hcoded, hclient, huri, hchallenge, hexpires, hunused⟩ :=
      h.out k c (hcodes k c hk)
    exact ⟨code, pending, issuedAt, hkey, List.mem_append_right _ hcoded, hclient, huri, hchallenge,
      hexpires, fun hused => hunused ((used_append he).mp hused)⟩
  · cases e with
    | none => exact h.redeemed form consent time older hsuffix
    | some =>
      rcases List.suffix_cons_iff.mp hsuffix with heq | hsuffix
      · cases heq
        cases he _ rfl
      · exact h.redeemed form consent time older hsuffix
  · rcases List.mem_append.mp hmem with hmem | hmem
    · cases he _ (Option.mem_toList.mp hmem)
    · exact List.mem_append_right _ (h.drawn code pending time hmem)

variable {time : Time}

theorem CodesKept.coded {pending : Pending} (h : CodesKept d srv)
    (hfresh : ∀ x ∈ draws, x ∉ srv.drawn)
    (heffect : Effect d now draws srv.store s' (some (.coded code pending time))) :
    CodesKept d ⟨s', .coded code pending time :: srv.history, now, draws ++ srv.drawn⟩ := by
  cases heffect with
  | coded _ _ _ hdrawn hclient huri hchallenge hexpires hcodes =>
  have hused : ∀ x, Used (.coded code pending now :: srv.history) x → Used srv.history x := by
    rintro x ⟨form, consent, time, hmem, hcode⟩
    rcases List.mem_cons.mp hmem with heq | hmem
    · cases heq
    · exact ⟨form, consent, time, hmem, hcode⟩
  refine ⟨fun k c' hk => ?_, fun form consent time older hsuffix => ?_,
    fun code' pending' time hmem => ?_⟩
  · simp only [hcodes, Map.get_set] at hk
    split at hk
    · next hkey =>
      cases hk
      refine ⟨code, pending, now, hkey, List.mem_cons_self, hclient, huri, hchallenge, hexpires,
        fun hx => hfresh code hdrawn (h.used_drawn (hused code hx))⟩
    · obtain ⟨code', pending', issuedAt, hkey, hcoded, hrest⟩ := h.out k c' hk
      exact ⟨code', pending', issuedAt, hkey, List.mem_cons_of_mem _ hcoded, hrest.1, hrest.2.1,
        hrest.2.2.1, hrest.2.2.2.1, fun hx => hrest.2.2.2.2 (hused code' hx)⟩
  · rcases List.suffix_cons_iff.mp hsuffix with heq | hsuffix
    · cases heq
    · exact h.redeemed form consent time older hsuffix
  · rcases List.mem_cons.mp hmem with heq | hmem
    · cases heq
      exact List.mem_append_left _ hdrawn
    · exact List.mem_append_right _ (h.drawn code' pending' time hmem)

theorem CodesKept.consented (hhash : Function.Injective d.hash) {consent : Consent}
    (h : CodesKept d srv)
    (heffect : Effect d now draws srv.store s' (some (.consented form consent time))) :
    CodesKept d ⟨s', .consented form consent time :: srv.history, now, draws ++ srv.drawn⟩ := by
  cases heffect with
  | consented _ _ code found hcode hfound hlive hredeem hgone hquiet =>
  refine ⟨fun k c hk => ?_, fun form' consent' time older hsuffix => ?_,
    fun code' pending time hmem => ?_⟩
  · obtain ⟨code', pending, issuedAt, hkey, hcoded, hclient, huri, hchallenge, hexpires, hunused⟩ :=
      h.out k c (hquiet.codes k c hk)
    refine ⟨code', pending, issuedAt, hkey, List.mem_cons_of_mem _ hcoded, hclient,
      huri, hchallenge, hexpires, ?_⟩
    rintro ⟨form', consent', time, hmem, hcode'⟩
    rcases List.mem_cons.mp hmem with heq | hmem
    · -- The form just answered: its code is gone from the store.
      cases heq
      obtain rfl : code = code' := by rw [hcode] at hcode'; exact Option.some.inj hcode'
      rw [hkey, hgone] at hk
      cases hk
    · exact hunused ⟨form', consent', time, hmem, hcode'⟩
  · rcases List.suffix_cons_iff.mp hsuffix with heq | hsuffix
    · cases heq
      obtain ⟨code', pending, issuedAt, hkey, hcoded, hclient, huri, hchallenge, hexpires,
        hunused⟩ := h.out _ found hfound
      obtain rfl : code = code' := hhash hkey
      obtain ⟨⟨verifier, hverifier, hs256⟩, hid, huris⟩ := redeemable_ok hredeem
      exact ⟨code, pending, issuedAt, hcode, hcoded, hexpires ▸ hlive,
        ⟨verifier, hverifier, hs256.trans hchallenge⟩, fun id h => (hid id h).trans hclient,
        fun uri h => (huris uri h).trans huri, hunused⟩
    · exact h.redeemed form' consent' time older hsuffix
  · rcases List.mem_cons.mp hmem with heq | hmem
    · cases heq
    · exact List.mem_append_right _ (h.drawn code' pending time hmem)

/-- A step draws tokens nobody has drawn, at a time not before the last. -/
def Timely (srv : Server) (input : Time × Op) : Prop :=
  srv.clock ≤ input.1 ∧ ∀ x ∈ input.2.draws, x ∉ srv.drawn

/-- What holds after every effect holds after a step. -/
theorem Server.step_of_effect {P : Server → Prop}
    (h : ∀ s' e, Effect d input.1 input.2.draws srv.store s' e →
      P ⟨s', e.toList ++ srv.history, input.1, input.2.draws ++ srv.drawn⟩) :
    P (srv.step d input) :=
  h _ _ (Op.effect d srv.store input.1 input.2)

theorem CodesKept.step (hhash : Function.Injective d.hash) (h : CodesKept d srv)
    (htimely : Timely srv input) :
    CodesKept d (srv.step d input) := by
  refine Server.step_of_effect fun s' e heffect => ?_
  have hstep := heffect
  cases heffect with
  | quiet hquiet => exact h.aside (e := none) hquiet.codes (by simp)
  | coded => exact h.coded htimely.2 hstep
  | consented => exact h.consented hhash hstep
  | gave _ _ _ _ _ _ hcodes => exact h.aside hcodes (by simp [Event.aboutCode])
  | revoked _ _ hcodes => exact h.aside (fun k c hk => hcodes ▸ hk) (by simp [Event.aboutCode])
  | restarted hcodes =>
    exact h.aside (fun k c hk => by rw [hcodes k] at hk; cases hk) (by simp [Event.aboutCode])

/-! ## Refresh tokens -/

/-- A grant's refresh token is one nobody has used, and no two grants share one. -/
structure RefreshKept (d : Digests) (srv : Server) : Prop where
  unspent : ∀ g grant k, srv.store.grants.get g = some grant → grant.refreshHash = some k →
    ∃ token ∈ srv.drawn, k = d.hash token ∧ ¬ Spent srv.history token
  unique : ∀ g g' grant grant' k, srv.store.grants.get g = some grant →
    srv.store.grants.get g' = some grant' → grant.refreshHash = some k →
    grant'.refreshHash = some k → g = g'
  once : ∀ g issued token time older,
    .gave g issued (some token) time :: older <:+ srv.history → ¬ Spent older token
  drawn : ∀ token, Spent srv.history token → token ∈ srv.drawn

/-- The refresh hash of a grant that stands as it did. -/
theorem refreshHash_of_standing {grants grants' : Map String Grant} {k : String}
    (h : (grants'.get g).map Grant.standing = (grants.get g).map Grant.standing)
    (hgrant : grants'.get g = some grant) (hk : grant.refreshHash = some k) :
    ∃ old, grants.get g = some old ∧ old.refreshHash = some k := by
  rw [hgrant, Option.map_some] at h
  obtain ⟨old, hold, hstanding⟩ := Option.map_eq_some_iff.mp h.symm
  have hrefresh : old.refreshHash = grant.refreshHash := congrArg Prod.fst hstanding
  exact ⟨old, hold, hrefresh.trans hk⟩

/-- Whether an event is about tokens given out. -/
def Event.isGave : Event → Bool
  | .gave .. => true
  | _ => false

/-- A step that gives out no tokens and gives no grant a refresh token. -/
theorem RefreshKept.aside (h : RefreshKept d srv)
    (hgrants : ∀ g grant k, s'.grants.get g = some grant → grant.refreshHash = some k →
      ∃ old, srv.store.grants.get g = some old ∧ old.refreshHash = some k)
    (he : ∀ event ∈ e, event.isGave = false) :
    RefreshKept d ⟨s', e.toList ++ srv.history, now, draws ++ srv.drawn⟩ := by
  have hspent : ∀ token, Spent (e.toList ++ srv.history) token → Spent srv.history token := by
    rintro token ⟨g, issued, time, hmem⟩
    rcases List.mem_append.mp hmem with hmem | hmem
    · cases he _ (Option.mem_toList.mp hmem)
    · exact ⟨g, issued, time, hmem⟩
  refine ⟨fun g grant k hg hk => ?_, fun g g' grant grant' k hg hg' hk hk' => ?_,
    fun g issued token time older hsuffix => ?_, fun token ht => ?_⟩
  · obtain ⟨old, hold, hkold⟩ := hgrants g grant k hg hk
    obtain ⟨token, hdrawn, hkey, hunspent⟩ := h.unspent g old k hold hkold
    exact ⟨token, List.mem_append_right _ hdrawn, hkey, fun ht => hunspent (hspent token ht)⟩
  · obtain ⟨old, hold, hkold⟩ := hgrants g grant k hg hk
    obtain ⟨old', hold', hkold'⟩ := hgrants g' grant' k hg' hk'
    exact h.unique g g' old old' k hold hold' hkold hkold'
  · cases e with
    | none => exact h.once g issued token time older hsuffix
    | some =>
      rcases List.suffix_cons_iff.mp hsuffix with heq | hsuffix
      · cases heq
        cases he _ rfl
      · exact h.once g issued token time older hsuffix
  · exact List.mem_append_right _ (h.drawn token (hspent token ht))

theorem RefreshKept.gave (hhash : Function.Injective d.hash) (h : RefreshKept d srv)
    (hfresh : ∀ x ∈ draws, x ∉ srv.drawn)
    (heffect : Effect d now draws srv.store s' (some (.gave g issued used time))) :
    RefreshKept d ⟨s', .gave g issued used time :: srv.history, now, draws ++ srv.drawn⟩ := by
  cases heffect with
  | gave _ _ _ grant _ hdrawn _ _ _ _ hgrant _ hrefresh hothers hused =>
  have hspent : ∀ token, Spent (.gave g issued used now :: srv.history) token →
      used = some token ∨ Spent srv.history token := by
    rintro token ⟨g', issued', time, hmem⟩
    rcases List.mem_cons.mp hmem with heq | hmem
    · cases heq
      exact .inl rfl
    · exact .inr ⟨g', issued', time, hmem⟩
  -- The token used was drawn before, was the grant's, and had not been used.
  have hold : ∀ r, used = some r → r ∈ srv.drawn ∧ ¬ Spent srv.history r := by
    intro r hr
    obtain ⟨old, hget, hk⟩ := hused r hr
    obtain ⟨token, htoken, hkey, hunspent⟩ := h.unspent g old _ hget hk
    obtain rfl : r = token := hhash hkey
    exact ⟨htoken, hunspent⟩
  have hnew : issued.refreshToken ∉ srv.drawn := hfresh _ hdrawn
  -- What a grant other than `g` has, it had before.
  have hcases : ∀ g' grant' k, s'.grants.get g' = some grant' → grant'.refreshHash = some k →
      (g' = g ∧ k = d.hash issued.refreshToken) ∨ (g' ≠ g ∧ k ≠ d.hash issued.refreshToken ∧
        ∃ old, srv.store.grants.get g' = some old ∧ old.refreshHash = some k) := by
    intro g' grant' k hget hk
    by_cases hne : g' = g
    · rw [hne, hgrant] at hget
      cases hget
      exact .inl ⟨hne, Option.some.inj (hk.symm.trans hrefresh)⟩
    · obtain ⟨old, hget', hk'⟩ := refreshHash_of_standing (hothers g' hne) hget hk
      refine .inr ⟨hne, ?_, old, hget', hk'⟩
      rintro rfl
      obtain ⟨token, htoken, hkey, -⟩ := h.unspent g' old _ hget' hk'
      exact hnew (hhash hkey ▸ htoken)
  refine ⟨fun g' grant' k hg hk => ?_, fun g' g'' grant' grant'' k hg' hg'' hk' hk'' => ?_,
    fun g' issued' token time older hsuffix => ?_, fun token ht => ?_⟩
  · rcases hcases g' grant' k hg hk with ⟨rfl, rfl⟩ | ⟨hne, -, old, hget, hk'⟩
    · refine ⟨issued.refreshToken, List.mem_append_left _ hdrawn, rfl, fun ht => hnew ?_⟩
      rcases hspent _ ht with hr | ht
      · exact (hold _ hr).1
      · exact h.drawn _ ht
    · obtain ⟨token, htoken, hkey, hunspent⟩ := h.unspent g' old k hget hk'
      refine ⟨token, List.mem_append_right _ htoken, hkey, fun ht => ?_⟩
      rcases hspent _ ht with hr | ht
      · obtain ⟨old', hget', hk''⟩ := hused token hr
        exact hne (h.unique g' g old old' k hget hget' hk' (hkey ▸ hk''))
      · exact hunspent ht
  · rcases hcases g' grant' k hg' hk' with ⟨rfl, hkey⟩ | ⟨-, hkey, old, hget, hold⟩ <;>
      rcases hcases g'' grant'' k hg'' hk'' with ⟨rfl, hkey'⟩ | ⟨-, hkey', old', hget', hold'⟩
    · rfl
    · exact absurd hkey hkey'
    · exact absurd hkey' hkey
    · exact h.unique g' g'' old old' k hget hget' hold hold'
  · rcases List.suffix_cons_iff.mp hsuffix with heq | hsuffix
    · cases heq
      exact (hold token rfl).2
    · exact h.once g' issued' token time older hsuffix
  · rcases hspent token ht with hr | ht
    · exact List.mem_append_right _ (hold token hr).1
    · exact List.mem_append_right _ (h.drawn token ht)

theorem RefreshKept.step (hhash : Function.Injective d.hash) (h : RefreshKept d srv)
    (htimely : Timely srv input) :
    RefreshKept d (srv.step d input) := by
  refine Server.step_of_effect fun s' e heffect => ?_
  have hstep := heffect
  cases heffect with
  | quiet hquiet =>
    exact h.aside (e := none) (fun g _ _ => refreshHash_of_standing (hquiet.grants g)) (by simp)
  | coded _ _ _ _ _ _ _ _ _ _ hgrants | restarted _ _ hgrants =>
    exact h.aside (fun _ grant _ hg hk => ⟨grant, hgrants ▸ hg, hk⟩) (by simp [Event.isGave])
  | consented _ _ _ _ _ _ _ _ _ hquiet =>
    exact h.aside (fun g _ _ => refreshHash_of_standing (hquiet.grants g)) (by simp [Event.isGave])
  | gave => exact h.gave hhash htimely.2 hstep
  | revoked g ended _ _ hgrant hrefresh _ hothers =>
    refine h.aside (fun g' grant k hg hk => ?_) (by simp [Event.isGave])
    by_cases hne : g' = g
    · subst hne
      obtain rfl : ended = grant := by rw [hgrant] at hg; exact Option.some.inj hg
      rw [hrefresh] at hk
      cases hk
    · exact ⟨grant, hothers g' hne ▸ hg, hk⟩

/-! ## Access tokens -/

/-- The store holds the live access tokens that have not expired, and no other. -/
structure AccessKept (d : Digests) (srv : Server) : Prop where
  live : ∀ k a, srv.store.access.get k = some a → ∃ bearer time, k = d.hash bearer ∧
    Live bearer a.grant time srv.history ∧ a.expiresAt = time + accessLifetime
  kept : ∀ bearer g time, Live bearer g time srv.history → srv.clock < time + accessLifetime →
    srv.store.access.get (d.hash bearer) = some ⟨g, time + accessLifetime⟩
  active : ∀ bearer g time, Live bearer g time srv.history →
    ∃ grant, srv.store.grants.get g = some grant ∧ grant.active = true
  drawn : ∀ bearer g time, Live bearer g time srv.history → bearer ∈ srv.drawn

theorem active_of_standing {grants grants' : Map String Grant}
    (h : (grants'.get g).map Grant.standing = (grants.get g).map Grant.standing)
    (hactive : ∃ grant, grants.get g = some grant ∧ grant.active = true) :
    ∃ grant, grants'.get g = some grant ∧ grant.active = true := by
  obtain ⟨old, hold, hactive⟩ := hactive
  rw [hold, Option.map_some] at h
  obtain ⟨grant, hgrant, hstanding⟩ := Option.map_eq_some_iff.mp h
  exact ⟨grant, hgrant, (Grant.active_of_standing hstanding).trans hactive⟩

theorem live_append (he : ∀ event ∈ e, event.aboutCode = true) :
    Live bearer g time (e.toList ++ history) ↔ Live bearer g time history := by
  cases e with
  | none => exact Iff.rfl
  | some event =>
    have habout := he event rfl
    constructor
    · intro h
      cases h with
      | gave => cases habout
      | later h => exact h
    · intro h
      refine h.later ?_ ?_ <;> rintro rfl <;> cases habout

/-- A step that touches no access token that counts, and no grant's standing. -/
theorem AccessKept.aside (h : AccessKept d srv) (hclock : srv.clock ≤ now)
    (haccessOf : ∀ k a, s'.access.get k = some a → srv.store.access.get k = some a)
    (haccessKept : ∀ k a, srv.store.access.get k = some a → now < a.expiresAt →
      s'.access.get k = some a) (hgrants : ∀ g,
      (s'.grants.get g).map Grant.standing = (srv.store.grants.get g).map Grant.standing)
    (he : ∀ event ∈ e, event.aboutCode = true) :
    AccessKept d ⟨s', e.toList ++ srv.history, now, draws ++ srv.drawn⟩ := by
  refine ⟨fun k a hk => ?_, fun bearer g time hlive hlt => ?_, fun bearer g time hlive => ?_,
    fun bearer g time hlive => ?_⟩
  · obtain ⟨bearer, time, hkey, hlive, hexpires⟩ := h.live k a (haccessOf k a hk)
    exact ⟨bearer, time, hkey, (live_append he).mpr hlive, hexpires⟩
  · have hold := h.kept bearer g time ((live_append he).mp hlive) (lt_of_le_of_lt hclock hlt)
    exact haccessKept _ _ hold hlt
  · exact active_of_standing (hgrants g) (h.active bearer g time ((live_append he).mp hlive))
  · exact List.mem_append_right _ (h.drawn bearer g time ((live_append he).mp hlive))

theorem AccessKept.gave (hhash : Function.Injective d.hash) (h : AccessKept d srv)
    (hclock : srv.clock ≤ now) (hfresh : ∀ x ∈ draws, x ∉ srv.drawn)
    (heffect : Effect d now draws srv.store s' (some (.gave g issued used time))) :
    AccessKept d ⟨s', .gave g issued used time :: srv.history, now, draws ++ srv.drawn⟩ := by
  cases heffect with
  | gave _ _ _ grant hdrawn _ _ hnew haccessOf haccessKept hgrant hactive _ hothers =>
  refine ⟨fun k a hk => ?_, fun bearer g' time hlive hlt => ?_, fun bearer g' time hlive => ?_,
    fun bearer g' time hlive => ?_⟩
  · by_cases hkey : k = d.hash issued.accessToken
    · subst hkey
      obtain rfl : (⟨g, now + accessLifetime⟩ : Access) = a := by
        rw [hnew] at hk; exact Option.some.inj hk
      exact ⟨issued.accessToken, now, rfl, .gave rfl, rfl⟩
    · obtain ⟨bearer, time, hkey', hlive, hexpires⟩ := h.live k a (haccessOf k a hkey hk)
      exact ⟨bearer, time, hkey', hlive.later (by simp) (by simp), hexpires⟩
  · cases hlive with
    | gave hbearer => rw [← hbearer, hnew]
    | later hlive =>
      have hold := h.kept bearer g' time hlive (lt_of_le_of_lt hclock hlt)
      refine haccessKept _ _ (fun hkey => ?_) hold hlt
      exact hfresh _ hdrawn (hhash hkey ▸ h.drawn bearer g' time hlive)
  · cases hlive with
    | gave => exact ⟨grant, hgrant, hactive⟩
    | later hlive =>
      by_cases hne : g' = g
      · exact ⟨grant, hne ▸ hgrant, hactive⟩
      · exact active_of_standing (hothers g' hne) (h.active bearer g' time hlive)
  · cases hlive with
    | gave hbearer => exact List.mem_append_left _ (hbearer ▸ hdrawn)
    | later hlive => exact List.mem_append_right _ (h.drawn bearer g' time hlive)

theorem AccessKept.revoked (h : AccessKept d srv) (hclock : srv.clock ≤ now)
    (heffect : Effect d now draws srv.store s' (some (.revoked g))) :
    AccessKept d ⟨s', .revoked g :: srv.history, now, draws ++ srv.drawn⟩ := by
  cases heffect with
  | revoked _ _ _ haccess _ _ _ hothers =>
  -- Only a grant other than the one ended still has live tokens.
  have hlater : ∀ {bearer g' time}, Live bearer g' time (.revoked g :: srv.history) →
      Live bearer g' time srv.history ∧ g' ≠ g := by
    intro bearer g' time hlive
    cases hlive with
    | later hlive _ hrevoked => exact ⟨hlive, fun heq => hrevoked (heq ▸ rfl)⟩
  refine ⟨fun k a hk => ?_, fun bearer g' time hlive hlt => ?_, fun bearer g' time hlive => ?_,
    fun bearer g' time hlive => ?_⟩
  · obtain ⟨hget, hne⟩ := (haccess k a).mp hk
    obtain ⟨bearer, time, hkey, hlive, hexpires⟩ := h.live k a hget
    refine ⟨bearer, time, hkey, hlive.later (by simp) (fun heq => ?_), hexpires⟩
    cases heq
    exact hne rfl
  · obtain ⟨hlive, hne⟩ := hlater hlive
    exact (haccess _ _).mpr ⟨h.kept bearer g' time hlive (lt_of_le_of_lt hclock hlt), hne⟩
  · obtain ⟨hlive, hne⟩ := hlater hlive
    rw [hothers g' hne]
    exact h.active bearer g' time hlive
  · exact List.mem_append_right _ (h.drawn bearer g' time (hlater hlive).1)

theorem AccessKept.restarted (haccess : ∀ k, s'.access.get k = none) :
    AccessKept d ⟨s', .restarted :: srv.history, now, draws ++ srv.drawn⟩ := by
  have hnone : ∀ {bearer g time}, ¬ Live bearer g time (.restarted :: srv.history) := by
    intro bearer g time hlive
    cases hlive with
    | later _ hrestart => exact hrestart rfl
  refine ⟨fun k a hk => ?_, fun _ _ _ hlive => absurd hlive hnone,
    fun _ _ _ hlive => absurd hlive hnone, fun _ _ _ hlive => absurd hlive hnone⟩
  rw [haccess k] at hk
  cases hk

theorem AccessKept.step (hhash : Function.Injective d.hash) (h : AccessKept d srv)
    (htimely : Timely srv input) :
    AccessKept d (srv.step d input) := by
  refine Server.step_of_effect fun s' e heffect => ?_
  have hstep := heffect
  cases heffect with
  | quiet hquiet =>
    exact h.aside (e := none) htimely.1 hquiet.accessOf hquiet.accessKept hquiet.grants (by simp)
  | coded _ _ _ _ _ _ _ _ _ haccess hgrants =>
    exact h.aside htimely.1 (fun _ _ hk => haccess ▸ hk) (fun _ _ hk _ => haccess ▸ hk)
      (fun _ => by rw [hgrants]) (by simp [Event.aboutCode])
  | consented _ _ _ _ _ _ _ _ _ hquiet =>
    exact h.aside htimely.1 hquiet.accessOf hquiet.accessKept hquiet.grants
      (by simp [Event.aboutCode])
  | gave => exact h.gave hhash htimely.1 htimely.2 hstep
  | revoked => exact h.revoked htimely.1 hstep
  | restarted _ haccess => exact .restarted haccess

/-! ## Every run -/

/-- A refresh with this token would be answered with tokens for the grant. -/
def Works (d : Digests) (s : Store) (g token : String) : Prop :=
  ∃ form now drawn issued s' access, field form "refresh_token" = some token ∧
    s.refresh d form now drawn = (.ok issued, s') ∧
    s'.access.get (d.hash issued.accessToken) = some access ∧ access.grant = g

/-- A refresh that is answered was with the grant's own refresh token. -/
theorem Works.refreshHash (h : Works d s g token) :
    ∃ grant, s.grants.get g = some grant ∧ grant.refreshHash = some (d.hash token) := by
  obtain ⟨form, now, drawn, issued, s', access, htoken, hanswer, haccess, rfl⟩ := h
  obtain ⟨token', g, grant, htoken', hgrant, hhash, -, hmade⟩ := refresh_ok hanswer
  obtain rfl : token = token' := by rw [htoken] at htoken'; exact Option.some.inj htoken'
  obtain ⟨-, -, hset, -⟩ := tokensFor_ok hmade
  rw [hset, Map.get_set, if_pos rfl] at haccess
  cases haccess
  exact ⟨grant, hgrant, hhash⟩

theorem Works.unique (hhash : Function.Injective d.hash) {token' : String} (h : Works d s g token)
    (h' : Works d s g token') :
    token = token' := by
  obtain ⟨grant, hgrant, hk⟩ := h.refreshHash
  obtain ⟨grant', hgrant', hk'⟩ := h'.refreshHash
  obtain rfl : grant = grant' := by rw [hgrant] at hgrant'; exact Option.some.inj hgrant'
  exact hhash (Option.some.inj (hk.symm.trans hk'))

end AgentDocker.Connector
