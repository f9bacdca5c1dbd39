import AgentDocker.Connector.Clients
import AgentDocker.Lib.Maps
import Mathlib.Data.String.Basic

/-!
# The connector's authorization server

Clients and grants persist; authorization codes and access tokens live in
memory. What is kept of a code or a token is its hash. Every operation takes
`now`, and the tokens the source draws at random are arguments.

SHA-256 stands behind two functions, the hash a token is kept under and the
S256 transformation of a verifier; both are parameters, gathered in `Digests`.
-/

namespace AgentDocker.Connector

open AgentDocker.Core Lib

structure Digests where
  hash : String → String
  /-- The S256 transformation of a PKCE verifier. -/
  s256 : String → String

/-- Digests that keep what they are given, enough to try the server out. -/
def plainDigests : Digests := ⟨fun token => token, fun verifier => verifier⟩

/-! ## What the server keeps -/

/-- What one request said about the software that made it. -/
structure Fingerprint where
  userAgent : Option String
  clientName : Option String
  clientVersion : Option String
  protocolVersion : Option String
  metaKeys : List String
deriving DecidableEq, Repr

structure Seen where
  fingerprint : Fingerprint
  firstSeen : Time
  lastSeen : Time
deriving DecidableEq, Repr

/-- One consent: one agent identity, and the refresh token that keeps it
reachable. -/
structure Grant where
  agentId : String
  agentName : String
  runtime : String
  project : String
  clientId : String
  vendor : Vendor
  createdAt : Time
  refreshHash : Option String
  lastUsedAt : Option Time
  revokedAt : Option Time
  clientsSeen : List Seen
deriving DecidableEq, Repr

def Grant.active (g : Grant) : Bool := g.revokedAt.isNone

/-- What the person decided on the consent page. -/
structure Consent where
  vendor : Vendor
  clientId : String
  agentName : String
  /-- The name was made up here rather than typed. -/
  generated : Bool
  project : String
deriving DecidableEq, Repr

structure Code where
  clientId : String
  redirectUri : String
  codeChallenge : String
  expiresAt : Time
  consent : Consent
deriving DecidableEq, Repr

structure Access where
  grant : String
  expiresAt : Time
deriving DecidableEq, Repr

structure Store where
  clients : Map String Client := Map.empty
  grants : Map String Grant := Map.empty
  codes : Map String Code := Map.empty
  access : Map String Access := Map.empty
  issuer : String := ""

/-- An authorization request that waits for the person's consent. -/
structure Pending where
  clientId : String
  clientName : Option String
  shownAs : String
  vendor : Vendor
  redirectUri : String
  state : Option String
  codeChallenge : String
  issuer : String
deriving DecidableEq, Repr

/-- A refusal before consent: `page` cannot be sent back to the client, because
the client or its callback is what failed. -/
inductive AuthorizeRefusal where
  | page (error : OAuthError)
  | redirect (pending : Pending) (error : OAuthError)
deriving DecidableEq, Repr

/-- Who the consent made the connection into. -/
structure AgentIdentity where
  id : String
  name : String
  runtime : String
  project : String
deriving DecidableEq, Repr

/-- Tokens as handed to the client, once. -/
structure Issued where
  accessToken : String
  refreshToken : String
  expiresIn : Int
deriving DecidableEq, Repr

/-- The random tokens `tokens_for` draws. -/
structure Drawn where
  accessToken : String
  refreshToken : String
deriving DecidableEq, Repr

def abandonedAfter : Time := 10 * 60

/-- Distinct fingerprints kept per grant. -/
def maxSeen : Nat := 8

/-! ## Answers in a redirect -/

def hexDigit (n : Nat) : Char :=
  if n < 10 then Char.ofNat ('0'.toNat + n) else Char.ofNat ('A'.toNat + (n - 10))

def isUnreserved (byte : Nat) : Bool :=
  let c := Char.ofNat byte
  decide (byte < 128) && (c.isAlphanum || c == '-' || c == '_' || c == '.' || c == '~')

/-- Everything but the unreserved set, byte by byte. -/
def percentEncode (text : String) : String :=
  String.ofList (text.toUTF8.toList.flatMap fun b =>
    if isUnreserved b.toNat then [Char.ofNat b.toNat]
    else ['%', hexDigit (b.toNat / 16), hexDigit (b.toNat % 16)])

def querySeparator (uri : String) : String := if uri.toList.contains '?' then "&" else "?"

/-- The state and the issuer, as every answer to the client ends. -/
def Pending.tail (p : Pending) : String :=
  (match p.state with | some state => "&state=" ++ percentEncode state | none => "") ++
    if p.issuer.isEmpty then "" else "&iss=" ++ percentEncode p.issuer

section

variable (p : Pending) (error : OAuthError)

/-- Where to send the person with an error the client can read. -/
def Pending.errorRedirect : String :=
  p.redirectUri ++ querySeparator p.redirectUri ++ "error=" ++ percentEncode error.code ++
    "&error_description=" ++ percentEncode error.description ++ p.tail

theorem amp_not_mem_percentEncode (text : String) : '&' ∉ (percentEncode text).toList := by
  have hbyte : ∀ n < 256, '&' ∉ if isUnreserved n then [Char.ofNat n]
      else ['%', hexDigit (n / 16), hexDigit (n % 16)] := by decide +kernel
  rw [percentEncode, String.toList_ofList, List.mem_flatMap]
  rintro ⟨b, -, hb⟩
  exact hbyte b.toNat b.toNat_lt hb

/-- The parameters of an error's answer. -/
def Pending.errorParams : List String :=
  ["error=" ++ percentEncode error.code, "error_description=" ++ percentEncode error.description] ++
    (p.state.map fun state => "state=" ++ percentEncode state).toList ++
    if p.issuer.isEmpty then [] else ["iss=" ++ percentEncode p.issuer]

/-- Read apart at each `&`, what is added to the callback is these parameters: whatever stands
in one, it adds no other. -/
theorem errorRedirect_params : ∃ query : List Char, (p.errorRedirect error).toList =
        (p.redirectUri ++ querySeparator p.redirectUri).toList ++ query ∧
      query.splitOn '&' = (p.errorParams error).map String.toList := by
  refine ⟨['&'].intercalate ((p.errorParams error).map String.toList), ?_,
    List.splitOn_intercalate '&' ?_ (by simp [Pending.errorParams])⟩
  all_goals
    cases hstate : p.state <;> cases hissuer : p.issuer.isEmpty <;>
      simp [Pending.errorRedirect, Pending.errorParams, Pending.tail, hstate, hissuer,
        List.intercalate, amp_not_mem_percentEncode]

end

/-- The list without the first of those seen longest ago. -/
def dropOldest (seen : List Seen) : List Seen :=
  match (seen.map (·.lastSeen)).min? with
  | some oldest => seen.eraseIdx (seen.findIdx fun s => decide (s.lastSeen = oldest))
  | none => seen

/-- Note a fingerprint: a known one is seen again, a new one is kept and, past
the bound, those seen longest ago give way. -/
def observe (seen : List Seen) (fingerprint : Fingerprint) (now : Time) : Bool × List Seen :=
  match seen.findIdx? fun s => decide (s.fingerprint = fingerprint) with
  | some i =>
    (false, seen.modify i fun s => { s with lastSeen := max s.lastSeen now })
  | none =>
    let more := seen ++ [⟨fingerprint, now, now⟩]
    (true, Nat.repeat dropOldest (more.length - maxSeen) more)

namespace Store

variable (d : Digests) (s : Store)

/-! ## Clients -/

/-- A client nobody consented for in a while. -/
def abandoned (now : Time) (id : String) (client : Client) : Bool :=
  decide (now - client.createdAt ≥ abandonedAfter) &&
    !(s.grants.rows.any fun g => g.2.clientId == id) &&
    !(s.codes.rows.any fun c => c.2.clientId == id)

/-- The first of the oldest. -/
def oldest : List (String × Client) → Option (String × Client)
  | [] => none
  | a :: rest =>
    match oldest rest with
    | none => some a
    | some b => if b.2.createdAt < a.2.createdAt then some b else some a

/-- Whether a new client fits under `cap`, in the place of the oldest one
abandoned when it would not. -/
def makeRoom (cap : Nat) (now : Time) : Bool × Store :=
  if s.clients.rows.length < cap then (true, s)
  else
    match oldest (s.clients.sorted.filter fun row => s.abandoned now row.1 row.2) with
    | some (id, _) => (true, { s with clients := s.clients.remove id })
    | none => (false, s)

def registerClient (body : Json) (extra : List String) (now : Time) (clientId : String) :
    Except OAuthError Json × Store :=
  match registration body extra now with
  | .error e => (.error e, s)
  | .ok client =>
    (.ok (.obj [("client_id", .str clientId), ("client_id_issued_at", .num now),
        ("redirect_uris", .arr (client.redirectUris.map .str)),
        ("token_endpoint_auth_method", .str "none"),
        ("grant_types", .arr [.str "authorization_code", .str "refresh_token"]),
        ("response_types", .arr [.str "code"]),
        ("client_name", (client.name.map Json.str).getD .null),
        ("scope", .str scopeName)]),
      { s with clients := s.clients.set clientId client })

def admitMetadataClient (clientId : String) (document : Json) (extra : List String)
    (now : Time) : Except OAuthError Client × Store :=
  let createdAt := ((s.clients.get clientId).map (·.createdAt)).getD now
  match metadataClient clientId document extra createdAt now with
  | .error e => (.error e, s)
  | .ok client => (.ok client, { s with clients := s.clients.set clientId client })

/-! ## Authorization codes -/

/-- The callback of an authorization request. -/
def callbackOf (client : Client) (params : List (String × String)) : Except OAuthError String :=
  match field params "redirect_uri" with
  | some uri =>
    if client.redirectUris.any fun r => r == uri then .ok uri
    else .error ⟨"invalid_request", "redirect_uri is not one this client registered"⟩
  | none =>
    match client.redirectUris with
    | [uri] => .ok uri
    | _ => .error ⟨"invalid_request", "redirect_uri is required for a client with several"⟩

def wellFormedChallenge (challenge : String) : Bool :=
  decide (43 ≤ challenge.utf8ByteSize) && decide (challenge.utf8ByteSize ≤ 128) &&
    challenge.toList.all fun c => c.isAlphanum || c == '-' || c == '_'

/-- Validate an authorization request. The client and its callback are checked
before anything is sent back to that callback. -/
def beginAuthorization (params : List (String × String)) : Except AuthorizeRefusal Pending :=
  match field params "client_id" with
  | none => .error (.page ⟨"invalid_request", "client_id is missing"⟩)
  | some clientId =>
    match s.clients.get clientId with
    | none => .error (.page ⟨"invalid_client", "unknown client; register first"⟩)
    | some client =>
      match callbackOf client params with
      | .error e => .error (.page e)
      | .ok redirectUri =>
        let pending : Pending :=
          { clientId, clientName := client.name, shownAs := client.shownAs clientId,
            vendor := client.vendor, redirectUri, state := field params "state",
            codeChallenge := "", issuer := s.issuer }
        let refuse (code why : String) : Except AuthorizeRefusal Pending :=
          .error (.redirect pending ⟨code, why⟩)
        if field params "response_type" ≠ some "code" then
          refuse "unsupported_response_type" "only response_type=code is issued"
        else if (field params "code_challenge_method").any fun m => m != "S256" then
          refuse "invalid_request" "code_challenge_method must be S256"
        else
          match field params "code_challenge" with
          | none => refuse "invalid_request" "code_challenge is required"
          | some challenge =>
            if !wellFormedChallenge challenge then
              refuse "invalid_request" "code_challenge is malformed"
            else if (field params "scope").any fun scope =>
                (splitWhitespace scope).any fun w => w != scopeName then
              refuse "invalid_scope" ("the only scope is " ++ scopeName)
            else .ok { pending with codeChallenge := challenge }

theorem callbackOf_ok {client : Client} {params : List (String × String)} {uri : String}
    (h : callbackOf client params = .ok uri) : uri ∈ client.redirectUris := by
  unfold callbackOf at h
  split at h <;> split at h <;> cases h
  · next hany => simpa using hany
  · next hone => simp [hone]

/-- Whatever is sent back, consent or refusal, goes to a callback the client registered. -/
theorem beginAuthorization_registered (params : List (String × String)) :
    match s.beginAuthorization params with
    | .error (.page _) => True
    | .error (.redirect pending _) | .ok pending => ∃ client,
      s.clients.get pending.clientId = some client ∧ pending.redirectUri ∈ client.redirectUris := by
  split
  · trivial
  all_goals
    next hbegin =>
    unfold beginAuthorization at hbegin
    split at hbegin
    · cases hbegin
    split at hbegin
    · cases hbegin
    next client hclient =>
    split at hbegin
    · cases hbegin
    next huri =>
    refine ⟨client, ?_⟩
    dsimp only at hbegin
    repeat' split at hbegin
    all_goals
      cases hbegin
      try exact ⟨hclient, callbackOf_ok huri⟩

section

variable (pending : Pending) (agentName : String) (generated : Bool) (project : String) (now : Time)

/-- The code a consent puts in the redirect. -/
def codeFor : Code :=
  { clientId := pending.clientId, redirectUri := pending.redirectUri,
    codeChallenge := pending.codeChallenge, expiresAt := now + codeLifetime,
    consent := { vendor := pending.vendor, clientId := pending.clientId, agentName, generated,
                 project } }

/-- The person consented: the redirect carries a one-time code. -/
def completeAuthorization (code : String) : String × Store :=
  (pending.redirectUri ++ querySeparator pending.redirectUri ++ "code=" ++
      percentEncode code ++ pending.tail,
    { s with codes := s.codes.set (d.hash code) (codeFor pending agentName generated project now) })

end

def prune (now : Time) : Store :=
  { s with codes := s.codes.retain fun _ c => decide (c.expiresAt > now)
           access := s.access.retain fun _ a => decide (a.expiresAt > now) }

/-- Whether a form may redeem the code found. -/
def redeemable (found : Code) (form : List (String × String)) : Except OAuthError Unit :=
  if (field form "client_id").any fun id => id != found.clientId then
    .error ⟨"invalid_grant", "code belongs to another client"⟩
  else if (field form "redirect_uri").any fun uri => uri != found.redirectUri then
    .error ⟨"invalid_grant", "redirect_uri does not match"⟩
  else
    match field form "code_verifier" with
    | none => .error ⟨"invalid_request", "code_verifier is required"⟩
    | some verifier =>
      if verifier.utf8ByteSize < 43 ∨ verifier.utf8ByteSize > 128 ∨
          d.s256 verifier ≠ found.codeChallenge then
        .error ⟨"invalid_grant", "code_verifier does not match"⟩
      else .ok ()

/-- Redeem an authorization code. The code is used up even when the rest of the
form is refused. -/
def redeemCode (form : List (String × String)) (now : Time) : Except OAuthError Consent × Store :=
  let s := s.prune now
  match field form "code" with
  | none => (.error ⟨"invalid_request", "code is missing"⟩, s)
  | some code =>
    match s.codes.get (d.hash code) with
    | none => (.error ⟨"invalid_grant", "unknown, used or expired code"⟩, s)
    | some found =>
      let s := { s with codes := s.codes.remove (d.hash code) }
      match redeemable d found form with
      | .error e => (.error e, s)
      | .ok () => (.ok found.consent, s)

/-! ## Grants and their tokens -/

/-- A grant with the refresh token just drawn. -/
def rotated (now : Time) (drawn : Drawn) (g : Grant) : Grant :=
  { g with refreshHash := some (d.hash drawn.refreshToken), lastUsedAt := some now }

/-- New tokens for an active grant; the refresh token rotates. -/
def tokensFor (grantId : String) (now : Time) (drawn : Drawn) : Except OAuthError Issued × Store :=
  match s.grants.get grantId with
  | none => (.error ⟨"invalid_grant", "the grant is gone"⟩, s)
  | some grant =>
    if !grant.active then (.error ⟨"invalid_grant", "the grant was revoked"⟩, s)
    else
      (.ok ⟨drawn.accessToken, drawn.refreshToken, accessLifetime⟩,
        { s with
          grants := s.grants.modify grantId (rotated d now drawn)
          access := s.access.set (d.hash drawn.accessToken)
            ⟨grantId, now + accessLifetime⟩ })

/-- The grant a consent and its agent make. -/
def grantFor (consent : Consent) (agent : AgentIdentity) (now : Time) : Grant :=
  { agentId := agent.id, agentName := agent.name, runtime := agent.runtime,
    project := agent.project, clientId := consent.clientId, vendor := consent.vendor,
    createdAt := now, refreshHash := none, lastUsedAt := none, revokedAt := none,
    clientsSeen := [] }

/-- The agent exists: this consent is now a grant, with its first tokens. -/
def issue (consent : Consent) (agent : AgentIdentity) (now : Time) (grantId : String)
    (drawn : Drawn) : Except OAuthError Issued × Store :=
  tokensFor d { s with grants := s.grants.set grantId (grantFor consent agent now) }
    grantId now drawn

def observeClient (grantId : String) (fingerprint : Fingerprint) (now : Time) : Bool × Store :=
  match s.grants.get grantId with
  | none => (false, s)
  | some grant =>
    ((observe grant.clientsSeen fingerprint now).1,
      { s with grants := s.grants.modify grantId fun g =>
          { g with clientsSeen := (observe g.clientsSeen fingerprint now).2 } })

/-- The grant a refresh token belongs to. -/
def grantOfRefresh (token : String) : Option (String × Grant) :=
  s.grants.sorted.find? fun row => row.2.refreshHash == some (d.hash token)

/-- The refresh grant: single use. -/
def refresh (form : List (String × String)) (now : Time) (drawn : Drawn) :
    Except OAuthError Issued × Store :=
  let s := s.prune now
  match field form "refresh_token" with
  | none => (.error ⟨"invalid_request", "refresh_token is missing"⟩, s)
  | some token =>
    match grantOfRefresh d s token with
    | none => (.error ⟨"invalid_grant", "unknown, rotated or revoked refresh token"⟩, s)
    | some (id, grant) =>
      if (field form "client_id").any fun c => c != grant.clientId then
        (.error ⟨"invalid_grant", "refresh token belongs to another client"⟩, s)
      else tokensFor d s id now drawn

/-- The grant behind a bearer token, while the token and the grant hold. -/
def authenticate (bearer : String) (now : Time) : Option (String × Grant) × Store :=
  match s.access.get (d.hash bearer) with
  | none => (none, s)
  | some access =>
    if access.expiresAt ≤ now then (none, { s with access := s.access.remove (d.hash bearer) })
    else
      match s.grants.get access.grant with
      | none => (none, s)
      | some grant =>
        if !grant.active then (none, s)
        else
          (some (access.grant, { grant with lastUsedAt := some now }),
            { s with grants := s.grants.modify access.grant fun g =>
                { g with lastUsedAt := some now } })

/-- A grant as `revoke` leaves it. -/
def ended (now : Time) (g : Grant) : Grant :=
  { g with revokedAt := some (g.revokedAt.getD now), refreshHash := none }

/-- End a grant: its tokens stop working at once. -/
def revoke (grantId : String) (now : Time) : Option Grant × Store :=
  match s.grants.get grantId with
  | none => (none, s)
  | some grant =>
    (some (ended now grant),
      { s with grants := s.grants.modify grantId (ended now)
               access := s.access.retain fun _ a => a.grant != grantId })

/-- The active grant for an agent, by its id or name or the grant's. -/
def grantForAgent (reference : String) : Option (String × Grant) :=
  s.grants.sorted.find? fun row =>
    row.2.active && (row.2.agentId == reference || row.2.agentName == reference ||
      row.1 == reference)

/-- What a file or a restart keeps: clients and grants. -/
def restart : Store := { s with codes := Map.empty, access := Map.empty }

end Store

end AgentDocker.Connector
