import AgentDocker.Connector.Oauth
import AgentDocker.Lib.Runs

/-!
# The store over time

The operations of the store as the inputs of one machine. Next to the store the
machine keeps what an observer of the answers has seen, newest first: the codes
that went out, the consents that came back for them, the tokens given out and
for which grant, the grants ended, and the restarts. It also keeps the clock and
the random tokens drawn so far. The store reads none of these.
-/

namespace AgentDocker.Connector

open AgentDocker.Core Lib

inductive Op where
  | registerClient (body : Json) (extra : List String) (clientId : String)
  | admitMetadataClient (clientId : String) (document : Json) (extra : List String)
  | makeRoom (cap : Nat)
  | beginAuthorization (params : List (String × String))
  | completeAuthorization (pending : Pending) (agentName : String) (generated : Bool)
      (project : String) (code : String)
  | redeemCode (form : List (String × String))
  | issue (consent : Consent) (agent : AgentIdentity) (grantId : String) (drawn : Drawn)
  | refresh (form : List (String × String)) (drawn : Drawn)
  | authenticate (bearer : String)
  | observeClient (grantId : String) (fingerprint : Fingerprint)
  | revoke (grantId : String)
  | restart

/-- The random tokens an operation draws. -/
def Op.draws : Op → List String
  | .registerClient _ _ clientId => [clientId]
  | .completeAuthorization _ _ _ _ code => [code]
  | .issue _ _ grantId drawn => [grantId, drawn.accessToken, drawn.refreshToken]
  | .refresh _ drawn => [drawn.accessToken, drawn.refreshToken]
  | _ => []

inductive Event where
  /-- A code went out for a consented request. -/
  | coded (code : String) (pending : Pending) (time : Time)
  /-- A form was answered with a consent. -/
  | consented (form : List (String × String)) (consent : Consent) (time : Time)
  /-- Tokens were given out for a grant, for the refresh token `used` if any. -/
  | gave (grant : String) (issued : Issued) (used : Option String) (time : Time)
  | revoked (grant : String)
  | restarted

/-- The tokens of an answer, by the grant the store keeps them for. -/
def given (d : Digests) (used : Option String) (now : Time) :
    Except OAuthError Issued × Store → Store × Option Event
  | (.error _, s) => (s, none)
  | (.ok issued, s) =>
    (s, (s.access.get (d.hash issued.accessToken)).map fun a => .gave a.grant issued used now)

/-- What an operation does to the store, and what is seen of it. -/
def Op.act (d : Digests) (s : Store) (now : Time) : Op → Store × Option Event
  | .registerClient body extra clientId => ((s.registerClient body extra now clientId).2, none)
  | .admitMetadataClient clientId document extra =>
    ((s.admitMetadataClient clientId document extra now).2, none)
  | .makeRoom cap => ((s.makeRoom cap now).2, none)
  | .beginAuthorization _ => (s, none)
  | .completeAuthorization pending agentName generated project code =>
    ((s.completeAuthorization d pending agentName generated project now code).2,
      some (.coded code pending now))
  | .redeemCode form =>
    match s.redeemCode d form now with
    | (.ok consent, s) => (s, some (.consented form consent now))
    | (.error _, s) => (s, none)
  | .issue consent agent grantId drawn =>
    given d none now (s.issue d consent agent now grantId drawn)
  | .refresh form drawn => given d (field form "refresh_token") now (s.refresh d form now drawn)
  | .authenticate bearer => ((s.authenticate d bearer now).2, none)
  | .observeClient grantId fingerprint => ((s.observeClient grantId fingerprint now).2, none)
  | .revoke grantId =>
    match s.revoke grantId now with
    | (some _, s) => (s, some (.revoked grantId))
    | (none, s) => (s, none)
  | .restart => (s.restart, some .restarted)

structure Server where
  store : Store
  history : List Event
  clock : Time
  drawn : List String

namespace Server

/-- An empty store. -/
def start (clock : Time) : Server := ⟨{}, [], clock, []⟩

def step (d : Digests) (srv : Server) (input : Time × Op) : Server :=
  let (store, event) := input.2.act d srv.store input.1
  { store, history := event.toList ++ srv.history, clock := input.1,
    drawn := input.2.draws ++ srv.drawn }

end Server

end AgentDocker.Connector
