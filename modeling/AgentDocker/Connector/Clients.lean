import AgentDocker.Core.Lease

/-!
# The connector's clients

A hosted surface becomes a client of the connector's authorization server by
registering its callbacks, or by naming as its id the URL of a metadata
document that does. Only the vendors' callbacks, and those the person allowed,
are admitted.

A request's body arrives parsed: `Json` is what the parser returns. Form and
query fields are decoded pairs.
-/

namespace AgentDocker.Connector

open AgentDocker.Core

inductive Json where
  | null
  | bool (b : Bool)
  | num (n : Int)
  | str (s : String)
  | arr (items : List Json)
  | obj (fields : List (String × Json))

namespace Json

def get : Json → String → Option Json
  | .obj fields, name => fields.lookup name
  | _, _ => none

/-- `json[name]`: nothing there is `null`. -/
def index (j : Json) (name : String) : Json := (j.get name).getD .null

def asArray : Json → Option (List Json)
  | .arr items => some items
  | _ => none

def asStr : Json → Option String
  | .str s => some s
  | _ => none

def isObject : Json → Bool
  | .obj _ => true
  | _ => false

end Json

/-- The value of `name` in decoded pairs, when present and non-empty. -/
def field (pairs : List (String × String)) (name : String) : Option String :=
  ((pairs.find? fun pair => pair.1 == name).map Prod.snd).filter fun v => !v.isEmpty

/-- Unicode's `White_Space`. -/
def isWhitespace (c : Char) : Bool :=
  (decide (9 ≤ c.toNat) && decide (c.toNat ≤ 13)) || c.toNat == 0x20 || c.toNat == 0x85 ||
    c.toNat == 0xA0 || c.toNat == 0x1680 ||
    (decide (0x2000 ≤ c.toNat) && decide (c.toNat ≤ 0x200A)) ||
    c.toNat == 0x2028 || c.toNat == 0x2029 || c.toNat == 0x202F || c.toNat == 0x205F ||
    c.toNat == 0x3000

/-- Whether trimming leaves nothing. -/
def isBlank (text : String) : Bool := text.toList.all isWhitespace

/-- The words between the white space, gathered from the end. -/
def splitWhitespace (text : String) : List String :=
  let words := text.toList.foldr
    (fun c (acc : List Char × List (List Char)) =>
      if isWhitespace c then
        ([], if acc.1.isEmpty then acc.2 else acc.1 :: acc.2)
      else (c :: acc.1, acc.2))
    ([], [])
  (if words.1.isEmpty then words.2 else words.1 :: words.2).map String.ofList

def eqIgnoreAsciiCase (a b : String) : Bool :=
  a.toList.map Char.toLower == b.toList.map Char.toLower

def startsWith (text : String) (head : String) : Bool := head.toList.isPrefixOf text.toList

/-- Seconds. -/
def codeLifetime : Time := 5 * 60

def accessLifetime : Time := 60 * 60

/-- The one scope there is. -/
def scopeName : String := "agentdocker"

inductive Vendor where
  | claude
  | chatGpt
  /-- A callback the person allowed explicitly. -/
  | other
deriving DecidableEq, Repr

structure OAuthError where
  code : String
  description : String
deriving DecidableEq, Repr

def vendorCallbacks : List (String × Vendor) :=
  [("https://claude.ai/api/mcp/auth_callback", .claude),
   ("https://chatgpt.com/connector_platform_oauth_redirect", .chatGpt)]

def chatgptCallbackPrefix : String := "https://chatgpt.com/connector/oauth/"

def vendorMetadataHosts : List (String × Vendor) :=
  [("claude.ai", .claude), ("chatgpt.com", .chatGpt)]

/-- The host of an `https://` URL, without userinfo or port. -/
def hostOf (url : String) : Option String :=
  if startsWith url "https://" then
    let rest := url.toList.drop "https://".length
    let host := rest.takeWhile fun c => c != '/' && c != '?' && c != '#'
    if host.isEmpty || host.any (fun c => c == '@' || c == ':' || c == '[' || c == ']') then none
    else some (String.ofList host)
  else none

namespace Vendor

def label : Vendor → String
  | .claude => "Claude"
  | .chatGpt => "ChatGPT"
  | .other => "another client"

/-- The vendor a callback belongs to, when it is one this server admits. -/
def ofCallback (uri : String) (extra : List String) : Option Vendor :=
  match vendorCallbacks.find? fun known => known.1 == uri with
  | some (_, vendor) => some vendor
  | none =>
    if startsWith uri chatgptCallbackPrefix &&
        decide (uri.utf8ByteSize > chatgptCallbackPrefix.utf8ByteSize) then
      some .chatGpt
    else if extra.any fun allowed => allowed == uri then some .other
    else none

/-- The vendor whose metadata document a host may serve. -/
def ofMetadataHost (host : String) (extra : List String) : Option Vendor :=
  match vendorMetadataHosts.find? fun known => eqIgnoreAsciiCase known.1 host with
  | some (_, vendor) => some vendor
  | none =>
    if (extra.filterMap hostOf).any fun allowed => eqIgnoreAsciiCase allowed host then
      some .other
    else none

end Vendor

/-- Whether an id has the shape of a metadata document's URL. -/
def isMetadataClientId (clientId : String) : Bool :=
  decide (clientId.utf8ByteSize ≤ 512) && !clientId.toList.contains '#' &&
    match hostOf clientId with
    | some host =>
      let path := clientId.toList.drop ("https://".length + host.length)
      path.head? == some '/' && decide (path.length > 1)
    | none => false

/-- The plural field declares what the client can do; the singular one is only
a preference when both are there. -/
def metadataSupportsPublicClient (document : Json) : Bool :=
  let byPreference (preference : Option String) : Bool :=
    match document.get "token_endpoint_auth_methods_supported" with
    | some (.arr methods) =>
      (methods.all fun m => match m.asStr with | some m => !isBlank m | none => false) &&
        methods.any fun m => m.asStr == some "none"
    | some _ => false
    | none => match preference with | some method => method == "none" | none => true
  match document.get "token_endpoint_auth_method" with
  | none => byPreference none
  | some (.str method) => if isBlank method then false else byPreference (some method)
  | some _ => false

structure Client where
  redirectUris : List String
  name : Option String
  vendor : Vendor
  createdAt : Time
  /-- Of a client whose id is its document's URL: when that was last admitted. -/
  metadataFetchedAt : Option Time
deriving DecidableEq, Repr

/-- The name the consent page shows: a metadata document is self-asserted, so
the host it came from stands in for its own. -/
def Client.shownAs (client : Client) (clientId : String) : String :=
  match client.metadataFetchedAt, hostOf clientId with
  | some _, some host => client.vendor.label ++ " (" ++ host ++ ")"
  | _, _ =>
    match client.name with
    | some name => client.vendor.label ++ " (" ++ name ++ ")"
    | none => client.vendor.label

/-- The callbacks a body names. -/
def redirectUris (body : Json) : List String :=
  match (body.index "redirect_uris").asArray with
  | some items => items.filterMap Json.asStr
  | none => []

def clientName (body : Json) : Option String :=
  ((body.index "client_name").asStr.map fun n => String.ofList (n.toList.take 80)).filter
    fun n => !isBlank n

def notAdmitted (uri : String) : String :=
  uri ++ " is not a callback this connector admits; only the vendors' hosted surfaces can connect"

/-- The vendor of the first callback, where all are admitted. -/
def vendorOfAll (extra : List String) :
    List String → Option Vendor → Except OAuthError (Option Vendor)
  | [], vendor => .ok vendor
  | uri :: rest, vendor =>
    match Vendor.ofCallback uri extra with
    | none => .error ⟨"invalid_redirect_uri", notAdmitted uri⟩
    | some found => vendorOfAll extra rest (some (vendor.getD found))

/-- The client a registration asks for. -/
def registration (body : Json) (extra : List String) (now : Time) : Except OAuthError Client := do
  let uris := redirectUris body
  if uris.isEmpty then
    throw ⟨"invalid_redirect_uri", "redirect_uris must name at least one callback"⟩
  let vendor ← vendorOfAll extra uris none
  if let some method := (body.index "token_endpoint_auth_method").asStr then
    if method != "none" then
      throw ⟨"invalid_client_metadata",
        "only public clients (token_endpoint_auth_method \"none\") are issued"⟩
  if let some grants := (body.index "grant_types").asArray then
    if grants.any fun g =>
        g.asStr != some "authorization_code" && g.asStr != some "refresh_token" then
      throw ⟨"invalid_client_metadata",
        "only authorization_code and refresh_token grants are issued"⟩
  if let some types := (body.index "response_types").asArray then
    if types.any fun t => t.asStr != some "code" then
      throw ⟨"invalid_client_metadata", "only the code response type is issued"⟩
  return { redirectUris := uris, name := clientName body, vendor := vendor.getD .other,
           createdAt := now, metadataFetchedAt := none }

/-- Every callback of a document must be the vendor's whose host served it. -/
def callbacksOf (host : String) (vendor : Vendor) (extra : List String) :
    List String → Except OAuthError Unit
  | [] => .ok ()
  | uri :: rest =>
    match Vendor.ofCallback uri extra with
    | some found =>
      if found = vendor then callbacksOf host vendor extra rest
      else .error ⟨"invalid_client_metadata", uri ++ " is not a callback of the vendor at " ++ host⟩
    | none => .error ⟨"invalid_client_metadata", notAdmitted uri⟩

/-- The client a metadata document fetched from `clientId` describes. -/
def metadataClient (clientId : String) (document : Json) (extra : List String)
    (createdAt now : Time) : Except OAuthError Client := do
  if !isMetadataClientId clientId then
    throw ⟨"invalid_client", "client_id is not a metadata document URL"⟩
  let host := (hostOf clientId).getD ""
  let some hostVendor := Vendor.ofMetadataHost host extra
    | throw ⟨"invalid_client", host ++ " is not a host this connector fetches client metadata from; only the vendors' hosted surfaces can connect"⟩
  if !document.isObject then
    throw ⟨"invalid_client_metadata", "the metadata document is not a JSON object"⟩
  if (document.index "client_id").asStr != some clientId then
    throw ⟨"invalid_client_metadata",
      "the metadata document does not name its own URL as client_id"⟩
  if !metadataSupportsPublicClient document then
    throw ⟨"invalid_client_metadata",
      "the metadata document must support public-client (none) token exchange"⟩
  let uris := redirectUris document
  if uris.isEmpty then
    throw ⟨"invalid_client_metadata", "the metadata document names no redirect_uris"⟩
  callbacksOf host hostVendor extra uris
  if let some grants := (document.index "grant_types").asArray then
    if !grants.any fun g => g.asStr == some "authorization_code" then
      throw ⟨"invalid_client_metadata",
        "the metadata document does not use the authorization_code grant"⟩
  if let some types := (document.index "response_types").asArray then
    if !types.any fun t => t.asStr == some "code" then
      throw ⟨"invalid_client_metadata", "the metadata document does not use the code response type"⟩
  return { redirectUris := uris, name := clientName document, vendor := hostVendor,
           createdAt := createdAt, metadataFetchedAt := some now }

end AgentDocker.Connector
