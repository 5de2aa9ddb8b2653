import WkcBrowser.Network.ResourceResponse

/-! The checks of cross-origin requests and the cache of preflight results. -/

namespace WkcBrowser.Loader

open Wtf Network

/-- What the checks use of URLs, security origins and the clock. -/
structure Web (Origin : Type) where
  platform : Platform
  createFromString : Text → Origin
  originString : Origin → Text
  isSandboxed : Origin → Bool
  isSameSchemeHostPort : Origin → Origin → Bool
  canRequest : Origin → Text → Bool
  protocolInHTTPFamily : Text → Bool
  removeCredentials : Text → Text
  toUIntStrict : Text → Option Nat
  currentTime : Nat

structure ResourceRequest where
  url : Text
  httpMethod : Text
  httpHeaderFields : HTTPHeaderMap := []
  allowCookies : Bool := true

def isOnAccessControlSimpleRequestMethodWhitelist (method : Text) : Bool :=
  decide (method = text "GET") || decide (method = text "HEAD") || decide (method = text "POST")

/-- Preflight is required for MIME types that can not be sent via form submission. -/
def isOnAccessControlSimpleRequestHeaderWhitelist (name value : Text) : Bool :=
  if equalIgnoringCase name (text "accept") || equalIgnoringCase name (text "accept-language") ||
      equalIgnoringCase name (text "content-language") then true
  else if equalIgnoringCase name (text "content-type") then
    let mimeType := extractMIMETypeFromMediaType value
    equalIgnoringCase mimeType (text "application/x-www-form-urlencoded") ||
      equalIgnoringCase mimeType (text "multipart/form-data") ||
      equalIgnoringCase mimeType (text "text/plain")
  else false

def isSimpleCrossOriginAccessRequest (method : Text) (headerMap : HTTPHeaderMap) : Bool :=
  isOnAccessControlSimpleRequestMethodWhitelist method &&
    headerMap.all fun (name, value) =>
      isOnAccessControlSimpleRequestHeaderWhitelist name (value.getD [])

section
variable {Origin : Type} (web : Web Origin)

/-- A wildcard can not be used if credentials are to be sent. -/
def passesAccessControlCheck (response : ResourceResponse) (includeCredentials : Bool)
    (securityOrigin : Origin) : Bool :=
  let accessControlOriginString :=
    (response.httpHeaderField web.platform (text "Access-Control-Allow-Origin")).getD []
  if accessControlOriginString = text "*" ∧ !includeCredentials then true
  else if web.isSandboxed securityOrigin then false
  else if !web.isSameSchemeHostPort (web.createFromString accessControlOriginString) securityOrigin
    then false
  else if includeCredentials then
    decide (response.httpHeaderField web.platform (text "Access-Control-Allow-Credentials") =
      some (text "true"))
  else true

structure PreflightResult where
  credentials : Bool
  methods : List Text
  headers : List Text
  absoluteExpiryTime : Nat

def defaultPreflightCacheTimeoutSeconds : Nat := 5
def maxPreflightCacheTimeoutSeconds : Nat := 600

/-- An entry before a comma is not empty. -/
def parseAccessControlAllowList (value : Text) : Option (List Text) :=
  let entries := value.splitOn 44
  if entries.dropLast.any List.isEmpty then none
  else some ((entries.map stripWhiteSpace).filter fun entry => !entry.isEmpty)

def PreflightResult.parse (credentials : Bool) (response : ResourceResponse) :
    Option PreflightResult := do
  let field name := (response.httpHeaderField web.platform name).getD []
  let methods ← parseAccessControlAllowList (field (text "Access-Control-Allow-Methods"))
  let headers ← parseAccessControlAllowList (field (text "Access-Control-Allow-Headers"))
  let expiryDelta :=
    match web.toUIntStrict (field (text "Access-Control-Max-Age")) with
    | some delta => min delta maxPreflightCacheTimeoutSeconds
    | none => defaultPreflightCacheTimeoutSeconds
  some { credentials, methods, headers, absoluteExpiryTime := web.currentTime + expiryDelta }

namespace PreflightResult
variable (item : PreflightResult)

def allowsCrossOriginMethod (method : Text) : Bool :=
  item.methods.contains method || isOnAccessControlSimpleRequestMethodWhitelist method

/-- Names of header fields are compared with case folded. -/
def allowsCrossOriginHeaders (requestHeaders : HTTPHeaderMap) : Bool :=
  requestHeaders.all fun (name, value) =>
    (item.headers.any fun header => decide (fold web.platform header = fold web.platform name)) ||
      isOnAccessControlSimpleRequestHeaderWhitelist name (value.getD [])

def allowsRequest (includeCredentials : Bool) (method : Text) (requestHeaders : HTTPHeaderMap) :
    Bool :=
  if item.absoluteExpiryTime < web.currentTime then false
  else if includeCredentials && !item.credentials then false
  else item.allowsCrossOriginMethod method && item.allowsCrossOriginHeaders web requestHeaders

end PreflightResult

/-- `CrossOriginPreflightResultCache`, by origin and URL. -/
abbrev PreflightResultCache := Text × Text → Option PreflightResult

def PreflightResultCache.canSkipPreflight (cache : PreflightResultCache) (origin url : Text)
    (includeCredentials : Bool) (method : Text) (requestHeaders : HTTPHeaderMap) :
    Bool × PreflightResultCache :=
  match cache (origin, url) with
  | none => (false, cache)
  | some item =>
    if item.allowsRequest web includeCredentials method requestHeaders then (true, cache)
    else (false, Function.update cache (origin, url) none)

end

end WkcBrowser.Loader
