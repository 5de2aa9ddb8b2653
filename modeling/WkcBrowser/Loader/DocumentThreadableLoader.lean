import WkcBrowser.Loader.CrossOriginAccessControl

/-! The loader of a document whose requests may be for another origin. It makes a preflight request or
only the actual one; both come back through the same callbacks. -/

namespace WkcBrowser.Loader

open Wtf Network

inductive CrossOriginRequestPolicy where
  | denyCrossOriginRequests
  | useAccessControl
  | allowCrossOriginRequests
deriving DecidableEq

structure ThreadableLoaderOptions where
  sendLoadCallbacks : Bool := false
  sniffContent : Bool := false
  allowCredentials : Bool := false
  forcePreflight : Bool := false
  crossOriginRequestPolicy : CrossOriginRequestPolicy := .denyCrossOriginRequests

/-- What a request is made for. The loader itself does not keep it. -/
inductive Purpose where
  | preflight
  | actual
deriving DecidableEq

/-- A `SubresourceLoader` whose client is still set. -/
structure SubresourceLoader where
  request : ResourceRequest
  purpose : Purpose
  doSecurityCheck : Bool
  sendLoadCallbacks : Bool
  sniffContent : Bool

/-- The functions of `ThreadableLoaderClient`. -/
inductive ClientCall where
  | didSendData (bytesSent totalBytesToBeSent : Nat)
  | didReceiveResponse (response : ResourceResponse)
  | didReceiveData (data : List Byte)
  | didFinishLoading
  | didFail
  | didFailRedirectCheck
  | didReceiveAuthenticationCancellation (response : ResourceResponse)
deriving DecidableEq

/-- The checks of responses and the calls of the client. -/
inductive Notice where
  | checked (purpose : Purpose) (passed : Bool)
  | called (purpose : Purpose) (call : ClientCall)
deriving DecidableEq

/-- A loader with the `SubresourceLoader` that can call it back, which is there before `m_loader`
is. -/
structure DocumentThreadableLoader where
  options : ThreadableLoaderOptions
  sameOriginRequest : Bool
  actualRequest : Option ResourceRequest := none
  loader : Bool := false
  client : Bool := true
  subresourceLoader : Option SubresourceLoader := none
  cache : PreflightResultCache
  trace : List Notice := []

namespace DocumentThreadableLoader
variable (s : DocumentThreadableLoader)

def notice (notice : Notice) : DocumentThreadableLoader :=
  { s with trace := s.trace ++ [notice] }

/-- `SubresourceLoader::cancel` tells its client of a failure before the client is cleared. -/
def cancel (sub : SubresourceLoader) : DocumentThreadableLoader :=
  if !s.loader then s
  else
    let s := s.notice (.called sub.purpose .didFail)
    { s with loader := false, client := false, subresourceLoader := none }

/-- A call of the client, which may cancel the loader from there. -/
def call (sub : SubresourceLoader) (call : ClientCall) (cancels : Bool) : DocumentThreadableLoader :=
  let s := s.notice (.called sub.purpose call)
  if cancels then s.cancel sub else s

/-- `m_loader` is null until `SubresourceLoader::create` returns. -/
def loadRequest (request : ResourceRequest) (purpose : Purpose) (doSecurityCheck : Bool) :
    DocumentThreadableLoader :=
  { s with
    loader := false
    subresourceLoader := some {
      request
      purpose
      doSecurityCheck
      sendLoadCallbacks := s.options.sendLoadCallbacks && s.actualRequest.isNone
      sniffContent := s.options.sniffContent && s.actualRequest.isNone } }

def preflightSuccess : DocumentThreadableLoader :=
  match s.actualRequest with
  | some request => { s with actualRequest := none }.loadRequest request .actual false
  | none => s

section
variable {Origin : Type} (web : Web Origin) (origin : Origin)

def isAllowedRedirect (url : Text) : Bool :=
  if s.options.crossOriginRequestPolicy = .allowCrossOriginRequests then true
  else s.sameOriginRequest && web.canRequest origin url

def willSendRequest (sub : SubresourceLoader) (url : Text) (cancels : Bool) :
    DocumentThreadableLoader :=
  if !s.isAllowedRedirect web origin url then s.call sub .didFailRedirectCheck cancels else s

def didReceiveResponse (sub : SubresourceLoader) (response : ResourceResponse) (cancels : Bool) :
    DocumentThreadableLoader :=
  let passes := passesAccessControlCheck web response s.options.allowCredentials origin
  match s.actualRequest with
  | some request =>
    let result := PreflightResult.parse web s.options.allowCredentials response
    let allowed := result.filter fun result =>
      result.allowsCrossOriginMethod request.httpMethod &&
        result.allowsCrossOriginHeaders web request.httpHeaderFields
    match if passes then allowed else none with
    | none => (s.notice (.checked sub.purpose false)).call sub .didFail cancels
    | some result =>
      { s with cache :=
        Function.update s.cache (web.originString origin, request.url) (some result) }.notice
          (.checked sub.purpose true)
  | none =>
    if !s.sameOriginRequest ∧ s.options.crossOriginRequestPolicy = .useAccessControl then
      if !passes then (s.notice (.checked sub.purpose false)).call sub .didFail cancels
      else (s.notice (.checked sub.purpose true)).call sub (.didReceiveResponse response) cancels
    else s.call sub (.didReceiveResponse response) cancels

def didReceiveData (sub : SubresourceLoader) (data : List Byte) (cancels : Bool) :
    DocumentThreadableLoader :=
  s.call sub (.didReceiveData data) cancels

/-- The `SubresourceLoader` makes no call after this one. -/
def didFinishLoading (sub : SubresourceLoader) (cancels : Bool) : DocumentThreadableLoader :=
  let s := { s with subresourceLoader := none }
  if s.actualRequest.isSome then s.preflightSuccess else s.call sub .didFinishLoading cancels

def didFail (sub : SubresourceLoader) (cancels : Bool) : DocumentThreadableLoader :=
  { s with subresourceLoader := none }.call sub .didFail cancels

/-- Users are not prompted for credentials for cross-origin requests. -/
def didReceiveAuthenticationChallenge (sub : SubresourceLoader) (cancels : Bool) :
    DocumentThreadableLoader :=
  if !s.sameOriginRequest then (s.call sub .didFail cancels).cancel sub else s

def makeCrossOriginAccessRequestWithPreflight (request : ResourceRequest) :
    DocumentThreadableLoader :=
  let names := request.httpHeaderFields.map Prod.fst
  let fields := HTTPHeaderMap.set web.platform (text "Origin") (some (web.originString origin)) []
  let fields := fields.set web.platform (text "Access-Control-Request-Method")
    (some request.httpMethod)
  let fields :=
    if names.isEmpty then fields
    else fields.set web.platform (text "Access-Control-Request-Headers")
      (some ((text ", ").intercalate names))
  s.loadRequest {
    url := web.removeCredentials request.url
    httpMethod := text "OPTIONS"
    httpHeaderFields := fields
    allowCookies := s.options.allowCredentials } .preflight true

/-- Cross-origin requests are only defined for HTTP. -/
def makeSimpleCrossOriginAccessRequest (request : ResourceRequest) : DocumentThreadableLoader :=
  if !web.protocolInHTTPFamily request.url then s.notice (.called .actual .didFail)
  else
    s.loadRequest { request with
      url := web.removeCredentials request.url
      allowCookies := s.options.allowCredentials
      httpHeaderFields := request.httpHeaderFields.set web.platform (text "Origin")
        (some (web.originString origin)) } .actual true

/-- The constructor of an asynchronous loader. -/
def create (cache : PreflightResultCache) (request : ResourceRequest)
    (options : ThreadableLoaderOptions) : DocumentThreadableLoader :=
  let s : DocumentThreadableLoader :=
    { options, sameOriginRequest := web.canRequest origin request.url, cache }
  if s.sameOriginRequest ∨ options.crossOriginRequestPolicy = .allowCrossOriginRequests then
    s.loadRequest request .actual true
  else if options.crossOriginRequestPolicy = .denyCrossOriginRequests then
    s.notice (.called .actual .didFail)
  else if !options.forcePreflight ∧
      isSimpleCrossOriginAccessRequest request.httpMethod request.httpHeaderFields then
    s.makeSimpleCrossOriginAccessRequest web origin request
  else
    let actualRequest := { request with allowCookies := options.allowCredentials }
    let (skip, cache) := cache.canSkipPreflight web (web.originString origin) request.url
      options.allowCredentials request.httpMethod request.httpHeaderFields
    let s := { s with actualRequest := some actualRequest, cache }
    if skip then s.preflightSuccess else s.makeCrossOriginAccessRequestWithPreflight web origin request

/-- The functions of `SubresourceLoaderClient`. -/
inductive Callback where
  | willSendRequest (url : Text)
  | didSendData (bytesSent totalBytesToBeSent : Nat)
  | didReceiveResponse (response : ResourceResponse)
  | didReceiveData (data : List Byte)
  | didFinishLoading
  | didFail
  | didReceiveAuthenticationChallenge
  | receivedCancellation (response : ResourceResponse)

/-- What can happen to a loader. The client may cancel it from within a call or at any other time. -/
inductive Event where
  | created (loaded : Bool)
  | callback (callback : Callback) (cancels : Bool)
  | cancel

def receive (sub : SubresourceLoader) (cancels : Bool) : Callback → DocumentThreadableLoader
  | .willSendRequest url => s.willSendRequest web origin sub url cancels
  | .didSendData sent total => s.call sub (.didSendData sent total) cancels
  | .didReceiveResponse response => s.didReceiveResponse web origin sub response cancels
  | .didReceiveData data => s.didReceiveData sub data cancels
  | .didFinishLoading => s.didFinishLoading sub cancels
  | .didFail => s.didFail sub cancels
  | .didReceiveAuthenticationChallenge => s.didReceiveAuthenticationChallenge sub cancels
  | .receivedCancellation response =>
    s.call sub (.didReceiveAuthenticationCancellation response) cancels

/-- Nothing happens any more once no `SubresourceLoader` calls back. -/
def step (s : DocumentThreadableLoader) (event : Event) : DocumentThreadableLoader :=
  match s.subresourceLoader with
  | none => s
  | some sub =>
    match event with
    | .created loaded =>
      if s.loader then s
      else if loaded then { s with loader := true }
      else { s with subresourceLoader := none }
    | .callback callback cancels => s.receive web origin sub cancels callback
    | .cancel => s.cancel sub

end

end DocumentThreadableLoader

end WkcBrowser.Loader
