import Enimul.Tunnel

/-! Forwarding of plain HTTP requests.
`forwardHTTPRequest` copies a request in absolute form, puts the address that `genPolicy` has chosen
in place of its host, and gives the copy to the transport of `net/http`. The transport connects to
that address and writes the request as HTTP/1.1; no proxy is set in the environment. -/
namespace Enimul
namespace HTTPForward

open GoSlice GoText NetIP Policies Resolve
open GenPolicy (Tables genPolicy)

/-! ### Requests -/

/-- The name of a header field; `other` is one that neither the proxy nor the transport looks at. -/
inductive Field
  | host | userAgent | contentLength | transferEncoding | trailer | acceptEncoding | range
  | connection | proxyAuthorization | proxyConnection
  | other (name : Str)
  deriving DecidableEq, Repr

/-- The values of each field. The order of lines of different fields is not recorded. -/
abbrev Header := Field → List Str

def Header.get (h : Header) (k : Field) : Str := (h k).headD []

def Header.del (h : Header) (k : Field) : Header := Function.update h k []

def Header.set (h : Header) (k : Field) (v : Str) : Header := Function.update h k [v]

/-- A URL; its path is as `EscapedPath` gives it. -/
structure URL where
  scheme : Str
  opaqueText : Str := []
  host : Str := []
  escapedPath : Str := []
  forceQuery : Bool := false
  rawQuery : Str := []

def URL.isAbs (u : URL) : Bool := u.scheme ≠ []

def URL.requestPath (u : URL) : Str :=
  if u.opaqueText = [] then if u.escapedPath = [] then str "/" else u.escapedPath
  else if hasPrefix u.opaqueText (str "//") then u.scheme++str ":"++u.opaqueText
  else u.opaqueText

def URL.requestURI (u : URL) : Str :=
  if u.forceQuery ∨ u.rawQuery ≠ [] then u.requestPath++str "?"++u.rawQuery else u.requestPath

/-- A request. Without chunks the content length is the length of the body; `trailer` has the
fields that are announced for the end of a chunked body. -/
structure Request where
  method : Str
  url : URL
  host : Str
  header : Header
  body : Bytes := []
  chunked : Bool := false
  trailer : List Str := []

/-- The transport puts spaces for line breaks. -/
def newlineToSpace (b : UInt8) : UInt8 := if b = 10 ∨ b = 13 then 32 else b

def isASCIISpace (b : UInt8) : Bool := b = 32 ∨ b = 9 ∨ b = 10 ∨ b = 13

def trimString (v : Str) : Str :=
  ((v.dropWhile isASCIISpace).reverse.dropWhile isASCIISpace).reverse

/-- The value as it is written. -/
def headerValue (v : Str) : Str := trimString (v.map newlineToSpace)

/-- A value as it comes from the parser: on one line and without space around it. -/
structure Clean (v : Str) : Prop where
  line : ∀ b ∈ v, b ≠ 10 ∧ b ≠ 13
  left : ∀ b ∈ v.head?, isASCIISpace b = false
  right : ∀ b ∈ v.getLast?, isASCIISpace b = false

/-- A request as the server of `net/http` gives it to its handler. The fields for the host and for
chunks are not in the header any more. -/
structure Received extends Request where
  method_ne_nil : method ≠ []
  host_nil : header .host = []
  transferEncoding_nil : header .transferEncoding = []
  contentLength_nil : chunked = true → header .contentLength = []
  trailer_nil : chunked = true → header .trailer = []
  chunked_of_trailer : trailer ≠ [] → chunked = true
  clean : ∀ k, ∀ v ∈ header k, Clean v

/-! ### The transport -/

/-- What a server receives. -/
structure Message where
  method : Str
  uri : Str
  host : Str
  header : Header
  body : Bytes

structure Response where
  status : ℤ
  header : Header
  body : Bytes

/-- What the transport depends on: the encoding of names, the connections that can be made (with
the dialer of the proxy if there is a timeout), and the answers of the servers. -/
structure Transport where
  toASCII : Str → Option Str
  dial : Option ℤ → Str → Except String Unit
  respond : Str → Message → Except String Response

def isASCII (s : Str) : Bool := s.all fun b => b < 128

def validHostByte (b : UInt8) : Bool :=
  isDigit b ∨ (65 ≤ b ∧ b ≤ 90) ∨ (97 ≤ b ∧ b ≤ 122) ∨ contains (str "!$%&()*+,-.:;=[']_~") b

def validHostHeader (host : Str) : Bool := host.all validHostByte

def removeZone (host : Str) : Str :=
  if ¬ hasPrefix host (str "[") then host
  else
    match lastIndexByte host 93 with
    | none => host
    | some i =>
      match lastIndexByte (host.take i) 37 with
      | none => host
      | some j => host.take j++host.drop i

section Write

variable (x : Transport)

def punycodeHostPort (v : Str) : Option Str :=
  if isASCII v then some v
  else
    match splitHostPort v with
    | none => x.toASCII v
    | some (host,port) =>
      (x.toASCII host).map fun host => if port = [] then host else DoHDial.joinHostPort host port

/-- The value of the `Host` line; it is empty for a host that may not be written. -/
def hostLine (host : Str) : Option Str :=
  (punycodeHostPort x host).map fun host => removeZone (if validHostHeader host then host else [])

def defaultUserAgent : Str := str "Go-http-client/1.1"

/-- Only the first value is written, and none if that is empty. -/
def userAgentLines (r : Request) : List Str :=
  match r.header .userAgent with
  | [] => [defaultUserAgent]
  | ua::_ => if ua = [] then [] else [headerValue ua]

def contentLengthLines (r : Request) : List Str :=
  if r.chunked then []
  else if r.body ≠ [] ∨ r.method ∈ [str "POST",str "PUT",str "PATCH"] then
    [DoHDial.formatInt r.body.length]
  else []

def transferEncodingLines (r : Request) : List Str := if r.chunked then [str "chunked"] else []

def trailerLines (r : Request) : List Str :=
  if r.chunked ∧ r.trailer ≠ [] then [(str ",").intercalate r.trailer] else []

/-- The transport asks for a compressed answer of its own accord. -/
def requestedGzip (r : Request) : Bool :=
  r.header.get .acceptEncoding = [] ∧ r.header.get .range = [] ∧ r.method ≠ str "HEAD"

/-- The header that is written. The `Host` line is not counted. A second `Connection` line, for a
request of HTTP/1.0, is left out. -/
def writtenHeader (r : Request) : Header
  | .host => []
  | .userAgent => userAgentLines r
  | .contentLength => contentLengthLines r
  | .transferEncoding => transferEncodingLines r
  | .trailer => trailerLines r
  | .acceptEncoding => (r.header .acceptEncoding).map headerValue++
      if requestedGzip r then [str "gzip"] else []
  | k => (r.header k).map headerValue

/-- The host that a request is for. -/
def requestHost (r : Request) : Str := if r.host = [] then r.url.host else r.host

def requestLineURI (r : Request) (host : Str) : Str :=
  if r.method = str "CONNECT" ∧ r.url.escapedPath = [] then
    if r.url.opaqueText ≠ [] then r.url.opaqueText else host
  else r.url.requestURI

/-- `Request.write`, none for an error. -/
def write (r : Request) : Option Message :=
  (hostLine x (requestHost r)).map fun host => {
    method := if r.method = [] then str "GET" else r.method
    uri := requestLineURI r host
    host := host
    header := writtenHeader r
    body := r.body }

/-- The address and the message that were sent, if any, and the answer. -/
def roundTrip (timeout : Option ℤ) (r : Request) :
    Option (Str × Message) × Except String Response :=
  if r.url.scheme ≠ str "http" ∧ r.url.scheme ≠ str "https" then
    (none,.error "unsupported protocol scheme")
  else
    match x.dial timeout r.url.host with
    | .error err => (none,.error err)
    | .ok () =>
      match write x r with
      | none => (none,.error "invalid host")
      | some m => (some (r.url.host,m),x.respond r.url.host m)

end Write

/-! ### Forwarding -/

def status500 : String := "500 Internal Server Error"
def status403 : String := "403 Forbidden"
def status502 : String := "502 Bad Gateway"

/-- What the client is answered. -/
inductive Reply
  | error (text : String) (code : ℤ)
  | status (code : ℤ) (location : Option Str)
  | response (resp : Response)

structure Outcome where
  sent : Option (Str × Message)
  reply : Reply

def originHostPort (r : Request) : Str × Str :=
  (splitHostPort (requestHost r)).getD
    (requestHost r,if r.url.scheme = str "https" then str "443" else str "80")

def policyRequest (r : Request) : GenPolicy.Request := ⟨(originHostPort r).1,false,false⟩

def redirectLocation (p : Policy) (r : Request) : Option Str :=
  if p.httpStatus = 301 ∨ p.httpStatus = 302 then
    some ((if r.url.scheme = [] then str "https" else r.url.scheme)++str "://"++requestHost r++
      r.url.requestURI)
  else none

def targetAddr (dstHost : Str) (p : Policy) (r : Request) : Str :=
  DoHDial.joinHostPort dstHost (Tunnel.overridePort (originHostPort r).2 p)

def outHeader (h : Header) : Header :=
  let h := (h.del .proxyAuthorization).del .proxyConnection
  if h.get .connection = [] then h.set .connection (str "close") else h

/-- The copy of the request that is given to the transport. -/
def outReq (dstHost : Str) (p : Policy) (r : Request) : Request :=
  {r with
    url := {r.url with
      host := targetAddr dstHost p r
      scheme := if r.url.scheme = [] then str "http" else r.url.scheme}
    host := targetAddr dstHost p r
    header := outHeader r.header}

def forwardHTTPRequest {σ : Type} (t : Tables) (w : World σ) (x : Transport) (r : Request) (s : σ) :
    Outcome × σ :=
  if requestHost r = [] then (⟨none,.error "400 Bad Request" 400⟩,s)
  else
    match genPolicy t w (policyRequest r) s with
    | (.failed,s₁) => (⟨none,.error status500 500⟩,s₁)
    | (.blocked,s₁) => (⟨none,.error status403 403⟩,s₁)
    -- not returned for a request that has every name resolved
    | (.domainNotFound,s₁) => (⟨none,.error status500 500⟩,s₁)
    | (.routed dstHost p,s₁) =>
      if p.httpStatus ≠ 0 ∧ p.httpStatus ≠ unsetInt then
        (⟨none,.status p.httpStatus (redirectLocation p r)⟩,s₁)
      else
        match roundTrip x (if 0 < p.connectTimeout then some p.connectTimeout else none)
          (outReq dstHost p r) with
        | (sent,.error _) => (⟨sent,.error status502 502⟩,s₁)
        | (sent,.ok resp) => (⟨sent,.response resp⟩,s₁)

/-! ### What the server sees -/

/-- The fields that a proxy takes out or sets itself. -/
def Field.isProxy (k : Field) : Bool :=
  k = .proxyAuthorization ∨ k = .proxyConnection ∨ k = .connection

/-- The header as the client has sent it, with the fields for chunks. -/
def clientHeader (r : Request) : Header
  | .transferEncoding => r.header .transferEncoding++transferEncodingLines r
  | .trailer => r.header .trailer++trailerLines r
  | k => r.header k

/-- The server sees what the client has sent. -/
structure Kept (r : Request) (m : Message) : Prop where
  host : m.host = requestHost r
  method : m.method = r.method
  uri : m.uri = r.url.requestURI
  body : m.body = r.body
  header : ∀ k, k.isProxy = false → m.header k = clientHeader r k

/-- The requests that the handler forwards. -/
def AbsoluteForm (r : Request) : Prop := r.method ≠ str "CONNECT" ∧ r.url.isAbs = true

/-- The client itself has written out the address that is chosen, with the port, and the transport
has nothing to add to the header or to leave out. -/
structure Undisturbed (x : Transport) (dstHost : Str) (p : Policy) (r : Request) : Prop where
  host : hostLine x (targetAddr dstHost p r) = some (requestHost r)
  userAgent : ∃ ua, ua ≠ [] ∧ r.header .userAgent = [ua]
  acceptEncoding : requestedGzip r = false
  contentLength : r.header .contentLength = contentLengthLines r
  trailer : r.header .trailer = []

section Results

variable {x : Transport} {dstHost : Str} {p : Policy}

/-! ### Header values -/

theorem dropWhile_of_head {v : Str} (h : ∀ b ∈ v.head?, isASCIISpace b = false) :
    v.dropWhile isASCIISpace = v := by
  cases v with
  | nil => rfl
  | cons b v => rw [List.dropWhile_cons_of_neg (by simp [h b rfl])]

/-- A clean value is written as it is. -/
theorem Clean.headerValue_eq {v : Str} (h : Clean v) : headerValue v = v := by
  have hline : v.map newlineToSpace = v := by
    rw [List.map_congr_left (g := id) fun b hb => ?_,List.map_id]
    rw [newlineToSpace,if_neg (by simp [h.line b hb]),id]
  rw [headerValue,hline,trimString,dropWhile_of_head h.left,dropWhile_of_head,List.reverse_reverse]
  rw [List.head?_reverse]
  exact h.right

theorem Received.map_headerValue (req : Received) (k : Field) :
    (req.header k).map headerValue = req.header k := by
  rw [List.map_congr_left (g := id) fun v hv => (req.clean k v hv).headerValue_eq,List.map_id]

/-! ### The copy -/

theorem outHeader_frame {h : Header} {k : Field} (hk : k.isProxy = false) :
    outHeader h k = h k := by
  simp only [Field.isProxy,decide_eq_false_iff_not,not_or] at hk
  obtain ⟨hauthorization,hproxy,hconnection⟩ := hk
  have hdel : (h.del .proxyAuthorization).del .proxyConnection k = h k := by
    rw [Header.del,Function.update_of_ne hproxy,Header.del,Function.update_of_ne hauthorization]
  rw [outHeader]
  split
  · rw [Header.set,Function.update_of_ne hconnection,hdel]
  · exact hdel

theorem requestURI_outReq {r : Request} (habs : r.url.isAbs = true) :
    (outReq dstHost p r).url.requestURI = r.url.requestURI := by
  have hscheme : r.url.scheme ≠ [] := of_decide_eq_true habs
  simp only [outReq,URL.requestURI,URL.requestPath,if_neg hscheme]

/-! ### What is written -/

theorem userAgentLines_eq_iff (req : Received) :
    userAgentLines req.toRequest = req.header .userAgent ↔
      ∃ ua, ua ≠ [] ∧ req.header .userAgent = [ua] := by
  rw [userAgentLines]
  cases h : req.header .userAgent with
  | nil => simp
  | cons ua rest =>
    have hclean : headerValue ua = ua := (req.clean .userAgent ua (by simp [h])).headerValue_eq
    by_cases hua : ua = []
    · simp [hua]
    · simp only [if_neg hua,hclean,List.cons.injEq,true_and]
      exact ⟨fun hrest => ⟨ua,hua,rfl,hrest.symm⟩,fun ⟨_,_,_,hrest⟩ => hrest.symm⟩

theorem userAgentLines_outReq (r : Request) :
    userAgentLines (outReq dstHost p r) = userAgentLines r := by
  have hframe : (outReq dstHost p r).header .userAgent = r.header .userAgent :=
    outHeader_frame (by decide)
  rw [userAgentLines,hframe,userAgentLines]

theorem requestedGzip_outReq (r : Request) :
    requestedGzip (outReq dstHost p r) = requestedGzip r := by
  have hencoding : (outReq dstHost p r).header .acceptEncoding = r.header .acceptEncoding :=
    outHeader_frame (by decide)
  have hrange : (outReq dstHost p r).header .range = r.header .range := outHeader_frame (by decide)
  simp only [requestedGzip,Header.get,hencoding,hrange]
  rfl

theorem acceptEncoding_kept_iff (req : Received) :
    writtenHeader (outReq dstHost p req.toRequest) .acceptEncoding = req.header .acceptEncoding ↔
      requestedGzip req.toRequest = false := by
  have hframe : (outReq dstHost p req.toRequest).header .acceptEncoding =
      req.header .acceptEncoding := outHeader_frame (by decide)
  rw [writtenHeader,hframe,req.map_headerValue,requestedGzip_outReq,List.append_right_eq_self]
  cases requestedGzip req.toRequest <;> simp

theorem trailer_kept_iff (req : Received) :
    trailerLines req.toRequest = clientHeader req.toRequest .trailer ↔
      req.header .trailer = [] := by
  rw [clientHeader,eq_comm,List.append_left_eq_self]

/-- The fields that the transport writes for itself. -/
def Field.isOwn (k : Field) : Bool :=
  k ∈ [.host,.userAgent,.contentLength,.transferEncoding,.trailer,.acceptEncoding]

/-- Every other field goes through as it is. -/
theorem writtenHeader_frame (req : Received) {k : Field} (hproxy : k.isProxy = false)
    (hown : k.isOwn = false) :
    writtenHeader (outReq dstHost p req.toRequest) k = clientHeader req.toRequest k := by
  have hframe : (outReq dstHost p req.toRequest).header k = req.header k := outHeader_frame hproxy
  have hmap : ((outReq dstHost p req.toRequest).header k).map headerValue = req.header k := by
    rw [hframe,req.map_headerValue]
  cases k <;> first
    | exact hmap
    | cases hown

/-- The header is kept if the transport has nothing to do to it. -/
theorem header_kept_iff (req : Received) :
    (∀ k, k.isProxy = false →
      writtenHeader (outReq dstHost p req.toRequest) k = clientHeader req.toRequest k) ↔
      (∃ ua, ua ≠ [] ∧ req.header .userAgent = [ua]) ∧ requestedGzip req.toRequest = false ∧
        req.header .contentLength = contentLengthLines req.toRequest ∧
        req.header .trailer = [] := by
  constructor
  · intro h
    have hagent := h .userAgent (by decide)
    rw [writtenHeader,userAgentLines_outReq] at hagent
    exact ⟨(userAgentLines_eq_iff req).mp hagent,
      (acceptEncoding_kept_iff req).mp (h .acceptEncoding (by decide)),
      (h .contentLength (by decide)).symm,(trailer_kept_iff req).mp (h .trailer (by decide))⟩
  · rintro ⟨hagent,hgzip,hlength,htrailer⟩ k hk
    cases hown : k.isOwn with
    | false => exact writtenHeader_frame req hk hown
    | true =>
      cases k with
      | host => exact req.host_nil.symm
      | userAgent =>
        rw [writtenHeader,userAgentLines_outReq]
        exact (userAgentLines_eq_iff req).mpr hagent
      | contentLength => exact hlength.symm
      | transferEncoding =>
        change transferEncodingLines req.toRequest = _++_
        rw [req.transferEncoding_nil,List.nil_append]
      | trailer => exact (trailer_kept_iff req).mpr htrailer
      | acceptEncoding => exact (acceptEncoding_kept_iff req).mpr hgzip
      | range | connection | proxyAuthorization | proxyConnection | other => cases hown

/-- What is sent, and where to. -/
theorem forwardHTTPRequest_sent {σ : Type} {t : Tables} {w : World σ} {r : Request} {s s₁ : σ}
    {addr : Str} {m : Message}
    (hroute : genPolicy t w (policyRequest r) s = (.routed dstHost p,s₁))
    (hsent : (forwardHTTPRequest t w x r s).1.sent = some (addr,m)) :
    addr = targetAddr dstHost p r ∧ write x (outReq dstHost p r) = some m := by
  rw [forwardHTTPRequest] at hsent
  split at hsent
  · cases hsent
  · rw [hroute] at hsent
    dsimp only at hsent
    split at hsent
    · cases hsent
    · have hround : (roundTrip x (if 0 < p.connectTimeout then some p.connectTimeout else none)
          (outReq dstHost p r)).1 = some (addr,m) := by
        split at hsent <;> rename_i hround <;> rw [hround] <;> exact hsent
      rw [roundTrip] at hround
      split at hround
      · cases hround
      · split at hround
        · cases hround
        · cases hwrite : write x (outReq dstHost p r) with
          | none =>
            rw [hwrite] at hround
            cases hround
          | some m' =>
            rw [hwrite] at hround
            cases hround
            exact ⟨rfl,rfl⟩

theorem requestHost_outReq (r : Request) :
    requestHost (outReq dstHost p r) = targetAddr dstHost p r := by
  rw [requestHost]
  exact ite_self _

theorem write_outReq {req : Received} {m : Message} (habs : AbsoluteForm req.toRequest)
    (h : write x (outReq dstHost p req.toRequest) = some m) :
    hostLine x (targetAddr dstHost p req.toRequest) = some m.host ∧
      m.method = req.method ∧ m.uri = req.url.requestURI ∧ m.body = req.body ∧
      m.header = writtenHeader (outReq dstHost p req.toRequest) := by
  rw [write,requestHost_outReq] at h
  obtain ⟨host,hhost,rfl⟩ := Option.map_eq_some_iff.mp h
  refine ⟨hhost,if_neg req.method_ne_nil,?_,rfl,rfl⟩
  rw [← requestURI_outReq habs.2]
  exact if_neg fun hconnect => habs.1 hconnect.1

end Results

/-- The server sees what the client has sent exactly if the client has named the address that is
chosen and the transport leaves the header alone. -/
theorem forwardHTTPRequest_kept_iff {σ : Type} (t : Tables) (w : World σ) (x : Transport)
    (req : Received) (s : σ) {s₁ : σ} {dstHost : Str} {p : Policy} {addr : Str} {m : Message}
    (habs : AbsoluteForm req.toRequest)
    (hroute : genPolicy t w (policyRequest req.toRequest) s = (.routed dstHost p,s₁))
    (hsent : (forwardHTTPRequest t w x req.toRequest s).1.sent = some (addr,m)) :
    Kept req.toRequest m ↔ Undisturbed x dstHost p req.toRequest := by
  obtain ⟨-,hwrite⟩ := forwardHTTPRequest_sent hroute hsent
  obtain ⟨hhost,hmethod,huri,hbody,hheader⟩ := write_outReq habs hwrite
  refine ⟨fun h => ?_,fun h => ?_⟩
  · obtain ⟨hagent,hgzip,hlength,htrailer⟩ :=
      (header_kept_iff req).mp fun k hk => hheader ▸ h.header k hk
    exact ⟨hhost.trans (congrArg some h.host),hagent,hgzip,hlength,htrailer⟩
  · refine ⟨Option.some.inj (hhost.symm.trans h.host),hmethod,huri,hbody,?_⟩
    rw [hheader]
    exact (header_kept_iff req).mpr ⟨h.userAgent,h.acceptEncoding,h.contentLength,h.trailer⟩

/-- Every connection can be made, and every answer is empty. -/
def reachable : Transport where
  toASCII := some
  dial _ _ := .ok ()
  respond _ _ := .ok ⟨200,fun _ => [],[]⟩

/-- A browser asks a host for its start page. -/
def browse (host : Str) : Received where
  method := str "GET"
  url := ⟨str "http",[],host,str "/",false,[]⟩
  host := host
  header
    | .userAgent => [str "Browser/1"]
    | .acceptEncoding => [str "br"]
    | .proxyConnection => [str "keep-alive"]
    | _ => []
  method_ne_nil := by decide
  host_nil := rfl
  transferEncoding_nil := rfl
  contentLength_nil _ := rfl
  trailer_nil _ := rfl
  chunked_of_trailer h := absurd rfl h
  clean k v hv := by
    have hv : v = str "Browser/1" ∨ v = str "br" ∨ v = str "keep-alive" := by
      cases k <;> simp_all
    rcases hv with rfl|rfl|rfl <;> constructor <;> simp [str,isASCIISpace]

/-- The hosts table sends the name to itself, and the client has given the port. -/
theorem forwardHTTPRequest_kept_iff_self :
    ∃ m, (forwardHTTPRequest DoHDial.selfHost (answering [1,2,3,4]) reachable
        (browse (str "dns.test:80")).toRequest ()).1.sent = some (str "dns.test:80",m) ∧
      Kept (browse (str "dns.test:80")).toRequest m :=
  ⟨_,rfl,(forwardHTTPRequest_kept_iff DoHDial.selfHost (answering [1,2,3,4]) reachable
    (browse (str "dns.test:80")) () ⟨by decide,rfl⟩ rfl rfl).mpr
    ⟨by decide,⟨str "Browser/1",by decide,rfl⟩,by decide,by decide,rfl⟩⟩

/-- No rules, and IPv4 addresses are preferred. -/
def preferring : Tables :=
  {DoHDial.noRules with defaultPolicy := {mergeStart with dnsMode := .preferIPv4}}

/-- The name is resolved, and the server is asked for its own address. -/
theorem forwardHTTPRequest_changes_host :
    AbsoluteForm (browse (str "dns.test")).toRequest ∧
      ∃ m, (forwardHTTPRequest preferring (answering [1,2,3,4]) reachable
          (browse (str "dns.test")).toRequest ()).1.sent = some (str "1.2.3.4:80",m) ∧
        requestHost (browse (str "dns.test")).toRequest = str "dns.test" ∧
        m.host = str "1.2.3.4:80" ∧ ¬ Kept (browse (str "dns.test")).toRequest m := by
  have habs : AbsoluteForm (browse (str "dns.test")).toRequest := ⟨by decide,rfl⟩
  have hsent : ∃ m, (forwardHTTPRequest preferring (answering [1,2,3,4]) reachable
      (browse (str "dns.test")).toRequest ()).1.sent = some (str "1.2.3.4:80",m) := ⟨_,rfl⟩
  obtain ⟨m,hsent⟩ := hsent
  obtain ⟨-,hwrite⟩ := forwardHTTPRequest_sent rfl hsent
  have hhost : m.host = str "1.2.3.4:80" :=
    Option.some.inj ((write_outReq habs hwrite).1.symm.trans (by decide))
  refine ⟨habs,m,hsent,rfl,hhost,fun h => ?_⟩
  exact absurd (hhost.symm.trans h.host) (by decide)

end HTTPForward
end Enimul
