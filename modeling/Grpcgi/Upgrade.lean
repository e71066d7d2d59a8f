import Grpcgi.Envoy.Filter
import Grpcgi.Python.Scope
import Grpcgi.Wasm.Filter

/-!
# The upgrade request between filter and server

Both filters put the upgrade request into the initial metadata under the names
of the HTTP/2 pseudo-headers, `:path` above all. `ws._build_scope` reads
`grpcgi-path` and its siblings, which no filter writes. This file states what it
would mean for a request to survive the hop and shows that none does.
-/

namespace Grpcgi

open Python (parseAuthority)
open Python.Ws (buildScope grpcInternals metaAuthority metaKeys metaPath metaProtocol)
open Wasm (parseHttpRequestHeaders)
open Envoy (HeaderMap initialMetadata)

/-- A subprotocol name, which has no comma and no blank. -/
def IsOffer (offer : Str) : Prop := ∀ c ∈ offer, c ≠ ',' ∧ isPySpace c = false

instance (offer : Str) : Decidable (IsOffer offer) := List.decidableBAll _ offer

structure UpgradeRequest where
  path : Str
  query : Option Str
  host : Str
  /-- the offers of `Sec-WebSocket-Protocol` -/
  subprotocols : Option (List Str)
  /-- the remaining header fields, names as the client writes them -/
  fields : List (Str × Str)
  path_plain : '?' ∉ path
  offers_plain : ∀ offers, subprotocols = some offers →
    offers ≠ [] ∧ ∀ offer ∈ offers, IsOffer offer
  deriving DecidableEq, Repr

namespace UpgradeRequest

/-- The request target, `p` or `p?q`. -/
def target (req : UpgradeRequest) : Str :=
  match req.query with
  | none => req.path
  | some q => req.path ++ '?' :: q

/-- The header fields in the order they are sent. -/
def fieldLines (req : UpgradeRequest) : List (Str × Str) :=
  ("Host".toList, req.host) :: (match req.subprotocols with
    | none => []
    | some offers => [("Sec-WebSocket-Protocol".toList, ", ".toList.intercalate offers)]) ++
    req.fields

/-- The request on the wire, as the filter in front of an HTTP/1.1 server sees it. -/
def encode (req : UpgradeRequest) : Bytes :=
  utf8Encode <| "GET ".toList ++ req.target ++ " HTTP/1.1\r\n".toList ++
    req.fieldLines.flatMap (fun (name, value) => name ++ ": ".toList ++ value ++ "\r\n".toList) ++
    "\r\n".toList

/-- The header map that Envoy's HTTP/1 codec makes of it. -/
def headerMap (req : UpgradeRequest) : HeaderMap :=
  [(":authority".toList, req.host), (":path".toList, req.target), (":method".toList, "GET".toList),
    (":scheme".toList, "http".toList)] ++
    req.fieldLines.tail.map fun (name, value) => (asciiLower name, value)

end UpgradeRequest

/-- The scope tells the app what the client asked for. `decode` stands for
percent-decoding, which the server may or may not apply to the path. -/
structure Survives (u : Unicode) (decode : Str → Str) (req : UpgradeRequest)
    (scope : Python.Ws.Scope) : Prop where
  path : scope.path = req.path ∨ scope.path = decode req.path
  query : scope.queryString = utf8Encode (req.query.getD [])
  host : (utf8Encode "host".toList, utf8Encode req.host) ∈ scope.headers
  server : scope.server = parseAuthority u req.host
  subprotocols : scope.subprotocols = req.subprotocols.getD []
  no_pseudo : ∀ h ∈ scope.headers, h.1.head? ≠ some 0x3A

instance (u : Unicode) (decode : Str → Str) (req : UpgradeRequest) (scope : Python.Ws.Scope) :
    Decidable (Survives u decode req scope) :=
  decidable_of_iff
    ((scope.path = req.path ∨ scope.path = decode req.path) ∧
      scope.queryString = utf8Encode (req.query.getD []) ∧
      (utf8Encode "host".toList, utf8Encode req.host) ∈ scope.headers ∧
      scope.server = parseAuthority u req.host ∧
      scope.subprotocols = req.subprotocols.getD [] ∧
      ∀ h ∈ scope.headers, h.1.head? ≠ some 0x3A)
    ⟨fun ⟨h₁, h₂, h₃, h₄, h₅, h₆⟩ => ⟨h₁, h₂, h₃, h₄, h₅, h₆⟩,
      fun ⟨h₁, h₂, h₃, h₄, h₅, h₆⟩ => ⟨h₁, h₂, h₃, h₄, h₅, h₆⟩⟩

/-! ## What the server would accept -/

/-- The request under the keys that the server reads. -/
def UpgradeRequest.controlEntries (req : UpgradeRequest) : List (Str × Str) :=
  (metaPath, req.target) :: (metaAuthority, req.host) :: (match req.subprotocols with
    | none => []
    | some offers => [(metaProtocol, ", ".toList.intercalate offers)])

theorem setTarget_target (req : UpgradeRequest) (f : Python.Fields) (h : f.queryString = []) :
    f.setTarget req.target =
      { f with path := req.path, queryString := utf8Encode (req.query.getD []) } := by
  cases hquery : req.query with
  | none =>
      simp only [Python.Fields.setTarget, UpgradeRequest.target, hquery,
        splitFirst_eq_none req.path_plain]
      rw [Option.getD_none, utf8Encode, List.flatMap_nil, ← h]
  | some q =>
      simp only [Python.Fields.setTarget, UpgradeRequest.target, hquery,
        splitFirst_append req.path_plain, Option.getD_some]

theorem foldl_controlEntries (u : Unicode) (req : UpgradeRequest) :
    ∃ rest : List (Bytes × Bytes), (∀ h ∈ rest, h.1.head? ≠ some 0x3A) ∧
      req.controlEntries.foldl (Python.Ws.addMetadata u) Python.Ws.initial =
        { Python.Ws.initial with
          path := req.path
          queryString := utf8Encode (req.query.getD [])
          authority := req.host
          rawHeaders := (utf8Encode "host".toList, utf8Encode req.host) :: rest
          subprotocols := req.subprotocols.getD [] } := by
  have htarget := setTarget_target req Python.Ws.initial rfl
  cases hoffers : req.subprotocols with
  | none =>
      refine ⟨[], by simp only [List.not_mem_nil, false_implies, implies_true], ?_⟩
      simp only [UpgradeRequest.controlEntries, hoffers, List.foldl_cons, List.foldl_nil,
        Python.Ws.addMetadata_path, Python.Ws.addMetadata_authority, htarget]
      rfl
  | some offers =>
      obtain ⟨hne, hplain⟩ := req.offers_plain offers hoffers
      refine ⟨[(utf8Encode "sec-websocket-protocol".toList,
        utf8Encode (", ".toList.intercalate offers))], ?_, ?_⟩
      · intro h hmem
        rw [List.mem_singleton.mp hmem]
        exact (by decide : (utf8Encode "sec-websocket-protocol".toList).head? ≠ some 0x3A)
      · simp only [UpgradeRequest.controlEntries, hoffers, List.foldl_cons, List.foldl_nil,
          Python.Ws.addMetadata_path, Python.Ws.addMetadata_authority,
          Python.Ws.addMetadata_protocol, htarget, split_commaList hne hplain]
        rfl

/-- The server does its part: a request under the keys that it reads survives. -/
theorem survives_controlEntries (u : Unicode) (decode : Str → Str) (req : UpgradeRequest) :
    Survives u decode req (buildScope u req.controlEntries) := by
  obtain ⟨rest, hrest, hfold⟩ := foldl_controlEntries u req
  rw [buildScope, hfold]
  constructor
  · exact .inl rfl
  · rfl
  · exact List.mem_cons_self
  · rfl
  · rfl
  · intro h hmem
    obtain rfl | hmem := List.mem_cons.mp hmem
    · exact (by decide : (utf8Encode "host".toList).head? ≠ some 0x3A)
    · exact hrest h hmem

/-! ## A pseudo-header in the metadata is a header of the scope -/

/-- A scope with a pseudo-header among its headers tells the app something else. -/
theorem not_survives_of_pseudo {u : Unicode} {metadata : List (Str × Str)} {name : Str}
    {value : Str} (hmem : (':' :: name, value) ∈ metadata) (hascii : IsAscii (':' :: name))
    (hsent : asciiLower (':' :: name) ∉ grpcInternals) (decode : Str → Str) (req : UpgradeRequest) :
    ¬Survives u decode req (buildScope u metadata) := by
  intro h
  have hlower : u.lower (':' :: name) = ':' :: asciiLower name := u.lower_ascii _ hascii
  have hplain : metaKeys.isPrefixOf (u.lower (':' :: name)) = false := by
    rw [hlower]
    rfl
  have hheader := Python.Ws.mem_headers u hmem hplain (by rw [hlower]; exact hsent)
  apply h.no_pseudo _ hheader
  rw [hlower]
  rfl

theorem not_survives_nil (u : Unicode) (decode : Str → Str) (req : UpgradeRequest) :
    ¬Survives u decode req (buildScope u []) := by
  intro h
  have hhost : _ ∈ ([] : List (Bytes × Bytes)) := h.host
  exact absurd hhost List.not_mem_nil

/-- What the Rust filter sends is empty or begins with `:method`. -/
theorem parseHttpRequestHeaders_cases (u : Unicode) (block : Bytes) :
    parseHttpRequestHeaders u block = [] ∨
      ∃ method, (":method".toList, method) ∈ parseHttpRequestHeaders u block := by
  simp only [parseHttpRequestHeaders]
  split
  · exact .inl rfl
  · split
    · exact .inl rfl
    · exact .inr ⟨_, List.mem_cons_self⟩

/-- No request reaches the app, whatever its bytes are and whatever header map
Envoy makes of it: the pseudo-headers of the metadata become headers of the
scope, and with the Rust filter a block that is not UTF-8 leaves no header. -/
theorem upgrade_lost (u : Unicode) (decode : Str → Str) (req : UpgradeRequest) (block : Bytes)
    (headers : HeaderMap) (hpath : (":path".toList, req.target) ∈ headers) :
    ¬Survives u decode req (buildScope u (parseHttpRequestHeaders u block)) ∧
      ¬Survives u decode req (buildScope u (initialMetadata headers)) := by
  constructor
  · obtain hnil | ⟨method, hmethod⟩ := parseHttpRequestHeaders_cases u block
    · rw [hnil]
      exact not_survives_nil u decode req
    · exact not_survives_of_pseudo hmethod (by decide) (by decide) decode req
  · have hcopied : (":path".toList, req.target) ∈ initialMetadata headers :=
      List.mem_map.mpr ⟨_, hpath, rfl⟩
    exact not_survives_of_pseudo hcopied (by decide) (by decide) decode req

/-- `GET /chat?room=42` at `example.com:443`, with two subprotocols. -/
def chatRequest : UpgradeRequest where
  path := "/chat".toList
  query := some "room=42".toList
  host := "example.com:443".toList
  subprotocols := some ["chat".toList, "superchat".toList]
  fields := [("Upgrade".toList, "websocket".toList)]
  path_plain := by decide
  offers_plain := by
    rintro offers ⟨⟩
    decide

theorem parse_chatRequest :
    parseHttpRequestHeaders .ascii chatRequest.encode =
      [(":method".toList, "GET".toList), (":path".toList, "/chat?room=42".toList),
        ("host".toList, "example.com:443".toList),
        ("sec-websocket-protocol".toList, "chat, superchat".toList),
        ("upgrade".toList, "websocket".toList)] := by
  rw [parseHttpRequestHeaders, UpgradeRequest.encode, utf8Decode_utf8Encode]
  decide

/-- Through either filter the app is asked for `/`, and not for `/chat`. -/
theorem chat_path_lost :
    (buildScope .ascii (parseHttpRequestHeaders .ascii chatRequest.encode)).path = "/".toList ∧
      ¬Survives .ascii id chatRequest
        (buildScope .ascii (parseHttpRequestHeaders .ascii chatRequest.encode)) ∧
      (buildScope .ascii (initialMetadata chatRequest.headerMap)).path = "/".toList ∧
      ¬Survives .ascii id chatRequest
        (buildScope .ascii (initialMetadata chatRequest.headerMap)) := by
  rw [parse_chatRequest]
  decide

theorem upgrade_lost_chat :
    (":path".toList, chatRequest.target) ∈ chatRequest.headerMap ∧
      ¬Survives .ascii id chatRequest
        (buildScope .ascii (parseHttpRequestHeaders .ascii chatRequest.encode)) ∧
      ¬Survives .ascii id chatRequest
        (buildScope .ascii (initialMetadata chatRequest.headerMap)) :=
  ⟨by decide, upgrade_lost .ascii id chatRequest chatRequest.encode chatRequest.headerMap
    (by decide)⟩

end Grpcgi
