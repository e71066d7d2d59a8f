import Grpcgi.Data.Proto

/-!
# ASGI scopes

`_parse_authority` and the two `_build_scope` functions of the Python bridge.
The loop over the headers is a fold; its body is a function of its own. The
empty `extensions` dictionary of both scopes is left out.
-/

namespace Grpcgi.Python

/-- `_parse_authority`, which `http.py` and `ws.py` share word for word. -/
def parseAuthority (u : Unicode) (authority : Str) : Str × Int :=
  if authority = [] then ("localhost".toList, 80)
  else
    match splitLast ':' authority with
    | none => (authority, 80)
    | some (host, portStr) =>
      match pyInt u portStr with
      | some port => (host, port)
      | none => (authority, 80)

/-- The `asgi` entry of a scope. -/
structure Asgi where
  version : Str := "3.0".toList
  specVersion : Str := "2.3".toList
  deriving DecidableEq, Repr

/-- The variables that the loop over the headers assigns. -/
structure Fields where
  method : Str := "GET".toList
  path : Str := "/".toList
  queryString : Bytes := []
  scheme : Str
  authority : Str := []
  rawHeaders : List (Bytes × Bytes) := []
  subprotocols : List Str := []
  deriving DecidableEq, Repr

namespace Fields

/-- `path, _, qs = value.partition("?")`, where there is one. -/
def setTarget (f : Fields) (value : Str) : Fields :=
  match splitFirst '?' value with
  | some (path, qs) => { f with path, queryString := utf8Encode qs }
  | none => { f with path := value }

/-- `raw_headers.append`. -/
def append (f : Fields) (key value : Str) : Fields :=
  { f with rawHeaders := f.rawHeaders ++ [(utf8Encode key, utf8Encode value)] }

end Fields

/-! ## The HTTP bridge -/

namespace Http

structure Scope where
  type : Str := "http".toList
  asgi : Asgi := {}
  httpVersion : Str := "2".toList
  method : Str
  path : Str
  queryString : Bytes
  rootPath : Str := []
  scheme : Str
  server : Str × Int
  headers : List (Bytes × Bytes)
  deriving DecidableEq, Repr

/-- One turn of the loop in `http._build_scope`. -/
def addHeader (f : Fields) (h : Proto.Header) : Fields :=
  if h.key = ":method".toList then { f with method := h.value }
  else if h.key = ":path".toList then f.setTarget h.value
  else if h.key = ":scheme".toList then { f with scheme := h.value }
  else if h.key = ":authority".toList then
    { f with authority := h.value }.append "host".toList h.value
  else f.append h.key h.value

/-- `http._build_scope`. -/
def buildScope (u : Unicode) (headersMsg : Proto.RequestHeaders) : Scope :=
  let f := headersMsg.headers.foldl addHeader { scheme := "http".toList }
  {
    method := u.upper f.method
    path := f.path
    queryString := f.queryString
    scheme := f.scheme
    server := parseAuthority u f.authority
    headers := f.rawHeaders
  }

/-- The entries of a header in the header list of the scope. -/
def scopeEntries (h : Proto.Header) : List (Bytes × Bytes) :=
  if h.key = ":method".toList ∨ h.key = ":path".toList ∨ h.key = ":scheme".toList then []
  else if h.key = ":authority".toList then [(utf8Encode "host".toList, utf8Encode h.value)]
  else [(utf8Encode h.key, utf8Encode h.value)]

theorem addHeader_rawHeaders (f : Fields) (h : Proto.Header) :
    (addHeader f h).rawHeaders = f.rawHeaders ++ scopeEntries h := by
  have htarget : (f.setTarget h.value).rawHeaders = f.rawHeaders := by
    simp only [Fields.setTarget]
    split <;> rfl
  simp only [addHeader, scopeEntries]
  by_cases hmethod : h.key = ":method".toList
  · rw [if_pos hmethod, if_pos (.inl hmethod), List.append_nil]
  · rw [if_neg hmethod]
    by_cases hpath : h.key = ":path".toList
    · rw [if_pos hpath, if_pos (.inr (.inl hpath)), List.append_nil, htarget]
    · rw [if_neg hpath]
      by_cases hscheme : h.key = ":scheme".toList
      · rw [if_pos hscheme, if_pos (.inr (.inr hscheme)), List.append_nil]
      · have hother : ¬ (h.key = ":method".toList ∨ h.key = ":path".toList ∨
            h.key = ":scheme".toList) := by
          rintro (hkey | hkey | hkey)
          · exact hmethod hkey
          · exact hpath hkey
          · exact hscheme hkey
        rw [if_neg hscheme, if_neg hother]
        split <;> rfl

/-- The header list of the scope, header by header. -/
theorem buildScope_headers (u : Unicode) (headersMsg : Proto.RequestHeaders) :
    (buildScope u headersMsg).headers = headersMsg.headers.flatMap scopeEntries := by
  have hfold (f : Fields) : (headersMsg.headers.foldl addHeader f).rawHeaders =
      f.rawHeaders ++ headersMsg.headers.flatMap scopeEntries := by
    induction headersMsg.headers generalizing f with
    | nil => exact (List.append_nil _).symm
    | cons h hs ih =>
        rw [List.foldl_cons, ih, addHeader_rawHeaders, List.append_assoc, List.flatMap_cons]
  exact hfold _

end Http

/-! ## The WebSocket bridge -/

namespace Ws

def metaPath : Str := "grpcgi-path".toList
def metaScheme : Str := "grpcgi-scheme".toList
def metaAuthority : Str := "grpcgi-authority".toList
def metaProtocol : Str := "grpcgi-protocol".toList

/-- What every control key starts with. -/
def metaKeys : Str := "grpcgi-".toList

/-- The keys that are skipped as gRPC's own. -/
def grpcInternals : List Str := ["user-agent".toList, ":authority".toList]

structure Scope where
  type : Str := "websocket".toList
  asgi : Asgi := {}
  httpVersion : Str := "1.1".toList
  scheme : Str
  path : Str
  queryString : Bytes
  rootPath : Str := []
  server : Str × Int
  headers : List (Bytes × Bytes)
  subprotocols : List Str
  deriving DecidableEq, Repr

/-- One turn of the loop in `ws._build_scope`. -/
def addMetadata (u : Unicode) (f : Fields) : Str × Str → Fields
  | (key, value) =>
    let keyLower := u.lower key
    if keyLower = metaPath then f.setTarget value
    else if keyLower = metaScheme then
      { f with
        scheme :=
          if value = "https".toList ∨ value = "wss".toList then "wss".toList else "ws".toList }
    else if keyLower = metaAuthority then
      { f with authority := value }.append "host".toList value
    else if keyLower = metaProtocol then
      { f with subprotocols := (value.splitOn ',').map (trimBoth isPySpace) }.append
        "sec-websocket-protocol".toList value
    else if metaKeys.isPrefixOf keyLower then f
    else if keyLower ∈ grpcInternals then f
    else f.append keyLower value

/-- The variables before the loop. -/
def initial : Fields := { scheme := "ws".toList }

/-- The dictionary that `ws._build_scope` returns. -/
def Scope.ofFields (u : Unicode) (f : Fields) : Scope where
  scheme := f.scheme
  path := f.path
  queryString := f.queryString
  server := parseAuthority u f.authority
  headers := f.rawHeaders
  subprotocols := f.subprotocols

/-- `ws._build_scope`. -/
def buildScope (u : Unicode) (metadata : List (Str × Str)) : Scope :=
  .ofFields u (metadata.foldl (addMetadata u) initial)

section ControlKeys

variable (u : Unicode) (f : Fields) (value : Str)

theorem addMetadata_path : addMetadata u f (metaPath, value) = f.setTarget value := by
  have hlower : u.lower metaPath = metaPath := (u.lower_ascii _ (by decide)).trans (by decide)
  simp only [addMetadata, hlower, if_true]

theorem addMetadata_authority :
    addMetadata u f (metaAuthority, value) =
      { f with authority := value }.append "host".toList value := by
  have hlower : u.lower metaAuthority = metaAuthority :=
    (u.lower_ascii _ (by decide)).trans (by decide)
  simp only [addMetadata, hlower]
  rw [if_neg (by decide), if_neg (by decide), if_pos trivial]

theorem addMetadata_protocol :
    addMetadata u f (metaProtocol, value) =
      { f with subprotocols := (value.splitOn ',').map (trimBoth isPySpace) }.append
        "sec-websocket-protocol".toList value := by
  have hlower : u.lower metaProtocol = metaProtocol :=
    (u.lower_ascii _ (by decide)).trans (by decide)
  simp only [addMetadata, hlower]
  rw [if_neg (by decide), if_neg (by decide), if_neg (by decide), if_pos trivial]

end ControlKeys

/-- The four keys that `ws._build_scope` reads are control keys. -/
theorem control_of_eq {keyLower : Str}
    (h : keyLower = metaPath ∨ keyLower = metaScheme ∨ keyLower = metaAuthority ∨
      keyLower = metaProtocol) : metaKeys.isPrefixOf keyLower = true := by
  obtain rfl | rfl | rfl | rfl := h <;> decide

/-- A key that is no control key sets nothing: its entry is skipped or becomes
a header. -/
theorem addMetadata_plain (u : Unicode) (f : Fields) (key value : Str)
    (h : metaKeys.isPrefixOf (u.lower key) = false) :
    addMetadata u f (key, value) =
      if u.lower key ∈ grpcInternals then f
      else f.append (u.lower key) value := by
  have hne {name : Str} (hname : metaKeys.isPrefixOf name = true) : u.lower key ≠ name := by
    intro heq
    rw [heq, hname] at h
    exact absurd h (by decide)
  simp only [addMetadata, h, Bool.false_eq_true, if_false,
    if_neg (hne (control_of_eq (.inl rfl))), if_neg (hne (control_of_eq (.inr (.inl rfl)))),
    if_neg (hne (control_of_eq (.inr (.inr (.inl rfl))))),
    if_neg (hne (control_of_eq (.inr (.inr (.inr rfl)))))]

/-- No entry removes a header. -/
theorem addMetadata_headers (u : Unicode) (f : Fields) (entry : Str × Str) :
    f.rawHeaders <+: (addMetadata u f entry).rawHeaders := by
  obtain ⟨key, value⟩ := entry
  have happend (g : Fields) (name value : Str) :
      g.rawHeaders <+: (g.append name value).rawHeaders :=
    List.prefix_append _ _
  have htarget : (f.setTarget value).rawHeaders = f.rawHeaders := by
    simp only [Fields.setTarget]
    split <;> rfl
  simp only [addMetadata]
  split
  · simp only [htarget, List.prefix_rfl]
  split
  · exact List.prefix_rfl
  split
  · exact happend { f with authority := value } _ _
  split
  · exact happend { f with subprotocols := (value.splitOn ',').map (trimBoth isPySpace) } _ _
  split
  · exact List.prefix_rfl
  split
  · exact List.prefix_rfl
  · exact happend f _ _

theorem foldl_headers (u : Unicode) (metadata : List (Str × Str)) (f : Fields) :
    f.rawHeaders <+: (metadata.foldl (addMetadata u) f).rawHeaders := by
  induction metadata generalizing f with
  | nil => exact List.prefix_rfl
  | cons entry metadata ih => exact (addMetadata_headers u f entry).trans (ih _)

/-- Every entry with an ordinary key is a header of the scope. -/
theorem mem_headers (u : Unicode) {metadata : List (Str × Str)} {key value : Str}
    (hmem : (key, value) ∈ metadata) (hplain : metaKeys.isPrefixOf (u.lower key) = false)
    (hsent : u.lower key ∉ grpcInternals) :
    (utf8Encode (u.lower key), utf8Encode value) ∈ (buildScope u metadata).headers := by
  obtain ⟨before, after, rfl⟩ := List.append_of_mem hmem
  have hadd (f : Fields) : addMetadata u f (key, value) = f.append (u.lower key) value := by
    rw [addMetadata_plain u f key value hplain]
    exact if_neg hsent
  change _ ∈ ((before ++ (key, value) :: after).foldl (addMetadata u) initial).rawHeaders
  rw [List.foldl_append, List.foldl_cons, hadd]
  refine (foldl_headers u after _).subset ?_
  exact List.mem_append_right _ (List.mem_singleton_self _)

/-- Without a control key among the metadata, the scope is that of an empty
request: only the header list depends on the metadata. -/
theorem buildScope_plain (u : Unicode) (metadata : List (Str × Str))
    (hplain : ∀ entry ∈ metadata, metaKeys.isPrefixOf (u.lower entry.1) = false) :
    buildScope u metadata =
      { buildScope u [] with headers := (buildScope u metadata).headers } := by
  have hkeep (f : Fields) : metadata.foldl (addMetadata u) f =
      { f with rawHeaders := (metadata.foldl (addMetadata u) f).rawHeaders } := by
    induction metadata generalizing f with
    | nil => rfl
    | cons entry metadata ih =>
        obtain ⟨key, value⟩ := entry
        rw [List.foldl_cons, addMetadata_plain u f key value (hplain _ List.mem_cons_self)]
        have ih := ih fun entry hentry => hplain entry (List.mem_cons_of_mem _ hentry)
        split_ifs
        · exact ih f
        · exact ih (f.append (u.lower key) value)
  calc
    buildScope u metadata = .ofFields u (metadata.foldl (addMetadata u) initial) := rfl
    _ = .ofFields u { initial with
          rawHeaders := (metadata.foldl (addMetadata u) initial).rawHeaders } := by rw [← hkeep]
    _ = _ := rfl

end Ws

end Grpcgi.Python
