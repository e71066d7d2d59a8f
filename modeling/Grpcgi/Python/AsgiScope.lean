import Grpcgi.Data.Percent
import Grpcgi.Python.Scope

/-!
# What ASGI asks of a scope

The header list of an `http` scope, and the target of the request in the scopes of both
bridges, beside what the two `_build_scope` functions put there.
-/

namespace Grpcgi.Python

/-! ## The header list -/

namespace Http

def IsPseudo (key : Str) : Prop := key.head? = some ':'

instance (key : Str) : Decidable (IsPseudo key) := inferInstanceAs (Decidable (_ = _))

def knownPseudos : List Str :=
  [":method".toList, ":path".toList, ":scheme".toList, ":authority".toList]

def asgiEntries (h : Proto.Header) : List (Bytes × Bytes) :=
  if h.key = ":authority".toList then [(utf8Encode "host".toList, utf8Encode h.value)]
  else if IsPseudo h.key then []
  else [(utf8Encode h.key, utf8Encode h.value)]

/-- The header list: `:authority` renamed in place, the other pseudo-headers removed. -/
def asgiHeaders (headers : List Proto.Header) : List (Bytes × Bytes) := headers.flatMap asgiEntries

/-- A header is as it should be, unless it is a pseudo-header that the code does not know:
it stays in the list. -/
theorem scopeEntries_cases (h : Proto.Header) :
    (scopeEntries h = asgiEntries h ∧ (IsPseudo h.key → h.key ∈ knownPseudos)) ∨
      (scopeEntries h = [(utf8Encode h.key, utf8Encode h.value)] ∧ asgiEntries h = [] ∧
        IsPseudo h.key ∧ h.key ∉ knownPseudos) := by
  by_cases hknown : h.key ∈ knownPseudos
  · refine .inl ⟨?_, fun _ => hknown⟩
    simp only [knownPseudos, List.mem_cons, List.not_mem_nil, or_false] at hknown
    simp only [scopeEntries, asgiEntries]
    obtain hkey | hkey | hkey | hkey := hknown <;> rw [hkey] <;> rfl
  · have hnames := hknown
    simp only [knownPseudos, List.mem_cons, List.not_mem_nil, or_false, not_or] at hnames
    obtain ⟨hmethod, hpath, hscheme, hauthority⟩ := hnames
    have hentry : scopeEntries h = [(utf8Encode h.key, utf8Encode h.value)] := by
      rw [scopeEntries, if_neg, if_neg hauthority]
      rintro (hkey | hkey | hkey)
      · exact hmethod hkey
      · exact hpath hkey
      · exact hscheme hkey
    by_cases hpseudo : IsPseudo h.key
    · refine .inr ⟨hentry, ?_, hpseudo, hknown⟩
      rw [asgiEntries, if_neg hauthority, if_pos hpseudo]
    · refine .inl ⟨?_, fun h => absurd h hpseudo⟩
      rw [hentry, asgiEntries, if_neg hauthority, if_neg hpseudo]

/-- No entry is missing, and only the unknown pseudo-headers are too many. -/
theorem length_asgiHeaders_le (headers : List Proto.Header) :
    (asgiHeaders headers).length ≤ (headers.flatMap scopeEntries).length := by
  induction headers with
  | nil => exact Nat.le_refl 0
  | cons h headers ih =>
      simp only [asgiHeaders] at ih
      simp only [asgiHeaders, List.flatMap_cons, List.length_append]
      obtain ⟨hsame, -⟩ | ⟨-, hnone, -⟩ := scopeEntries_cases h
      · rw [hsame]
        omega
      · rw [hnone, List.length_nil]
        omega

/-- The header list of the scope is that of the specification exactly when the request has
no pseudo-header but the four that the code knows. -/
theorem headers_asgi_iff (u : Unicode) (headersMsg : Proto.RequestHeaders) :
    (buildScope u headersMsg).headers = asgiHeaders headersMsg.headers ↔
      ∀ h ∈ headersMsg.headers, IsPseudo h.key → h.key ∈ knownPseudos := by
  rw [buildScope_headers]
  induction headersMsg.headers with
  | nil => exact ⟨fun _ h hh => absurd hh List.not_mem_nil, fun _ => rfl⟩
  | cons h headers ih =>
      simp only [asgiHeaders, List.flatMap_cons, List.forall_mem_cons]
      obtain ⟨hsame, hknown⟩ | ⟨hentry, hnone, hpseudo, hunknown⟩ := scopeEntries_cases h
      · rw [hsame, List.append_cancel_left_eq]
        exact ih.trans ⟨fun hrest => ⟨hknown, hrest⟩, And.right⟩
      · refine ⟨fun heq => ?_, fun hall => absurd (hall.1 hpseudo) hunknown⟩
        -- one entry too many, and nothing later makes up for it
        have hlength := congrArg List.length heq
        have hle := length_asgiHeaders_le headers
        simp only [asgiHeaders] at hle
        rw [hentry, hnone, List.length_append, List.length_append, List.length_cons,
          List.length_nil] at hlength
        omega

/-- `:protocol` of an extended CONNECT becomes a header of the scope. -/
theorem headers_asgi_protocol :
    let headersMsg : Proto.RequestHeaders :=
      { headers := [⟨":protocol".toList, .value "websocket".toList⟩] }
    (buildScope .ascii headersMsg).headers =
        [(utf8Encode ":protocol".toList, utf8Encode "websocket".toList)] ∧
      asgiHeaders headersMsg.headers = [] := by
  decide

end Http

/-! ## The request target -/

def inPath (c : Char) : Bool := c != '?'

/-- The part of a request target before the first question mark. -/
def targetPath (target : Str) : Str := target.takeWhile inPath

/-- The part after it. -/
def targetQuery (target : Str) : Str := (target.dropWhile inPath).drop 1

/-- The `path` and the `query_string` of a scope are those of the target: `decoded` is what
the path is in characters, and the query is taken as it is. -/
structure TargetRead (target decoded path : Str) (queryString : Bytes) : Prop where
  path : path = decoded
  query : queryString = utf8Encode (targetQuery target)

theorem splitFirst_target (target : Str) :
    (splitFirst '?' target).getD (target, []) = (targetPath target, targetQuery target) := by
  induction target with
  | nil => rfl
  | cons c s ih =>
      rw [splitFirst, targetPath, targetQuery]
      by_cases hc : c = '?'
      · have hstop : ¬ inPath c = true := by simpa [inPath] using hc
        rw [if_pos hc, List.takeWhile_cons_of_neg hstop, List.dropWhile_cons_of_neg hstop]
        rfl
      · have hmore : inPath c = true := by simpa [inPath] using hc
        rw [if_neg hc, List.takeWhile_cons_of_pos hmore, List.dropWhile_cons_of_pos hmore]
        cases hsplit : splitFirst '?' s with
        | none =>
            rw [hsplit] at ih
            obtain ⟨hpath, hquery⟩ := Prod.mk.inj ih
            exact congrArg₂ Prod.mk (congrArg (c :: ·) hpath) hquery
        | some parts =>
            rw [hsplit] at ih
            obtain ⟨hpath, hquery⟩ := Prod.mk.inj ih
            exact congrArg₂ Prod.mk (congrArg (c :: ·) hpath) hquery

/-- `value.partition("?")` leaves the two parts of the target. -/
theorem setTarget_eq (f : Fields) (target : Str) (h : f.queryString = []) :
    f.setTarget target =
      { f with path := targetPath target, queryString := utf8Encode (targetQuery target) } := by
  have hparts := splitFirst_target target
  simp only [Fields.setTarget]
  cases hsplit : splitFirst '?' target with
  | none =>
      rw [hsplit] at hparts
      simp only [Option.getD_none, Prod.mk.injEq] at hparts
      simp only [← hparts.1, ← hparts.2]
      rw [utf8Encode, List.flatMap_nil, ← h]
  | some parts =>
      obtain ⟨path, qs⟩ := parts
      rw [hsplit] at hparts
      simp only [Option.getD_some, Prod.mk.injEq] at hparts
      simp only [hparts.1, hparts.2]

/-! ### The loops over the entries -/

section Entries

variable {α : Type*} (key value : α → Str) (is : Str → Bool)

def valuesOf (entries : List α) : List Str :=
  entries.filterMap fun e => if is (key e) then some (value e) else none

variable {key value is} {step : Fields → α → Fields}

theorem foldl_other (hkeep : ∀ f e, is (key e) = false →
      (step f e).path = f.path ∧ (step f e).queryString = f.queryString)
    {entries : List α} (h : valuesOf key value is entries = []) (f : Fields) :
    (entries.foldl step f).path = f.path ∧
      (entries.foldl step f).queryString = f.queryString := by
  induction entries generalizing f with
  | nil => exact ⟨rfl, rfl⟩
  | cons e entries ih =>
      simp only [valuesOf, List.filterMap_cons] at h
      cases his : is (key e) with
      | true => simp [his] at h
      | false =>
          rw [his, if_neg Bool.false_ne_true] at h
          obtain ⟨hpath, hquery⟩ := hkeep f e his
          rw [List.foldl_cons, (ih h (step f e)).1, (ih h (step f e)).2]
          exact ⟨hpath, hquery⟩

/-- A loop that sets the target at the one entry with the key. -/
theorem foldl_target (hkeep : ∀ f e, is (key e) = false →
      (step f e).path = f.path ∧ (step f e).queryString = f.queryString)
    (hset : ∀ f e, is (key e) = true → step f e = f.setTarget (value e))
    {entries : List α} {target : Str} (h : valuesOf key value is entries = [target]) (f : Fields)
    (hquery : f.queryString = []) :
    (entries.foldl step f).path = targetPath target ∧
      (entries.foldl step f).queryString = utf8Encode (targetQuery target) := by
  induction entries generalizing f with
  | nil => cases h
  | cons e entries ih =>
      simp only [valuesOf, List.filterMap_cons] at h
      rw [List.foldl_cons]
      cases his : is (key e) with
      | true =>
          rw [his, if_pos rfl] at h
          obtain ⟨htarget, hrest⟩ := List.cons.inj h
          obtain ⟨hpath, hquery'⟩ := foldl_other hkeep hrest (step f e)
          rw [hpath, hquery', hset f e his, htarget, setTarget_eq f target hquery]
          exact ⟨rfl, rfl⟩
      | false =>
          rw [his, if_neg Bool.false_ne_true] at h
          exact ih h (step f e) ((hkeep f e his).2.trans hquery)

end Entries

/-- The keys under which `http.py` finds the target. -/
def Http.isPath (key : Str) : Bool := key == ":path".toList

/-- The keys under which `ws.py` finds it. -/
def Ws.isPath (u : Unicode) (key : Str) : Bool := u.lower key == metaPath

theorem Http.scope_target (u : Unicode) {headersMsg : Proto.RequestHeaders} {target : Str}
    (h : valuesOf Proto.Header.key Proto.Header.value isPath headersMsg.headers = [target]) :
    (buildScope u headersMsg).path = targetPath target ∧
      (buildScope u headersMsg).queryString = utf8Encode (targetQuery target) := by
  refine foldl_target ?_ ?_ h { scheme := "http".toList } rfl
  · intro f e hother
    have hpath : e.key ≠ ":path".toList := by simpa [isPath] using hother
    simp only [addHeader, if_neg hpath]
    split_ifs <;> exact ⟨rfl, rfl⟩
  · intro f e hpath
    have hkey : e.key = ":path".toList := by simpa [isPath] using hpath
    have hmethod : e.key ≠ ":method".toList := by
      rw [hkey]
      decide
    rw [addHeader, if_neg hmethod, if_pos hkey]

theorem Ws.scope_target (u : Unicode) {metadata : List (Str × Str)} {target : Str}
    (h : valuesOf Prod.fst Prod.snd (isPath u) metadata = [target]) :
    (buildScope u metadata).path = targetPath target ∧
      (buildScope u metadata).queryString = utf8Encode (targetQuery target) := by
  refine foldl_target ?_ ?_ h initial rfl
  · rintro f ⟨key, value⟩ hother
    have hpath : u.lower key ≠ metaPath := by simpa [isPath] using hother
    simp only [addMetadata, if_neg hpath]
    split_ifs <;> exact ⟨rfl, rfl⟩
  · rintro f ⟨key, value⟩ hpath
    have hkey : u.lower key = metaPath := by simpa [isPath] using hpath
    rw [addMetadata, if_pos hkey]

/-- The path in the scope is the decoded one exactly when there is nothing to decode. -/
theorem targetRead_iff {target decoded path : Str} {queryString : Bytes}
    (hdecoded : percentDecodeText (targetPath target) = some decoded)
    (hscope : path = targetPath target ∧ queryString = utf8Encode (targetQuery target)) :
    TargetRead target decoded path queryString ↔ hasEscape (targetPath target) = false := by
  obtain ⟨rfl, rfl⟩ := hscope
  rw [← percentDecodeText_self_iff, hdecoded]
  constructor
  · intro h
    rw [← h.path]
  · intro h
    exact ⟨(Option.some.inj h).symm, rfl⟩

/-- Both bridges read a target as ASGI asks for exactly when its path has no escape. -/
theorem target_asgi_iff (u : Unicode) {target decoded : Str}
    (hdecoded : percentDecodeText (targetPath target) = some decoded)
    {headersMsg : Proto.RequestHeaders} {metadata : List (Str × Str)}
    (hheaders : valuesOf Proto.Header.key Proto.Header.value Http.isPath headersMsg.headers =
      [target])
    (hmetadata : valuesOf Prod.fst Prod.snd (Ws.isPath u) metadata = [target]) :
    (TargetRead target decoded (Http.buildScope u headersMsg).path
        (Http.buildScope u headersMsg).queryString ↔ hasEscape (targetPath target) = false) ∧
      (TargetRead target decoded (Ws.buildScope u metadata).path
        (Ws.buildScope u metadata).queryString ↔ hasEscape (targetPath target) = false) :=
  ⟨targetRead_iff hdecoded (Http.scope_target u hheaders),
    targetRead_iff hdecoded (Ws.scope_target u hmetadata)⟩

/-- A plain target with two question marks. -/
theorem target_asgi_iff_plain :
    let headersMsg : Proto.RequestHeaders :=
      { headers := [⟨":path".toList, .value "/a?b?c".toList⟩] }
    let metadata := [("grpcgi-path".toList, "/a?b?c".toList)]
    TargetRead "/a?b?c".toList "/a".toList (Http.buildScope .ascii headersMsg).path
        (Http.buildScope .ascii headersMsg).queryString ∧
      TargetRead "/a?b?c".toList "/a".toList (Ws.buildScope .ascii metadata).path
        (Ws.buildScope .ascii metadata).queryString := by
  intro headersMsg metadata
  obtain ⟨hhttp, hws⟩ := @target_asgi_iff .ascii "/a?b?c".toList "/a".toList (by decide) headersMsg
    metadata (by decide) (by decide)
  exact ⟨hhttp.mpr (by decide), hws.mpr (by decide)⟩

/-- Two spellings of the path `/a b` that differ in one escape give two paths, and neither
is `/a b`. -/
theorem path_not_decoded :
    let request (target : Str) : Proto.RequestHeaders :=
      { headers := [⟨":path".toList, .value target⟩] }
    let metadata (target : Str) := [("grpcgi-path".toList, target)]
    percentDecodeText "/a%20b".toList = some "/a b".toList ∧
      percentDecodeText "/%61%20b".toList = some "/a b".toList ∧
      (Http.buildScope .ascii (request "/a%20b".toList)).path = "/a%20b".toList ∧
      (Http.buildScope .ascii (request "/%61%20b".toList)).path = "/%61%20b".toList ∧
      (Ws.buildScope .ascii (metadata "/a%20b".toList)).path = "/a%20b".toList ∧
      (Ws.buildScope .ascii (metadata "/%61%20b".toList)).path = "/%61%20b".toList := by
  decide

end Grpcgi.Python
