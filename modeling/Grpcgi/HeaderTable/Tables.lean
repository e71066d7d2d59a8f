import Grpcgi.HeaderTable.Layout
import Mathlib.Data.List.Dedup
import Mathlib.Data.List.Sort

/-!
# The tables of the script

The two tables of `docs/spec/tools/header_table.py`, and the blocks that `render_block` makes
of them.
-/

namespace Grpcgi.HeaderTable

/-! ## The tables -/

/-- `REQUEST_HOT`. -/
def requestHot : List Str :=
  [
    "cookie", "user-agent", "accept", "accept-encoding", "content-type", "authorization",
    "x-request-id", "traceparent", "x-forwarded-for"
  ].map String.toList

/-- `RESPONSE_HOT`. -/
def responseHot : List Str :=
  [
    "content-type", "set-cookie", "cache-control", "etag", "date", "vary", "content-encoding",
    "location", "server", "last-modified", "x-request-id", "access-control-allow-origin"
  ].map String.toList

/-- The set behind `REQUEST_REST`. -/
def requestSet : List Str :=
  [
    "accept-charset", "accept-language", "access-control-request-headers",
    "access-control-request-method", "alt-used", "baggage", "cache-control",
    "connect-accept-encoding", "connect-content-encoding", "connect-protocol-version",
    "connect-timeout-ms", "content-disposition", "content-encoding", "content-language", "date",
    "dnt", "early-data", "expect", "forwarded", "from", "idempotency-key", "if-match",
    "if-modified-since", "if-none-match", "if-range", "if-unmodified-since", "max-forwards",
    "origin", "pragma", "prefer", "priority", "proxy-authorization", "purpose", "range",
    "referer", "save-data", "sec-ch-ua", "sec-ch-ua-mobile", "sec-ch-ua-platform",
    "sec-fetch-dest", "sec-fetch-mode", "sec-fetch-site", "sec-fetch-user", "sec-gpc",
    "sec-websocket-extensions", "sec-websocket-key", "sec-websocket-protocol",
    "sec-websocket-version", "signature", "signature-input", "te", "trailer", "tracestate",
    "upgrade-insecure-requests", "via", "x-api-key", "x-b3-flags", "x-b3-parentspanid",
    "x-b3-sampled", "x-b3-spanid", "x-b3-traceid", "x-csrf-token", "x-envoy-attempt-count",
    "x-envoy-decorator-operation", "x-envoy-downstream-service-cluster",
    "x-envoy-downstream-service-node", "x-envoy-expected-rq-timeout-ms",
    "x-envoy-external-address", "x-envoy-force-trace", "x-envoy-internal",
    "x-envoy-original-path", "x-forwarded-client-cert", "x-forwarded-host", "x-forwarded-port",
    "x-forwarded-proto", "x-grpc-web", "x-http-method-override", "x-real-ip",
    "x-requested-with", "x-user-agent"
  ].map String.toList

/-- The set behind `RESPONSE_REST`. -/
def responseSet : List Str :=
  [
    "accept-ch", "accept-ranges", "access-control-allow-credentials",
    "access-control-allow-headers", "access-control-allow-methods",
    "access-control-expose-headers", "access-control-max-age", "age", "allow", "alt-svc",
    "cache-status", "clear-site-data", "connect-content-encoding", "content-disposition",
    "content-language", "content-location", "content-range", "content-security-policy",
    "content-security-policy-report-only", "cross-origin-embedder-policy",
    "cross-origin-opener-policy", "cross-origin-resource-policy", "expect-ct", "expires",
    "link", "nel", "permissions-policy", "pragma", "preference-applied", "priority",
    "proxy-authenticate", "referrer-policy", "refresh", "report-to", "reporting-endpoints",
    "repr-digest", "retry-after", "sec-websocket-accept", "sec-websocket-extensions",
    "sec-websocket-protocol", "server-timing", "signature", "signature-input",
    "strict-transport-security", "timing-allow-origin", "trailer", "via", "www-authenticate",
    "x-content-type-options", "x-frame-options", "x-powered-by", "x-robots-tag",
    "x-xss-protection"
  ].map String.toList

/-- The comparison of strings that `sorted` uses. -/
def strLe : Str → Str → Bool
  | [], _ => true
  | _ :: _, [] => false
  | c :: s, d :: t => c.val < d.val || c == d && strLe s t

/-- `sorted` of a set. -/
def sortedSet (names : List Str) : List Str := names.dedup.insertionSort fun s t => strLe s t

/-- `REQUEST_REST`. -/
def requestRest : List Str := sortedSet requestSet

/-- `RESPONSE_REST`. -/
def responseRest : List Str := sortedSet responseSet

/-- The typed slot of a direction, the only entry of `TYPED`. -/
def contentLengthSlot : Direction → Nat
  | .request => 11
  | .response => 4

/-- The tables of the script. -/
def table (direction : Direction) : Table where
  direction := direction
  hot := match direction with
    | .request => requestHot
    | .response => responseHot
  typed n :=
    if n = contentLengthSlot direction then
      some ("content-length".toList, "optional uint64 content_length".toList)
    else none
  rest := match direction with
    | .request => requestRest
    | .response => responseRest
  typed_slots := by
    intro n hn
    split at hn
    · rename_i heq
      rw [heq]
      cases direction <;> decide
    · cases hn

/-! ## The rendered blocks

Every marker of `splice` has a capital `N`, and the rendered blocks have none. -/

/-- A row without the letter. -/
def Row.Quiet (row : Row) : Prop := 'N' ∉ row.header ∧ 'N' ∉ row.decl

theorem not_mem_decimal (n : Nat) : 'N' ∉ decimal n := by
  intro hmem
  have hdigit : 'N'.isDigit = true :=
    Nat.isDigit_of_mem_toDigits (Nat.succ_pos 9) (Nat.le_refl 10) hmem
  cases hdigit

theorem not_mem_numbered {decl : Str} (h : 'N' ∉ decl) (n : Nat) : 'N' ∉ numbered decl n := by
  simp only [numbered, List.mem_append, not_or]
  exact ⟨⟨⟨h, by decide⟩, not_mem_decimal n⟩, by decide⟩

theorem not_mem_fieldName {header : Str} (h : 'N' ∉ header) : 'N' ∉ fieldName header := by
  intro hmem
  obtain ⟨c, hc, heq⟩ := List.mem_map.mp hmem
  split at heq
  · cases heq
  · exact h (heq ▸ hc)

theorem quiet_repeatedRow {header : Str} (h : 'N' ∉ header) (n : Nat) :
    (repeatedRow n header).Quiet := by
  refine ⟨h, not_mem_numbered ?_ n⟩
  rw [List.mem_append, not_or]
  exact ⟨by decide, not_mem_fieldName h⟩

theorem quiet_hotLoop {typed : Nat → Option (Str × Str)}
    (htyped : ∀ n header decl, typed n = some (header, decl) → 'N' ∉ header ∧ 'N' ∉ decl)
    (fuel n : Nat) {hot : List Str} (hhot : ∀ header ∈ hot, 'N' ∉ header) :
    ∀ row ∈ (hotLoop typed fuel n hot).1, row.Quiet := by
  induction fuel generalizing n hot with
  | zero => exact fun _ h => absurd h List.not_mem_nil
  | succ fuel ih =>
      simp only [hotLoop]
      cases hslot : typed n with
      | some slot =>
          obtain ⟨hheader, hdecl⟩ := htyped n slot.1 slot.2 hslot
          exact List.forall_mem_cons.mpr ⟨⟨hheader, not_mem_numbered hdecl n⟩, ih (n + 1) hhot⟩
      | none =>
          cases hot with
          | nil => exact fun _ h => absurd h List.not_mem_nil
          | cons header hot =>
              obtain ⟨hheader, hhot⟩ := List.forall_mem_cons.mp hhot
              exact List.forall_mem_cons.mpr ⟨quiet_repeatedRow hheader n, ih (n + 1) hhot⟩

/-- A rest that fits gets its rows. -/
theorem restLoop_fits {n : Nat} {rest : List Str} (hfits : n + rest.length ≤ restEnd + 1)
    (hrest : ∀ header ∈ rest, 'N' ∉ header) :
    ∃ rows, restLoop n rest = .ok rows ∧ ∀ row ∈ rows, row.Quiet := by
  induction rest generalizing n with
  | nil => exact ⟨[], rfl, fun _ h => absurd h List.not_mem_nil⟩
  | cons header rest ih =>
      obtain ⟨hheader, hrest⟩ := List.forall_mem_cons.mp hrest
      rw [List.length_cons] at hfits
      obtain ⟨rows, hrows, hquiet⟩ := ih (n := n + 1) (by omega) hrest
      refine ⟨repeatedRow n header :: rows, ?_, ?_⟩
      · rw [restLoop, if_pos (by omega), hrows]
        rfl
      · exact List.forall_mem_cons.mpr ⟨quiet_repeatedRow hheader n, hquiet⟩

theorem not_mem_intercalate {sep : Str} (hsep : 'N' ∉ sep) {lines : List Str}
    (h : ∀ line ∈ lines, 'N' ∉ line) : 'N' ∉ sep.intercalate lines := by
  induction lines with
  | nil => exact List.not_mem_nil
  | cons line lines ih =>
      obtain ⟨hline, hlines⟩ := List.forall_mem_cons.mp h
      cases lines with
      | nil =>
          rw [List.intercalate_singleton]
          exact hline
      | cons next lines =>
          rw [List.intercalate_cons_cons, List.mem_append, List.mem_append, not_or, not_or]
          exact ⟨⟨hline, hsep⟩, ih hlines⟩

theorem quiet_rowLines {row : Row} (h : row.Quiet) : ∀ line ∈ rowLines row, 'N' ∉ line := by
  intro line hline
  rw [rowLines, List.mem_append, List.mem_singleton] at hline
  cases hline with
  | inl hhead =>
      split at hhead
      · revert line
        decide
      · exact absurd hhead List.not_mem_nil
  | inr hrow =>
      rw [hrow]
      simp only [List.mem_append, not_or]
      exact ⟨⟨⟨by decide, h.2⟩, by decide⟩, h.1⟩

theorem quiet_reservedLines (range : Nat × Nat) : ∀ line ∈ reservedLines range, 'N' ∉ line := by
  simp only [reservedLines, List.forall_mem_cons, List.mem_append, not_or]
  refine ⟨List.not_mem_nil, by decide, ⟨⟨⟨⟨by decide, not_mem_decimal _⟩, by decide⟩,
    not_mem_decimal _⟩, by decide⟩, fun _ h => absurd h List.not_mem_nil⟩

/-- A table whose rows have a hot one among them, and no `N`, is rendered without an `N`. -/
theorem renderBlock_quiet {t : Table} {rows : List Row} (hlayout : layout t = .ok rows)
    (hquiet : ∀ row ∈ rows, row.Quiet) (hhot : ∃ row ∈ rows, row.number ≤ hotEnd) :
    ∃ block, renderBlock t = .ok block ∧ 'N' ∉ block := by
  obtain ⟨row, hrow, hnumber⟩ := hhot
  have hsome : ¬ (rows.all fun row => decide (hotEnd < row.number)) = true := by
    intro hall
    have hlate := of_decide_eq_true (List.all_eq_true.mp hall row hrow)
    exact Nat.not_le_of_lt hlate hnumber
  have hdirection : 'N' ∉ directionName t.direction := by cases t.direction <;> decide
  simp only [renderBlock, hlayout, bind, Except.bind, if_neg hsome]
  refine ⟨_, rfl, not_mem_intercalate (by decide) ?_⟩
  intro line hline
  rw [List.mem_append, List.mem_append] at hline
  obtain (hhead | hrows) | hreserved := hline
  · simp only [List.mem_cons, List.not_mem_nil, or_false] at hhead
    obtain rfl | rfl | rfl := hhead
    · rw [List.mem_append, List.mem_append, not_or, not_or]
      exact ⟨⟨by decide, hdirection⟩, by decide⟩
    · decide
    · decide
  · obtain ⟨row, hrow, hline⟩ := List.mem_flatMap.mp hrows
    exact quiet_rowLines (hquiet row hrow) line hline
  · cases hrange : reservedRange rows with
    | none =>
        rw [hrange] at hreserved
        exact absurd hreserved List.not_mem_nil
    | some range =>
        rw [hrange] at hreserved
        exact quiet_reservedLines range line hreserved

theorem mem_sortedSet {name : Str} {names : List Str} (h : name ∈ sortedSet names) :
    name ∈ names := List.mem_dedup.mp ((List.perm_insertionSort _ _).mem_iff.mp h)

theorem length_sortedSet_le (names : List Str) : (sortedSet names).length ≤ names.length := by
  rw [sortedSet, (List.perm_insertionSort _ _).length_eq]
  exact (List.dedup_sublist names).length_le

/-- What the tables must satisfy for a rendered block. -/
theorem renderBlock_of_tables {t : Table}
    (hleft : (hotLoop t.typed (hotSlots t.direction) (hotStart t.direction) t.hot).2 = [])
    (hsome : (hotLoop t.typed (hotSlots t.direction) (hotStart t.direction) t.hot).1 ≠ [])
    (hfits : restStart + t.rest.length ≤ restEnd + 1) (hhot : ∀ header ∈ t.hot, 'N' ∉ header)
    (htyped : ∀ n header decl, t.typed n = some (header, decl) → 'N' ∉ header ∧ 'N' ∉ decl)
    (hrest : ∀ header ∈ t.rest, 'N' ∉ header) :
    ∃ block, renderBlock t = .ok block ∧ 'N' ∉ block := by
  obtain ⟨rows, hrows, hquiet⟩ := restLoop_fits hfits hrest
  have hquietHot := quiet_hotLoop htyped (hotSlots t.direction) (hotStart t.direction) hhot
  have hbounds :=
    (hotLoop_numbers t.typed (hotSlots t.direction) (hotStart t.direction) t.hot).2
  have hrange : hotStart t.direction + hotSlots t.direction = hotEnd + 1 := by
    cases t.direction <;> rfl
  obtain ⟨row, hot, hcons⟩ := List.exists_cons_of_ne_nil hsome
  have hlayout : layout t = .ok ((row :: hot) ++ rows) := by
    simp only [layout, hleft, if_pos, hrows, hcons]
    rfl
  rw [hcons] at hquietHot hbounds
  refine renderBlock_quiet hlayout ?_ ⟨row, List.mem_cons_self, ?_⟩
  · intro row' hrow'
    cases List.mem_append.mp hrow' with
    | inl hfirst => exact hquietHot row' hfirst
    | inr hsecond => exact hquiet row' hsecond
  · have hbound := hbounds row List.mem_cons_self
    omega

theorem quiet_typed (direction : Direction) {n : Nat} {header decl : Str}
    (h : (table direction).typed n = some (header, decl)) : 'N' ∉ header ∧ 'N' ∉ decl := by
  simp only [table] at h
  split at h
  · cases h
    decide
  · cases h

theorem quiet_requestNames : ∀ header ∈ requestHot ++ requestSet, 'N' ∉ header := by
  decide +kernel

theorem quiet_responseNames : ∀ header ∈ responseHot ++ responseSet, 'N' ∉ header := by
  decide +kernel

theorem rest_request : (table .request).rest = sortedSet requestSet := by rw [table, requestRest]

theorem rest_response : (table .response).rest = sortedSet responseSet := by
  rw [table, responseRest]

/-- The rest of a direction has a slot for every name. -/
theorem rest_fits (direction : Direction) :
    restStart + (table direction).rest.length ≤ restEnd + 1 := by
  cases direction with
  | request =>
      have hset : requestSet.length = 80 := by decide +kernel
      have hrest := length_sortedSet_le requestSet
      rw [rest_request, restStart, restEnd]
      omega
  | response =>
      have hset : responseSet.length = 53 := by decide +kernel
      have hrest := length_sortedSet_le responseSet
      rw [rest_response, restStart, restEnd]
      omega

theorem quiet_table (direction : Direction) :
    (∀ header ∈ (table direction).hot, 'N' ∉ header) ∧
      ∀ header ∈ (table direction).rest, 'N' ∉ header := by
  cases direction with
  | request =>
      obtain ⟨hhot, hset⟩ := List.forall_mem_append.mp quiet_requestNames
      rw [rest_request]
      exact ⟨hhot, fun header hheader => hset header (mem_sortedSet hheader)⟩
  | response =>
      obtain ⟨hhot, hset⟩ := List.forall_mem_append.mp quiet_responseNames
      rw [rest_response]
      exact ⟨hhot, fun header hheader => hset header (mem_sortedSet hheader)⟩

/-- `render_block` has a result for both directions. -/
theorem renderBlock_table (direction : Direction) :
    ∃ block, renderBlock (table direction) = .ok block ∧ 'N' ∉ block := by
  obtain ⟨hhot, hrest⟩ := quiet_table direction
  have htyped : ∀ n header decl, (table direction).typed n = some (header, decl) →
      'N' ∉ header ∧ 'N' ∉ decl := fun _ _ _ => quiet_typed direction
  refine renderBlock_of_tables ?_ ?_ (rest_fits direction) hhot htyped hrest
  · cases direction <;> decide
  · cases direction <;> decide

end Grpcgi.HeaderTable
