import Grpcgi.Wasm.Filter

/-!
# The upgrade response in the WASM filter

`on_upstream_data` searches each chunk on its own for `HTTP/1.1 101` and turns
active in the middle of the response it finds it in. What the client gets of
the response depends on where the upstream bytes are cut.
-/

namespace Grpcgi.Wasm

def IsLine (bs : Bytes) : Prop := ∀ b ∈ bs, b ≠ 0x0D ∧ b ≠ 0x0A

instance (bs : Bytes) : Decidable (IsLine bs) := List.decidableBAll _ bs

/-- An HTTP/1.1 response head: status line, field lines, empty line. -/
structure ResponseHead where
  code : Fin 1000
  reason : Bytes
  fields : List Bytes
  reason_line : IsLine reason
  field_lines : ∀ line ∈ fields, line ≠ [] ∧ IsLine line

namespace ResponseHead

def digits (code : Fin 1000) : Bytes :=
  [UInt8.ofNat (0x30 + code.val / 100), UInt8.ofNat (0x30 + code.val / 10 % 10),
    UInt8.ofNat (0x30 + code.val % 10)]

def encode (head : ResponseHead) : Bytes :=
  utf8Encode "HTTP/1.1 ".toList ++ digits head.code ++ [0x20] ++ head.reason ++ [0x0D, 0x0A] ++
    head.fields.flatMap (fun line => line ++ [0x0D, 0x0A]) ++ [0x0D, 0x0A]

end ResponseHead

/-- The upstream chunks, one callback each: the filter afterwards, and the bytes
that go on to the client. -/
def receiveUpstream (env : Env) : WsBridgeStream → List Bytes → WsBridgeStream × Bytes
  | s, [] => (s, [])
  | s, chunk :: chunks =>
    match onUpstreamData env (some chunk) s with
    | (.Continue, t) =>
      ((receiveUpstream env t chunks).1, chunk ++ (receiveUpstream env t chunks).2)
    | (.Pause, t) => receiveUpstream env t chunks

def openCalls (calls : List Call) : List Call :=
  calls.filter fun
    | .openGrpcStream _ _ _ _ _ => true
    | _ => false

/-- The handshake of a response: the filter turns active and calls `open_grpc_stream` once
exactly for a 101, whatever the host answers, and the client gets the whole head of a
101. -/
def HandshakeRelayed (env : Env) (s : WsBridgeStream) (head : ResponseHead)
    (chunks : List Bytes) : Prop :=
  let result := receiveUpstream env s chunks
  (result.1.state = .active ∧ (openCalls result.1.calls).length = 1 ↔ head.code = 101) ∧
    (head.code = 101 → head.encode <+: result.2)

/-- The chunk with the first occurrence of `HTTP/1.1 101` that lies within one
chunk. -/
def firstMatch (chunks : List Bytes) : Option Nat :=
  chunks.findIdx? fun chunk => containsSubsequence chunk http101

theorem firstMatch_eq_none_iff {chunks : List Bytes} :
    firstMatch chunks = none ↔ ∀ chunk ∈ chunks, ¬ http101 <:+: chunk := by
  have hneedle : http101 ≠ [] := by decide
  simp only [firstMatch, List.findIdx?_eq_none_iff, ← containsSubsequence_iff hneedle,
    Bool.not_eq_true]

/-- The condition on the cuts: a chunk matches exactly for a 101, and the first
one that does reaches the end of the head. -/
def CutsKeepHead (head : ResponseHead) (chunks : List Bytes) : Prop :=
  match firstMatch chunks with
  | some k => head.code = 101 ∧ head.encode.length ≤ (chunks.take (k + 1)).flatten.length
  | none => head.code ≠ 101

instance (env : Env) (s : WsBridgeStream) (head : ResponseHead) (chunks : List Bytes) :
    Decidable (HandshakeRelayed env s head chunks) :=
  inferInstanceAs (Decidable ((_ ∧ _ ↔ _) ∧ (_ → _)))

instance (head : ResponseHead) (chunks : List Bytes) : Decidable (CutsKeepHead head chunks) :=
  match h : firstMatch chunks with
  | some k => decidable_of_iff
      (head.code = 101 ∧ head.encode.length ≤ (chunks.take (k + 1)).flatten.length)
      (by simp only [CutsKeepHead, h])
  | none => decidable_of_iff (head.code ≠ 101) (by simp only [CutsKeepHead, h])

/-! ## The run over the chunks -/

section Run

variable (env : Env) {s : WsBridgeStream}

/-- An active filter keeps every upstream byte from the client. -/
theorem receiveUpstream_active (h : s.state = .active) (chunks : List Bytes) :
    receiveUpstream env s chunks = (s, []) := by
  induction chunks with
  | nil => rfl
  | cons chunk chunks ih =>
      simp only [receiveUpstream, onUpstreamData, h]
      exact ih

theorem onUpstreamData_miss (h : s.state = .awaitingUpgradeResponse) {chunk : Bytes}
    (hmiss : containsSubsequence chunk http101 = false) :
    onUpstreamData env (some chunk) s = (.Continue, s) := by
  simp only [onUpstreamData, h, hmiss, Bool.false_eq_true, if_false]

/-- A chunk with the pattern is forwarded, and the filter opens its stream. -/
theorem onUpstreamData_match (h : s.state = .awaitingUpgradeResponse) {chunk : Bytes}
    (hmatch : containsSubsequence chunk http101 = true) :
    ∃ t, onUpstreamData env (some chunk) s = (.Continue, t) ∧ t.state = .active ∧
      (openCalls t.calls).length = (openCalls s.calls).length + 1 := by
  simp only [onUpstreamData, h, hmatch, if_true]
  cases env.openGrpcStream s.calls with
  | none =>
      refine ⟨_, rfl, rfl, ?_⟩
      simp [WsBridgeStream.emit, openCalls]
  | some token =>
      refine ⟨_, rfl, rfl, ?_⟩
      simp [WsBridgeStream.emit, openCalls]

theorem receiveUpstream_none (h : s.state = .awaitingUpgradeResponse) {chunks : List Bytes}
    (hnone : firstMatch chunks = none) : receiveUpstream env s chunks = (s, chunks.flatten) := by
  induction chunks with
  | nil => rfl
  | cons chunk chunks ih =>
      obtain ⟨hmiss, hrest⟩ : containsSubsequence chunk http101 = false ∧
          firstMatch chunks = none := by
        simpa [firstMatch] using hnone
      simp only [receiveUpstream, onUpstreamData_miss env h hmiss, ih hrest, List.flatten_cons]

/-- With a match the client gets the chunks up to the matching one. -/
theorem receiveUpstream_some (h : s.state = .awaitingUpgradeResponse) {chunks : List Bytes}
    {k : Nat} (hsome : firstMatch chunks = some k) :
    (receiveUpstream env s chunks).1.state = .active ∧
      (openCalls (receiveUpstream env s chunks).1.calls).length =
        (openCalls s.calls).length + 1 ∧
      (receiveUpstream env s chunks).2 = (chunks.take (k + 1)).flatten := by
  induction chunks generalizing k with
  | nil => cases hsome
  | cons chunk chunks ih =>
      simp only [firstMatch, List.findIdx?_cons] at hsome
      cases hmatch : containsSubsequence chunk http101 with
      | true =>
          rw [hmatch, if_pos rfl] at hsome
          cases hsome
          obtain ⟨t, hstep, hactive, hopens⟩ := onUpstreamData_match env h hmatch
          simp only [receiveUpstream, hstep, receiveUpstream_active env hactive]
          refine ⟨hactive, hopens, ?_⟩
          simp
      | false =>
          rw [hmatch, if_neg (by decide)] at hsome
          obtain ⟨j, hj, rfl⟩ := Option.map_eq_some_iff.mp hsome
          obtain ⟨hactive, hopens, hbytes⟩ := ih hj
          simp only [receiveUpstream, onUpstreamData_miss env h hmatch]
          refine ⟨hactive, hopens, ?_⟩
          simp [hbytes]

end Run

theorem begins_iff_length {xs ys zs : Bytes} (hx : xs <+: zs) (hy : ys <+: zs) :
    xs <+: ys ↔ xs.length ≤ ys.length := by
  constructor
  · intro h
    exact h.length_le
  · intro h
    exact List.prefix_of_prefix_length_le hx hy h

/-- The handshake goes as it should exactly when the cuts allow it. -/
theorem handshake_iff (env : Env) {s : WsBridgeStream}
    (hstate : s.state = .awaitingUpgradeResponse) (hcalls : openCalls s.calls = [])
    (head : ResponseHead) (body : Bytes) {chunks : List Bytes}
    (hchunks : chunks.flatten = head.encode ++ body) :
    HandshakeRelayed env s head chunks ↔ CutsKeepHead head chunks := by
  simp only [HandshakeRelayed, CutsKeepHead]
  cases hmatch : firstMatch chunks with
  | none =>
      rw [receiveUpstream_none env hstate hmatch]
      simp only [hstate, reduceCtorEq, false_and, false_iff]
      constructor
      · rintro ⟨hcode, -⟩
        exact hcode
      · intro hcode
        exact ⟨hcode, fun h => absurd h hcode⟩
  | some k =>
      obtain ⟨hactive, hopens, hbytes⟩ := receiveUpstream_some env hstate hmatch
      have hforwarded : (chunks.take (k + 1)).flatten <+: head.encode ++ body := by
        rw [← hchunks]
        obtain ⟨rest, hrest⟩ := List.take_prefix (k + 1) chunks
        refine ⟨rest.flatten, ?_⟩
        rw [← List.flatten_append, hrest]
      have hhead : head.encode <+: head.encode ++ body := List.prefix_append _ _
      simp only [hactive, hopens, hcalls, hbytes, List.length_nil, Nat.zero_add, and_self,
        true_iff, begins_iff_length hhead hforwarded]
      constructor
      · rintro ⟨hcode, hlength⟩
        exact ⟨hcode, hlength hcode⟩
      · rintro ⟨hcode, hlength⟩
        exact ⟨hcode, fun _ => hlength⟩

/-- A 101 whose head arrives in one chunk, with a field and a first frame. -/
theorem handshake_iff_whole :
    HandshakeRelayed ⟨32, .ascii, fun _ => some 7⟩
      { state := .awaitingUpgradeResponse, grpcCluster := [], grpcService := [] }
      ⟨101, utf8Encode "OK".toList, [utf8Encode "A: b".toList], by decide, by decide⟩
      [utf8Encode "HTTP/1.1 101 OK\r\nA: b\r\n\r\n".toList, [0x81, 0x00]] :=
  (handshake_iff ⟨32, .ascii, fun _ => some 7⟩ rfl rfl _ [0x81, 0x00] (by decide)).mpr (by decide)

/-- Three responses that go wrong: a 101 cut inside the pattern, a 101 cut after
it, and a 200 with the pattern in a field. -/
theorem handshake_cut_wrong :
    let env : Env := ⟨32, .ascii, fun _ => some 7⟩
    let s : WsBridgeStream :=
      { state := .awaitingUpgradeResponse, grpcCluster := [], grpcService := [] }
    let ok : ResponseHead := ⟨101, utf8Encode "OK".toList, [], by decide, by decide⟩
    let other : ResponseHead :=
      ⟨200, utf8Encode "OK".toList, [utf8Encode "A: HTTP/1.1 101".toList], by decide, by decide⟩
    ¬ HandshakeRelayed env s ok
        [utf8Encode "HTTP/1.1 10".toList, utf8Encode "1 OK\r\n\r\n".toList] ∧
      ¬ HandshakeRelayed env s ok
        [utf8Encode "HTTP/1.1 101 O".toList, utf8Encode "K\r\n\r\n".toList] ∧
      ¬ HandshakeRelayed env s other [other.encode] := by
  decide

end Grpcgi.Wasm
