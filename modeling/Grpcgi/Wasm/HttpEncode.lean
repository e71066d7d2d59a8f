import Grpcgi.Data.ProtoWire
import Grpcgi.Wasm.HttpResponse

/-!
# `encode_http_request` on the wire

What the WASM HTTP filter dispatches is a list of protobuf fields, and reading it as
an `HttpRequest` gives back the headers and the body.
-/

namespace Grpcgi.Wasm.HttpBridge

open Protobuf (Field)

/-- The fields of the headers that the filter writes. -/
def pairFields (header : Str × Str) : List Field :=
  [⟨1, .len (utf8Encode header.1), Protobuf.isNumber_one⟩,
    ⟨2, .len (utf8Encode header.2), Protobuf.isNumber_two⟩]

/-- The fields of the message that `encode_http_request` writes. -/
def requestFields (headers : List (Str × Str)) (body : Bytes) : List Field :=
  headers.map (fun header =>
    ⟨1, .len (Protobuf.encode (pairFields header)), Protobuf.isNumber_one⟩) ++
  if body.isEmpty then [] else [⟨2, .len body, Protobuf.isNumber_two⟩]

theorem encodeHttpRequest_eq (headers : List (Str × Str)) (body : Bytes) :
    encodeHttpRequest headers body = Protobuf.encode (requestFields headers body) := by
  have hpair (header : Str × Str) : pushLenField 1 (utf8Encode header.1) ++
      pushLenField 2 (utf8Encode header.2) = Protobuf.encode (pairFields header) := by
    have hkey := pushLenField_eq ⟨1, .len (utf8Encode header.1), Protobuf.isNumber_one⟩ rfl
    have hval := pushLenField_eq ⟨2, .len (utf8Encode header.2), Protobuf.isNumber_two⟩ rfl
    simp only [pairFields, Protobuf.encode_cons, Protobuf.encode_nil, List.append_nil, ← hkey,
      ← hval]
    rfl
  have hheader (data : Bytes) : pushLenField 1 data =
      Field.encode ⟨1, .len data, Protobuf.isNumber_one⟩ :=
    pushLenField_eq ⟨1, .len data, Protobuf.isNumber_one⟩ rfl
  have hbody : (if body.isEmpty then [] else pushLenField 2 body) =
      Protobuf.encode (if body.isEmpty then [] else [⟨2, .len body, Protobuf.isNumber_two⟩]) := by
    have hfield := pushLenField_eq ⟨2, .len body, Protobuf.isNumber_two⟩ rfl
    cases body.isEmpty
    · simp only [Bool.false_eq_true, if_false, Protobuf.encode_cons, Protobuf.encode_nil,
        List.append_nil, ← hfield]
      rfl
    · rfl
  rw [encodeHttpRequest, requestFields, Protobuf.encode_append, ← hbody]
  congr 1
  rw [Protobuf.encode, List.flatMap_map]
  refine congrArg headers.flatMap (funext fun header => ?_)
  exact (congrArg (pushLenField 1) (hpair header)).trans (hheader _)

/-! ## Reading the message back -/

open Proto (RequestMessage)

/-- The header that a pair stands for. Its value is set, also when it is empty. -/
def pairHeader (header : Str × Str) : Proto.Header := ⟨header.1, .value header.2⟩

theorem readHeader_pairFields {header : Str × Str}
    (hsize : (Protobuf.encode (pairFields header)).length < 2 ^ 64) :
    Proto.readHeader (Protobuf.encode (pairFields header)) = some (pairHeader header) := by
  have hparse := Protobuf.parse_encode (Protobuf.fits_of_length hsize)
  simp only [Proto.readHeader, hparse]
  simp only [pairFields, List.foldlM_cons, Proto.Header.set, utf8Decode_utf8Encode]
  rfl

/-- The header fields, one after the other. -/
theorem foldlM_headers {headers : List (Str × Str)}
    (hsizes : ∀ header ∈ headers, (Protobuf.encode (pairFields header)).length < 2 ^ 64)
    (m : RequestMessage) (after : List Field) :
    (headers.map (fun header =>
        (⟨1, .len (Protobuf.encode (pairFields header)), Protobuf.isNumber_one⟩ : Field)) ++
      after).foldlM RequestMessage.set m =
    after.foldlM RequestMessage.set { m with headers := m.headers ++ headers.map pairHeader } := by
  induction headers generalizing m with
  | nil => simp only [List.map_nil, List.nil_append, List.append_nil]
  | cons header headers ih =>
      obtain ⟨hsize, hsizes⟩ := List.forall_mem_cons.mp hsizes
      have hset : m.set ⟨1, .len (Protobuf.encode (pairFields header)), Protobuf.isNumber_one⟩ =
          some { m with headers := m.headers ++ [pairHeader header] } := by
        simp only [RequestMessage.set, readHeader_pairFields hsize, Option.map_some]
      rw [List.map_cons, List.cons_append, List.foldlM_cons, hset]
      refine (ih hsizes _).trans ?_
      simp only [List.append_assoc, List.map_cons, List.cons_append, List.nil_append]

/-- `encode_http_request` writes an `HttpRequest` with the headers in their order and
the body, and nothing else. -/
theorem readHttpRequest_encode {headers : List (Str × Str)} {body : Bytes}
    (hsize : (encodeHttpRequest headers body).length < 2 ^ 64) :
    Proto.readHttpRequest (encodeHttpRequest headers body) =
      some { headers := headers.map pairHeader, body := body, trailers := none } := by
  rw [encodeHttpRequest_eq] at hsize ⊢
  have hfits := Protobuf.fits_of_length hsize
  have hsizes : ∀ header ∈ headers, (Protobuf.encode (pairFields header)).length < 2 ^ 64 :=
    fun header hmem => hfits _ (List.mem_append_left _ (List.mem_map_of_mem hmem))
  simp only [Proto.readHttpRequest, Protobuf.parse_encode hfits]
  rw [requestFields, foldlM_headers hsizes]
  cases body with
  | nil => rfl
  | cons b body => rfl

/-- A header twice, one without a value, and a body. -/
theorem readHttpRequest_encode_twice :
    Proto.readHttpRequest (encodeHttpRequest
        [("a".toList, "b".toList), ("a".toList, "c".toList), ("d".toList, [])] [0x78]) =
      some
        { headers := [⟨"a".toList, .value "b".toList⟩, ⟨"a".toList, .value "c".toList⟩,
            ⟨"d".toList, .value []⟩]
          body := [0x78]
          trailers := none } :=
  readHttpRequest_encode (Nat.lt_trans (show _ < 2 ^ 10 by decide) (by decide))

end Grpcgi.Wasm.HttpBridge
