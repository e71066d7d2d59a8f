import Grpcgi.Data.Proto
import Grpcgi.Protobuf.Wire

/-!
# The messages of the unary call on the wire

`HttpRequest` and `HttpResponse` of `http.proto` as proto3 writes and reads them: a
canonical writer for responses, in the order of the field numbers and without
defaults, and a strict reader for requests, which refuses a field that the message
does not have.
-/

namespace Grpcgi.Proto

open Protobuf (Field)

/-! ## Writing -/

/-- The arm of the oneof that is set. -/
def ValueKind.fields : ValueKind → List Field
  | .unset => []
  | .value text => [⟨2, .len (utf8Encode text), Protobuf.isNumber_two⟩]
  | .rawValue bytes => [⟨3, .len bytes, Protobuf.isNumber_three⟩]

def Header.fields (h : Header) : List Field :=
  (if h.key = [] then [] else [⟨1, .len (utf8Encode h.key), Protobuf.isNumber_one⟩]) ++
    h.valueKind.fields

def Trailers.fields (t : Trailers) : List Field :=
  t.headers.map fun h => ⟨1, .len (Protobuf.encode h.fields), Protobuf.isNumber_one⟩

/-- `HttpResponse` with its optional trailers. -/
def HttpResponse.fields (r : HttpResponse) (trailers : Option Trailers) : List Field :=
  (if r.status = 0 then [] else [⟨1, .varint r.status.toUInt64, Protobuf.isNumber_one⟩]) ++
  r.headers.map (fun h => ⟨2, .len (Protobuf.encode h.fields), Protobuf.isNumber_two⟩) ++
  (if r.body = [] then [] else [⟨3, .len r.body, Protobuf.isNumber_three⟩]) ++
  trailers.toList.map fun t => ⟨4, .len (Protobuf.encode t.fields), Protobuf.isNumber_four⟩

def HttpResponse.wire (r : HttpResponse) (trailers : Option Trailers) : Bytes :=
  Protobuf.encode (r.fields trailers)

/-! ## Reading -/

/-- One field of a `Header`. A string has to be UTF-8, and the last arm of the oneof
wins. -/
def Header.set (h : Header) (f : Field) : Option Header :=
  match f.number, f.value with
  | 1, .len data => (utf8Decode data).map fun key => { h with key }
  | 2, .len data => (utf8Decode data).map fun value => { h with valueKind := .value value }
  | 3, .len data => some { h with valueKind := .rawValue data }
  | _, _ => none

def readHeader (bs : Bytes) : Option Header :=
  match Protobuf.parse bs with
  | none => none
  | some fields => fields.foldlM Header.set ⟨[], .unset⟩

/-- One field of `Trailers`, of which only the headers are kept. -/
def setTrailers (headers : List Header) (f : Field) : Option (List Header) :=
  match f.number, f.value with
  | 1, .len data => (readHeader data).map fun h => headers ++ [h]
  | _, _ => none

/-- `HttpRequest` as it is read, with the trailers if there are any. -/
structure RequestMessage where
  headers : List Header := []
  body : Bytes := []
  trailers : Option (List Header) := none
  deriving DecidableEq, Repr

def RequestMessage.set (m : RequestMessage) (f : Field) : Option RequestMessage :=
  match f.number, f.value with
  | 1, .len data => (readHeader data).map fun h => { m with headers := m.headers ++ [h] }
  | 2, .len data => some { m with body := data }
  | 3, .len data =>
    match Protobuf.parse data with
    | none => none
    | some fields =>
      (fields.foldlM setTrailers (m.trailers.getD [])).map fun headers =>
        { m with trailers := some headers }
  | _, _ => none

def readHttpRequest (bs : Bytes) : Option RequestMessage :=
  match Protobuf.parse bs with
  | none => none
  | some fields => fields.foldlM RequestMessage.set {}

end Grpcgi.Proto
