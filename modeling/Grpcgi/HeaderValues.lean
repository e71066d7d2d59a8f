import Grpcgi.Python.Agreement
import Grpcgi.Wasm.HttpResponse
import Mathlib.Data.List.Forall2

/-!
# Header values

The bytes of a header value on three ways: from a request message into the ASGI
scope, from the app into a response message, and from a message into the HTTP
filter. All three know the `value` arm of the oneof only, and an app's value must
be UTF-8.
-/

namespace Grpcgi

open Python.Http (Handle HttpApp Process ResponseEvents SendEvent Task Text WholeResponse buildScope
  handle process scopeEntries)
open Wasm.HttpBridge (decodeHeader headerFields pushFields)

namespace Proto.Header

/-- The header carries these bytes, in either arm. -/
def Carries (h : Header) (v : Bytes) : Prop :=
  match h.valueKind with
  | .unset => False
  | .value value => utf8Encode value = v
  | .rawValue rawValue => rawValue = v

def InValueArm (h : Header) : Prop := ∃ value, h.valueKind = .value value

/-- Reading the field `value` gives the bytes only if they are there, or none. -/
theorem value_eq_iff {h : Header} {v : Bytes} (hcarries : h.Carries v) :
    utf8Encode h.value = v ↔ h.InValueArm ∨ v = [] := by
  obtain ⟨key, kind⟩ := h
  cases kind with
  | unset => cases hcarries
  | value value => exact iff_of_true hcarries (.inl ⟨value, rfl⟩)
  | rawValue rawValue =>
      have hempty : utf8Encode (Header.mk key (.rawValue rawValue)).value = [] := rfl
      rw [hempty]
      constructor
      · intro hv
        exact .inr hv.symm
      · rintro (⟨value, hvalue⟩ | hv)
        · cases hvalue
        · exact hv.symm

end Proto.Header

/-! ## Into the scope -/

/-- The keys that the scope has entries of its own for. -/
def IsPseudo (key : Str) : Prop :=
  key = ":method".toList ∨ key = ":path".toList ∨ key = ":scheme".toList

instance (key : Str) : Decidable (IsPseudo key) := inferInstanceAs (Decidable (_ ∨ _ ∨ _))

/-- The name of a header in the scope. -/
def scopeName (key : Str) : Str :=
  if key = ":authority".toList then "host".toList else key

/-- Between what is there for the headers around it, the scope has the header with
these bytes. -/
def ScopeCarries (u : Unicode) (before : List Proto.Header) (h : Proto.Header)
    (after : List Proto.Header) (v : Bytes) : Prop :=
  (buildScope u { headers := before ++ h :: after }).headers =
    (buildScope u { headers := before }).headers ++
      (utf8Encode (scopeName h.key), v) :: (buildScope u { headers := after }).headers

theorem scopeEntries_eq (h : Proto.Header) :
    scopeEntries h =
      if IsPseudo h.key then [] else [(utf8Encode (scopeName h.key), utf8Encode h.value)] := by
  rw [scopeEntries, scopeName]
  by_cases hpseudo : IsPseudo h.key
  · rw [if_pos hpseudo]
    exact if_pos hpseudo
  · rw [if_neg hpseudo]
    refine (if_neg hpseudo).trans ?_
    split <;> rfl

/-- What a message with three parts puts into the scope. -/
theorem buildScope_between (u : Unicode) (before after : List Proto.Header) (h : Proto.Header) :
    (buildScope u { headers := before ++ h :: after }).headers =
      (buildScope u { headers := before }).headers ++
        (scopeEntries h ++ (buildScope u { headers := after }).headers) := by
  simp only [Python.Http.buildScope_headers, List.flatMap_append, List.flatMap_cons]

theorem scopeCarries_iff (u : Unicode) (before after : List Proto.Header) {h : Proto.Header}
    {v : Bytes} (hcarries : h.Carries v) :
    ScopeCarries u before h after v ↔ ¬ IsPseudo h.key ∧ (h.InValueArm ∨ v = []) := by
  rw [ScopeCarries, buildScope_between, List.append_cancel_left_eq, scopeEntries_eq,
    ← h.value_eq_iff hcarries]
  by_cases hpseudo : IsPseudo h.key
  · rw [if_pos hpseudo, List.nil_append]
    constructor
    · intro heq
      -- an entry less
      have hlength := congrArg List.length heq
      rw [List.length_cons] at hlength
      omega
    · intro hboth
      exact absurd hpseudo hboth.1
  · rw [if_neg hpseudo, List.singleton_append, List.cons.injEq, Prod.mk.injEq]
    constructor
    · intro heq
      exact ⟨hpseudo, heq.1.2⟩
    · intro hboth
      exact ⟨⟨rfl, hboth.2⟩, rfl⟩

/-! ## Out of the app -/

/-- The message headers carry these fields, in order. -/
def CarryAll (headers : List Proto.Header) (fields : List (Str × Bytes)) : Prop :=
  List.Forall₂ (fun h f => h.key = f.1 ∧ h.Carries f.2) headers fields

/-- Header fields as an app sends them, names and values as `bytes`. -/
def emitted (fields : List (Str × Bytes)) : List (Text × Text) :=
  fields.map fun f => (.bytes (utf8Encode f.1), .bytes f.2)

def Utf8Values (fields : List (Str × Bytes)) : Prop := ∀ f ∈ fields, (utf8Decode f.2).isSome

instance (fields : List (Str × Bytes)) : Decidable (Utf8Values fields) :=
  List.decidableBAll _ fields

theorem utf8_emitted (fields : List (Str × Bytes)) :
    (∀ h ∈ emitted fields, h.1.decode.isSome ∧ h.2.decode.isSome) ↔ Utf8Values fields := by
  constructor
  · intro h f hf
    exact (h _ (List.mem_map_of_mem hf)).2
  · intro hutf8 h hh
    obtain ⟨f, hf, rfl⟩ := List.mem_map.mp hh
    refine ⟨?_, hutf8 f hf⟩
    rw [Text.decode, utf8Decode_utf8Encode]
    rfl

/-- The bytes can be recovered from what was decoded. -/
theorem carryAll_emitted {fields : List (Str × Bytes)} (hutf8 : Utf8Values fields) :
    CarryAll ((emitted fields).map fun h => ⟨h.1.text, .value h.2.text⟩) fields := by
  rw [CarryAll, emitted, List.map_map, List.forall₂_map_left_iff, List.forall₂_same]
  intro f hf
  constructor
  · simp only [Function.comp_apply, Text.text, Text.decode, utf8Decode_utf8Encode, Option.getD_some]
  · obtain ⟨value, hvalue⟩ := Option.isSome_iff_exists.mp (hutf8 f hf)
    have htext : (Text.bytes f.2).text = value := by
      rw [Text.text, Text.decode, hvalue, Option.getD_some]
    have hencode := utf8Encode_utf8Decode hvalue
    rw [← htext] at hencode
    exact hencode

/-- Both calls succeed with a message that carries the fields. -/
def Emits {σ τ : Type} (fields : List (Str × Bytes)) (h : Handle σ) (s : Process τ) : Prop :=
  (∃ response, h.outcome = some (.response response) ∧ CarryAll response.headers fields) ∧
    s.ended = some .stopped ∧
    ∃ status headers rest, s.yielded = .responseHeaders { status, headers } :: rest ∧
      CarryAll headers fields

section Runs

variable {σ : Type} {fields : List (Str × Bytes)} {r : ResponseEvents}

theorem utf8Values_of_outcome {h : Handle σ} (hcollected : h.Collected) (hsent : h.sent = r.events)
    (hheaders : r.headers = some (emitted fields)) {response : Proto.HttpResponse}
    (houtcome : h.outcome = some (.response response)) : Utf8Values fields := by
  obtain ⟨-, -, hdecoded⟩ := Handle.of_outcome houtcome
  rw [hcollected.headers, hsent, r.headers_events, hheaders, Option.getD_some] at hdecoded
  exact (utf8_emitted fields).mp (Python.Http.utf8_of_decodeHeaders hdecoded)

/-- For an app that sends one response with these fields. -/
theorem emits_iff (u : Unicode) (app : HttpApp σ) (request : Proto.HttpRequest)
    (endOfStream : Bool) (messages : List Proto.ProcessingRequest) {s : Process σ}
    (hprocess : process u app.onProcess
      (.requestHeaders { headers := request.headers, endOfStream } :: messages) = .running s)
    (hheaders : r.headers = some (emitted fields)) (turns : Nat) (schedule : List Task) (n : Nat)
    (hsent : ((handle u app request).run app request turns).sent = r.events)
    (hevents : (s.run app.onProcess schedule).events = r.events)
    (hn : (s.run app.onProcess schedule).responses.queue.history.length ≤ n) :
    Emits fields ((handle u app request).run app request turns)
        (s.run app.onProcess (schedule ++ List.replicate n .consumer)) ↔
      ((handle u app request).run app request turns).call = .returned ∧ r.FitsStatus ∧
        Utf8Values fields := by
  have hcollected := Handle.collected_run u app request turns
  constructor
  · rintro ⟨⟨response, houtcome, -⟩, -⟩
    obtain ⟨hreturned, hfits⟩ := Python.Http.returned_of_outcome hcollected hsent houtcome
    exact ⟨hreturned, hfits, utf8Values_of_outcome hcollected hsent hheaders houtcome⟩
  · rintro ⟨hreturned, hfits, hutf8⟩
    let whole : WholeResponse := { r with
      utf8 := by
        rw [hheaders, Option.getD_some]
        exact (utf8_emitted fields).mpr hutf8 }
    obtain ⟨hended, hall⟩ := Python.Http.process_ends hprocess hevents hn
    obtain ⟨hstop, hyielded⟩ := Python.Http.process_fits (r := whole) hprocess hall hended
    have hcarry : CarryAll r.protoHeaders fields := by
      rw [ResponseEvents.protoHeaders, hheaders, Option.getD_some]
      exact carryAll_emitted hutf8
    have houtcome := Python.Http.outcome_fits (r := whole) hcollected hsent hreturned hfits
    exact ⟨⟨_, houtcome, hcarry⟩, hstop hfits, _, _, _, (hyielded (hstop hfits)).2, hcarry⟩

end Runs

/-! ## Into the filter -/

/-- `decode_header` gives text that a message carries. -/
theorem decodes_iff {bits : Nat} {h : Proto.Header} {value : Str}
    (hcarries : h.Carries (utf8Encode value)) (hbits : bits ≤ 64)
    (hwidth : (pushFields (headerFields h)).length < 2 ^ bits) :
    decodeHeader bits (pushFields (headerFields h)) = .ok (some (h.key, value)) ↔
      h.key ≠ [] ∧ (h.InValueArm ∨ value = []) := by
  have hsize : (pushFields (headerFields h)).length < 2 ^ 64 :=
    Nat.lt_of_lt_of_le hwidth (Nat.pow_le_pow_right (by decide) hbits)
  have hempty : value = [] ↔ utf8Encode value = [] := by
    constructor
    · rintro rfl
      rfl
    · intro heq
      exact utf8Encode_injective heq
  have hvalue : h.value = value ↔ h.InValueArm ∨ value = [] := by
    rw [hempty, ← h.value_eq_iff hcarries]
    constructor
    · intro heq
      rw [heq]
    · intro heq
      exact utf8Encode_injective heq
  rw [Wasm.HttpBridge.decodeHeader_wire hwidth hsize, Except.ok.injEq, ← hvalue]
  cases hkey : h.key with
  | nil =>
      constructor
      · intro hnone
        cases hnone
      · intro hboth
        exact absurd rfl hboth.1
  | cons c key =>
      constructor
      · intro hsome
        cases hsome
        exact ⟨List.cons_ne_nil c key, rfl⟩
      · rintro ⟨-, hvalue⟩
        rw [hvalue]
        rfl

/-! ## All three -/

/-- Exactly when a header value arrives byte for byte: in a request header that the
scope lists, if it is in the `value` arm or empty. From an app, if it is UTF-8, as
every other value of the response. Into the HTTP filter, if it is in the `value`
arm or empty. -/
theorem header_values_iff {bits : Nat} (hbits : bits ≤ 64) :
    (∀ (u : Unicode) (before : List Proto.Header) (h : Proto.Header) (after : List Proto.Header)
      (v : Bytes), h.Carries v →
      (ScopeCarries u before h after v ↔ ¬ IsPseudo h.key ∧ (h.InValueArm ∨ v = []))) ∧
    (∀ {σ : Type} (u : Unicode) (app : HttpApp σ) (request : Proto.HttpRequest)
      (endOfStream : Bool) (messages : List Proto.ProcessingRequest) (s : Process σ)
      (fields : List (Str × Bytes)) (r : ResponseEvents) (turns : Nat) (schedule : List Task)
      (n : Nat),
      process u app.onProcess
        (.requestHeaders { headers := request.headers, endOfStream } :: messages) = .running s →
      r.headers = some (emitted fields) →
      ((handle u app request).run app request turns).sent = r.events →
      (s.run app.onProcess schedule).events = r.events →
      (s.run app.onProcess schedule).responses.queue.history.length ≤ n →
      (Emits fields ((handle u app request).run app request turns)
          (s.run app.onProcess (schedule ++ List.replicate n .consumer)) ↔
        ((handle u app request).run app request turns).call = .returned ∧ r.FitsStatus ∧
          Utf8Values fields)) ∧
    (∀ (h : Proto.Header) (value : Str), h.Carries (utf8Encode value) →
      (pushFields (headerFields h)).length < 2 ^ bits →
      (decodeHeader bits (pushFields (headerFields h)) = .ok (some (h.key, value)) ↔
        h.key ≠ [] ∧ (h.InValueArm ∨ value = []))) := by
  refine ⟨?_, ?_, ?_⟩
  · intro u before h after v hcarries
    exact scopeCarries_iff u before after hcarries
  · intro σ u app request endOfStream messages s fields r turns schedule n hprocess hheaders hsent
      hevents hn
    exact emits_iff u app request endOfStream messages hprocess hheaders turns schedule n hsent
      hevents hn
  · intro h value hcarries hwidth
    exact decodes_iff hcarries hbits hwidth

/-- A response with one header and no body. -/
def oneHeader (v : Bytes) : ResponseEvents where
  status := none
  headers := some (emitted [("x-name".toList, v)])
  chunks := []
  lastBody := none
  lastMore := some false
  closing := rfl

open Python.Http (sending)

/-- A call of an app that sends it. -/
def oneHeaderHandle (v : Bytes) : Handle (List SendEvent) :=
  let app := sending (oneHeader v).events false
  (handle .ascii app { headers := [], body := [] }).run app { headers := [], body := [] } 3

def oneHeaderProcess (v : Bytes) : Process (List SendEvent) :=
  ({ pump := some [], app := some (oneHeader v).events } : Process (List SendEvent)).run
    (sending (oneHeader v).events false).onProcess ([.app, .app] ++ List.replicate 2 .consumer)

theorem header_values_iff_accent :
    let h : Proto.Header := ⟨"x-name".toList, .value ['é']⟩
    ScopeCarries .ascii [] h [] [0xC3, 0xA9] ∧
      Emits [("x-name".toList, [0xC3, 0xA9])] (oneHeaderHandle [0xC3, 0xA9])
        (oneHeaderProcess [0xC3, 0xA9]) ∧
      decodeHeader 32 (pushFields (headerFields h)) = .ok (some ("x-name".toList, ['é'])) := by
  intro h
  obtain ⟨hscope, hemits, hdecodes⟩ := @header_values_iff 32 (by decide)
  refine ⟨?_, ?_, ?_⟩
  · exact (hscope .ascii [] h [] _ rfl).mpr ⟨by decide, .inl ⟨_, rfl⟩⟩
  · exact (hemits .ascii (sending (oneHeader [0xC3, 0xA9]).events false)
      { headers := [], body := [] } false [] _ [("x-name".toList, [0xC3, 0xA9])]
      (oneHeader [0xC3, 0xA9]) 3 [.app, .app] 2 rfl rfl (by decide) (by decide)
      (by decide)).mpr ⟨by decide, by decide, by decide⟩
  · exact (hdecodes h ['é'] rfl (by decide)).mpr ⟨by decide, .inl ⟨_, rfl⟩⟩

/-- A value in `raw_value` is read as an empty one, in the scope and by the filter.
An app's value that is no UTF-8 ends both calls with an exception. -/
theorem raw_value_lost :
    let h : Proto.Header := ⟨"x-name".toList, .rawValue [0x61]⟩
    h.Carries (utf8Encode ['a']) ∧
      (buildScope .ascii { headers := [h] }).headers = [(utf8Encode "x-name".toList, [])] ∧
      ¬ ScopeCarries .ascii [] h [] (utf8Encode ['a']) ∧
      decodeHeader 32 (pushFields (headerFields h)) = .ok (some ("x-name".toList, [])) ∧
      (oneHeaderHandle [0xFF]).outcome = some .raised ∧
      (oneHeaderProcess [0xFF]).ended = some .raised ∧ (oneHeaderProcess [0xFF]).yielded = [] ∧
      ¬ Emits [("x-name".toList, [0xFF])] (oneHeaderHandle [0xFF]) (oneHeaderProcess [0xFF]) := by
  intro h
  have hscope : (buildScope .ascii { headers := [h] }).headers =
      [(utf8Encode "x-name".toList, [])] := by decide
  have hended : (oneHeaderProcess [0xFF]).ended = some .raised := by decide
  refine ⟨rfl, hscope, ?_, by decide, by decide, hended, by decide, ?_⟩
  · intro hcarries
    have hlist := hscope.symm.trans hcarries
    exact absurd hlist (by decide)
  · rintro ⟨-, hstop, -⟩
    rw [hended] at hstop
    cases hstop

end Grpcgi
