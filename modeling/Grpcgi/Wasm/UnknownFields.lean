import Grpcgi.Protobuf.Extension
import Grpcgi.Wasm.HttpDecode
import Mathlib.Data.List.Forall2
import Mathlib.Data.List.TakeWhile

/-!
# Unknown fields in a response

The two decoders of `wasm/http-bridge/src/lib.rs` have a table of their own for the
values they skip. That of `decode_http_response` knows every wire type. That of
`decode_header` ends the loop at a value of fixed width, and what stands after it in
the `Header` is not read. So unknown fields do no harm where no key and no value stands
after one of fixed width, and in headers as serializers write them only there.
-/

namespace Grpcgi.Wasm.HttpBridge

open Protobuf (Extends Field Value lens parse varints)

/-- The wire types that `decode_header` moves past. -/
def moves (f : Field) : Bool := f.value.wireType == 0 || f.value.wireType == 2

def beforeFixed (fields : List Field) : List Field := fields.takeWhile moves

/-- The fields from the first one of fixed width on. -/
def afterFixed (fields : List Field) : List Field := fields.dropWhile moves

/-- No key and no value stands behind a field of fixed width. -/
def KeysFirst (fields : List Field) : Prop :=
  lens 1 (afterFixed fields) = [] ∧ lens 2 (afterFixed fields) = []

instance (fields : List Field) : Decidable (KeysFirst fields) := instDecidableAnd

/-- The header that fields make up in proto3: the last key and the last value. One with
an empty key is none. -/
def headerOf (fields : List Field) : Option (Str × Str) :=
  let key := fromUtf8Lossy (Protobuf.bytesField 1 fields)
  if key.isEmpty then none else some (key, fromUtf8Lossy (Protobuf.bytesField 2 fields))

/-! ## `decode_header` on every message -/

theorem decodeHeaderField_fixed {bits : Nat} {msg : Bytes} {i : Nat} {f : Field} {size : Nat}
    (header : Str × Str) (h : Protobuf.readField (msg.drop i) = some (f, size))
    (hi : i ≤ msg.length) (hwidth : msg.length < 2 ^ bits) (hfixed : moves f = false) :
    decodeHeaderField bits msg i header = .ok .done := by
  obtain ⟨tag, n, m, ⟨hread, hwire, hfield, hvalue, -, hstart, -⟩, rfl⟩ := readField_at h hi hwidth
  have hstops : tag.toNat % 8 ≠ 0 ∧ tag.toNat % 8 ≠ 2 := by
    simp only [moves] at hfixed
    obtain ⟨-, v, hkind, -⟩ | ⟨hone, -, -⟩ | ⟨-, len, k, -, hkind, -⟩ | ⟨hfive, -, -⟩ :=
      Protobuf.readValue_cases hvalue
    · rw [hkind] at hfixed
      cases hfixed
    · omega
    · rw [hkind] at hfixed
      cases hfixed
    · omega
  obtain ⟨hzero, htwo⟩ := hstops
  simp only [decodeHeaderField, readVarintAt_eq hi, ok_bind, hread, hstart, hwire, hfield]
  rw [if_neg (fun hand => htwo hand.2), if_neg (fun hand => htwo hand.2), if_neg hzero,
    if_neg htwo]
  rfl

theorem foldl_setLen (fields : List Field) (header : Str × Str) :
    fields.foldl setLen header =
      (((lens 1 fields).map fromUtf8Lossy).getLastD header.1,
        ((lens 2 fields).map fromUtf8Lossy).getLastD header.2) := by
  induction fields generalizing header with
  | nil => rfl
  | cons f fields ih =>
      obtain ⟨number, value, hnumber⟩ := f
      rw [List.foldl_cons, ih]
      cases value with
      | len data =>
          have hnat : (UInt64.ofNat number).toNat = number := by
            have hbounded := hnumber.2
            rw [UInt64.toNat_ofNat']
            omega
          have hkey : UInt64.ofNat number = 1 ↔ number = 1 := by
            rw [← UInt64.toNat_inj, hnat]
            rfl
          have hval : UInt64.ofNat number = 2 ↔ number = 2 := by
            rw [← UInt64.toNat_inj, hnat]
            rfl
          simp only [setLen, setField, hkey, hval, Protobuf.lens_cons_len]
          by_cases hone : number = 1
          · rw [if_pos hone, if_pos hone, if_neg (by omega), List.map_cons, List.getLastD_cons]
          · by_cases htwo : number = 2
            · rw [if_neg hone, if_pos htwo, if_neg hone, if_pos htwo, List.map_cons,
                List.getLastD_cons]
            · rw [if_neg hone, if_neg htwo, if_neg hone, if_neg htwo]
      | varint v => rfl
      | i64 v => rfl
      | i32 v => rfl

/-- `decode_header` reads the fields before the first one of fixed width. -/
theorem decodeHeader_cut {bits : Nat} {msg : Bytes} {fields : List Field}
    (h : parse msg = some fields) (hwidth : msg.length < 2 ^ bits) :
    decodeHeader bits msg = .ok (headerOf (beforeFixed fields)) := by
  have hloop : ∀ fuel header, msg.length - 0 < fuel → decodeHeaderLoop bits msg fuel 0 header =
      .ok (some ((beforeFixed fields).foldl setLen header)) := by
    apply Protobuf.parse_induct h
      (motive := fun i fields => ∀ fuel header, msg.length - i < fuel →
        decodeHeaderLoop bits msg fuel i header =
          .ok (some ((beforeFixed fields).foldl setLen header)))
    · intro i hend fuel header hfuel
      obtain ⟨fuel, rfl⟩ : ∃ k, fuel = k + 1 := ⟨fuel - 1, by omega⟩
      rw [decodeHeaderLoop, if_neg (Nat.not_lt_of_le hend)]
      rfl
    · intro i f size rest hlt hread hmore hsize ih fuel header hfuel
      obtain ⟨fuel, rfl⟩ : ∃ k, fuel = k + 1 := ⟨fuel - 1, by omega⟩
      rw [decodeHeaderLoop, if_pos hlt]
      cases hmoves : moves f with
      | true =>
          have hskips : f.value.wireType = 0 ∨ f.value.wireType = 2 := by
            simpa [moves] using hmoves
          rw [decodeHeaderField_read header hread (Nat.le_of_lt hlt) hwidth hskips, beforeFixed,
            List.takeWhile_cons_of_pos hmoves]
          exact ih fuel (setLen header f) (by omega)
      | false =>
          have hstop : ¬ moves f = true := by
            rw [hmoves]
            exact Bool.false_ne_true
          rw [decodeHeaderField_fixed header hread (Nat.le_of_lt hlt) hwidth hmoves, beforeFixed,
            List.takeWhile_cons_of_neg hstop]
          rfl
  have hlossy (datas : List Bytes) :
      (datas.map fromUtf8Lossy).getLastD [] = fromUtf8Lossy (datas.getLastD []) := by
    cases datas.eq_nil_or_concat with
    | inl hnil =>
        subst hnil
        rfl
    | inr hconcat =>
        obtain ⟨before, last, rfl⟩ := hconcat
        simp
  have hall := hloop (msg.length + 1) ([], []) (by omega)
  rw [foldl_setLen, hlossy, hlossy] at hall
  rw [decodeHeader, hall]
  rfl

/-! ## `decode_http_response` on every message -/

/-- A `Header`, read up to its first field of fixed width. -/
def cutHeader (data : Bytes) : Option (Str × Str) :=
  match parse data with
  | none => none
  | some header => headerOf (beforeFixed header)

def cutHeaders (fields : List Field) : List (Str × Str) := (lens 2 fields).filterMap cutHeader

def HeadersParse (fields : List Field) : Prop :=
  ∀ f ∈ fields, ∀ data, f.number = 2 → f.value = .len data → (parse data).isSome

/-- The fold over the fields, one component at a time. -/
theorem foldl_set (header : Bytes → Option (Str × Str)) (fields : List Field)
    (response : Response) :
    fields.foldl (Response.set header) response =
      { status := ((varints 1 fields).map UInt64.toUInt32).getLastD response.status
        headers := response.headers ++ (lens 2 fields).filterMap header
        body := response.body ++ (lens 3 fields).flatten } := by
  induction fields generalizing response with
  | nil => simp [varints, lens]
  | cons f fields ih =>
      obtain ⟨number, value, hnumber⟩ := f
      rw [List.foldl_cons, ih]
      cases value with
      | varint v =>
          simp only [Response.set, Protobuf.varints_cons_varint, Protobuf.lens_cons_varint]
          by_cases hone : number = 1
          · rw [if_pos hone, if_pos hone, List.map_cons, List.getLastD_cons]
          · rw [if_neg hone, if_neg hone]
      | len data =>
          simp only [Response.set, Protobuf.lens_cons_len, Protobuf.varints_cons_len]
          by_cases htwo : number = 2
          · rw [if_pos htwo, if_pos htwo, if_neg (by omega), List.filterMap_cons]
            cases header data <;> simp
          · by_cases hthree : number = 3
            · rw [if_neg htwo, if_pos hthree, if_neg htwo, if_pos hthree, List.flatten_cons,
                ← List.append_assoc]
            · rw [if_neg htwo, if_neg hthree, if_neg htwo, if_neg hthree]
      | i64 v => rfl
      | i32 v => rfl

theorem decodeHttpResponse_cut {bits : Nat} {raw : Bytes} {fields : List Field}
    (h : parse raw = some fields) (hheaders : HeadersParse fields)
    (hwidth : raw.length < 2 ^ bits) :
    decodeHttpResponse bits raw = .ok (some
      { status := ((varints 1 fields).map UInt64.toUInt32).getLastD 200
        headers := cutHeaders fields
        body := (lens 3 fields).flatten }) := by
  have hreads : ∀ f ∈ fields, ReadsHeader bits cutHeader f := by
    intro f hf data hnumber hvalue
    obtain ⟨inner, hinner⟩ := Option.isSome_iff_exists.mp (hheaders f hf data hnumber hvalue)
    have hlength := Protobuf.length_data_parse h f hf data hvalue
    rw [decodeHeader_cut hinner (by omega)]
    simp only [cutHeader, hinner]
  rw [decodeHttpResponse_parse h hwidth hreads, foldl_set]
  rfl

/-! ## Insertions -/

def headerNumbers : List Nat := [1, 2, 3]

def responseNumbers : List Nat := [1, 2, 3, 4]

/-- What insertions inside the messages of a response do to its fields. The decoder
does not look into the trailers, so anything may happen there. -/
inductive Grown : Field → Field → Prop where
  | same {f : Field} (h : f.number ≠ 2 ∨ f.value.wireType ≠ 2) : Grown f f
  | header {data more : Bytes} {fields extended : List Field} (h : parse data = some fields)
      (hmore : parse more = some extended)
      (hextends : Extends (· = ·) (· ∉ headerNumbers) fields extended) :
      Grown ⟨2, .len data, Protobuf.isNumber_two⟩ ⟨2, .len more, Protobuf.isNumber_two⟩
  | trailers {data more : Bytes} :
      Grown ⟨4, .len data, Protobuf.isNumber_four⟩ ⟨4, .len more, Protobuf.isNumber_four⟩

/-- The message with unknown fields is the message without them, for a reader that
takes fields by number. -/
theorem Grown.same_or {f g : Field} (h : Grown f g) {number : Nat} (hnumber : number ≠ 2)
    (htrailers : number ≠ 4) : g = f ∨ f.number ≠ number ∧ g.number ≠ number := by
  cases h with
  | same h => exact .inl rfl
  | header => exact .inr ⟨hnumber.symm, hnumber.symm⟩
  | trailers => exact .inr ⟨htrailers.symm, htrailers.symm⟩

theorem headersParse_of_extends {fields extended : List Field}
    (h : Extends Grown (· ∉ responseNumbers) fields extended) :
    HeadersParse fields ∧ HeadersParse extended := by
  induction h with
  | nil =>
      refine ⟨?_, ?_⟩ <;>
      · intro f hf
        cases hf
  | keep hgrown _ ih =>
      refine ⟨List.forall_mem_cons.mpr ⟨?_, ih.1⟩, List.forall_mem_cons.mpr ⟨?_, ih.2⟩⟩
      · intro data hnumber hvalue
        cases hgrown with
        | same h =>
            rw [hvalue] at h
            obtain h | h := h
            · exact absurd hnumber h
            · exact absurd rfl h
        | header h _ _ =>
            cases hvalue
            rw [h]
            rfl
        | trailers => cases hnumber
      · intro data hnumber hvalue
        cases hgrown with
        | same h =>
            rw [hvalue] at h
            obtain h | h := h
            · exact absurd hnumber h
            · exact absurd rfl h
        | header _ hmore _ =>
            cases hvalue
            rw [hmore]
            rfl
        | trailers => cases hnumber
  | insert hnew _ ih =>
      refine ⟨ih.1, List.forall_mem_cons.mpr ⟨?_, ih.2⟩⟩
      intro data hnumber
      rw [hnumber] at hnew
      exact absurd (by decide) hnew

/-- Unknown fields do not change the header that proto3 reads. -/
theorem headerOf_extends {fields extended : List Field}
    (h : Extends (· = ·) (· ∉ headerNumbers) fields extended) :
    headerOf extended = headerOf fields := by
  have hkey : Protobuf.bytesField 1 extended = Protobuf.bytesField 1 fields :=
    congrArg (·.getLastD []) (h.lens_eq (fun _ _ heq => .inl heq.symm) (by decide))
  have hval : Protobuf.bytesField 2 extended = Protobuf.bytesField 2 fields :=
    congrArg (·.getLastD []) (h.lens_eq (fun _ _ heq => .inl heq.symm) (by decide))
  rw [headerOf, headerOf, hkey, hval]

/-! ## Headers that are read whole -/

theorem lens_beforeFixed (number : Nat) (fields : List Field) :
    lens number fields = lens number (beforeFixed fields) ++ lens number (afterFixed fields) := by
  rw [← Protobuf.lens_append, beforeFixed, afterFixed, List.takeWhile_append_dropWhile]

/-- Nothing that counts is cut off. -/
theorem KeysFirst.headerOf_beforeFixed {fields : List Field} (h : KeysFirst fields) :
    headerOf (beforeFixed fields) = headerOf fields := by
  have hkey := lens_beforeFixed 1 fields
  have hval := lens_beforeFixed 2 fields
  rw [h.1, List.append_nil] at hkey
  rw [h.2, List.append_nil] at hval
  rw [headerOf, headerOf, Protobuf.bytesField, Protobuf.bytesField, Protobuf.bytesField,
    Protobuf.bytesField, hkey, hval]

/-- The field that stands behind none of fixed width does so without the insertions too. -/
theorem lens_afterFixed_of_extends {fields extended : List Field} {number : Nat}
    (h : Extends (· = ·) (· ∉ headerNumbers) fields extended)
    (hknown : ¬ number ∉ headerNumbers) (hnone : lens number (afterFixed extended) = []) :
    lens number (afterFixed fields) = [] := by
  induction h with
  | nil => rfl
  | @keep f g fields extended hsame hrest ih =>
      subst hsame
      rw [afterFixed, List.dropWhile_cons] at hnone ⊢
      by_cases hmoves : moves f = true
      · rw [if_pos hmoves] at hnone ⊢
        exact ih hnone
      · rw [if_neg hmoves] at hnone ⊢
        rw [← hnone]
        exact ((Extends.keep rfl hrest).lens_eq (fun _ _ heq => .inl heq.symm) hknown).symm
  | @insert g fields extended hnew hrest ih =>
      rw [afterFixed, List.dropWhile_cons] at hnone
      by_cases hmoves : moves g = true
      · rw [if_pos hmoves] at hnone
        exact ih hnone
      · rw [if_neg hmoves,
          (Extends.insert hnew hrest).lens_eq (fun _ _ heq => .inl heq.symm) hknown,
          lens_beforeFixed, List.append_eq_nil_iff] at hnone
        exact hnone.2

theorem KeysFirst.of_extends {fields extended : List Field}
    (h : Extends (· = ·) (· ∉ headerNumbers) fields extended) (hkeys : KeysFirst extended) :
    KeysFirst fields :=
  ⟨lens_afterFixed_of_extends h (by decide) hkeys.1,
    lens_afterFixed_of_extends h (by decide) hkeys.2⟩

/-- A header as serializers write it: one key, at most one value, neither of them empty, and
neither behind a field of fixed width. -/
structure Canonical (header : List Field) : Prop where
  key : ∃ key, lens 1 header = [key] ∧ key ≠ []
  value : lens 2 header = [] ∨ ∃ value, lens 2 header = [value] ∧ value ≠ []
  keysFirst : KeysFirst header

theorem headerOf_key {fields : List Field} {key : Bytes} (hkey : lens 1 fields = [key])
    (hne : key ≠ []) :
    headerOf fields = some (fromUtf8Lossy key, fromUtf8Lossy (Protobuf.bytesField 2 fields)) := by
  have hlast : Protobuf.bytesField 1 fields = key := by
    rw [Protobuf.bytesField, hkey]
    rfl
  have hfull : ¬ (fromUtf8Lossy key).isEmpty = true :=
    mt List.isEmpty_iff.mp (fromUtf8Lossy_ne_nil hne)
  simp only [headerOf, hlast, if_neg hfull]

theorem headerOf_no_key {fields : List Field} (hkey : lens 1 fields = []) :
    headerOf fields = none := by
  have hlast : Protobuf.bytesField 1 fields = [] := by
    rw [Protobuf.bytesField, hkey]
    rfl
  rw [headerOf, hlast]
  rfl

theorem Canonical.headerOf_isSome {header : List Field} (h : Canonical header) :
    (headerOf header).isSome := by
  obtain ⟨key, hkey, hne⟩ := h.key
  rw [headerOf_key hkey hne]
  rfl

/-- Of one datum, either it is in front or there is none in front. -/
theorem nil_of_append_eq_singleton {front back : List Bytes} {data : Bytes}
    (h : front ++ back = [data]) : front = [] ∨ back = [] := by
  obtain ⟨hfront, -⟩ | ⟨-, hback⟩ := List.append_eq_singleton_iff.mp h
  · exact .inl hfront
  · exact .inr hback

/-- If such a header with unknown fields is read as it was, no key and no value has come to
stand behind a field of fixed width. -/
theorem Canonical.keysFirst_of_eq {header extended : List Field} (h : Canonical header)
    (hextends : Extends (· = ·) (· ∉ headerNumbers) header extended)
    (heq : headerOf (beforeFixed extended) = headerOf header) : KeysFirst extended := by
  have hkeys : lens 1 extended = lens 1 header :=
    hextends.lens_eq (fun _ _ heq => .inl heq.symm) (by decide)
  have hvalues : lens 2 extended = lens 2 header :=
    hextends.lens_eq (fun _ _ heq => .inl heq.symm) (by decide)
  rw [lens_beforeFixed] at hkeys hvalues
  obtain ⟨key, hkey, hne⟩ := h.key
  rw [hkey] at hkeys
  rw [headerOf_key hkey hne] at heq
  obtain hfront | hback := nil_of_append_eq_singleton hkeys
  · -- the key would be lost, and the header with it
    rw [headerOf_no_key hfront] at heq
    cases heq
  · refine ⟨hback, ?_⟩
    rw [hback, List.append_nil] at hkeys
    rw [headerOf_key hkeys hne] at heq
    have hvalue := (Prod.mk.inj (Option.some.inj heq)).2
    rw [Protobuf.bytesField, Protobuf.bytesField] at hvalue
    obtain hnone | ⟨value, hval, hvalne⟩ := h.value
    · rw [hnone, List.append_eq_nil_iff] at hvalues
      exact hvalues.2
    · rw [hval] at hvalues hvalue
      obtain hfront | hback := nil_of_append_eq_singleton hvalues
      · rw [hfront] at hvalue
        exact absurd hvalue.symm (fromUtf8Lossy_ne_nil hvalne)
      · exact hback

/-! ## The headers of both messages -/

def HeaderGrown (data more : Bytes) : Prop :=
  ∃ header extended, parse data = some header ∧ parse more = some extended ∧
    Extends (· = ·) (· ∉ headerNumbers) header extended

theorem headers_grown {fields extended : List Field}
    (h : Extends Grown (· ∉ responseNumbers) fields extended) :
    List.Forall₂ HeaderGrown (lens 2 fields) (lens 2 extended) := by
  induction h with
  | nil => exact .nil
  | @keep f g fields extended hgrown hrest ih =>
      cases hgrown with
      | same hsame =>
          rw [Protobuf.lens_cons_skip 2 fields hsame, Protobuf.lens_cons_skip 2 extended hsame]
          exact ih
      | header hparse hmore hinner =>
          rw [Protobuf.lens_cons_len, Protobuf.lens_cons_len, if_pos rfl, if_pos rfl]
          exact .cons ⟨_, _, hparse, hmore, hinner⟩ ih
      | trailers =>
          rw [Protobuf.lens_cons_len, Protobuf.lens_cons_len, if_neg (by decide),
            if_neg (by decide)]
          exact ih
  | @insert g fields extended hnew hrest ih =>
      have hother : g.number ≠ 2 := by
        intro hnumber
        rw [hnumber] at hnew
        exact absurd (by decide) hnew
      rw [Protobuf.lens_cons_skip 2 extended (.inl hother)]
      exact ih

/-- In no `Header` of the response a key or a value stands behind a field of fixed width. -/
def HeadersKeysFirst (fields : List Field) : Prop :=
  ∀ data ∈ lens 2 fields, ∀ header, parse data = some header → KeysFirst header

def HeadersCanonical (fields : List Field) : Prop :=
  ∀ data ∈ lens 2 fields, ∀ header, parse data = some header → Canonical header

theorem cutHeaders_of_keysFirst {fields extended : List Field}
    (h : Extends Grown (· ∉ responseNumbers) fields extended)
    (hkeys : HeadersKeysFirst extended) : cutHeaders extended = cutHeaders fields := by
  have hgrown := headers_grown h
  rw [HeadersKeysFirst] at hkeys
  rw [cutHeaders, cutHeaders]
  generalize lens 2 fields = datas at hgrown ⊢
  generalize lens 2 extended = mores at hgrown hkeys ⊢
  induction hgrown with
  | nil => rfl
  | @cons data more datas mores hgrown hrest ih =>
      obtain ⟨hfirst, hkeys⟩ := List.forall_mem_cons.mp hkeys
      obtain ⟨header, longer, hparse, hmore, hinner⟩ := hgrown
      have hlonger := hfirst longer hmore
      have hsame : cutHeader more = cutHeader data := by
        simp only [cutHeader, hparse, hmore]
        rw [hlonger.headerOf_beforeFixed, (hlonger.of_extends hinner).headerOf_beforeFixed,
          headerOf_extends hinner]
      rw [List.filterMap_cons, List.filterMap_cons, hsame, ih hkeys]

theorem exists_of_mem_right {α β : Type*} {R : α → β → Prop} {xs : List α} {ys : List β}
    (h : List.Forall₂ R xs ys) {y : β} (hy : y ∈ ys) : ∃ x ∈ xs, R x y := by
  induction h with
  | nil => cases hy
  | cons hxy _ ih =>
      obtain rfl | hy := List.mem_cons.mp hy
      · exact ⟨_, List.mem_cons_self, hxy⟩
      · obtain ⟨x, hx, hxy⟩ := ih hy
        exact ⟨x, List.mem_cons_of_mem _ hx, hxy⟩

/-- Where nothing is dropped on one side, equal results come from equal places. -/
theorem forall₂_of_filterMap_eq {α β : Type*} {R : α → α → Prop} {pick : α → Option β}
    {xs ys : List α} (h : List.Forall₂ R xs ys) (hsome : ∀ x ∈ xs, (pick x).isSome)
    (heq : ys.filterMap pick = xs.filterMap pick) :
    List.Forall₂ (fun x y => R x y ∧ pick y = pick x) xs ys := by
  induction h with
  | nil => exact .nil
  | @cons x y xs ys hxy hrest ih =>
      obtain ⟨hx, hxs⟩ := List.forall_mem_cons.mp hsome
      obtain ⟨a, ha⟩ := Option.isSome_iff_exists.mp hx
      rw [List.filterMap_cons_some ha] at heq
      cases hy : pick y with
      | none =>
          -- then the rest would have to make up for it
          rw [List.filterMap_cons_none hy] at heq
          have hlength := congrArg List.length heq
          have hfull : (xs.filterMap pick).length = xs.length :=
            List.filterMap_length_eq_length.mpr hxs
          have hshort := List.length_filterMap_le pick ys
          rw [List.length_cons, hfull, hrest.length_eq] at hlength
          omega
      | some b =>
          rw [List.filterMap_cons_some hy] at heq
          obtain ⟨hab, heq⟩ := List.cons.inj heq
          exact .cons ⟨hxy, by rw [hy, ha, hab]⟩ (ih hxs heq)

theorem keysFirst_of_cutHeaders {fields extended : List Field}
    (h : Extends Grown (· ∉ responseNumbers) fields extended) (hcanonical : HeadersCanonical fields)
    (heq : cutHeaders extended = cutHeaders fields) : HeadersKeysFirst extended := by
  have hgrown := headers_grown h
  have hread {data : Bytes} {header : List Field} (hparse : parse data = some header)
      (hcanon : Canonical header) : cutHeader data = headerOf header := by
    simp only [cutHeader, hparse]
    exact hcanon.keysFirst.headerOf_beforeFixed
  have hsome : ∀ data ∈ lens 2 fields, (cutHeader data).isSome := by
    intro data hmem
    obtain ⟨more, -, header, longer, hparse, -⟩ := exists_of_mem_right hgrown.flip hmem
    have hcanon := hcanonical data hmem header hparse
    rw [hread hparse hcanon]
    exact hcanon.headerOf_isSome
  have hpairs := forall₂_of_filterMap_eq hgrown hsome heq
  intro more hmore extended' hparse'
  obtain ⟨data, hdata, ⟨header, longer, hparse, hlonger, hinner⟩, hsame⟩ :=
    exists_of_mem_right hpairs hmore
  obtain rfl := Option.some.inj (hlonger.symm.trans hparse')
  have hcanon := hcanonical data hdata header hparse
  rw [hread hparse hcanon] at hsame
  simp only [cutHeader, hlonger] at hsame
  exact hcanon.keysFirst_of_eq hinner hsame

/-! ## Both messages -/

def DecodedAlike (bits : Nat) (raw more : Bytes) : Prop :=
  ∃ response, decodeHttpResponse bits raw = .ok (some response) ∧
    decodeHttpResponse bits more = .ok (some response)

theorem decodedAlike_iff {bits : Nat} {raw more : Bytes} {fields extended : List Field}
    (h : parse raw = some fields) (hmore : parse more = some extended)
    (hextends : Extends Grown (· ∉ responseNumbers) fields extended)
    (hwidth : raw.length < 2 ^ bits) (hwidth' : more.length < 2 ^ bits) :
    DecodedAlike bits raw more ↔ cutHeaders extended = cutHeaders fields := by
  obtain ⟨hparse, hparse'⟩ := headersParse_of_extends hextends
  have hstatus : varints 1 extended = varints 1 fields :=
    hextends.varints_eq (fun _ _ hgrown => hgrown.same_or (by decide) (by decide)) (by decide)
  have hbody : lens 3 extended = lens 3 fields :=
    hextends.lens_eq (fun _ _ hgrown => hgrown.same_or (by decide) (by decide)) (by decide)
  rw [DecodedAlike, decodeHttpResponse_cut h hparse hwidth,
    decodeHttpResponse_cut hmore hparse' hwidth', hstatus, hbody]
  constructor
  · rintro ⟨response, hfirst, hsecond⟩
    rw [← hfirst] at hsecond
    injection hsecond with hsome
    injection hsome with heq
    injection heq
  · intro heq
    exact ⟨_, rfl, by rw [heq]⟩

/-- The response is decoded alike with and without unknown fields if with them no key and no
value of a header stands behind a field of fixed width; and only then, if the headers are as
serializers write them. -/
theorem unknownFields_ignored {bits : Nat} {raw more : Bytes} {fields extended : List Field}
    (h : parse raw = some fields) (hmore : parse more = some extended)
    (hextends : Extends Grown (· ∉ responseNumbers) fields extended)
    (hwidth : raw.length < 2 ^ bits) (hwidth' : more.length < 2 ^ bits) :
    (HeadersKeysFirst extended → DecodedAlike bits raw more) ∧
      (HeadersCanonical fields → DecodedAlike bits raw more → HeadersKeysFirst extended) := by
  rw [decodedAlike_iff h hmore hextends hwidth hwidth']
  exact ⟨cutHeaders_of_keysFirst hextends, keysFirst_of_cutHeaders hextends⟩

def plainHeader : List Field :=
  [⟨1, .len (utf8Encode "a".toList), Protobuf.isNumber_one⟩,
    ⟨2, .len (utf8Encode "b".toList), Protobuf.isNumber_two⟩]

def responseWith (header : List Field) : List Field :=
  [⟨2, .len (Protobuf.encode header), Protobuf.isNumber_two⟩]

/-- An unknown number in front of the key and an unknown fixed-width field in front of
the header do no harm. -/
theorem unknownFields_ignored_skipped :
    let header := (⟨16, .varint 1, Protobuf.isNumber_sixteen⟩ : Field) :: plainHeader
    let more := (⟨16, .i64 1, Protobuf.isNumber_sixteen⟩ : Field) :: responseWith header
    DecodedAlike 32 (Protobuf.encode (responseWith plainHeader)) (Protobuf.encode more) := by
  intro header more
  have hheader : Extends (· = ·) (· ∉ headerNumbers) plainHeader header :=
    .insert (by decide) (.refl (fun _ => rfl) plainHeader)
  have hmore : Extends Grown (· ∉ responseNumbers) (responseWith plainHeader) more :=
    .insert (by decide) (.keep (.header (by decide) (by decide) hheader) .nil)
  have hkeys : HeadersKeysFirst more := by
    intro data hdata found hfound
    obtain rfl := List.mem_singleton.mp hdata
    have hparse : parse (Protobuf.encode header) = some header := by decide
    obtain rfl := Option.some.inj (hparse.symm.trans hfound)
    decide
  exact (@unknownFields_ignored 32 (Protobuf.encode (responseWith plainHeader))
    (Protobuf.encode more) _ _ (by decide) (by decide) hmore (by decide) (by decide)).1 hkeys

/-- An unknown field of fixed width in front of the key: the header is lost. -/
theorem header_lost :
    let header := (⟨16, .i32 1, Protobuf.isNumber_sixteen⟩ : Field) :: plainHeader
    Protobuf.parse (Protobuf.encode (responseWith plainHeader)) = some (responseWith plainHeader) ∧
      Protobuf.parse (Protobuf.encode (responseWith header)) = some (responseWith header) ∧
      Extends Grown (· ∉ responseNumbers) (responseWith plainHeader) (responseWith header) ∧
      decodeHttpResponse 32 (Protobuf.encode (responseWith plainHeader)) =
        .ok (some { headers := [("a".toList, "b".toList)] }) ∧
      decodeHttpResponse 32 (Protobuf.encode (responseWith header)) = .ok (some {}) := by
  intro header
  have hheader : Extends (· = ·) (· ∉ headerNumbers) plainHeader header :=
    .insert (by decide) (.refl (fun _ => rfl) plainHeader)
  exact ⟨by decide, by decide, .keep (.header (by decide) (by decide) hheader) .nil, by decide,
    by decide⟩

end Grpcgi.Wasm.HttpBridge
