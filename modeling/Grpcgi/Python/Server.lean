import Grpcgi.Python.AsgiScope

/-!
# The server entry of a scope

`_parse_authority` against the authorities of RFC 3986: a host and perhaps a port,
which may be empty. The function splits at the last colon and lets `int()` decide, so
that a bracketed address keeps its colons, but an empty port keeps its colon as well.
-/

namespace Grpcgi.Python

/-- The host of an authority. A name may be any text without a colon, and an address in
brackets any text at all. -/
inductive Host where
  | name (s : Str) (plain : ':' ∉ s)
  | literal (address : Str)
  deriving DecidableEq, Repr

def Host.text : Host → Str
  | name s _ => s
  | literal address => '[' :: (address ++ [']'])

def IsDecimal (s : Str) : Prop := ∀ c ∈ s, c.isDigit = true

instance (s : Str) : Decidable (IsDecimal s) := List.decidableBAll _ s

/-- An authority without userinfo. -/
structure Authority where
  host : Host
  /-- what follows the colon after the host, if there is one -/
  port : Option Str
  port_digits : ∀ digits, port = some digits → IsDecimal digits
  deriving DecidableEq, Repr

namespace Authority

def portText (a : Authority) : Str :=
  match a.port with
  | none => []
  | some digits => ':' :: digits

def text (a : Authority) : Str := a.host.text ++ a.portText

end Authority

/-- The number that decimal digits write. -/
def decimalNat (digits : Str) : Nat := digits.foldl (fun n c => n * 10 + (c.toNat - '0'.toNat)) 0

/-- The port that a scheme stands for. -/
def defaultPort (scheme : Str) : Option Int :=
  if scheme = "https".toList ∨ scheme = "wss".toList then some 443
  else if scheme = "http".toList ∨ scheme = "ws".toList then some 80
  else none

/-- The server entry is the host and the port of the authority. Nothing is asked of the
port where it is not given and the scheme has no default. -/
structure ServerRead (a : Authority) (scheme : Str) (server : Str × Int) : Prop where
  host : server.1 = a.host.text
  given : ∀ digits, a.port = some digits → digits ≠ [] → server.2 = decimalNat digits
  missing : a.port = none ∨ a.port = some [] → ∀ port, defaultPort scheme = some port →
    server.2 = port

/-- The authorities that the code reads right: the port is written, in no more digits than
`int()` takes, or it is absent, the host is not empty and the default is not 443. -/
def ServerKnown (a : Authority) (scheme : Str) : Prop :=
  match a.port with
  | some digits => digits ≠ [] ∧ digits.length ≤ pyMaxStrDigits
  | none => a.host.text ≠ [] ∧ defaultPort scheme ≠ some 443

/-! ## `int()` on a port -/

section Int

variable (u : Unicode)

theorem digit_bounds {c : Char} (h : c.isDigit = true) : 48 ≤ c.toNat ∧ c.toNat ≤ 57 := by
  simp only [Char.isDigit, Bool.and_eq_true, decide_eq_true_eq] at h
  exact h

theorem decimal_digit {c : Char} (h : c.isDigit = true) :
    u.decimal c = some (c.toNat - '0'.toNat) := by
  have hascii : c.val < 128 := Nat.lt_of_le_of_lt (digit_bounds h).2 (by decide)
  rw [u.decimal_ascii c hascii, if_pos h]

/-- Digits alone are a number. -/
theorem pyDigits_digits {digits : Str} (hdigits : IsDecimal digits) (hne : digits ≠ [])
    (acc : Nat) : pyDigits u acc digits =
      some (digits.foldl (fun n c => n * 10 + (c.toNat - '0'.toNat)) acc) := by
  have hunderscore : ¬ '_'.isDigit = true := by decide
  fun_induction pyDigits u acc digits with
  | case1 acc => exact absurd rfl hne
  | case2 acc c =>
      rw [decimal_digit u (hdigits c List.mem_cons_self)]
      rfl
  | case3 acc c d s hnone => exact absurd (hdigits '_' (by simp)) hunderscore
  | case4 acc c s v hv => exact absurd (hdigits '_' (by simp)) hunderscore
  | case5 acc c d s v hv hd ih => exact absurd (hdigits '_' (by simp)) hunderscore
  | case6 acc c s hne hplain hnone =>
      rw [decimal_digit u (hdigits c List.mem_cons_self)] at hnone
      cases hnone
  | case7 acc c s hmore hplain v hv ih =>
      rw [decimal_digit u (hdigits c List.mem_cons_self)] at hv
      cases hv
      exact ih (fun c hc => hdigits c (List.mem_cons_of_mem _ hc)) hmore

/-- A text that ends with a bracket is no number. -/
theorem pyDigits_bracket {s : Str} (h : s.getLast? = some ']') (acc : Nat) :
    pyDigits u acc s = none := by
  have hbracket : u.decimal ']' = none := u.decimal_ascii ']' (by decide)
  fun_induction pyDigits u acc s with
  | case1 acc => cases h
  | case2 acc c =>
      have hlast : c = ']' := Option.some.inj h
      rw [hlast, hbracket]
      rfl
  | case3 acc c d s hnone => rfl
  | case4 acc c s v hv => rfl
  | case5 acc c d s v hv hd ih =>
      rw [List.getLast?_cons_cons, List.getLast?_cons_cons] at h
      exact ih h
  | case6 acc c s hne hplain hnone => rfl
  | case7 acc c s hne hplain v hv ih =>
      obtain ⟨d, s, rfl⟩ := List.exists_cons_of_ne_nil hne
      rw [List.getLast?_cons_cons] at h
      exact ih h

/-- A digit is no space, sign or separator. -/
theorem digit_plain {c : Char} (h : c.isDigit = true) :
    isWhiteSpace c = false ∧ c ≠ '_' ∧ c ≠ '-' ∧ c ≠ '+' ∧ c ≠ ':' := by
  obtain ⟨n, hn, rfl⟩ : ∃ n, n < 10 ∧ c = Char.ofNat (48 + n) := by
    obtain ⟨hlow, hhigh⟩ := digit_bounds h
    refine ⟨c.toNat - 48, by omega, ?_⟩
    rw [show 48 + (c.toNat - 48) = c.toNat by omega, Char.ofNat_toNat]
  revert n
  decide

/-- `int()` of digits. -/
theorem pyInt_digits {digits : Str} (hdigits : IsDecimal digits) :
    pyInt u digits =
      if digits ≠ [] ∧ digits.length ≤ pyMaxStrDigits then some (decimalNat digits : Int)
      else none := by
  have htrim : trimBoth isWhiteSpace digits = digits :=
    trimBoth_eq_self fun c hc => (digit_plain (hdigits c hc)).1
  have hnatural : pyInt u digits = (pyNatural u digits).map fun n => (n : Int) := by
    rw [pyInt, htrim]
    split
    · exact absurd rfl (digit_plain (hdigits '-' List.mem_cons_self)).2.2.1
    · exact absurd rfl (digit_plain (hdigits '+' List.mem_cons_self)).2.2.2.1
    · rfl
  have hfilter : digits.filter (· ≠ '_') = digits :=
    List.filter_eq_self.mpr fun c hc => by simpa using (digit_plain (hdigits c hc)).2.1
  rw [hnatural, pyNatural, hfilter]
  by_cases hne : digits = []
  · subst hne
    rfl
  · by_cases hlength : digits.length ≤ pyMaxStrDigits
    · rw [if_neg (Nat.not_lt_of_le hlength), if_pos ⟨hne, hlength⟩, pyDigits_digits u hdigits hne]
      rfl
    · rw [if_pos (Nat.lt_of_not_le hlength), if_neg (fun h => hlength h.2)]
      rfl

theorem pyNatural_bracket {s : Str} (h : s.getLast? = some ']') : pyNatural u s = none := by
  rw [pyNatural, pyDigits_bracket u h]
  split <;> rfl

/-- A sign in front leaves the bracket at the end. -/
theorem getLast?_signed {c : Char} {s : Str} (hc : c ≠ ']') (h : (c :: s).getLast? = some ']') :
    s.getLast? = some ']' := by
  cases s with
  | nil => exact absurd (Option.some.inj h) hc
  | cons d s =>
      rw [List.getLast?_cons_cons] at h
      exact h

/-- Trimming leaves the bracket at the end. -/
theorem trimBoth_bracket (s : Str) : ∃ t, trimBoth isWhiteSpace (s ++ [']']) = t ++ [']'] := by
  have hstays : ¬ isWhiteSpace ']' = true := by decide
  have hfront : (s ++ [']']).dropWhile isWhiteSpace = s.dropWhile isWhiteSpace ++ [']'] := by
    rw [List.dropWhile_append, List.dropWhile_cons_of_neg hstays]
    split
    · rename_i hempty
      rw [List.isEmpty_iff.mp hempty]
      rfl
    · rfl
  refine ⟨s.dropWhile isWhiteSpace, ?_⟩
  rw [trimBoth, hfront, List.reverse_append, List.reverse_singleton, List.singleton_append,
    List.dropWhile_cons_of_neg hstays, List.reverse_cons, List.reverse_reverse]

/-- `int()` of the end of a bracketed address. -/
theorem pyInt_bracket (s : Str) : pyInt u (s ++ [']']) = none := by
  obtain ⟨t, htrim⟩ := trimBoth_bracket s
  have hlast : (t ++ [']']).getLast? = some ']' := List.getLast?_concat
  rw [pyInt, htrim]
  split
  · rename_i rest heq
    rw [heq] at hlast
    rw [pyNatural_bracket u (getLast?_signed (by decide) hlast)]
    rfl
  · rename_i rest heq
    rw [heq] at hlast
    rw [pyNatural_bracket u (getLast?_signed (by decide) hlast)]
    rfl
  · rw [pyNatural_bracket u hlast]
    rfl

end Int

/-! ## `_parse_authority` -/

theorem splitLast_append {sep : Char} {t : Str} (h : sep ∉ t) (s : Str) :
    splitLast sep (s ++ sep :: t) = some (s, t) := by
  have hreverse : (s ++ sep :: t).reverse = t.reverse ++ sep :: s.reverse := by simp
  rw [splitLast, hreverse, splitFirst_append (by simpa using h)]
  simp

theorem splitLast_eq_none {sep : Char} {s : Str} (h : sep ∉ s) : splitLast sep s = none := by
  rw [splitLast, splitFirst_eq_none (by simpa using h)]
  rfl

section Parse

variable (u : Unicode) {a : Authority}

/-- A port that is there: the host before the colon, if `int()` takes the port. -/
theorem parseAuthority_port {digits : Str} (h : a.port = some digits) :
    parseAuthority u a.text =
      if digits ≠ [] ∧ digits.length ≤ pyMaxStrDigits then (a.host.text, (decimalNat digits : Int))
      else (a.text, 80) := by
  have hdigits := a.port_digits digits h
  have htext : a.text = a.host.text ++ ':' :: digits := by
    rw [Authority.text, Authority.portText, h]
  have hplain : ':' ∉ digits := fun hmem => (digit_plain (hdigits ':' hmem)).2.2.2.2 rfl
  have hne : a.text ≠ [] := by
    rw [htext]
    exact List.append_ne_nil_of_right_ne_nil _ (List.cons_ne_nil _ _)
  rw [parseAuthority, if_neg hne, htext, splitLast_append hplain]
  simp only [pyInt_digits u hdigits]
  split_ifs <;> rfl

/-- The last colon of an address, if it has one. -/
theorem splitLast_literal (address : Str) :
    splitLast ':' (Host.literal address).text = none ∨
      ∃ s t, splitLast ':' (Host.literal address).text = some (s, t ++ [']']) := by
  have hopen : ':' ≠ '[' := by decide
  have hclose : ':' ≠ ']' := by decide
  by_cases hmem : ':' ∈ address
  · obtain ⟨t, s, hsplit, hlast⟩ := List.eq_append_cons_of_mem (List.mem_reverse.mpr hmem)
    have haddress : address = s.reverse ++ ':' :: t.reverse := by
      rw [← List.reverse_reverse address, hsplit]
      simp
    refine .inr ⟨'[' :: s.reverse, t.reverse, ?_⟩
    have htext : (Host.literal address).text =
        ('[' :: s.reverse) ++ ':' :: (t.reverse ++ [']']) := by
      rw [Host.text, haddress]
      simp
    rw [htext]
    exact splitLast_append (by simp [hlast, hclose]) _
  · refine .inl (splitLast_eq_none ?_)
    simp [Host.text, hmem, hopen, hclose]

/-- Without a port nothing is split off, not even from an address in brackets. -/
theorem parseAuthority_host (h : a.port = none) :
    parseAuthority u a.text =
      if a.host.text = [] then ("localhost".toList, 80) else (a.host.text, 80) := by
  have htext : a.text = a.host.text := by
    rw [Authority.text, Authority.portText, h]
    exact List.append_nil _
  rw [parseAuthority, htext]
  split
  · rfl
  · cases hhost : a.host with
    | name s plain => rw [Host.text, splitLast_eq_none plain]
    | literal address =>
        obtain hnone | ⟨s, t, hsome⟩ := splitLast_literal address
        · rw [hnone]
        · rw [hsome]
          simp only [pyInt_bracket u t]

/-- What `_parse_authority` makes of an authority is right exactly for the known ones. -/
theorem serverRead_iff (scheme : Str) :
    ServerRead a scheme (parseAuthority u a.text) ↔ ServerKnown a scheme := by
  cases hport : a.port with
  | some digits =>
      rw [parseAuthority_port u hport]
      simp only [ServerKnown, hport]
      by_cases hfits : digits ≠ [] ∧ digits.length ≤ pyMaxStrDigits
      · rw [if_pos hfits]
        refine ⟨fun _ => hfits, fun _ => ⟨rfl, ?_, ?_⟩⟩
        · intro digits' hdigits' _
          rw [hport] at hdigits'
          cases hdigits'
          rfl
        · rintro (hnone | hempty) <;> simp_all
      · rw [if_neg hfits]
        refine ⟨fun h => ?_, fun h => absurd h hfits⟩
        -- the whole authority is taken for the host, and it is longer by the port
        have hlength := congrArg List.length h.host
        simp only [Authority.text, Authority.portText, hport, List.length_append,
          List.length_cons] at hlength
        omega
  | none =>
      rw [parseAuthority_host u hport]
      simp only [ServerKnown, hport]
      by_cases hempty : a.host.text = []
      · rw [if_pos hempty]
        refine ⟨fun h => ?_, fun h => absurd hempty h.1⟩
        have hhost := h.host
        rw [hempty] at hhost
        exact absurd hhost (by decide)
      · rw [if_neg hempty]
        constructor
        · intro h
          refine ⟨hempty, fun hdefault => ?_⟩
          have hport : (80 : Int) = 443 := h.missing (.inl hport) 443 hdefault
          exact absurd hport (by decide)
        · rintro ⟨-, hdefault⟩
          refine ⟨rfl, ?_, ?_⟩
          · intro digits hdigits
            rw [hport] at hdigits
            cases hdigits
          · intro _ port hscheme
            simp only [defaultPort] at hdefault hscheme
            split_ifs at hdefault hscheme <;> simp_all

end Parse

/-! ## The entry in the scopes -/

/-- A loop that keeps the last value of an entry in one of its variables. -/
theorem foldl_getLastD {α σ β : Type*} {step : σ → α → σ} {read : σ → β} {pick : α → Option β}
    (h : ∀ s e, read (step s e) = (pick e).getD (read s)) (entries : List α) (s : σ) :
    read (entries.foldl step s) = (entries.filterMap pick).getLastD (read s) := by
  induction entries generalizing s with
  | nil => rfl
  | cons e entries ih =>
      rw [List.foldl_cons, ih, h, List.filterMap_cons]
      cases pick e with
      | none => rfl
      | some v => rw [Option.getD_some, List.getLastD_cons]

/-- The scheme of a request. -/
def Http.requestScheme (headers : List Proto.Header) : Str :=
  (valuesOf Proto.Header.key Proto.Header.value (· == ":scheme".toList) headers).getLastD
    "http".toList

/-- The values of `:authority` in a request. -/
def Http.authorities (headers : List Proto.Header) : List Str :=
  valuesOf Proto.Header.key Proto.Header.value (· == ":authority".toList) headers

/-- The scheme of an upgrade. -/
def Ws.requestScheme (u : Unicode) (metadata : List (Str × Str)) : Str :=
  (valuesOf Prod.fst Prod.snd (u.lower · == metaScheme) metadata).getLastD "ws".toList

/-- The values of the authority key in the metadata of an upgrade. -/
def Ws.authorities (u : Unicode) (metadata : List (Str × Str)) : List Str :=
  valuesOf Prod.fst Prod.snd (u.lower · == metaAuthority) metadata

theorem Fields.setTarget_authority (f : Fields) (value : Str) :
    (f.setTarget value).authority = f.authority := by
  simp only [setTarget]
  split <;> rfl

/-- `http.py` parses the last `:authority`. -/
theorem Http.scope_server (u : Unicode) {headersMsg : Proto.RequestHeaders} {authority : Str}
    (h : (authorities headersMsg.headers).getLast? = some authority) :
    (buildScope u headersMsg).server = parseAuthority u authority := by
  have hstep (f : Fields) (e : Proto.Header) : (addHeader f e).authority =
      (if e.key == ":authority".toList then some e.value else none).getD f.authority := by
    simp only [addHeader, beq_iff_eq]
    split_ifs <;> simp_all [Fields.setTarget_authority, Fields.append]
  have hlast : (headersMsg.headers.foldl addHeader { scheme := "http".toList }).authority =
      (authorities headersMsg.headers).getLastD [] := foldl_getLastD hstep _ _
  rw [List.getLastD_eq_getLast?, h] at hlast
  exact congrArg (parseAuthority u) hlast

/-- `ws.py` parses the last value of the authority key. -/
theorem Ws.scope_server (u : Unicode) {metadata : List (Str × Str)} {authority : Str}
    (h : (authorities u metadata).getLast? = some authority) :
    (buildScope u metadata).server = parseAuthority u authority := by
  have hstep (f : Fields) (e : Str × Str) : (addMetadata u f e).authority =
      (if u.lower e.1 == metaAuthority then some e.2 else none).getD f.authority := by
    have hpath : metaAuthority ≠ metaPath := by decide
    have hscheme : metaAuthority ≠ metaScheme := by decide
    obtain ⟨key, value⟩ := e
    simp only [addMetadata, beq_iff_eq]
    split_ifs <;> simp_all [Fields.setTarget_authority, Fields.append]
  have hlast : (metadata.foldl (addMetadata u) initial).authority =
      (authorities u metadata).getLastD [] := foldl_getLastD hstep _ _
  rw [List.getLastD_eq_getLast?, h] at hlast
  exact congrArg (parseAuthority u) hlast

/-- Both bridges give the server of an authority exactly when its port is written, in at
most 4300 digits, or when it is absent, the host is there and the scheme is not secure. -/
theorem server_asgi_iff (u : Unicode) (a : Authority) {headersMsg : Proto.RequestHeaders}
    {metadata : List (Str × Str)}
    (hheaders : (Http.authorities headersMsg.headers).getLast? = some a.text)
    (hmetadata : (Ws.authorities u metadata).getLast? = some a.text) :
    (ServerRead a (Http.requestScheme headersMsg.headers) (Http.buildScope u headersMsg).server ↔
        ServerKnown a (Http.requestScheme headersMsg.headers)) ∧
      (ServerRead a (Ws.requestScheme u metadata) (Ws.buildScope u metadata).server ↔
        ServerKnown a (Ws.requestScheme u metadata)) := by
  rw [Http.scope_server u hheaders, Ws.scope_server u hmetadata]
  exact ⟨serverRead_iff u _, serverRead_iff u _⟩

/-- `[::1]:8443` -/
def loopback : Authority where
  host := .literal "::1".toList
  port := some "8443".toList
  port_digits := by
    rintro digits ⟨⟩
    decide

/-- The port of an address in brackets is read, whatever the scheme. -/
theorem server_asgi_iff_loopback :
    let headersMsg : Proto.RequestHeaders :=
      { headers := [⟨":scheme".toList, .value "https".toList⟩,
          ⟨":authority".toList, .value loopback.text⟩] }
    let metadata := [("grpcgi-authority".toList, loopback.text)]
    ServerRead loopback (Http.requestScheme headersMsg.headers)
        (Http.buildScope .ascii headersMsg).server ∧
      ServerRead loopback (Ws.requestScheme .ascii metadata)
        (Ws.buildScope .ascii metadata).server := by
  intro headersMsg metadata
  have hknown (scheme : Str) : ServerKnown loopback scheme := by
    show "8443".toList ≠ [] ∧ "8443".toList.length ≤ pyMaxStrDigits
    decide
  obtain ⟨hhttp, hws⟩ :=
    @server_asgi_iff .ascii loopback headersMsg metadata (by decide) (by decide)
  exact ⟨hhttp.mpr (hknown _), hws.mpr (hknown _)⟩

/-- `example.com` -/
def withoutPort : Authority where
  host := .name "example.com".toList (by decide)
  port := none
  port_digits := by
    rintro digits ⟨⟩

/-- `example.com:` -/
def emptyPort : Authority where
  host := .name "example.com".toList (by decide)
  port := some []
  port_digits := by
    rintro digits ⟨⟩ c hc
    cases hc

/-- The default of `https` and of `wss` is 80, and an empty port leaves its colon in the
host. -/
theorem server_not_asgi :
    let headersMsg (scheme : Str) (a : Authority) : Proto.RequestHeaders :=
      { headers := [⟨":scheme".toList, .value scheme⟩, ⟨":authority".toList, .value a.text⟩] }
    let metadata (scheme : Str) (a : Authority) :=
      [("grpcgi-scheme".toList, scheme), ("grpcgi-authority".toList, a.text)]
    (Http.buildScope .ascii (headersMsg "https".toList withoutPort)).server =
        ("example.com".toList, 80) ∧
      (Ws.buildScope .ascii (metadata "wss".toList withoutPort)).server =
        ("example.com".toList, 80) ∧
      ¬ ServerRead withoutPort "https".toList ("example.com".toList, 80) ∧
      ¬ ServerRead withoutPort "wss".toList ("example.com".toList, 80) ∧
      (Http.buildScope .ascii (headersMsg "http".toList emptyPort)).server =
        ("example.com:".toList, 80) ∧
      (Ws.buildScope .ascii (metadata "ws".toList emptyPort)).server =
        ("example.com:".toList, 80) ∧
      ¬ ServerRead emptyPort "http".toList ("example.com:".toList, 80) := by
  have hsecure (scheme : Str) (hdefault : defaultPort scheme = some 443) :
      ¬ ServerRead withoutPort scheme ("example.com".toList, 80) := by
    intro h
    have hport : (80 : Int) = 443 := h.missing (.inl rfl) 443 hdefault
    exact absurd hport (by decide)
  refine ⟨by decide, by decide, hsecure _ (by decide), hsecure _ (by decide), by decide, by decide,
    ?_⟩
  intro h
  exact absurd h.host (by decide)

end Grpcgi.Python
