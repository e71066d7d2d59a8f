import Grpcgi.Wasm.Filter
import Mathlib.Data.List.TakeWhile

/-!
# The upgrade request in the WASM filter

`on_downstream_data` collects the chunks of the upgrade request until the empty line is
there, and then parses the request line and the header lines. Where the client's bytes are
cut makes no difference: the search runs over everything collected so far.
-/

namespace Grpcgi.Wasm

/-! ## Requests -/

/-- A character of a header name: `tchar` of HTTP/1.1. -/
def isTchar (c : Char) : Bool := c.isAlphanum || "!#$%&'*+-.^_`|~".toList.contains c

def isPrintable (c : Char) : Bool := 0x20 ≤ c.val && c.val ≤ 0x7E

/-- Optional white space: spaces and tabs. -/
def isOws (c : Char) : Bool := c == ' ' || c == '\t'

/-- A header line. The value has no space at its ends, where it would belong to the
optional white space. -/
structure HeaderLine where
  name : Str
  before : Str
  value : Str
  after : Str
  name_token : name ≠ [] ∧ name.all isTchar
  before_ows : before.all isOws
  value_printable : value.all isPrintable
  value_trimmed : value.head? ≠ some ' ' ∧ value.getLast? ≠ some ' '
  after_ows : after.all isOws

namespace HeaderLine

/-- The line without its end. -/
def text (line : HeaderLine) : Str :=
  line.name ++ ':' :: (line.before ++ line.value ++ line.after)

/-- The header it carries. -/
def header (line : HeaderLine) : Str × Str := (asciiLower line.name, line.value)

end HeaderLine

/-- The head of an upgrade request. Its method and target are any text that fits between
the spaces of the request line. -/
structure UpgradeRequest where
  method : Str
  target : Str
  lines : List HeaderLine
  method_plain : ' ' ∉ method ∧ '\n' ∉ method
  target_plain : ' ' ∉ target ∧ '\n' ∉ target

namespace UpgradeRequest

variable (r : UpgradeRequest)

def requestLine : Str := r.method ++ ' ' :: (r.target ++ ' ' :: "HTTP/1.1".toList)

/-- The lines of the block, up to the empty one. -/
def texts : List Str := r.requestLine :: r.lines.map HeaderLine.text

/-- Every line with its CRLF, and the empty line. -/
def block : Bytes :=
  r.texts.flatMap (fun line => utf8Encode line ++ [0x0D, 0x0A]) ++ [0x0D, 0x0A]

/-- What the filter is to keep of it. -/
def headers : List (Str × Str) :=
  (":method".toList, r.method) :: (":path".toList, r.target) :: r.lines.map HeaderLine.header

end UpgradeRequest

/-! ## The search for the empty line -/

theorem crlfCrlf_prefix {b : UInt8} {bs : Bytes} (h : bs.head? ≠ some 0x0A) :
    crlfCrlf.isPrefixOf (b :: bs) = false := by
  cases bs with
  | nil =>
      show ((0x0D == b) && false) = false
      exact Bool.and_false _
  | cons c bs =>
      have hc : (0x0A == c) = false := by
        rw [beq_eq_false_iff_ne]
        rintro rfl
        exact h rfl
      show ((0x0D == b) && ((0x0A == c) && List.isPrefixOf [0x0D, 0x0A] bs)) = false
      rw [hc, Bool.false_and, Bool.and_false]

/-- The pattern does not begin inside a line. -/
theorem findSubsequence_line {line : Bytes} (h : 0x0A ∉ line) (next : Bytes) :
    findSubsequence crlfCrlf (line ++ 0x0D :: next) =
      (findSubsequence crlfCrlf (0x0D :: next)).map (· + line.length) := by
  induction line with
  | nil =>
      show _ = (findSubsequence crlfCrlf (0x0D :: next)).map id
      rw [Option.map_id]
      rfl
  | cons b line ih =>
      obtain ⟨hb, hline⟩ := not_or.mp (mt List.mem_cons.mpr h)
      have hhead : (line ++ 0x0D :: next).head? ≠ some 0x0A := by
        cases line with
        | nil => exact fun heq => absurd (Option.some.inj heq) (by decide)
        | cons c line =>
            intro heq
            exact hline (Option.some.inj heq ▸ List.mem_cons_self)
      rw [List.cons_append, findSubsequence, crlfCrlf_prefix hhead, if_neg Bool.false_ne_true,
        ih hline, Option.map_map]
      rfl

/-- Nor at the end of a line that another one follows. -/
theorem findSubsequence_crlf {next : Bytes} (h : ¬ [0x0D, 0x0A] <+: next) :
    findSubsequence crlfCrlf (0x0D :: 0x0A :: next) =
      (findSubsequence crlfCrlf next).map (· + 2) := by
  have hfirst : crlfCrlf.isPrefixOf (0x0D :: 0x0A :: next) = false := by
    rw [Bool.eq_false_iff]
    intro hprefix
    exact h (List.isPrefixOf_iff_prefix.mp hprefix)
  have hsecond : crlfCrlf.isPrefixOf (0x0A :: next) = false := rfl
  rw [findSubsequence, hfirst, if_neg Bool.false_ne_true, findSubsequence, hsecond,
    if_neg Bool.false_ne_true, Option.map_map]
  rfl

/-- In a block of lines the pattern begins with the CRLF of the last one. -/
theorem findSubsequence_lines {line : Bytes} {lines : List Bytes} (hline : 0x0A ∉ line)
    (hlines : ∀ l ∈ lines, l ≠ [] ∧ 0x0A ∉ l) (rest : Bytes) :
    findSubsequence crlfCrlf
        ((line :: lines).flatMap (fun l => l ++ [0x0D, 0x0A]) ++ [0x0D, 0x0A] ++ rest) =
      some (((line :: lines).flatMap fun l => l ++ [0x0D, 0x0A]).length - 2) := by
  induction lines generalizing line with
  | nil =>
      have hbytes : [line].flatMap (fun l => l ++ [0x0D, 0x0A]) ++ [0x0D, 0x0A] ++ rest =
          line ++ 0x0D :: 0x0A :: 0x0D :: 0x0A :: rest := by simp
      have hhere : findSubsequence crlfCrlf (0x0D :: 0x0A :: 0x0D :: 0x0A :: rest) = some 0 := rfl
      rw [hbytes, findSubsequence_line hline, hhere]
      simp
  | cons next lines ih =>
      obtain ⟨⟨hne, hnext⟩, hlines⟩ := List.forall_mem_cons.mp hlines
      have hih := ih hnext hlines
      generalize hblock : (next :: lines).flatMap (fun l => l ++ [0x0D, 0x0A]) = block at hih
      have hbytes : (line :: next :: lines).flatMap (fun l => l ++ [0x0D, 0x0A]) ++
          [0x0D, 0x0A] ++ rest = line ++ 0x0D :: 0x0A :: (block ++ [0x0D, 0x0A] ++ rest) := by
        rw [List.flatMap_cons, hblock]
        simp
      have hlong : 2 ≤ block.length := by
        rw [← hblock, List.flatMap_cons]
        simp only [List.length_append, List.length_cons, List.length_nil]
        omega
      have hstart : ¬ [0x0D, 0x0A] <+: block ++ [0x0D, 0x0A] ++ rest := by
        obtain ⟨b, next, rfl⟩ := List.exists_cons_of_ne_nil hne
        rw [← hblock, List.flatMap_cons]
        cases next with
        | nil => simp
        | cons c next =>
            have hc : (0x0A : UInt8) ≠ c :=
              fun heq => hnext (List.mem_cons_of_mem _ (heq ▸ List.mem_cons_self))
            simp [hc]
      have hlength : ((line :: next :: lines).flatMap fun l => l ++ [0x0D, 0x0A]).length =
          line.length + 2 + block.length := by
        rw [List.flatMap_cons, hblock, List.length_append, List.length_append]
        rfl
      rw [hbytes, findSubsequence_line hline, findSubsequence_crlf hstart, hih, hlength]
      simp only [Option.map_some, Option.some.injEq]
      omega

/-! ## Characters -/

/-- A line feed among the bytes of a text is one of its characters: the bytes of the others
are all 0x80 or above. -/
theorem mem_utf8Encode_lf {s : Str} (h : 0x0A ∈ utf8Encode s) : '\n' ∈ s := by
  obtain ⟨c, hc, hbyte⟩ := List.mem_flatMap.mp h
  have hsize : c.val.toNat < 2 ^ 32 := c.val.toNat_lt
  have hlf : c.val.toNat = 10 := by
    simp only [String.utf8EncodeChar] at hbyte
    split_ifs at hbyte <;>
      simp only [List.mem_cons, List.not_mem_nil, or_false, ← UInt8.toNat_inj,
        UInt8.toNat_ofNat'] at hbyte <;>
      simp only [UInt8.reduceToNat] at hbyte <;> omega
  have heq : c = '\n' := Char.ext (UInt32.toNat_inj.mp hlf)
  rw [← heq]
  exact hc

/-- What holds of the ASCII characters one by one. -/
theorem ascii_forall {P : Char → Prop} (h : ∀ n < 128, P (Char.ofNat n)) {c : Char}
    (hc : c.val < 128) : P c := by
  have hlt : c.toNat < 128 := UInt32.lt_iff_toNat_lt.mp hc
  rw [← Char.ofNat_toNat c]
  exact h c.toNat hlt

theorem isTchar_ascii {c : Char} (h : isTchar c) : c.val < 128 := by
  rw [isTchar, Bool.or_eq_true] at h
  cases h with
  | inl halnum =>
      have hranges : c.isAlphanum = (decide (65 ≤ c.val.toNat ∧ c.val.toNat ≤ 90) ||
          (decide (97 ≤ c.val.toNat) && decide (c.val.toNat ≤ 122)) ||
          (decide (48 ≤ c.val.toNat) && decide (c.val.toNat ≤ 57))) := rfl
      simp only [hranges, Bool.or_eq_true, Bool.and_eq_true, decide_eq_true_eq] at halnum
      rw [UInt32.lt_iff_toNat_lt]
      show c.val.toNat < 128
      omega
  | inr hmark =>
      have hmarks : IsAscii "!#$%&'*+-.^_`|~".toList := by decide
      exact hmarks c (List.contains_iff_mem.mp hmark)

/-- A character of a name is no colon, line feed or white space. -/
theorem isTchar_plain {c : Char} (h : isTchar c) : c ≠ ':' ∧ c ≠ '\n' ∧ isWhiteSpace c = false :=
  ascii_forall (P := fun c => isTchar c → c ≠ ':' ∧ c ≠ '\n' ∧ isWhiteSpace c = false)
    (by decide +kernel) (isTchar_ascii h) h

theorem isPrintable_plain {c : Char} (h : isPrintable c) :
    c ≠ '\n' ∧ (isWhiteSpace c → c = ' ') := by
  have hascii : c.val < 128 := by
    rw [isPrintable, Bool.and_eq_true, decide_eq_true_eq, decide_eq_true_eq] at h
    have hle := UInt32.le_iff_toNat_le.mp h.2
    rw [UInt32.lt_iff_toNat_lt]
    exact Nat.lt_of_le_of_lt hle (by decide)
  exact ascii_forall (P := fun c => isPrintable c → c ≠ '\n' ∧ (isWhiteSpace c → c = ' '))
    (by decide +kernel) hascii h

theorem isOws_plain {c : Char} (h : isOws c) : c ≠ '\n' ∧ isWhiteSpace c := by
  rw [isOws, Bool.or_eq_true, beq_iff_eq, beq_iff_eq] at h
  obtain rfl | rfl := h
  · decide
  · decide

/-! ## The lines of the block -/

theorem splitCrlf_line {line : Str} (h : '\n' ∉ line) (rest : Str) :
    splitCrlf (line ++ '\r' :: '\n' :: rest) = line :: splitCrlf rest := by
  induction line with
  | nil => rfl
  | cons c line ih =>
      obtain ⟨hc, hline⟩ := not_or.mp (mt List.mem_cons.mpr h)
      rw [List.cons_append, splitCrlf, ih hline]
      intro s hcr hs
      cases line with
      | nil => cases hs
      | cons d line =>
          have hd : d = '\n' := (List.cons.inj hs).1
          exact hline (hd ▸ List.mem_cons_self)

theorem splitCrlf_lines {lines : List Str} (h : ∀ line ∈ lines, '\n' ∉ line) (rest : Str) :
    splitCrlf (lines.flatMap (fun line => line ++ "\r\n".toList) ++ rest) =
      lines ++ splitCrlf rest := by
  induction lines with
  | nil => rfl
  | cons line lines ih =>
      obtain ⟨hline, hlines⟩ := List.forall_mem_cons.mp h
      have hsplit := splitCrlf_line hline
        (lines.flatMap (fun line => line ++ "\r\n".toList) ++ rest)
      rw [List.flatMap_cons, List.append_assoc, List.append_assoc]
      rw [ih hlines] at hsplit
      exact hsplit

/-! ## A header line -/

/-- What is stripped off around a text that begins and ends with something else. -/
theorem trimBoth_around {p : Char → Bool} {before value after : Str}
    (hbefore : ∀ c ∈ before, p c) (hafter : ∀ c ∈ after, p c)
    (hfirst : ∀ c, value.head? = some c → p c = false)
    (hlast : ∀ c, value.getLast? = some c → p c = false) :
    trimBoth p (before ++ value ++ after) = value := by
  have hstop {t : Str} (ht : ∀ c, t.head? = some c → p c = false) : t.dropWhile p = t := by
    cases t with
    | nil => rfl
    | cons c t => exact List.dropWhile_cons_of_neg (by rw [ht c rfl]; exact Bool.false_ne_true)
  have hback : (after.reverse ++ value.reverse).dropWhile p = value.reverse := by
    rw [List.dropWhile_append_of_pos fun c hc => hafter c (List.mem_reverse.mp hc)]
    apply hstop
    intro c hc
    rw [List.head?_reverse] at hc
    exact hlast c hc
  rw [trimBoth, List.append_assoc, List.dropWhile_append_of_pos hbefore]
  cases value with
  | nil =>
      have hgone : after.dropWhile p = [] := List.dropWhile_eq_nil_iff.mpr hafter
      rw [List.nil_append, hgone]
      rfl
  | cons c value =>
      have hfront : ((c :: value) ++ after).dropWhile p = (c :: value) ++ after :=
        hstop fun d hd => hfirst d hd
      rw [hfront, List.reverse_append, hback, List.reverse_reverse]

namespace HeaderLine

variable (line : HeaderLine)

theorem colon_not_mem_name : ':' ∉ line.name :=
  fun hmem => (isTchar_plain (List.all_eq_true.mp line.name_token.2 _ hmem)).1 rfl

theorem value_ends {c : Char} (hmem : c ∈ line.value) (hspace : c ≠ ' ') :
    isWhiteSpace c = false := by
  rw [Bool.eq_false_iff]
  intro hwhite
  exact hspace ((isPrintable_plain (List.all_eq_true.mp line.value_printable c hmem)).2 hwhite)

/-- The text after the colon is the value once it is trimmed. -/
theorem trimBoth_value :
    trimBoth isWhiteSpace (line.before ++ line.value ++ line.after) = line.value := by
  apply trimBoth_around
  · exact fun c hc => (isOws_plain (List.all_eq_true.mp line.before_ows c hc)).2
  · exact fun c hc => (isOws_plain (List.all_eq_true.mp line.after_ows c hc)).2
  · intro c hc
    apply line.value_ends (List.mem_of_head? hc)
    rintro rfl
    exact line.value_trimmed.1 hc
  · intro c hc
    apply line.value_ends (List.mem_of_getLast? hc)
    rintro rfl
    exact line.value_trimmed.2 hc

theorem lf_not_mem : '\n' ∉ line.text := by
  intro hmem
  simp only [text, List.mem_append, List.mem_cons] at hmem
  obtain hname | hcolon | (hbefore | hvalue) | hafter := hmem
  · exact (isTchar_plain (List.all_eq_true.mp line.name_token.2 _ hname)).2.1 rfl
  · exact absurd hcolon (by decide)
  · exact (isOws_plain (List.all_eq_true.mp line.before_ows _ hbefore)).1 rfl
  · exact (isPrintable_plain (List.all_eq_true.mp line.value_printable _ hvalue)).1 rfl
  · exact (isOws_plain (List.all_eq_true.mp line.after_ows _ hafter)).1 rfl

theorem text_ne_nil : line.text ≠ [] := List.append_ne_nil_of_left_ne_nil line.name_token.1 _

end HeaderLine

theorem headerFields_lines (u : Unicode) (lines : List HeaderLine) (more : List Str) :
    headerFields u (lines.map HeaderLine.text ++ [] :: more) = lines.map HeaderLine.header := by
  induction lines with
  | nil => rfl
  | cons line lines ih =>
      have hsplit : splitFirst ':' line.text =
          some (line.name, line.before ++ line.value ++ line.after) :=
        splitFirst_append line.colon_not_mem_name _
      have hname : u.lower (trimBoth isWhiteSpace line.name) = asciiLower line.name := by
        have htoken := List.all_eq_true.mp line.name_token.2
        rw [trimBoth_eq_self fun c hc => (isTchar_plain (htoken c hc)).2.2]
        exact u.lower_ascii _ fun c hc => isTchar_ascii (htoken c hc)
      rw [List.map_cons, List.cons_append, headerFields, if_neg line.text_ne_nil, hsplit]
      simp only [hname, line.trimBoth_value, ih]
      rfl

/-! ## The whole block -/

namespace UpgradeRequest

variable (r : UpgradeRequest)

theorem lf_not_mem : ∀ line ∈ r.texts, '\n' ∉ line := by
  intro line hline hmem
  obtain rfl | hline := List.mem_cons.mp hline
  · simp only [requestLine, List.mem_append, List.mem_cons] at hmem
    obtain hmethod | hspace | htarget | hspace | hversion := hmem
    · exact r.method_plain.2 hmethod
    · exact absurd hspace (by decide)
    · exact r.target_plain.2 htarget
    · exact absurd hspace (by decide)
    · exact absurd hversion (by decide)
  · obtain ⟨header, _, rfl⟩ := List.mem_map.mp hline
    exact header.lf_not_mem hmem

theorem splitn_requestLine :
    splitn ' ' 3 r.requestLine = [r.method, r.target, "HTTP/1.1".toList] := by
  rw [splitn, requestLine, splitFirst_append r.method_plain.1]
  simp only [splitn, splitFirst_append r.target_plain.1]

/-- The block is the text of its lines. -/
theorem block_eq : r.block =
    utf8Encode (r.texts.flatMap (fun line => line ++ "\r\n".toList) ++ "\r\n".toList) := by
  rw [block, utf8Encode, List.flatMap_append, List.flatMap_assoc]
  simp only [List.flatMap_append]
  rfl

/-- The parser gets the request line and the headers back. -/
theorem parse_block (u : Unicode) : parseHttpRequestHeaders u r.block = r.headers := by
  have hlines : splitCrlf (r.texts.flatMap (fun line => line ++ "\r\n".toList) ++
      "\r\n".toList) = r.requestLine :: (r.lines.map HeaderLine.text ++ [[], []]) :=
    splitCrlf_lines r.lf_not_mem _
  rw [parseHttpRequestHeaders, r.block_eq, utf8Decode_utf8Encode]
  simp only [hlines, r.splitn_requestLine, headerFields_lines]
  rfl

/-- The first empty line is the end of the block. -/
theorem find_block (rest : Bytes) :
    ∃ stop, findSubsequence crlfCrlf (r.block ++ rest) = some stop ∧
      stop + 4 = r.block.length := by
  have hrequest : 0x0A ∉ utf8Encode r.requestLine :=
    fun hmem => r.lf_not_mem _ List.mem_cons_self (mem_utf8Encode_lf hmem)
  have hlines : ∀ line ∈ r.lines.map fun line => utf8Encode line.text,
      line ≠ [] ∧ 0x0A ∉ line := by
    intro line hline
    obtain ⟨header, _, rfl⟩ := List.mem_map.mp hline
    refine ⟨?_, fun hmem => header.lf_not_mem (mem_utf8Encode_lf hmem)⟩
    intro hnil
    have htext : header.text = [] := utf8Encode_injective hnil
    exact header.text_ne_nil htext
  have hblock : r.block = (utf8Encode r.requestLine :: r.lines.map fun line =>
      utf8Encode line.text).flatMap (fun line => line ++ [0x0D, 0x0A]) ++ [0x0D, 0x0A] := by
    rw [block, texts, List.flatMap_cons, List.flatMap_cons, List.flatMap_map, List.flatMap_map]
  have hfind := findSubsequence_lines hrequest hlines rest
  rw [← hblock] at hfind
  refine ⟨_, hfind, ?_⟩
  rw [hblock, List.length_append, List.flatMap_cons, List.length_append, List.length_append]
  simp only [List.length_cons, List.length_nil]
  omega

end UpgradeRequest

/-! ## The chunks -/

/-- The filter with the bytes collected so far. -/
def capture (env : Env) (bytes : Bytes) (s : WsBridgeStream) : WsBridgeStream :=
  match findSubsequence crlfCrlf bytes with
  | none => { s with downstreamBuf := bytes }
  | some stop =>
    { s with
      upgradeHeaders := parseHttpRequestHeaders env.unicode (bytes.take (stop + 4))
      downstreamBuf := []
      state := .awaitingUpgradeResponse }

/-- The callbacks of the chunks. -/
def downstreamChunks (chunks : List Bytes) : List Event :=
  chunks.map fun chunk => .downstreamData (some chunk)

section Run

variable (env : Env) {s : WsBridgeStream}

theorem step_captured (hstate : s.state = .awaitingUpgradeResponse) (chunk : Bytes) :
    step env s (.downstreamData (some chunk)) = s := by
  simp only [step, onDownstreamData, hstate]
  exact ite_self s

theorem run_captured (hstate : s.state = .awaitingUpgradeResponse) (chunks : List Bytes) :
    run env s (downstreamChunks chunks) = s := by
  induction chunks with
  | nil => rfl
  | cons chunk chunks ih =>
      show run env (step env s (.downstreamData (some chunk))) (downstreamChunks chunks) = s
      rw [step_captured env hstate]
      exact ih

theorem step_awaiting (hstate : s.state = .awaitingUpgradeRequest) (htrap : s.trap = none)
    (chunk : Bytes) :
    step env s (.downstreamData (some chunk)) = capture env (s.downstreamBuf ++ chunk) s := by
  simp only [step, htrap, onDownstreamData, hstate, capture]
  cases findSubsequence crlfCrlf (s.downstreamBuf ++ chunk) <;> rfl

/-- However the bytes are cut, the filter has them as in one piece. -/
theorem run_awaiting (hstate : s.state = .awaitingUpgradeRequest) (htrap : s.trap = none)
    (hbuf : findSubsequence crlfCrlf s.downstreamBuf = none) (chunks : List Bytes) :
    run env s (downstreamChunks chunks) = capture env (s.downstreamBuf ++ chunks.flatten) s := by
  induction chunks generalizing s with
  | nil =>
      rw [List.flatten_nil, List.append_nil, capture, hbuf]
      rfl
  | cons chunk chunks ih =>
      show run env (step env s (.downstreamData (some chunk))) (downstreamChunks chunks) = _
      rw [step_awaiting env hstate htrap, List.flatten_cons, ← List.append_assoc]
      generalize s.downstreamBuf ++ chunk = bytes
      cases hfind : findSubsequence crlfCrlf bytes with
      | none =>
          have hpending : capture env bytes s = { s with downstreamBuf := bytes } := by
            rw [capture, hfind]
          rw [hpending, ih (s := { s with downstreamBuf := bytes }) hstate htrap hfind]
          rfl
      | some stop =>
          have hlater : findSubsequence crlfCrlf (bytes ++ chunks.flatten) = some stop :=
            findSubsequence_append hfind _
          have hinside : stop + 4 ≤ bytes.length := findSubsequence_le hfind
          have hdone : capture env bytes s = capture env (bytes ++ chunks.flatten) s := by
            simp only [capture, hfind, hlater, List.take_append_of_le_length hinside]
          have hcaptured : (capture env bytes s).state = .awaitingUpgradeResponse := by
            rw [capture, hfind]
          rw [run_captured env hcaptured, hdone]

/-- The request is captured with the chunk that completes its block, and not before. -/
theorem upgradeRequest_captured (cluster service : Str) (r : UpgradeRequest) (rest : Bytes)
    (chunks : List Bytes) (h : chunks.flatten = r.block ++ rest) (k : Nat) :
    let s := run env { grpcCluster := cluster, grpcService := service }
      (downstreamChunks (chunks.take k))
    if r.block.length ≤ (chunks.take k).flatten.length then
      s.state = .awaitingUpgradeResponse ∧ s.downstreamBuf = [] ∧ s.upgradeHeaders = r.headers
    else s.state = .awaitingUpgradeRequest := by
  intro s
  have hrun : s = capture env (chunks.take k).flatten _ := run_awaiting env rfl rfl rfl _
  obtain ⟨stop, hfind, hstop⟩ := r.find_block rest
  have hcut : (chunks.take k).flatten ++ (chunks.drop k).flatten = r.block ++ rest := by
    rw [← List.flatten_append, List.take_append_drop, h]
  generalize (chunks.take k).flatten = bytes at hrun hcut ⊢
  rw [← hcut] at hfind
  split
  · rename_i hlong
    obtain ⟨more, rfl⟩ : r.block <+: bytes :=
      List.prefix_of_prefix_length_le (List.prefix_append _ rest)
        (hcut ▸ List.prefix_append bytes _) hlong
    obtain ⟨stop, hfind, hstop⟩ := r.find_block more
    have htake : (r.block ++ more).take (stop + 4) = r.block := by
      rw [hstop, List.take_left]
    simp only [hrun, capture, hfind, htake, r.parse_block, and_self]
  · rename_i hshort
    cases hearly : findSubsequence crlfCrlf bytes with
    | none =>
        rw [hrun, capture, hearly]
    | some early =>
        have hinside : early + 4 ≤ bytes.length := findSubsequence_le hearly
        have hsame : early = stop := by
          rw [findSubsequence_append hearly] at hfind
          exact Option.some.inj hfind
        omega

/-- A request with one header, whose value is padded. -/
def smallRequest : UpgradeRequest where
  method := "GET".toList
  target := "/chat".toList
  lines := [
    { name := "Origin".toList
      before := " \t".toList
      value := "http://a b".toList
      after := " ".toList
      name_token := by decide
      before_ows := by decide
      value_printable := by decide
      value_trimmed := by decide
      after_ows := by decide }]
  method_plain := by decide
  target_plain := by decide

/-- The block ends inside the last chunk, and the request is captured with this one. -/
theorem upgradeRequest_captured_cut :
    let chunks := [smallRequest.block.take 30, smallRequest.block.drop 30 ++ [0x81]]
    let s := run ⟨32, .ascii, fun _ => none⟩ { grpcCluster := [], grpcService := [] }
      (downstreamChunks (chunks.take 2))
    s.state = .awaitingUpgradeResponse ∧ s.downstreamBuf = [] ∧
      s.upgradeHeaders = smallRequest.headers := by
  have hchunks : [smallRequest.block.take 30, smallRequest.block.drop 30 ++ [0x81]].flatten =
      smallRequest.block ++ [0x81] := by
    rw [List.flatten_cons, List.flatten_cons, List.flatten_nil, List.append_nil,
      ← List.append_assoc, List.take_append_drop]
  have hcaptured := upgradeRequest_captured ⟨32, .ascii, fun _ => none⟩ [] [] smallRequest [0x81]
    _ hchunks 2
  rw [List.take_of_length_le (Nat.le_refl 2), hchunks, List.length_append,
    if_pos (Nat.le_add_right _ _)] at hcaptured
  exact hcaptured

end Run

end Grpcgi.Wasm
