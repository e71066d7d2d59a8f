import Mathlib.Data.List.Basic

/-!
# Incremental decoders

A decoder takes items off the front of a buffer that grows at its end. What it
reads must not depend on the bytes that have not arrived yet, so the structure
carries that stability as fields: an item or a fault found once is found again
in every longer buffer.

`Decoder.scan` is the loop every such consumer runs: take items off the buffer
and hand each to an action, until the buffer holds no complete item, the action
asks to stop, or the bytes are malformed. `Decoder.scan_append` is the only
fact about segmentation that a client needs: scanning a longer buffer is
scanning the shorter one and resuming with the bytes it left.
-/

namespace Incremental

/-- One attempt to take an item off the front of a buffer. -/
inductive Attempt (ε α : Type*) where
  /-- the buffer ends inside the item -/
  | more
  | item (value : α) (size : Nat)
  | fault (error : ε)

/-- A reader of items whose answers survive the arrival of more bytes. -/
structure Decoder (β ε α : Type*) where
  attempt : List β → Attempt ε α
  attempt_nil : attempt [] = .more
  size_pos : ∀ {bs a n}, attempt bs = .item a n → 0 < n
  size_le : ∀ {bs a n}, attempt bs = .item a n → n ≤ bs.length
  item_append : ∀ {bs a n} (cs : List β), attempt bs = .item a n → attempt (bs ++ cs) = .item a n
  fault_append : ∀ {bs e} (cs : List β), attempt bs = .fault e → attempt (bs ++ cs) = .fault e

/-- How a scan ends, with the bytes it left: short of an item, stopped by an
action, or at a fault. -/
inductive Exit (β ε : Type*) where
  | rest (bytes : List β)
  | stopped (bytes : List β)
  | fault (error : ε) (bytes : List β)

namespace Decoder

variable {β ε α σ τ γ : Type*} (d : Decoder β ε α) (act : σ → α → σ × Bool)

/-- The loop, structurally recursive on a bound for the number of items. -/
def scanFuel : Nat → σ → List β → σ × Exit β ε
  | 0, s, bs => (s, .rest bs)
  | fuel + 1, s, bs =>
    match d.attempt bs with
    | .more => (s, .rest bs)
    | .fault e => (s, .fault e bs)
    | .item a n =>
      match act s a with
      | (t, true) => scanFuel fuel t (bs.drop n)
      | (t, false) => (t, .stopped (bs.drop n))

/-- Every item has at least one element, so the buffer's length bounds the loop. -/
def scan (s : σ) (bs : List β) : σ × Exit β ε := d.scanFuel act bs.length s bs

/-- Any two sufficient bounds give the same loop. -/
theorem scanFuel_congr {m n : Nat} (s : σ) (bs : List β)
    (hm : bs.length ≤ m) (hn : bs.length ≤ n) :
    d.scanFuel act m s bs = d.scanFuel act n s bs := by
  induction m generalizing n s bs with
  | zero =>
      have hnil : bs = [] := List.length_eq_zero_iff.mp (Nat.le_zero.mp hm)
      subst hnil
      cases n with
      | zero => rfl
      | succ n => simp only [scanFuel, d.attempt_nil]
  | succ m ih =>
      cases n with
      | zero =>
          have hnil : bs = [] := List.length_eq_zero_iff.mp (Nat.le_zero.mp hn)
          subst hnil
          simp only [scanFuel, d.attempt_nil]
      | succ n =>
          cases ha : d.attempt bs with
          | more => simp only [scanFuel, ha]
          | fault e => simp only [scanFuel, ha]
          | item a k =>
              have hpos := d.size_pos ha
              have hlen : (bs.drop k).length = bs.length - k := List.length_drop
              rcases hact : act s a with ⟨t, _ | _⟩
              · simp only [scanFuel, ha, hact]
              · simp only [scanFuel, ha, hact]
                exact ih t (bs.drop k) (by omega) (by omega)

theorem scanFuel_eq {fuel : Nat} (s : σ) (bs : List β) (h : bs.length ≤ fuel) :
    d.scanFuel act fuel s bs = d.scan act s bs :=
  d.scanFuel_congr act s bs h (Nat.le_refl _)

variable {d} {act}

theorem scan_more {bs : List β} (s : σ) (h : d.attempt bs = .more) :
    d.scan act s bs = (s, .rest bs) := by
  rw [← d.scanFuel_eq act s bs (Nat.le_succ _)]
  simp only [scanFuel, h]

theorem scan_fault {bs : List β} {e : ε} (s : σ) (h : d.attempt bs = .fault e) :
    d.scan act s bs = (s, .fault e bs) := by
  rw [← d.scanFuel_eq act s bs (Nat.le_succ _)]
  simp only [scanFuel, h]

theorem scan_nil (s : σ) : d.scan act s [] = (s, .rest []) := scan_more s d.attempt_nil

theorem scan_item {bs : List β} {a : α} {n : Nat} {s t : σ}
    (h : d.attempt bs = .item a n) (hact : act s a = (t, true)) :
    d.scan act s bs = d.scan act t (bs.drop n) := by
  have hpos := d.size_pos h
  rw [← d.scanFuel_eq act s bs (Nat.le_succ _)]
  simp only [scanFuel, h, hact]
  exact d.scanFuel_eq act t _ (by simp only [List.length_drop]; omega)

theorem scan_stop {bs : List β} {a : α} {n : Nat} {s t : σ}
    (h : d.attempt bs = .item a n) (hact : act s a = (t, false)) :
    d.scan act s bs = (t, .stopped (bs.drop n)) := by
  rw [← d.scanFuel_eq act s bs (Nat.le_succ _)]
  simp only [scanFuel, h, hact]

variable (d act)

/-- Go on with more bytes after a scan. Only a scan that ran out of bytes has
anything to do with them. -/
def resume : σ × Exit β ε → List β → σ × Exit β ε
  | (s, .rest r), cs => d.scan act s (r ++ cs)
  | (s, .stopped r), cs => (s, .stopped (r ++ cs))
  | (s, .fault e r), cs => (s, .fault e (r ++ cs))

/-- Scanning is insensitive to where the buffer is cut. -/
theorem scan_append (s : σ) (bs cs : List β) :
    d.scan act s (bs ++ cs) = d.resume act (d.scan act s bs) cs := by
  induction hn : bs.length using Nat.strongRecOn generalizing s bs with
  | ind n ih =>
      cases ha : d.attempt bs with
      | more => rw [scan_more s ha, resume]
      | fault e => rw [scan_fault s ha, scan_fault s (d.fault_append cs ha), resume]
      | item a k =>
          have hpos := d.size_pos ha
          have hle := d.size_le ha
          have hdrop : (bs ++ cs).drop k = bs.drop k ++ cs :=
            List.drop_append_of_le_length hle
          have happ := d.item_append cs ha
          rcases hact : act s a with ⟨t, _ | _⟩
          · rw [scan_stop ha hact, scan_stop happ hact, resume, hdrop]
          · rw [scan_item ha hact, scan_item happ hact, hdrop]
            exact ih _ (by rw [List.length_drop]; omega) t (bs.drop k) rfl

theorem rest_suffix {s t : σ} {bs r : List β} (h : d.scan act s bs = (t, .rest r)) :
    r <:+ bs := by
  induction hn : bs.length using Nat.strongRecOn generalizing s bs with
  | ind n ih =>
      cases ha : d.attempt bs with
      | more =>
          rw [scan_more s ha] at h
          cases h
          exact List.suffix_refl _
      | fault e =>
          rw [scan_fault s ha] at h
          cases h
      | item a k =>
          have hpos := d.size_pos ha
          have hle := d.size_le ha
          rcases hact : act s a with ⟨u, _ | _⟩
          · rw [scan_stop ha hact] at h
            cases h
          · rw [scan_item ha hact] at h
            exact (ih _ (by rw [List.length_drop]; omega) h rfl).trans (List.drop_suffix k bs)

end Decoder

/-- The same loop over items that are already split: the final state, and
whether every item was handled. -/
def foldWhile {σ α : Type*} (act : σ → α → σ × Bool) : σ → List α → σ × Bool
  | s, [] => (s, true)
  | s, a :: as =>
    match act s a with
    | (t, true) => foldWhile act t as
    | (t, false) => (t, false)

theorem foldWhile_append {σ α : Type*} {act : σ → α → σ × Bool} {s t : σ} {as : List α}
    (h : foldWhile act s as = (t, true)) (bs : List α) :
    foldWhile act s (as ++ bs) = foldWhile act t bs := by
  induction as generalizing s with
  | nil =>
      cases h
      rfl
  | cons a as ih =>
      simp only [List.cons_append, foldWhile] at h ⊢
      rcases hact : act s a with ⟨u, _ | _⟩
      · simp only [hact] at h
        cases h
      · simp only [hact] at h ⊢
        exact ih h

namespace Decoder

variable {β ε α σ τ γ : Type*} {d : Decoder β ε α} {act : σ → α → σ × Bool}

/-- `enc` writes items that the decoder reads back, whatever follows them. -/
def Reads (d : Decoder β ε α) (enc : γ → List β) (value : γ → α) (g : γ) : Prop :=
  ∀ cs, d.attempt (enc g ++ cs) = .item (value g) (enc g).length

/-- A proper beginning of an item asks for more: were it taken for an item or
refused, the whole item would be too. -/
theorem Reads.attempt_cut {enc : γ → List β} {value : γ → α} {g : γ}
    (reads : d.Reads enc value g) {bs : List β} (hbegin : bs <+: enc g)
    (hlen : bs.length < (enc g).length) : d.attempt bs = .more := by
  obtain ⟨rest, hrest⟩ := hbegin
  have hread := reads []
  rw [List.append_nil, ← hrest] at hread
  cases ha : d.attempt bs with
  | more => rfl
  | item a n =>
      have happ := d.item_append rest ha
      have hle := d.size_le ha
      rw [hread] at happ
      cases happ
      rw [hrest] at hle
      omega
  | fault e =>
      have happ := d.fault_append rest ha
      rw [hread] at happ
      cases happ

/-- A scan of well-formed items whose actions all go on reaches the tail. -/
theorem scan_flatMap_true {enc : γ → List β} {value : γ → α} {gs : List γ} {s t : σ}
    (reads : ∀ g ∈ gs, d.Reads enc value g)
    (h : foldWhile act s (gs.map value) = (t, true)) (tail : List β) :
    d.scan act s (gs.flatMap enc ++ tail) = d.scan act t tail := by
  induction gs generalizing s with
  | nil =>
      cases h
      rfl
  | cons g gs ih =>
      have hg := reads g List.mem_cons_self (gs.flatMap enc ++ tail)
      rw [List.flatMap_cons, List.append_assoc]
      simp only [List.map_cons, foldWhile] at h
      rcases hact : act s (value g) with ⟨u, _ | _⟩
      · simp only [hact] at h
        cases h
      · simp only [hact] at h
        rw [scan_item hg hact, List.drop_left]
        exact ih (fun g' hg' => reads g' (List.mem_cons_of_mem g hg')) h

/-- A scan of well-formed items ends at the first action that stops. -/
theorem scan_flatMap_false {enc : γ → List β} {value : γ → α} {gs : List γ} {s t : σ}
    (reads : ∀ g ∈ gs, d.Reads enc value g)
    (h : foldWhile act s (gs.map value) = (t, false)) (tail : List β) :
    ∃ unread, d.scan act s (gs.flatMap enc ++ tail) = (t, .stopped unread) := by
  induction gs generalizing s with
  | nil => cases h
  | cons g gs ih =>
      have hg := reads g List.mem_cons_self (gs.flatMap enc ++ tail)
      rw [List.flatMap_cons, List.append_assoc]
      simp only [List.map_cons, foldWhile] at h
      rcases hact : act s (value g) with ⟨u, _ | _⟩
      · simp only [hact] at h
        cases h
        exact ⟨_, scan_stop hg hact⟩
      · simp only [hact] at h
        rw [scan_item hg hact, List.drop_left]
        exact ih (fun g' hg' => reads g' (List.mem_cons_of_mem g hg')) h

/-- Well-formed items followed by bytes short of an item: the loop does exactly
the actions of the items, and it never faults. -/
theorem scan_flatMap (act : σ → α → σ × Bool) {enc : γ → List β} {value : γ → α} {gs : List γ}
    {tail : List β}
    (reads : ∀ g ∈ gs, d.Reads enc value g) (short : d.attempt tail = .more) (s : σ) :
    ∃ t, foldWhile act s (gs.map value) = (t, true) ∧
        d.scan act s (gs.flatMap enc ++ tail) = (t, .rest tail) ∨
      foldWhile act s (gs.map value) = (t, false) ∧
        ∃ unread, d.scan act s (gs.flatMap enc ++ tail) = (t, .stopped unread) := by
  rcases h : foldWhile act s (gs.map value) with ⟨t, _ | _⟩
  · exact ⟨t, .inr ⟨rfl, scan_flatMap_false reads h tail⟩⟩
  · exact ⟨t, .inl ⟨rfl, (scan_flatMap_true reads h tail).trans (scan_more t short)⟩⟩

/-- The state after the actions of all the items, whether they ask to stop or not. -/
def handleAll (act : σ → α → σ × Bool) (value : γ → α) (s : σ) (gs : List γ) : σ :=
  gs.foldl (fun s g => (act s (value g)).1) s

theorem handleAll_append (act : σ → α → σ × Bool) (value : γ → α) (s : σ) (gs hs : List γ) :
    handleAll act value s (gs ++ hs) = handleAll act value (handleAll act value s gs) hs :=
  List.foldl_append

theorem handleAll_of_foldWhile {act : σ → α → σ × Bool} {value : γ → α} {s t : σ} {gs : List γ}
    (h : foldWhile act s (gs.map value) = (t, true)) : handleAll act value s gs = t := by
  induction gs generalizing s with
  | nil =>
      cases h
      rfl
  | cons g gs ih =>
      simp only [List.map_cons, foldWhile] at h
      rcases hact : act s (value g) with ⟨u, _ | _⟩
      · simp only [hact] at h
        cases h
      · simp only [hact] at h
        rw [← ih h]
        simp only [handleAll, List.foldl_cons, hact]

/-- How a scan of a beginning of a stream of items ends when `more` is yet to
arrive: some items are handled, and what is left with `more` is the rest of the
stream. A scan of the whole stream that no action stopped has handled every item. -/
inductive Progress (act : σ → α → σ × Bool) (enc : γ → List β) (value : γ → α) (gs : List γ)
    (tail more : List β) (s : σ) : σ × Exit β ε → Prop where
  | rest (done left : List γ) (r : List β) (split : gs = done ++ left)
      (bytes : r ++ more = left.flatMap enc ++ tail) (all : more = [] → left = []) :
      Progress act enc value gs tail more s (handleAll act value s done, .rest r)
  | stopped (done : List γ) (g : γ) (left : List γ) (r : List β) (split : gs = done ++ g :: left)
      (bytes : r ++ more = left.flatMap enc ++ tail)
      (stop : (act (handleAll act value s done) (value g)).2 = false) :
      Progress act enc value gs tail more s (handleAll act value s (done ++ [g]), .stopped r)

/-- A scan of a stream of items that is cut anywhere. -/
theorem scan_progress (act : σ → α → σ × Bool) {enc : γ → List β} {value : γ → α} {gs : List γ}
    {bs more tail : List β} (reads : ∀ g ∈ gs, d.Reads enc value g)
    (short : ∀ cs, cs <+: tail → d.attempt cs = .more)
    (h : bs ++ more = gs.flatMap enc ++ tail) (s : σ) :
    Progress act enc value gs tail more s (d.scan act s bs) := by
  induction gs generalizing s bs with
  | nil =>
      rw [scan_more s (short bs ⟨more, h⟩)]
      exact .rest [] [] bs rfl h fun _ => rfl
  | cons g gs ih =>
      have hread := reads g List.mem_cons_self
      rw [List.flatMap_cons, List.append_assoc] at h
      by_cases hle : (enc g).length ≤ bs.length
      · have hbegin : enc g <+: bs :=
          List.prefix_of_prefix_length_le ⟨_, h.symm⟩ (List.prefix_append _ _) hle
        obtain ⟨bs, rfl⟩ := hbegin
        rw [List.append_assoc] at h
        have hrest := List.append_cancel_left h
        have ih (t : σ) : Progress act enc value gs tail more t (d.scan act t bs) :=
          ih (fun g' hg' => reads g' (List.mem_cons_of_mem g hg')) hrest t
        rcases hact : act s (value g) with ⟨t, _ | _⟩
        · rw [scan_stop (hread bs) hact, List.drop_left]
          have hone : handleAll act value s ([] ++ [g]) = t := by
            simp only [handleAll, List.nil_append, List.foldl_cons, List.foldl_nil, hact]
          rw [← hone]
          exact .stopped [] g gs bs rfl hrest (by rw [handleAll, List.foldl_nil, hact])
        · rw [scan_item (hread bs) hact, List.drop_left]
          have hhandle (done : List γ) :
              handleAll act value t done = handleAll act value s (g :: done) := by
            simp only [handleAll, List.foldl_cons, hact]
          have hnext := ih t
          generalize d.scan act t bs = result at hnext ⊢
          cases hnext with
          | rest done left r split bytes all =>
              rw [hhandle]
              exact .rest (g :: done) left r (congrArg (g :: ·) split) bytes all
          | stopped done g' left r split bytes stop =>
              rw [hhandle] at stop ⊢
              exact .stopped (g :: done) g' left r (congrArg (g :: ·) split) bytes stop
      · have hlt := Nat.lt_of_not_le hle
        have hbegin : bs <+: enc g :=
          List.prefix_of_prefix_length_le (List.prefix_append _ _) ⟨_, h.symm⟩ (Nat.le_of_lt hlt)
        rw [scan_more s (hread.attempt_cut hbegin hlt)]
        refine .rest [] (g :: gs) bs rfl ?_ ?_
        · rw [h, List.flatMap_cons, List.append_assoc]
        · rintro rfl
          have hlength := congrArg List.length h
          simp only [List.append_nil, List.length_append] at hlength
          omega

/-- Two scans of the same bytes that agree on when to stop: `R` relates states
while the loop runs, `S` relates them where it stopped. -/
inductive Related (R S : σ → τ → Prop) : σ × Exit β ε → τ × Exit β ε → Prop where
  | rest {s t r} (h : R s t) : Related R S (s, .rest r) (t, .rest r)
  | stopped {s t r} (h : S s t) : Related R S (s, .stopped r) (t, .stopped r)
  | fault {s t e r} (h : R s t) : Related R S (s, .fault e r) (t, .fault e r)

/-- Simulation of one loop by another, from a simulation of their actions. -/
theorem scan_related (d : Decoder β ε α) {act' : τ → α → τ × Bool} {R S : σ → τ → Prop}
    (action : ∀ s t a, R s t → ∃ s' t' go, act s a = (s', go) ∧ act' t a = (t', go) ∧
      (go = true → R s' t') ∧ (go = false → S s' t'))
    {s : σ} {t : τ} (start : R s t) (bs : List β) :
    Related R S (d.scan act s bs) (d.scan act' t bs) := by
  induction hn : bs.length using Nat.strongRecOn generalizing s t bs with
  | ind n ih =>
      cases ha : d.attempt bs with
      | more =>
          rw [scan_more s ha, scan_more t ha]
          exact .rest start
      | fault e =>
          rw [scan_fault s ha, scan_fault t ha]
          exact .fault start
      | item a k =>
          have hpos := d.size_pos ha
          have hle := d.size_le ha
          obtain ⟨s', t', go, hs, ht, run, stop⟩ := action s t a start
          cases go with
          | false =>
              rw [scan_stop ha hs, scan_stop ha ht]
              exact .stopped (stop rfl)
          | true =>
              rw [scan_item ha hs, scan_item ha ht]
              exact ih _ (by rw [List.length_drop]; omega) (run rfl) (bs.drop k) rfl

/-- Two loops over a beginning of one stream of items, of which `more` is yet to arrive,
each with a reader of its own. They have handled the same items and leave the same
bytes: `R` relates the states while both run, `S` where both stopped. -/
inductive Paired {ε' : Type*} (enc : γ → List β) (R S : List γ → σ → τ → Prop) (gs : List γ)
    (more : List β) : σ × Exit β ε → τ × Exit β ε' → Prop where
  | rest {s t} (done left : List γ) (r : List β) (split : gs = done ++ left)
      (bytes : r ++ more = left.flatMap enc) (all : more = [] → left = []) (h : R done s t) :
      Paired enc R S gs more (s, .rest r) (t, .rest r)
  | stopped {s t} (done left : List γ) (r : List β) (split : gs = done ++ left)
      (bytes : r ++ more = left.flatMap enc) (h : S done s t) :
      Paired enc R S gs more (s, .stopped r) (t, .stopped r)

/-- Simulation of one loop by another that reads the same items in its own way, from a
simulation of their actions. -/
theorem scan_paired {ε' α' : Type*} {d' : Decoder β ε' α'} (act : σ → α → σ × Bool)
    (act' : τ → α' → τ × Bool) {enc : γ → List β} {value : γ → α} {value' : γ → α'}
    {R S : List γ → σ → τ → Prop}
    {gs : List γ} {bs more : List β} (reads : ∀ g ∈ gs, d.Reads enc value g)
    (reads' : ∀ g ∈ gs, d'.Reads enc value' g) (h : bs ++ more = gs.flatMap enc)
    (action : ∀ done, ∀ g ∈ gs, ∀ s t, R done s t → ∃ s' t' go, act s (value g) = (s', go) ∧
      act' t (value' g) = (t', go) ∧ (go = true → R (done ++ [g]) s' t') ∧
      (go = false → S (done ++ [g]) s' t'))
    {s : σ} {t : τ} (start : R [] s t) :
    Paired enc R S gs more (d.scan act s bs) (d'.scan act' t bs) := by
  induction gs generalizing R S s t bs with
  | nil =>
      obtain ⟨rfl, rfl⟩ := List.append_eq_nil_iff.mp h
      rw [scan_nil, scan_nil]
      exact .rest [] [] [] rfl rfl (fun _ => rfl) start
  | cons g gs ih =>
      have hread := reads g List.mem_cons_self
      have hread' := reads' g List.mem_cons_self
      rw [List.flatMap_cons] at h
      by_cases hle : (enc g).length ≤ bs.length
      · have hbegin : enc g <+: bs :=
          List.prefix_of_prefix_length_le ⟨_, h.symm⟩ (List.prefix_append _ _) hle
        obtain ⟨bs, rfl⟩ := hbegin
        rw [List.append_assoc] at h
        have hrest := List.append_cancel_left h
        obtain ⟨s', t', go, hs, ht, run, stop⟩ := action [] g List.mem_cons_self s t start
        cases go with
        | false =>
            rw [scan_stop (hread bs) hs, scan_stop (hread' bs) ht, List.drop_left]
            exact .stopped [g] gs bs rfl hrest (stop rfl)
        | true =>
            rw [scan_item (hread bs) hs, scan_item (hread' bs) ht, List.drop_left]
            have hnext := ih (R := fun done => R (g :: done)) (S := fun done => S (g :: done))
              (fun g' hg' => reads g' (List.mem_cons_of_mem g hg'))
              (fun g' hg' => reads' g' (List.mem_cons_of_mem g hg')) hrest
              (fun done g' hg' => action (g :: done) g' (List.mem_cons_of_mem g hg')) (run rfl)
            generalize d.scan act s' bs = result at hnext ⊢
            generalize d'.scan act' t' bs = result' at hnext ⊢
            cases hnext with
            | rest done left r split bytes all hdone =>
                exact .rest (g :: done) left r (congrArg (g :: ·) split) bytes all hdone
            | stopped done left r split bytes hdone =>
                exact .stopped (g :: done) left r (congrArg (g :: ·) split) bytes hdone
      · have hlt := Nat.lt_of_not_le hle
        have hbegin : bs <+: enc g :=
          List.prefix_of_prefix_length_le (List.prefix_append _ _) ⟨_, h.symm⟩ (Nat.le_of_lt hlt)
        rw [scan_more s (hread.attempt_cut hbegin hlt), scan_more t (hread'.attempt_cut hbegin hlt)]
        refine .rest [] (g :: gs) bs rfl h ?_ start
        rintro rfl
        have hlength := congrArg List.length h
        simp only [List.append_nil, List.length_append] at hlength
        omega

/-- How a scan leaves a state that satisfied `P`: `Q` holds where an action
stopped it, and a fault is one that the decoder reports for some bytes. -/
inductive Settled (d : Decoder β ε α) (P Q : σ → Prop) : σ × Exit β ε → Prop where
  | rest {s r} (h : P s) : Settled d P Q (s, .rest r)
  | stopped {s r} (h : Q s) : Settled d P Q (s, .stopped r)
  | fault {s bs e} (h : P s) (source : d.attempt bs = .fault e) :
      Settled d P Q (s, .fault e bs)

/-- The invariant rule of the loop, whose actions are given items that the decoder finds
in some bytes. -/
theorem scan_settled_item (d : Decoder β ε α) (act : σ → α → σ × Bool) {P Q : σ → Prop}
    (action : ∀ s a, (∃ bs n, d.attempt bs = .item a n) → P s →
      ((act s a).2 = true → P (act s a).1) ∧ ((act s a).2 = false → Q (act s a).1))
    {s : σ} (start : P s) (bs : List β) : Settled d P Q (d.scan act s bs) := by
  induction hn : bs.length using Nat.strongRecOn generalizing s bs with
  | ind n ih =>
      cases ha : d.attempt bs with
      | more =>
          rw [scan_more s ha]
          exact .rest start
      | fault e =>
          rw [scan_fault s ha]
          exact .fault start ha
      | item a k =>
          have hpos := d.size_pos ha
          have hle := d.size_le ha
          obtain ⟨run, stop⟩ := action s a ⟨bs, k, ha⟩ start
          rcases hact : act s a with ⟨t, _ | _⟩ <;> rw [hact] at run stop
          · rw [scan_stop ha hact]
            exact .stopped (stop rfl)
          · rw [scan_item ha hact]
            exact ih _ (by rw [List.length_drop]; omega) (run rfl) (bs.drop k) rfl

theorem scan_settled (d : Decoder β ε α) (act : σ → α → σ × Bool) {P Q : σ → Prop}
    (action : ∀ s a, P s → ((act s a).2 = true → P (act s a).1) ∧
      ((act s a).2 = false → Q (act s a).1))
    {s : σ} (start : P s) (bs : List β) : Settled d P Q (d.scan act s bs) :=
  d.scan_settled_item act (fun s a _ => action s a) start bs

/-- Two scans of the same bytes, of which the first may stop early: `R` relates states
while both loops run, `S` the state where the first one stopped with all those that the
second one may reach from there. -/
inductive Ahead (R S : σ → τ → Prop) : σ × Exit β ε → τ × Exit β ε → Prop where
  | rest {s t r} (h : R s t) : Ahead R S (s, .rest r) (t, .rest r)
  | stopped {s t r exit} (h : S s t) : Ahead R S (s, .stopped r) (t, exit)
  | fault {s t e r} (h : R s t) : Ahead R S (s, .fault e r) (t, .fault e r)

/-- A loop that does no more than another one, item by item. -/
theorem scan_ahead (d : Decoder β ε α) {act' : τ → α → τ × Bool} {R S : σ → τ → Prop}
    (action : ∀ s t a, R s t →
      ((act s a).2 = true → (act' t a).2 = true ∧ R (act s a).1 (act' t a).1) ∧
      ((act s a).2 = false → S (act s a).1 (act' t a).1))
    (later : ∀ s t a, S s t → S s (act' t a).1) {s : σ} {t : τ} (start : R s t) (bs : List β) :
    Ahead R S (d.scan act s bs) (d.scan act' t bs) := by
  induction hn : bs.length using Nat.strongRecOn generalizing s t bs with
  | ind n ih =>
      cases ha : d.attempt bs with
      | more =>
          rw [scan_more s ha, scan_more t ha]
          exact .rest start
      | fault e =>
          rw [scan_fault s ha, scan_fault t ha]
          exact .fault start
      | item a k =>
          have hpos := d.size_pos ha
          have hle := d.size_le ha
          obtain ⟨run, stop⟩ := action s t a start
          rcases hact : act s a with ⟨s', _ | _⟩ <;> rcases hact' : act' t a with ⟨t', go'⟩ <;>
            rw [hact, hact'] at run stop
          · rw [scan_stop ha hact]
            have hstop : S s' t' := stop rfl
            cases go' with
            | false =>
                rw [scan_stop ha hact']
                exact .stopped hstop
            | true =>
                rw [scan_item ha hact']
                have hrest := d.scan_settled act' (P := S s') (Q := S s')
                  (fun u b hu => ⟨fun _ => later s' u b hu, fun _ => later s' u b hu⟩) hstop
                  (bs.drop k)
                generalize d.scan act' t' (bs.drop k) = result at hrest ⊢
                cases hrest with
                | rest h => exact .stopped h
                | stopped h => exact .stopped h
                | fault h _ => exact .stopped h
          · obtain ⟨rfl, hrun⟩ := run rfl
            rw [scan_item ha hact, scan_item ha hact']
            exact ih _ (by rw [List.length_drop]; omega) hrun (bs.drop k) rfl

/-- A scan that reaches the end of a stream reached the end of every part. -/
theorem scan_prefix_rest {s t : σ} {bs cs r : List β}
    (h : d.scan act s (bs ++ cs) = (t, .rest r)) :
    ∃ t' r', d.scan act s bs = (t', .rest r') ∧ d.scan act t' (r' ++ cs) = (t, .rest r) := by
  rw [scan_append] at h
  rcases hscan : d.scan act s bs with ⟨t', r' | r' | ⟨e, r'⟩⟩ <;> rw [hscan, resume] at h
  · exact ⟨t', r', rfl, h⟩
  · cases h
  · cases h

/-- A fault in part of a stream is a fault of the stream. -/
theorem scan_prefix_no_fault {s : σ} {bs cs : List β}
    (h : ∀ t e r, d.scan act s (bs ++ cs) ≠ (t, .fault e r)) :
    ∀ t e r, d.scan act s bs ≠ (t, .fault e r) := by
  intro t e r hfault
  apply h t e (r ++ cs)
  rw [scan_append, hfault, resume]

end Decoder
end Incremental
