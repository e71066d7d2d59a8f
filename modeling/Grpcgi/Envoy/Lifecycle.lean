import Grpcgi.Envoy.Filter

/-!
# Lifecycle safety of the native filter

The order of the calls on the gRPC stream and on the downstream connection, in
every run and under every re-entry. The invariant ties the trace to the state:
a terminal call implies `Closed`, a half close implies `Closing` or `Closed`,
and the states that still use the stream have one. Each new call is then
allowed after everything before it.
-/

namespace Grpcgi.Envoy

namespace Effect

def sends : Effect → Bool
  | .sendMessage _ _ => true
  | _ => false

/-- The calls that must not follow the end of a filter. -/
def writes : Effect → Bool
  | .sendMessage _ _ => true
  | .closeStream => true
  | .addEncodedData _ _ => true
  | _ => false

/-- The close frame of `onRemoteClose`, or `onDestroy`. -/
def terminal (e : Effect) : Bool :=
  e == .addEncodedData buildCloseFrame true || e == .destroyed

/-- `b` may come after `a`. -/
structure Allowed (a b : Effect) : Prop where
  afterEnd : a.terminal = true → b.writes = false
  afterHalfClose : a = .closeStream → b.sends = false ∧ b ≠ .closeStream

/-- A call that is no write may come at any time. -/
theorem allowed_of_not_writes {a b : Effect} (h : b.writes = false) : Allowed a b where
  afterEnd := fun _ => h
  afterHalfClose := fun _ => by
    cases b <;> simp_all [writes, sends]

/-- Downstream data may follow a half close, not the end. -/
theorem allowed_data {a : Effect} {data : Bytes} {endStream : Bool} (h : a.terminal = false) :
    Allowed a (.addEncodedData data endStream) where
  afterEnd := by simp [h]
  afterHalfClose := by simp [sends]

/-- Anything may follow a call that ends nothing. -/
theorem allowed_after {a b : Effect} (hend : a.terminal = false) (hclose : a ≠ .closeStream) :
    Allowed a b where
  afterEnd := by simp [hend]
  afterHalfClose := by simp [hclose]

end Effect

open Effect (Allowed)

/-- The invariant of every reachable state. -/
structure Orderly (s : Filter) : Prop where
  stream : s.state = .connecting ∨ s.state = .active → s.grpcStream = true
  ended : ∀ e ∈ s.trace, e.terminal = true → s.state = .closed
  halfClosed : .closeStream ∈ s.trace → s.state = .closing ∨ s.state = .closed
  ordered : s.trace.Pairwise Allowed
  active_asserted : s.fault ≠ some .assertActive
  stream_asserted : s.fault ≠ some .assertStream

namespace Orderly

variable {s : Filter}

/-- A filter that is not closed has made no terminal call. -/
theorem not_ended (h : Orderly s) (hstate : s.state ≠ .closed) :
    ∀ e ∈ s.trace, e.terminal = false := by
  intro e he
  by_contra hterminal
  exact hstate (h.ended e he (by simpa using hterminal))

/-- An active filter has made no half close either. -/
theorem not_halfClosed (h : Orderly s) (hstate : s.state = .active) :
    .closeStream ∉ s.trace := by
  intro hmem
  rcases h.halfClosed hmem with hs | hs <;> simp [hstate] at hs

/-- In an active filter every call is allowed. -/
theorem allowed_active (h : Orderly s) (hstate : s.state = .active) (e : Effect) :
    ∀ a ∈ s.trace, Allowed a e := by
  intro a ha
  refine Effect.allowed_after (h.not_ended (by simp [hstate]) a ha) ?_
  rintro rfl
  exact h.not_halfClosed hstate ha

/-- One more call, together with the change of state that goes with it. -/
theorem append (h : Orderly s) {t : Filter} {e : Effect} (htrace : t.trace = s.trace ++ [e])
    (hfault : t.fault = s.fault) (hallowed : ∀ a ∈ s.trace, Allowed a e)
    (hstream : t.state = .connecting ∨ t.state = .active → t.grpcStream = true)
    (hended : ∀ a ∈ t.trace, a.terminal = true → t.state = .closed)
    (hhalf : .closeStream ∈ t.trace → t.state = .closing ∨ t.state = .closed) : Orderly t where
  stream := hstream
  ended := hended
  halfClosed := hhalf
  ordered := by
    rw [htrace, List.pairwise_append]
    exact ⟨h.ordered, List.pairwise_singleton _ _,
      fun a ha b hb => List.mem_singleton.mp hb ▸ hallowed a ha⟩
  active_asserted := hfault ▸ h.active_asserted
  stream_asserted := hfault ▸ h.stream_asserted

/-- One more call that ends nothing. -/
theorem emit (h : Orderly s) {e : Effect} (hallowed : ∀ a ∈ s.trace, Allowed a e)
    (hend : e.terminal = false) (hclose : e ≠ .closeStream) : Orderly (s.emit e) := by
  refine h.append rfl rfl hallowed h.stream ?_ ?_
  · intro a ha hterminal
    obtain ha | ha := List.mem_append.mp ha
    · exact h.ended a ha hterminal
    · rw [List.mem_singleton.mp ha, hend] at hterminal
      cases hterminal
  · intro hmem
    obtain hmem | hmem := List.mem_append.mp hmem
    · exact h.halfClosed hmem
    · exact absurd (List.mem_singleton.mp hmem).symm hclose

/-- One more call of a filter that is now closed. -/
theorem emit_closed (h : Orderly s) {e : Effect} (hallowed : ∀ a ∈ s.trace, Allowed a e)
    {t : Filter} (htrace : t.trace = s.trace ++ [e]) (hfault : t.fault = s.fault)
    (hstate : t.state = .closed) : Orderly t :=
  h.append htrace hfault hallowed (by simp [hstate]) (fun _ _ _ => hstate) (fun _ => .inr hstate)

theorem onRemoteClose (h : Orderly s) : Orderly (onRemoteClose s) := by
  by_cases hstate : s.state = .closed
  · rwa [onRemoteClose_closed hstate]
  · rw [onRemoteClose_open hstate]
    have hframe : Orderly { s with
        state := .closed
        grpcStream := false
        trace := s.trace ++ [.addEncodedData buildCloseFrame true] } :=
      h.emit_closed (fun a ha => Effect.allowed_data (h.not_ended hstate a ha)) rfl rfl rfl
    exact hframe.emit_closed (fun _ _ => Effect.allowed_of_not_writes rfl) rfl rfl rfl

theorem reenter {e : Effect} (h : Orderly (s.emit e)) (env : Env) : Orderly (s.call env e) := by
  obtain hcall | hcall := call_cases e s env <;> rw [hcall]
  · exact h
  · exact h.onRemoteClose

theorem closeGrpcStream (h : Orderly s) (env : Env) : Orderly (closeGrpcStream env s) := by
  simp only [Envoy.closeGrpcStream]
  split
  · exact h
  · rename_i hstate
    have hactive : s.state = .active := not_not.mp hstate
    have hstream : s.grpcStream = true := h.stream (.inr hactive)
    simp only [hstream, if_true]
    refine Orderly.reenter ?_ env
    refine h.append rfl rfl (h.allowed_active hactive _) (by simp) ?_ (fun _ => .inl rfl)
    intro a ha hterminal
    obtain ha | ha := List.mem_append.mp ha
    · rw [h.not_ended (by simp [hactive]) a ha] at hterminal
      cases hterminal
    · rw [List.mem_singleton.mp ha] at hterminal
      cases hterminal

/-- In an active filter neither assertion of `forwardDataFrame` fails. -/
theorem forwardDataFrame (h : Orderly s) (hactive : s.state = .active) (env : Env)
    (frame : WsFrame) : Orderly (forwardDataFrame env frame s) := by
  simp only [Envoy.forwardDataFrame]
  rw [if_neg (not_not.mpr hactive), if_neg (by simp [h.stream (.inr hactive)])]
  exact Orderly.reenter (h.emit (h.allowed_active hactive _) rfl (by simp)) env

/-- One frame: the loop goes on only in an active filter. -/
theorem dispatch (h : Orderly s) (hactive : s.state = .active) (env : Env) (frame : WsFrame) :
    Orderly (dispatch env s frame).1 ∧
      ((dispatch env s frame).2 = true → (dispatch env s frame).1.state = .active) := by
  simp only [Envoy.dispatch]
  split
  · refine ⟨h.forwardDataFrame hactive env frame, fun hgo => ?_⟩
    simp only [Bool.and_eq_true, beq_iff_eq] at hgo
    exact hgo.2
  · split
    · have hpong : Orderly (s.emit
          (.addEncodedData (encodeFrame kOpcodePong frame.payload) false)) :=
        h.emit (h.allowed_active hactive _) (by simp [Effect.terminal]) (by simp)
      exact ⟨hpong.reenter env, by simp⟩
    · split
      · exact ⟨h, by simp⟩
      · split
        · exact ⟨h.closeGrpcStream env, by simp⟩
        · exact ⟨h, by simp⟩

/-- Neither the fields of the parser nor the readiness of the stream matter. -/
theorem of_eq (h : Orderly s) {t : Filter} (hstate : t.state = s.state)
    (hstream : t.grpcStream = s.grpcStream) (htrace : t.trace = s.trace)
    (hfault : t.fault = s.fault) : Orderly t where
  stream := by rw [hstate, hstream]; exact h.stream
  ended := by rw [hstate, htrace]; exact h.ended
  halfClosed := by rw [hstate, htrace]; exact h.halfClosed
  ordered := by rw [htrace]; exact h.ordered
  active_asserted := by rw [hfault]; exact h.active_asserted
  stream_asserted := by rw [hfault]; exact h.stream_asserted

/-- The parser throws; none of the two assertions is involved. -/
theorem fail (h : Orderly s) : Orderly (s.fail .lengthError) where
  stream := h.stream
  ended := h.ended
  halfClosed := h.halfClosed
  ordered := h.ordered
  active_asserted := by simp
  stream_asserted := by simp

open Incremental (Decoder)

theorem leave_scan (h : Orderly s) (hactive : s.state = .active) (env : Env) (raw : Bytes) :
    Orderly (leave (frameDecoder.scan (Envoy.dispatch env) s raw)).1 := by
  have hscan := Decoder.scan_settled frameDecoder (Envoy.dispatch env)
    (P := fun t => Orderly t ∧ t.state = .active) (Q := Orderly)
    (fun t a ht => ⟨fun hgo => ⟨(ht.1.dispatch ht.2 env a).1, (ht.1.dispatch ht.2 env a).2 hgo⟩,
      fun _ => (ht.1.dispatch ht.2 env a).1⟩) ⟨h, hactive⟩ raw
  generalize frameDecoder.scan (Envoy.dispatch env) s raw = result at hscan
  cases hscan with
  | rest ht => exact ht.1.of_eq rfl rfl rfl rfl
  | stopped ht => exact ht
  | fault ht hsource =>
      obtain ⟨rfl, _⟩ := attemptFrame_fault hsource
      exact ht.1.fail

/-- In an active filter the assertion of `processWebSocketData` holds. -/
theorem processWebSocketData (h : Orderly s) (hactive : s.state = .active) (env : Env)
    (buf : Bytes) (endStream : Bool) : Orderly (processWebSocketData env buf endStream s) := by
  have hclear : Orderly { s with frameRemainder := [] } := h.of_eq rfl rfl rfl rfl
  have hloop := hclear.leave_scan hactive env ((s.frameRemainder ++ buf).take uint32Max)
  rw [processWebSocketData_eq env buf endStream hactive]
  generalize leave _ = result at hloop ⊢
  obtain hend | hend := closeAtEnd_cases env endStream result
  · rw [hend]
    exact hloop
  · rw [hend]
    exact hloop.closeGrpcStream env

/-! ## The callbacks -/

theorem decodeData (h : Orderly s) (env : Env) (data : Bytes) (endStream : Bool) :
    Orderly (decodeData env data endStream s).2 := by
  simp only [Envoy.decodeData]
  split
  · exact h
  · exact h.of_eq rfl rfl rfl rfl
  · exact h
  · exact h
  · rename_i hactive
    exact h.processWebSocketData hactive env data endStream

theorem onReceiveInitialMetadata (h : Orderly s) (env : Env) :
    Orderly (onReceiveInitialMetadata env s) := by
  unfold Envoy.onReceiveInitialMetadata
  split
  · exact h
  · rename_i hstate
    have hconnecting : s.state = .connecting := not_not.mp hstate
    have hactive : Orderly { s with state := .active } := {
      stream := fun _ => h.stream (.inl hconnecting)
      ended := fun e he hterminal => by
        have := h.ended e he hterminal
        simp [hconnecting] at this
      halfClosed := fun hmem => by
        have := h.halfClosed hmem
        simp [hconnecting] at this
      ordered := h.ordered
      active_asserted := h.active_asserted
      stream_asserted := h.stream_asserted }
    simp only
    split
    · exact hactive.processWebSocketData rfl env _ false
    · exact hactive

theorem onReceiveMessage (h : Orderly s) (env : Env) (message : Proto.Frame) :
    Orderly (onReceiveMessage env message s) := by
  simp only [Envoy.onReceiveMessage]
  split
  · exact h
  · rename_i hstate
    have hopen : s.state ≠ .closed := by
      rintro hclosed
      simp [hclosed] at hstate
    exact Orderly.reenter (h.emit (fun a ha => Effect.allowed_data (h.not_ended hopen a ha))
      (by simp [Effect.terminal]) (by simp)) env

theorem onDestroy (h : Orderly s) : Orderly (onDestroy s) := by
  unfold Envoy.onDestroy
  simp only
  split
  · have hreset : Orderly { s.emit .resetGrpcStream with state := .closed, grpcStream := false } :=
      h.emit_closed (fun _ _ => Effect.allowed_of_not_writes rfl) rfl rfl rfl
    exact hreset.emit_closed (fun _ _ => Effect.allowed_of_not_writes rfl) rfl rfl rfl
  · exact h.emit_closed (fun _ _ => Effect.allowed_of_not_writes rfl) rfl rfl rfl

theorem step (h : Orderly s) (env : Env) (e : Event) : Orderly (step env s e) := by
  simp only [Envoy.step]
  split
  · exact h
  · cases e with
    | decodeData data endStream => exact h.decodeData env data endStream
    | onReceiveInitialMetadata =>
        simp only
        split
        · exact h.onReceiveInitialMetadata env
        · exact h
    | onReceiveMessage message =>
        simp only
        split
        · exact h.onReceiveMessage env message
        · exact h
    | onRemoteClose =>
        simp only
        split
        · exact h.onRemoteClose
        · exact h
    | encodeHeaders => exact h.emit (fun _ _ => Effect.allowed_of_not_writes rfl) rfl (by simp)
    | onDestroy => exact h.onDestroy

theorem run (h : Orderly s) (env : Env) (events : List Event) : Orderly (run env s events) := by
  induction events generalizing s with
  | nil => exact h
  | cons e es ih => exact ih (h.step env e)

end Orderly

/-! ## Every reachable state -/

/-- A closed filter whose trace is in order. -/
theorem orderly_closed {s : Filter} (hstate : s.state = .closed) (hfault : s.fault = none)
    (hordered : s.trace.Pairwise Allowed) : Orderly s where
  stream := by simp [hstate]
  ended := fun _ _ _ => hstate
  halfClosed := fun _ => .inr hstate
  ordered := hordered
  active_asserted := by simp [hfault]
  stream_asserted := by simp [hfault]

/-- `startGrpcStream` stays in `Connecting` only with a stream to wait for,
whatever `start` does before it returns. -/
theorem orderly_startGrpcStream (config : WsGrpcBridgeConfig) (headers : HeaderMap)
    (outcome : StartOutcome) :
    Orderly (startGrpcStream headers outcome { config, state := .connecting }) := by
  have hstart (b : Effect) : Allowed (.start config.clusterName config.authority
      (initialMetadata headers)) b :=
    Effect.allowed_after (by simp [Effect.terminal]) (by simp)
  have hreply (a : Effect) (code : Nat) (body details : Str) :
      Allowed a (.sendLocalReply code body details) := Effect.allowed_of_not_writes rfl
  have hreset (a : Effect) : Allowed a .resetDownstream := Effect.allowed_of_not_writes rfl
  simp only [startGrpcStream]
  obtain ⟨_ | _, _ | _⟩ := outcome <;>
    simp only [Bool.false_eq_true, if_false, if_true]
  · apply orderly_closed rfl rfl
    simp [Filter.emit, hstart]
  · exact {
      stream := fun _ => rfl
      ended := by simp [Filter.emit, Effect.terminal]
      halfClosed := by simp [Filter.emit]
      ordered := List.pairwise_singleton _ _
      active_asserted := by simp
      stream_asserted := by simp }
  all_goals
    rw [onRemoteClose_open (by simp)]
    apply orderly_closed rfl rfl
    simp [Filter.emit, hstart, hreply, hreset]

theorem orderly_opened (config : WsGrpcBridgeConfig) (headers : HeaderMap)
    (outcome : StartOutcome) : Orderly (opened config headers outcome) := by
  simp only [opened, decodeHeaders]
  split
  · exact orderly_startGrpcStream config headers outcome
  · exact ⟨by simp, by simp, by simp, List.Pairwise.nil, by simp, by simp⟩

/-- A half close forbids a second one, so there is at most one. -/
theorem Orderly.count_closeStream {s : Filter} (h : Orderly s) :
    s.trace.count .closeStream ≤ 1 := by
  have hsplit : ∀ l : List Effect, l.Pairwise Allowed → l.count .closeStream ≤ 1 := by
    intro l hl
    induction hl with
    | nil => simp
    | @cons a l hhead _ ih =>
        by_cases ha : a = .closeStream
        · have hnone : .closeStream ∉ l := fun hmem =>
            ((hhead _ hmem).afterHalfClose ha).2 rfl
          rw [ha, List.count_cons_self, List.count_eq_zero.mpr hnone]
        · rwa [List.count_cons_of_ne ha]
  exact hsplit s.trace h.ordered

/-- Every order and number of callbacks, with every re-entry, keeps the filter
safe: an active filter has its stream, the assertions hold, the request side is
half closed at most once and not written afterwards, and nothing is written
after the close frame of `onRemoteClose` or after `onDestroy`. -/
theorem lifecycle_safe (env : Env) (config : WsGrpcBridgeConfig) (headers : HeaderMap)
    (outcome : StartOutcome) (events : List Event) :
    let s := run env (opened config headers outcome) events
    (s.state = .active → s.grpcStream = true) ∧
      s.fault ≠ some .assertActive ∧ s.fault ≠ some .assertStream ∧
      s.trace.count .closeStream ≤ 1 ∧
      s.trace.Pairwise (fun a b => a = .closeStream → b.sends = false) ∧
      s.trace.Pairwise (fun a b =>
        a = .addEncodedData buildCloseFrame true ∨ a = .destroyed → b.writes = false) := by
  intro s
  have h : Orderly s := (orderly_opened config headers outcome).run env events
  refine ⟨fun hactive => h.stream (.inr hactive), h.active_asserted, h.stream_asserted,
    h.count_closeStream, h.ordered.imp fun hab hclose => (hab.afterHalfClose hclose).1,
    h.ordered.imp fun hab hend => hab.afterEnd ?_⟩
  simpa [Effect.terminal] using hend

end Grpcgi.Envoy
