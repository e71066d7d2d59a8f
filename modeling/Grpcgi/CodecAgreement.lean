import Grpcgi.Envoy.FrameParser
import Grpcgi.Wasm.FrameParser

/-!
# The two WebSocket codecs agree

The Rust parser tests one total, the C++ parser tests field after field; one
unmasks only masked frames, the other always, with a zero key. Both are compared
with what the header declares, and so with each other.
-/

namespace Grpcgi

open WebSocket (Declared declared)

/-- The two parsers give the same answer, and neither of them fails. -/
def ParsersAgree (bits : Nat) (buf : Bytes) : Prop :=
  ∃ answer frame, Wasm.parseWsFrame bits buf = .ok answer ∧ Envoy.parseFrame buf = .ok frame ∧
    (answer = none ↔ frame.complete = false) ∧
    ∀ opcode payload consumed, answer = some (opcode, payload, consumed) →
      frame.opcode = opcode ∧ frame.payload = payload ∧ frame.consumed = consumed

theorem parsersAgree {bits : Nat} (hbits : 32 ≤ bits) {buf : Bytes}
    (hlength : ∀ d, declared buf = some d → d.length < 2 ^ 31) : ParsersAgree bits buf := by
  have hpow : 2 ^ 32 ≤ 2 ^ bits := Nat.pow_le_pow_right (by decide) hbits
  cases hd : declared buf with
  | none =>
      obtain ⟨frame, hheader⟩ := Envoy.parseHeader_undeclared hd
      refine ⟨none, frame, Wasm.parseWsFrame_undeclared (Nat.le_trans (by decide) hbits) hd, ?_,
        ?_, ?_⟩
      · rw [Envoy.parseFrame, hheader]
      · simp [Envoy.parseHeader_incomplete hheader]
      · intro opcode payload consumed hsome
        cases hsome
  | some d =>
      have hsmall := hlength d hd
      have hoffset := d.offset_bounds
      have hwasm := Wasm.parseWsFrame_exact (Nat.le_trans (by decide) hbits) hd
        (show d.offset + d.length < 2 ^ bits by omega)
      have henvoy := Envoy.parseFrame_declared hd
        (fun _ => Nat.le_trans (Nat.le_of_lt hsmall) (by decide)) (fun _ => by omega)
      by_cases hcomplete : d.Complete buf
      · rw [if_pos hcomplete] at hwasm henvoy
        refine ⟨_, _, hwasm, henvoy, by simp, ?_⟩
        intro opcode payload consumed hsome
        cases hsome
        exact ⟨rfl, rfl, rfl⟩
      · rw [if_neg hcomplete] at hwasm henvoy
        refine ⟨_, _, hwasm, henvoy, by simp, ?_⟩
        intro opcode payload consumed hsome
        cases hsome

/-! ## The encoders -/

/-- A byte of a number, as either encoder cuts it out. -/
theorem shifted_byte (n k : Nat) :
    UInt8.ofNat ((n >>> (8 * k)) &&& 0xFF) = UInt8.ofNat (n / 256 ^ k) := by
  have hlow : (n >>> (8 * k)) &&& 0xFF = n >>> (8 * k) % 2 ^ 8 :=
    Nat.and_two_pow_sub_one_eq_mod _ 8
  apply UInt8.toNat_inj.mp
  rw [UInt8.toNat_ofNat', UInt8.toNat_ofNat', hlow, Nat.mod_mod, Nat.shiftRight_eq_div_pow,
    Nat.pow_mul]

theorem encodeWsFrame_eq_encodeFrame (opcode : UInt8) (payload : Bytes) :
    Wasm.encodeWsFrame opcode payload = Envoy.encodeFrame opcode payload := by
  simp only [Wasm.encodeWsFrame, Envoy.encodeFrame]
  by_cases h7 : payload.length < 126
  · rw [if_pos h7, if_pos h7]
  · rw [if_neg h7, if_neg h7]
    by_cases h16 : payload.length < 65536
    · have hbytes : beBytes 2 payload.length =
          [UInt8.ofNat ((payload.length >>> 8) &&& 0xFF),
            UInt8.ofNat (payload.length &&& 0xFF)] := by
        have h0 := shifted_byte payload.length 0
        have h1 := shifted_byte payload.length 1
        simp only [beBytes, ← h0, ← h1]
        rfl
      rw [if_pos (Nat.le_of_lt_succ h16), if_pos h16, hbytes]
    · have hbytes : beBytes 8 payload.length = (List.range 8).map fun i =>
          UInt8.ofNat ((payload.length >>> (56 - 8 * i)) &&& 0xFF) := by
        simp only [beBytes, ← shifted_byte]
        rfl
      rw [if_neg (by omega), if_neg h16, hbytes]

/-- On every buffer that declares less than `2^31` bytes, or nothing yet, the
parsers agree, and the encoders agree on everything. -/
theorem codecs_agree {bits : Nat} (hbits : 32 ≤ bits) :
    (∀ buf, (∀ d, declared buf = some d → d.length < 2 ^ 31) → ParsersAgree bits buf) ∧
      ∀ opcode payload, Wasm.encodeWsFrame opcode payload = Envoy.encodeFrame opcode payload :=
  ⟨fun _ hlength => parsersAgree hbits hlength, encodeWsFrame_eq_encodeFrame⟩

/-- A frame cut inside its key, and the Close frame of both filters. -/
theorem codecs_agree_close :
    ParsersAgree 32 [0x88, 0x82, 0x01] ∧
      Wasm.encodeWsFrame 0x08 [0x03, 0xE8] = Envoy.encodeFrame 0x08 [0x03, 0xE8] := by
  refine ⟨(codecs_agree (Nat.le_refl 32)).1 _ ?_, (codecs_agree (Nat.le_refl 32)).2 _ _⟩
  intro d hd
  cases hd
  decide

end Grpcgi
