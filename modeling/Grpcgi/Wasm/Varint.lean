import Grpcgi.Wasm.HttpResponse

/-!
# Varints of both filters

`write_varint` and the two `read_varint` of `wasm/src/lib.rs` and
`wasm/http-bridge/src/lib.rs` together: what one writes, both read, and they agree
on bytes that nobody wrote.
-/

namespace Grpcgi.Wasm

/-- `write_varint` ends by itself: after ten iterations nothing is left of a `u64`. -/
theorem writeVarintLoop_enough (v : UInt64) {iterations : Nat} (h : 10 ≤ iterations) :
    writeVarintLoop iterations v = writeVarint v := by
  obtain ⟨more, rfl⟩ := Nat.exists_eq_add_of_le h
  have hv : v.toNat < 128 ^ 10 := Nat.lt_trans v.toNat_lt (by decide)
  rw [writeVarintLoop_eq, writeVarint_eq]
  exact Protobuf.groups_enough hv

/-- A varint at an offset is read as the bytes from there on. -/
theorem readVarint_append (before bs : Bytes) :
    readVarint (before ++ bs) before.length = Protobuf.readVarint bs := by
  rw [readVarint_eq, List.drop_left]

/-- The HTTP filter reads the rest of a buffer as the WebSocket filter reads the buffer. -/
theorem readVarintAt_agrees {buf : Bytes} {offset : Nat} (h : offset ≤ buf.length) :
    HttpBridge.readVarintAt buf offset = .ok (readVarint buf offset) := by
  rw [HttpBridge.readVarintAt_eq h, readVarint_eq]

/-- The varint codec: a number is read back from wherever it was written, in the fewest
bytes that read as it, a varint that is cut off is refused, and the two readers agree
on every buffer. -/
theorem varint_codec (v : UInt64) (before after : Bytes) :
    (readVarint (before ++ writeVarint v ++ after) before.length =
        some (v, (writeVarint v).length) ∧
      (∀ iterations, 10 ≤ iterations → writeVarintLoop iterations v = writeVarint v) ∧
      (writeVarint v).length ≤ 10 ∧
      ∀ buf offset n, readVarint buf offset = some (v, n) → (writeVarint v).length ≤ n) ∧
    (∀ cut, cut <+: writeVarint v → cut ≠ writeVarint v →
      readVarint (before ++ cut) before.length = none) ∧
    ∀ buf offset, offset ≤ buf.length →
      HttpBridge.readVarintAt buf offset = .ok (readVarint buf offset) := by
  have hback : readVarint (before ++ writeVarint v ++ after) before.length =
      some (v, (writeVarint v).length) := by
    rw [List.append_assoc]
    exact readVarint_write v before after
  refine ⟨⟨hback, fun _ => writeVarintLoop_enough v, length_writeVarint v, ?_⟩, ?_,
    fun _ _ => readVarintAt_agrees⟩
  · intro buf offset n hread
    rw [readVarint_eq] at hread
    rw [writeVarint_eq]
    exact Protobuf.length_varint_le hread
  · intro cut hprefix hcut
    rw [writeVarint_eq] at hprefix hcut
    rw [readVarint_append]
    exact Protobuf.readVarint_cut hprefix hcut

/-- Eleven groups are refused, and of ten the bits above the 64th are dropped. -/
example : readVarint (List.replicate 10 0x80 ++ [0x00]) 0 = none ∧
    readVarint (List.replicate 9 0xFF ++ [0x7F]) 0 = some (0xFFFFFFFFFFFFFFFF, 10) := by decide

end Grpcgi.Wasm
