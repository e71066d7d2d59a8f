import Grpcgi.WebSocket.Frame

/-!
# Messages and their fragments

`Sends` relates a stream of frames to the messages that RFC 6455 says it
carries: a message is one data frame with FIN set, or a data frame without FIN
followed by continuation frames, the last of which has FIN set. Pings and Pongs
may stand anywhere.
-/

namespace Grpcgi.WebSocket

/-- The frames carry the messages; the first argument is what has arrived of a
message whose end has not. -/
inductive Sends : Option Bytes → List Frame → List Bytes → Prop where
  | done : Sends none [] []
  | control {begun fs ms} {f : Frame} (h : f.IsPing ∨ f.IsPong) (rest : Sends begun fs ms) :
      Sends begun (f :: fs) ms
  | whole {fs ms} {f : Frame} (h : f.IsData) (hfin : f.fin = true) (rest : Sends none fs ms) :
      Sends none (f :: fs) (f.payload :: ms)
  | first {fs ms} {f : Frame} (h : f.IsData) (hfin : f.fin = false)
      (rest : Sends (some f.payload) fs ms) : Sends none (f :: fs) ms
  | middle {begun fs ms} {f : Frame} (h : f.IsContinuation) (hfin : f.fin = false)
      (rest : Sends (some (begun ++ f.payload)) fs ms) : Sends (some begun) (f :: fs) ms
  | last {begun fs ms} {f : Frame} (h : f.IsContinuation) (hfin : f.fin = true)
      (rest : Sends none fs ms) : Sends (some begun) (f :: fs) ((begun ++ f.payload) :: ms)

/-- The payload of the text and binary frames alone. -/
def dataPayload (frames : List Frame) : Bytes :=
  (frames.filter fun f => decide f.IsData).flatMap Frame.payload

/-- The payload of the data frames and their continuations. -/
def messagePayload (frames : List Frame) : Bytes :=
  (frames.filter fun f => decide (f.IsData ∨ f.IsContinuation)).flatMap Frame.payload

section Cons

variable (f : Frame) (fs : List Frame)

theorem dataPayload_cons :
    dataPayload (f :: fs) = (if f.IsData then f.payload else []) ++ dataPayload fs := by
  simp only [dataPayload]
  by_cases h : f.IsData <;> simp [h]

theorem messagePayload_cons :
    messagePayload (f :: fs) =
      (if f.IsData ∨ f.IsContinuation then f.payload else []) ++ messagePayload fs := by
  simp only [messagePayload]
  by_cases h : f.IsData ∨ f.IsContinuation
  · rw [List.filter_cons_of_pos (by simpa using h), List.flatMap_cons, if_pos h]
  · rw [List.filter_cons_of_neg (by simpa using h), if_neg h, List.nil_append]

end Cons

/-- No frame is two kinds at once. -/
theorem not_data_of_continuation {f : Frame} (h : f.IsContinuation) : ¬ f.IsData := by
  rintro (ht | hb)
  · exact absurd (h.symm.trans ht) (by decide)
  · exact absurd (h.symm.trans hb) (by decide)

theorem not_message_of_control {f : Frame} (h : f.IsPing ∨ f.IsPong) :
    ¬ (f.IsData ∨ f.IsContinuation) := by
  rintro ((ht | hb) | hc) <;> rcases h with h | h
  · exact absurd (h.symm.trans ht) (by decide)
  · exact absurd (h.symm.trans ht) (by decide)
  · exact absurd (h.symm.trans hb) (by decide)
  · exact absurd (h.symm.trans hb) (by decide)
  · exact absurd (h.symm.trans hc) (by decide)
  · exact absurd (h.symm.trans hc) (by decide)

/-- The messages, concatenated, are the payload of data and continuation frames. -/
theorem Sends.messagePayload {begun : Option Bytes} {frames : List Frame} {messages : List Bytes}
    (h : Sends begun frames messages) :
    begun.getD [] ++ messagePayload frames = messages.flatten := by
  induction h with
  | done => rfl
  | control hf _ ih =>
      rw [messagePayload_cons, if_neg (not_message_of_control hf), List.nil_append, ih]
  | whole hf _ _ ih =>
      rw [messagePayload_cons, if_pos (.inl hf), List.flatten_cons, ← ih]
      rfl
  | first hf _ _ ih =>
      rw [messagePayload_cons, if_pos (.inl hf), ← ih]
      rfl
  | middle hf _ _ ih =>
      rw [messagePayload_cons, if_pos (.inr hf), ← ih, Option.getD_some, Option.getD_some,
        List.append_assoc]
  | last hf _ _ ih =>
      rw [messagePayload_cons, if_pos (.inr hf), List.flatten_cons, ← ih, Option.getD_some,
        Option.getD_none, List.nil_append, List.append_assoc]

theorem Sends.flatten {frames : List Frame} {messages : List Bytes}
    (h : Sends none frames messages) : messages.flatten = WebSocket.messagePayload frames := by
  rw [← h.messagePayload]
  rfl

/-- A stream of messages has no Close in it. -/
theorem Sends.not_close {begun : Option Bytes} {frames : List Frame} {messages : List Bytes}
    (h : Sends begun frames messages) : ∀ f ∈ frames, ¬ f.IsClose := by
  have hdata {f : Frame} (hf : f.IsData) : ¬ f.IsClose := fun hclose =>
    Frame.not_data_of_close hclose hf
  have hcontinuation {f : Frame} (hf : f.IsContinuation) : ¬ f.IsClose := fun hclose =>
    absurd (hclose.symm.trans hf) (by decide)
  have hcontrol {f : Frame} (hf : f.IsPing ∨ f.IsPong) : ¬ f.IsClose := fun hclose => by
    obtain hp | hp := hf
    · exact absurd (hclose.symm.trans hp) (by decide)
    · exact absurd (hclose.symm.trans hp) (by decide)
  induction h with
  | done => simp
  | control hf _ ih => exact List.forall_mem_cons.mpr ⟨hcontrol hf, ih⟩
  | whole hf _ _ ih => exact List.forall_mem_cons.mpr ⟨hdata hf, ih⟩
  | first hf _ _ ih => exact List.forall_mem_cons.mpr ⟨hdata hf, ih⟩
  | middle hf _ _ ih => exact List.forall_mem_cons.mpr ⟨hcontinuation hf, ih⟩
  | last hf _ _ ih => exact List.forall_mem_cons.mpr ⟨hcontinuation hf, ih⟩

/-- The part of a message that its continuation frames carry is missing from
the data frames, byte by byte. -/
theorem length_messagePayload (frames : List Frame) :
    (messagePayload frames).length = (dataPayload frames).length +
      ((frames.filter fun f => decide f.IsContinuation).flatMap Frame.payload).length := by
  induction frames with
  | nil => rfl
  | cons f fs ih =>
      rw [messagePayload_cons, dataPayload_cons, List.length_append, List.length_append, ih]
      by_cases hcont : f.IsContinuation
      · rw [if_pos (.inr hcont), if_neg (not_data_of_continuation hcont),
          List.filter_cons_of_pos (by simpa using hcont), List.flatMap_cons, List.length_append]
        simp only [List.length_nil]
        omega
      · rw [List.filter_cons_of_neg (by simpa using hcont)]
        by_cases hdata : f.IsData
        · rw [if_pos (.inl hdata), if_pos hdata]
          omega
        · rw [if_neg (by simp [hdata, hcont]), if_neg hdata]
          omega

/-- The data frames alone hold every message byte exactly when no continuation
frame carries any. -/
theorem dataPayload_eq_iff (frames : List Frame) :
    dataPayload frames = messagePayload frames ↔
      ∀ f ∈ frames, f.IsContinuation → f.payload = [] := by
  constructor
  · intro h f hf hcont
    have hlength := length_messagePayload frames
    rw [h] at hlength
    have hnil : (frames.filter fun f => decide f.IsContinuation).flatMap Frame.payload = [] :=
      List.length_eq_zero_iff.mp (by omega)
    exact List.flatMap_eq_nil_iff.mp hnil f (by simp [hf, hcont])
  · intro h
    induction frames with
    | nil => rfl
    | cons f fs ih =>
        rw [dataPayload_cons, messagePayload_cons,
          ih fun g hg => h g (List.mem_cons_of_mem f hg)]
        congr 1
        by_cases hcont : f.IsContinuation
        · rw [if_neg (not_data_of_continuation hcont), if_pos (.inr hcont),
            h f List.mem_cons_self hcont]
        · by_cases hdata : f.IsData
          · rw [if_pos hdata, if_pos (.inl hdata)]
          · rw [if_neg hdata, if_neg (by simp [hdata, hcont])]

end Grpcgi.WebSocket
