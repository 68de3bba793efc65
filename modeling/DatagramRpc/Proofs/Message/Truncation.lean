import DatagramRpc.Proofs.Frame.PrefixFree
import DatagramRpc.Proofs.Message.Refusal
import DatagramRpc.Server.Station

/-!
# Cut datagrams

A datagram that is longer than the buffer of its receiver arrives without its end, and what then
stands last is taken for the parity trailer. Since no frame begins another, such a piece is never a
frame, whatever that byte says: the server rejects it, and does nothing else.
-/

namespace DatagramRpc

open DatagramRpc.Frame

variable {s : Schema} {frame more : List UInt8} {decoded : Rooted}

namespace Frame

/-- Bytes that do not decode are refused with a decode error. -/
theorem refused_of_not_ok (h : ∀ decoded, decode s frame ≠ .ok decoded) :
    ∃ fault, decode s frame = .error fault ∧ fault.isDecodeError = true := by
  have hend := decode_ends s frame
  cases hdecode : decode s frame with
  | ok decoded => exact absurd hdecode (h decoded)
  | error fault =>
    rw [hdecode] at hend
    exact ⟨fault, rfl, hend⟩

private theorem decode_append_refused (h : decode s frame = .ok decoded) (hmore : more ≠ []) :
    ∃ fault, decode s (frame ++ more) = .error fault ∧ fault.isDecodeError = true :=
  refused_of_not_ok fun _ h' => hmore (eq_nil_of_decode_append h h')

private theorem decode_take_refused (h : decode s frame = .ok decoded) {n : Nat}
    (hn : n < frame.length) :
    ∃ fault, decode s (frame.take n) = .error fault ∧ fault.isDecodeError = true := by
  refine refused_of_not_ok fun decoded' h' => ?_
  have hwhole : decode s (frame.take n ++ frame.drop n) = .ok decoded := by
    rw [List.take_append_drop, h]
  have hdrop := congrArg List.length (eq_nil_of_decode_append h' hwhole)
  rw [List.length_drop, List.length_nil] at hdrop
  omega

end Frame

private theorem Envelope.ofFrame_of_refused {fault : Fault}
    (h : decode schema frame = .error fault) : ofFrame frame = .error fault := by
  rw [ofFrame, h]
  rfl

/-- A datagram that is rejected is counted and answered. -/
theorem Station.handle_of_refused {σ : Type} {st : Station σ} {h : Handler σ} {t : Readings}
    {n : Network} {p : Parcel} {fault : Fault}
    (hfault : Envelope.ofFrame (p.cut st.bufferSize).bytes = .error fault) :
    st.handle h t n p = ({ st with server := st.server.countRejected fault },
      ((Server.rejection fault).toFrame.toOption.map fun reply => (p.source, reply)).toList) := by
  simp only [Station.handle, Server.handleDatagram, Server.dispatch, hfault]
  rfl

/-- **Only whole frames are accepted**: neither a proper part from the start nor anything longer,
and a datagram that is cut off is rejected. -/
theorem Frame.only_whole_frames (frame : List UInt8) :
    (∀ (s : Schema) (decoded : Rooted), decode s frame = .ok decoded →
      (∀ n < frame.length, ∃ fault, decode s (frame.take n) = .error fault ∧
        fault.isDecodeError = true) ∧ ∀ more, more ≠ [] →
        ∃ fault, decode s (frame ++ more) = .error fault ∧ fault.isDecodeError = true) ∧
    ∀ decoded, decode Envelope.schema frame = .ok decoded →
      ∀ (σ : Type) (st : Station σ) (h : Handler σ) (t : Readings) (source : Address),
        st.bufferSize < frame.length → ∃ fault, fault.isDecodeError = true ∧
          (∀ sink, st.server.dispatch h sink t source
            ((Parcel.mk source frame).cut st.bufferSize).bytes =
            (st.server.countRejected fault, ⟨Server.rejection fault, .rejected, .none⟩)) ∧
          ∀ n : Network, st.handle h t n ⟨source, frame⟩ =
            ({ st with server := st.server.countRejected fault },
              ((Server.rejection fault).toFrame.toOption.map fun reply =>
                (source, reply)).toList) := by
  refine ⟨fun s decoded hdecode => ⟨fun n hn => decode_take_refused hdecode hn,
    fun more hmore => decode_append_refused hdecode hmore⟩, ?_⟩
  intro decoded hdecode σ st h t source hcut
  obtain ⟨fault, hrefused, hkind⟩ := decode_take_refused hdecode hcut
  have hfault : Envelope.ofFrame
      ((Parcel.mk source frame).cut st.bufferSize).bytes = .error fault :=
    Envelope.ofFrame_of_refused hrefused
  refine ⟨fault, hkind, fun sink => ?_, fun n => Station.handle_of_refused hfault⟩
  rw [Server.dispatch, hfault]

/-- A server whose buffer holds the first 104 bytes of a datagram. -/
def sampleStation : Station Unit :=
  ⟨⟨Network.loopback, 8888⟩, 104, .start .atMostOnce 0 (), .disabled⟩

/-- The last byte that fits into the buffer happens to be the parity of those before it. -/
theorem Frame.only_whole_frames_sample :
    (Wire.checkTrailer (Envelope.blankFrame.take 104)).toOption.isSome = true ∧
      (∃ fault, decode Envelope.schema (Envelope.blankFrame.take 104) = .error fault ∧
        fault.isDecodeError = true) ∧
      (∃ fault, decode Envelope.schema (Envelope.blankFrame ++ Envelope.blankFrame) = .error fault ∧
        fault.isDecodeError = true) ∧
      ∀ (h : Handler Unit) (t : Readings) (source : Address),
        ∃ fault, fault.isDecodeError = true ∧ ∀ sink,
          sampleStation.server.dispatch h sink t source (Envelope.blankFrame.take 104) =
            (sampleStation.server.countRejected fault,
              ⟨Server.rejection fault, .rejected, .none⟩) := by
  have hdecoded : (decode Envelope.schema Envelope.blankFrame).toOption.isSome = true := by
    decide +kernel
  obtain ⟨decoded, hdecoded⟩ := Option.isSome_iff_exists.mp hdecoded
  have hdecode := ok_of_toOption hdecoded
  obtain ⟨hparts, hcut⟩ := only_whole_frames Envelope.blankFrame
  obtain ⟨htake, happend⟩ := hparts Envelope.schema decoded hdecode
  have hlength : 104 < Envelope.blankFrame.length := by decide +kernel
  have hmore : Envelope.blankFrame ≠ [] := by decide +kernel
  refine ⟨by decide +kernel, htake 104 hlength, happend _ hmore, fun h t source => ?_⟩
  obtain ⟨fault, hkind, hdispatch, -⟩ := hcut decoded hdecode Unit sampleStation h t source hlength
  exact ⟨fault, hkind, hdispatch⟩

end DatagramRpc
