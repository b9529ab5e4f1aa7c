/-
The functions of a NetVSC device are moves of its view.

The programs of the device are put together from sends, removals and changes of
fields that the view does not have, so what they can do is read off their text by
the rules for `Does`.

* `sendControl_does`, `transmitFrame_does`, `sendRndisControlInner_does` — the three
  writers of section 0;
* `dispatch_poll`, `dispatch_pump` — the two dispatch loops take one packet.
-/
import Embclox.NetvscView

open Bytes Effect Ring Nvsp Relation

namespace Netvsc

variable {K K' F F' : Prop} {d : NetvscDevice}

/-! ### Sends -/

theorem moves_closed (hF : F → F') : Prog.Closed (Moves K F) (Moves K F') where
  refl _ := .refl
  trans h h' := h.trans h'
  fails h h' := (moves_mono id hF h).trans h'
  weaken h := moves_mono id hF h

theorem Base.extend {d' : NetvscDevice} {new : List Event} (hb : Base d) (hrecv : d'.recv = d.recv)
    (hlog : d'.log = d.log ++ new) (hnew : ∀ e ∈ new, e.offRing)
    (hsend : ∃ out, Repr d'.send out) : Base d' := by
  refine ⟨?_, ?_, hsend⟩
  · rw [hrecv, hlog, unread_offRing hnew]
    exact hb.recv
  · rw [hlog, puts_append, removedCount_append, puts_offRing hnew, removedCount_offRing hnew,
      List.append_nil]
    exact hb.count

theorem Base.unlogged {d' : NetvscDevice} (hb : Base d) (hrecv : d'.recv = d.recv)
    (hlog : d'.log = d.log) (hsend : d'.send = d.send) : Base d' := by
  refine ⟨?_, ?_, ?_⟩
  · rw [hrecv, hlog]
    exact hb.recv
  · rw [hlog]
    exact hb.count
  · rw [hsend]
    exact hb.send

/-- A change of fields that neither the rings nor the view have. -/
theorem quiet_does {f : NetvscDevice → NetvscDevice} (hview : ∀ d, (f d).view = d.view)
    (hrecv : ∀ d, (f d).recv = d.recv) (hsend : ∀ d, (f d).send = d.send) :
    Prog.Does Base (Moves K F) (Moves K F') (Prog.modify f : Dev PUnit) := by
  refine Prog.Does.modify fun d hb => ⟨?_, ?_⟩
  · exact hb.unlogged (hrecv d) (congrArg View.log (hview d)) (hsend d)
  · unfold Moves
    rw [hview d]

/-- A send logs its packet, or that the ring is full. -/
theorem channelSend_spec (hb : Base d) {op : Prog RingHalf RingError Unit} {call : SendCall}
    (hop : op = call.run) (hfit : call.Fits) (e : Event) :
    ∃ r, (∃ out, Repr r out) ∧
      (channelSend op e d = (.ok (), { d with send := r, log := d.log ++ [e] }) ∨
        channelSend op e d = (.err (.hypercallFailed 0xFFFF),
          { d with send := r, log := d.log ++ [.ringFull] })) := by
  obtain ⟨out, hout⟩ := hb.send
  rw [hop]
  rcases call.run_repr hout hfit with hrun | ⟨r, p, hrun, hrepr, -⟩
  -- a send that fails leaves the ring as it is
  · exact ⟨d.send, ⟨out, hout⟩, .inr (by simp only [channelSend, hrun])⟩
  · exact ⟨r, ⟨_, hrepr⟩, .inl (by simp only [channelSend, hrun])⟩

theorem fits_of_short {payload : List UInt8} (h : payload.length ≤ 40) (transactionId : UInt64)
    (flags : UInt16) : (SendCall.sendPacket payload transactionId flags).Fits := by
  unfold SendCall.Fits SendCall.unpadded SendCall.extraHeader SendCall.payload align8
  simp only [List.length_nil]
  omega

theorem length_nvspMessagePadded {msgType : NvspMessageType} {body : List UInt8}
    (h : body.length ≤ 28) : (nvspMessagePadded (nvspMessage msgType body)).length = 40 := by
  simp only [nvspMessagePadded, nvspMessage, nvspMessageSize, List.length_append, length_le32,
    List.length_replicate]
  omega

theorem u32At_nvspMessagePadded (msgType : NvspMessageType) (body : List UInt8) :
    u32At (nvspMessagePadded (nvspMessage msgType body)) 0 = msgType.asU32 := by
  rw [nvspMessagePadded, nvspMessage, List.append_assoc]
  exact u32At_le32 (a := []) rfl

theorem length_sectionMessage (channelType : UInt32) (len : ℕ) :
    (sectionMessage channelType len).length = 40 :=
  length_nvspMessagePadded (by simp)

theorem isSectionPacket_sectionMessage (channelType : UInt32) (len : ℕ) :
    isSectionPacket vmPktDataInband (sectionMessage channelType len) = true := by
  have htype : u32At (sectionMessage channelType len) 0 = NvspMessageType.sendRndisPkt.asU32 :=
    u32At_nvspMessagePadded _ _
  -- the section index is the third word of the message
  have hsection : u32At (sectionMessage channelType len) 8 = 0 := by
    simp only [sectionMessage, buildNvspSendRndisPkt, nvspMessagePadded, nvspMessage,
      List.append_assoc]
    rw [← List.append_assoc (le32 _) (le32 channelType)]
    exact u32At_le32 (by simp)
  rw [isSectionPacket, htype, hsection]
  rfl

/-- An NVSP message that does not refer to a section. -/
theorem nvspSend_does (msgType : NvspMessageType) {body : List UInt8}
    (ht : msgType ≠ .sendRndisPkt) (hlen : body.length ≤ 28) (transactionId : UInt64)
    (flags : UInt16) :
    Prog.Does Base (Moves K F) (Moves K F')
      (channelSend (sendPacket (nvspMessagePadded (nvspMessage msgType body)) transactionId flags)
        (.sent vmPktDataInband transactionId (nvspMessagePadded (nvspMessage msgType body)))) := by
  generalize hmsg : nvspMessagePadded (nvspMessage msgType body) = payload
  have hplain : isSectionPacket vmPktDataInband payload = false := by
    rw [isSectionPacket, ← hmsg, u32At_nvspMessagePadded]
    cases msgType <;> first | exact absurd rfl ht | rfl
  have hfit : (SendCall.sendPacket payload transactionId flags).Fits :=
    fits_of_short (by rw [← hmsg, length_nvspMessagePadded hlen]) transactionId flags
  intro d hb
  obtain ⟨r, hr, hrun⟩ := channelSend_spec hb rfl hfit (.sent vmPktDataInband transactionId payload)
  unfold Prog.DoesAt
  rcases hrun with hrun | hrun <;>
    rw [show channelSend (sendPacket payload transactionId flags) _ d = _ from hrun]
  · exact ⟨hb.extend rfl rfl (by simp) hr, .single (.nvsp transactionId payload hplain)⟩
  · exact ⟨hb.extend rfl rfl (by simp) hr, .single .full⟩

/-- A section message is handed to the host, or the ring is full. -/
theorem sectionSend_spec (hb : Base d) (channelType : UInt32) (len : ℕ) (transactionId : UInt64) :
    ∃ r e, (∃ out, Repr r out) ∧ e.handsOver ∧
      (send (sectionMessage channelType len) transactionId d).2 =
        { d with send := r, log := d.log ++ [e] } ∧
      ((send (sectionMessage channelType len) transactionId d).1 = .ok () ∧ e ≠ .ringFull ∨
        ∃ err, (send (sectionMessage channelType len) transactionId d).1 = .err err) := by
  have hfit := fits_of_short (Nat.le_of_eq (length_sectionMessage channelType len)) transactionId
    vmbusDataPacketFlagCompletionRequested
  obtain ⟨r, hr, hrun⟩ := channelSend_spec hb rfl hfit
    (.sent vmPktDataInband transactionId (sectionMessage channelType len))
  rcases hrun with hrun | hrun
  · refine ⟨r, _, hr, .inl ⟨_, _, rfl, isSectionPacket_sectionMessage channelType len⟩,
      congrArg Prod.snd hrun, .inl ⟨congrArg Prod.fst hrun, by simp⟩⟩
  · exact ⟨r, .ringFull, hr, .inr rfl, congrArg Prod.snd hrun, .inr ⟨_, congrArg Prod.fst hrun⟩⟩

/-- A program that writes a message to the free section, marks it as used and hands
it over. -/
theorem handOver_does {p : Dev Unit} (sender : Sender) {bytes : List UInt8} {buf : ℕ → UInt8}
    {txid transactionId : UInt64} {channelType : UInt32} {len : ℕ} (hb : Base d)
    (hfree : d.sendSectionFree = true) (hsender : sender = .control ∨ F)
    (hp : p d = send (sectionMessage channelType len) transactionId { d with
      sendBuf := buf, log := d.log ++ [.wrote sender bytes], sendSectionFree := false,
      nextTxid := txid }) :
    Prog.DoesAt Base (Moves K F) (Moves K True) p d := by
  have hb1 : Base { d with
      sendBuf := buf, log := d.log ++ [.wrote sender bytes], sendSectionFree := false,
      nextTxid := txid } :=
    hb.extend rfl rfl (by simp) hb.send
  obtain ⟨r, e, hr, he, hd2, hout⟩ := sectionSend_spec hb1 channelType len transactionId
  -- the write, the flag and the message are one move, whatever the outcome
  have hmove : ∀ {G : Prop}, (sender = .control ∧ e ≠ .ringFull ∨ G) → Moves K G d (p d).2 := by
    intro G hG
    rw [hp, hd2]
    refine .single ?_
    simpa [NetvscDevice.view, View.add] using
      Micro.use (K := K) (v := d.view) sender bytes e hfree he hG
  refine ⟨?_, ?_⟩
  · rw [hp, hd2]
    exact hb1.extend rfl rfl (by simpa using offRing_of_handsOver he) hr
  · rcases hout with ⟨hok, hne⟩ | ⟨err, herr⟩
    · rw [← hp] at hok
      rw [hok]
      exact hmove (hsender.imp (fun h => ⟨h, hne⟩) id)
    · -- the flag stays cleared although nothing was handed over
      rw [← hp] at herr
      rw [herr]
      exact hmove (.inr trivial)

theorem sendControl_does (hb : Base d) (hfree : d.sendSectionFree = true) (msg : List UInt8) :
    Prog.DoesAt Base (Moves K False) (Moves K True) (sendControl msg) d := by
  unfold sendControl
  by_cases hlen : netvscSendBufSize < msg.length
  · rw [if_pos hlen]
    exact Prog.Does.panic (moves_closed (fun _ => trivial)) d hb
  · rw [if_neg hlen]
    exact handOver_does .control hb hfree (.inl rfl) rfl

theorem transmitFrame_does (hb : Base d) (hfree : d.sendSectionFree = true) (frameLen : ℕ)
    (f : List UInt8 → List UInt8) :
    Prog.DoesAt Base (Moves K True) (Moves K True) (transmitFrame frameLen f) d :=
  handOver_does .transmit hb hfree (.inr trivial) rfl

/-- The keepalive reply leaves the section marked as free. -/
theorem sendRndisControlInner_does (hb : Base d) (hK : d.sendSectionFree = true → K)
    (msg : List UInt8) :
    Prog.DoesAt Base (Moves K F) (Moves K F) (sendRndisControlInner msg) d := by
  by_cases hfree : d.sendSectionFree = true
  · have hp : sendRndisControlInner msg d = send (sectionMessage 1 msg.length) 0 { d with
        sendBuf := Memory.write d.sendBuf 0 msg, log := d.log ++ [.wrote .keepalive msg] } := by
      unfold sendRndisControlInner
      rw [Prog.get_bind, if_pos hfree]
      rfl
    have hb1 : Base { d with
        sendBuf := Memory.write d.sendBuf 0 msg, log := d.log ++ [.wrote .keepalive msg] } :=
      hb.extend rfl rfl (by simp) hb.send
    obtain ⟨r, e, hr, he, hd2, -⟩ := sectionSend_spec hb1 1 msg.length 0
    have hmove : Moves K F d (sendRndisControlInner msg d).2 := by
      rw [hp, hd2]
      refine .single ?_
      simpa [NetvscDevice.view, View.add] using
        Micro.reply (F := F) (v := d.view) msg e (hK hfree) hfree he
    refine ⟨?_, by split <;> exact hmove⟩
    rw [hp, hd2]
    exact hb1.extend rfl rfl (by simpa using offRing_of_handsOver he) hr
  · -- it refuses while the section is in use
    have hp : sendRndisControlInner msg d = (.err .timeout, d) := by
      unfold sendRndisControlInner
      rw [Prog.get_bind, if_neg hfree]
      rfl
    unfold Prog.DoesAt
    rw [hp]
    exact ⟨hb, .refl⟩

/-! ### Dispatch -/

/-- The device after the packet `p` was removed from the receive ring. -/
def removed (p : Packet) (d : NetvscDevice) : NetvscDevice :=
  { d with recv := pop d.recv p, log := d.log ++ [.removed p.desc] }

theorem Base.removed {x : Posted} {rest : List Posted} (hb : Base d)
    (hx : unread d.log = x :: rest) : Base (removed x.packet d) := by
  have hrecv := hb.recv
  rw [hx, List.map_cons] at hrecv
  refine ⟨?_, ?_, hb.send⟩
  · show Repr (pop d.recv x.packet) ((unread (d.log ++ [.removed x.packet.desc])).map _)
    rw [unread_removed, hx, List.tail_cons]
    exact hrecv.pop
  · show removedCount (d.log ++ [.removed x.packet.desc]) ≤
      (puts (d.log ++ [.removed x.packet.desc])).length
    -- there was a packet to remove
    have hlen : (unread d.log).length = (puts d.log).length - removedCount d.log :=
      List.length_drop
    rw [hx, List.length_cons] at hlen
    rw [removedCount_append, puts_append]
    show removedCount d.log + 1 ≤ (puts d.log ++ []).length
    rw [List.append_nil]
    omega

theorem tryRecvRaw_of_repr {p : Packet} {q : List Packet} (h : Repr d.recv (p :: q)) (bufLen : ℕ) :
    tryRecvRaw bufLen d = (.ok (some (p.desc, p.body.take bufLen)), removed p d) := by
  simp only [tryRecvRaw, channelRecv, recvPacketRaw_cons h, removed]

theorem tryRecvRaw_of_empty (h : Repr d.recv []) (bufLen : ℕ) :
    tryRecvRaw bufLen d = (.ok none, d) := by
  simp only [tryRecvRaw, channelRecv, recvPacketRaw, recvWith_nil h]

theorem tryRecvRaw_cons {x : Posted} {rest : List Posted} (hb : Base d)
    (hx : unread d.log = x :: rest) (bufLen : ℕ) :
    tryRecvRaw bufLen d =
      (.ok (some (x.packet.desc, x.packet.body.take bufLen)), removed x.packet d) := by
  have hrecv := hb.recv
  rw [hx, List.map_cons] at hrecv
  exact tryRecvRaw_of_repr hrecv bufLen

theorem tryRecvRaw_nil (hb : Base d) (hx : unread d.log = []) (bufLen : ℕ) :
    tryRecvRaw bufLen d = (.ok none, d) := by
  have hrecv := hb.recv
  rw [hx, List.map_nil] at hrecv
  exact tryRecvRaw_of_empty hrecv bufLen

theorem tryRecv_nil (hb : Base d) (hx : unread d.log = []) (bufLen : ℕ) :
    tryRecv bufLen d = (.ok none, d) := by
  have hrecv := hb.recv
  rw [hx, List.map_nil] at hrecv
  simp only [tryRecv, channelRecv, recvPacket, recvWith_nil hrecv]

theorem tryRecv_cons {x : Posted} {rest : List Posted} (hb : Base d)
    (hx : unread d.log = x :: rest) (bufLen : ℕ) :
    (x.packet.readable = true ∧ ∃ extra, (2 ≤ x.packet.desc.offset8.toNat → extra = []) ∧
        tryRecv bufLen d = (.ok (some (x.packet.desc, (x.packet.payload ++ extra).take bufLen)),
          removed x.packet d)) ∨
      (x.packet.readable = false ∧
        ((∃ e, tryRecv bufLen d = (.err e, d)) ∨ tryRecv bufLen d = (.panic, d))) := by
  have hrecv := hb.recv
  rw [hx, List.map_cons] at hrecv
  rcases recvPacket_cons hrecv bufLen with ⟨hr, extra, hextra, h⟩ | ⟨hr, ⟨e, h⟩ | h⟩
  · exact .inl ⟨hr, extra, hextra, by simp only [tryRecv, channelRecv, h, removed]⟩
  · exact .inr ⟨hr, .inl ⟨.hypercallFailed 0xFFFF, by simp only [tryRecv, channelRecv, h]⟩⟩
  · exact .inr ⟨hr, .inr (by simp only [tryRecv, channelRecv, h])⟩

/-- A transfer-page packet is completed, or the ring is full; the outcome is not
looked at. -/
theorem ack_spec (hb : Base d) (desc : VmPacketDescriptor) :
    ∃ r e res, e.acks desc ∧ Base { d with send := r, log := d.log ++ [e] } ∧
      Prog.attempt (sendCompletion compPayload desc.transactionId) d =
        (.ok res, { d with send := r, log := d.log ++ [e] }) := by
  have hfit : (SendCall.sendComp compPayload desc.transactionId).Fits := by
    unfold SendCall.Fits SendCall.unpadded SendCall.extraHeader SendCall.payload align8
    rw [show compPayload.length = 8 from rfl, List.length_nil]
    decide
  obtain ⟨r, hr, hrun⟩ := channelSend_spec hb rfl hfit
    (.sent vmPktComp desc.transactionId compPayload)
  have hbase : ∀ e : Event, e.acks desc → Base { d with send := r, log := d.log ++ [e] } :=
    fun e he => hb.extend rfl rfl (by simpa using offRing_of_acks he) hr
  rcases hrun with hrun | hrun
  · refine ⟨r, _, .ok (), .inl rfl, hbase _ (.inl rfl), ?_⟩
    rw [Prog.attempt, show sendCompletion compPayload desc.transactionId d = _ from hrun]
  · refine ⟨r, .ringFull, .error (.hypercallFailed 0xFFFF), .inr rfl, hbase _ (.inr rfl), ?_⟩
    rw [Prog.attempt, show sendCompletion compPayload desc.transactionId d = _ from hrun]

/-- The reply to a keepalive, whose outcome is not looked at. -/
theorem answer_does (hb : Base d) (hK : d.sendSectionFree = true → K) (reqId : UInt32) :
    Prog.DoesAt Base (Moves K F) (Moves K F)
      (do let _ ← Prog.attempt (sendRndisControlInner (buildRndisKeepaliveCmplt reqId))) d :=
  ((sendRndisControlInner_does hb hK _).attempt (moves_closed id)).bind (moves_closed id)
    fun _ => Prog.Does.pure (moves_closed id) _

theorem pollMessage_does (hb : Base d) (buf : List UInt8)
    (hK : d.sendSectionFree = true → isKeepalive buf = true → K) :
    Prog.DoesAt Base (Moves K F) (Moves K F) (pollMessage buf) d := by
  unfold pollMessage
  by_cases hlen : buf.length < rndisHeaderSize
  · rw [if_pos hlen]
    exact Prog.Does.pure (moves_closed id) _ d hb
  · rw [if_neg hlen]
    cases hparse : parseRndisResponse buf with
    | none => exact Prog.Does.panic (moves_closed id) d hb
    | some resp =>
      refine Prog.DoesAt.some_bind ?_
      -- the three responses go to the slot, the keepalive is answered
      rcases resp with _ | resp
      · exact Prog.Does.pure (moves_closed id) _ d hb
      cases resp with
      | keepAlive reqId =>
        have hkeep : isKeepalive buf = true := by rw [isKeepalive, hparse]
        exact answer_does hb (fun hfree => hK hfree hkeep) reqId
      | initComplete | queryComplete | setComplete =>
        refine quiet_does ?_ ?_ ?_ d hb <;> exact fun _ => rfl
      | _ => exact Prog.Does.pure (moves_closed id) _ d hb

/-- The view after `pump_channel` handled a message in an empty slot. -/
theorem pumpMessage_spec (hb : Base d) (rx : List UInt8) (hp : d.pendingRx = none)
    (hK : d.sendSectionFree = true → isKeepalive rx = true → K) :
    Base (pumpMessage rx d).2 ∧
      ReflTransGen (Micro K F) { d.view with pendingRx := queuedFrame rx }
        (pumpMessage rx d).2.view := by
  have hsame : ({ d.view with pendingRx := none } : View) = d.view := by
    rw [NetvscDevice.view, hp]
  -- most messages queue nothing and change nothing
  have hskip : queuedFrame rx = none → (pumpMessage rx d).2 = d →
      Base (pumpMessage rx d).2 ∧ ReflTransGen (Micro K F)
        { d.view with pendingRx := queuedFrame rx } (pumpMessage rx d).2.view := by
    intro hq hd
    rw [hq, hd, hsame]
    exact ⟨hb, .refl⟩
  by_cases hlen : rx.length < rndisHeaderSize
  · exact hskip (if_pos hlen) (by rw [pumpMessage, if_pos hlen]; rfl)
  by_cases hdata : u32At rx 0 = RndisMessageType.packet.asU32
  · have hq : queuedFrame rx = (extractEthFrame rxFrameMax rx).join := by
      rw [queuedFrame, if_neg hlen, if_pos hdata]
    rcases hframe : extractEthFrame rxFrameMax rx with _ | _ | frame
    · refine hskip (by rw [hq, hframe]; rfl) ?_
      rw [pumpMessage, if_neg hlen, if_pos hdata, hframe]
      rfl
    · refine hskip (by rw [hq, hframe]; rfl) ?_
      rw [pumpMessage, if_neg hlen, if_pos hdata, hframe]
      rfl
    · have hd : (pumpMessage rx d).2 = { d with pendingRx := some frame } := by
        rw [pumpMessage, if_neg hlen, if_pos hdata, hframe]
        rfl
      rw [hd, hq, hframe]
      exact ⟨hb.unlogged rfl rfl rfl, .refl⟩
  · have hq : queuedFrame rx = none := by rw [queuedFrame, if_neg hlen, if_neg hdata]
    by_cases hkeep : u32At rx 0 = RndisMessageType.keepAlive.asU32
    · have hdoes : Prog.DoesAt Base (Moves K F) (Moves K F) (pumpMessage rx) d := by
        rw [pumpMessage, if_neg hlen, if_neg hdata, if_pos hkeep]
        rcases hparse : parseRndisResponse rx with _ | _ | resp
        · exact Prog.Does.panic (moves_closed id) d hb
        · exact Prog.Does.pure (moves_closed id) _ d hb
        · refine Prog.DoesAt.some_bind ?_
          cases resp with
          | keepAlive reqId =>
            exact answer_does hb (fun hfree => hK hfree (by rw [isKeepalive, hparse])) reqId
          | _ => exact Prog.Does.pure (moves_closed id) _ d hb
      rw [hq, hsame]
      exact ⟨hdoes.1, hdoes.rel⟩
    · exact hskip hq (by rw [pumpMessage, if_neg hlen, if_neg hdata, if_neg hkeep]; rfl)

theorem handleCompletion_spec (hb : Base d) (desc : VmPacketDescriptor) (raw : List UInt8) :
    Base (handleCompletion desc raw d).2 ∧ (handleCompletion desc raw d).2.view =
      { d.view with sectionFree := d.view.sectionFree || isTxCompletion desc raw } := by
  by_cases h : isTxCompletion desc raw = true
  · have hd : (handleCompletion desc raw d).2 = { d with sendSectionFree := true } := by
      rw [handleCompletion, if_pos h]
      rfl
    rw [hd, h, Bool.or_true]
    exact ⟨hb.unlogged rfl rfl rfl, rfl⟩
  · have hd : (handleCompletion desc raw d).2 = d := by
      rw [handleCompletion, if_neg h]
      rfl
    rw [hd, Bool.eq_false_iff.mpr h, Bool.or_false]
    exact ⟨hb, rfl⟩

/-! ### What the two loops do with a packet -/

section

variable {desc : VmPacketDescriptor} {raw : List UInt8}

theorem pollDispatch_xferPages (ht : desc.packetType = vmPktDataUsingXferPages) :
    pollDispatch desc raw = handleXferPage desc raw := by
  rw [pollDispatch, ht, fromU16_xferPages]

theorem pollDispatch_comp (ht : desc.packetType = vmPktComp) :
    pollDispatch desc raw = handleCompletion desc raw := by
  rw [pollDispatch, ht, fromU16_comp]

theorem pollDispatch_other (ht : desc.packetType ≠ vmPktDataUsingXferPages)
    (ht' : desc.packetType ≠ vmPktComp) : (pollDispatch desc raw d).2 = d := by
  obtain ⟨h7, h11⟩ := fromU16_other ht ht'
  rw [pollDispatch]
  rcases hty : VmbusPacketType.fromU16 desc.packetType with _ | _ | _ | _ | _
  · rfl
  · rcases nvspOffset desc with _ | o
    · rfl
    · dsimp only
      split_ifs <;> rfl
  · exact absurd hty h7
  · rfl
  · exact absurd hty h11

/-- The slot is free: the packet is completed, then its message is looked at. -/
theorem pumpDispatch_xferPages (ht : desc.packetType = vmPktDataUsingXferPages)
    (hp : d.pendingRx = none) {res : Except HvError Unit} {d' : NetvscDevice}
    (hack : Prog.attempt (sendCompletion compPayload desc.transactionId) d = (.ok res, d')) :
    (pumpDispatch desc raw d).2 =
      (pumpMessage (parseXferPagePacket d.recvBuf raw rxFrameMax) d').2 := by
  have hsome : d.pendingRx.isSome ≠ true := by
    rw [hp]
    decide
  rw [pumpDispatch, ht, fromU16_xferPages]
  dsimp only
  rw [Prog.get_bind, if_neg hsome, Prog.bind_apply, hack]
  dsimp only
  rw [Prog.bind_apply]
  rcases pumpMessage (parseXferPagePacket d.recvBuf raw rxFrameMax) d' with ⟨_ | _ | _, d''⟩ <;>
    rfl

theorem pumpDispatch_pending (ht : desc.packetType = vmPktDataUsingXferPages)
    (hp : d.pendingRx ≠ none) : pumpDispatch desc raw d = (.ok false, d) := by
  rw [pumpDispatch, ht, fromU16_xferPages]
  dsimp only
  rw [Prog.get_bind, if_pos (Option.isSome_iff_ne_none.mpr hp)]
  rfl

theorem pumpDispatch_comp (ht : desc.packetType = vmPktComp) :
    (pumpDispatch desc raw d).2 = (handleCompletion desc raw d).2 := by
  rw [pumpDispatch, ht, fromU16_comp]
  dsimp only
  rw [handleCompletion]
  split_ifs <;> rfl

theorem pumpDispatch_other (ht : desc.packetType ≠ vmPktDataUsingXferPages)
    (ht' : desc.packetType ≠ vmPktComp) : (pumpDispatch desc raw d).2 = d := by
  obtain ⟨h7, h11⟩ := fromU16_other ht ht'
  rw [pumpDispatch]
  rcases hty : VmbusPacketType.fromU16 desc.packetType with _ | _ | _ | _ | _
  · rfl
  · rfl
  · exact absurd hty h7
  · rfl
  · exact absurd hty h11

end

/-- What the guest has done after it dispatched the packet `p` from a device with the
view `v`. -/
def Dispatched (k : Consumer) (p : Packet) (v : View) (d : NetvscDevice) : Prop :=
  Base d ∧ ∃ w, Take p v k w ∧
    ReflTransGen (Micro (answersKeepalive k v p = true) False) w d.view

section

variable {x : Posted} {rest : List Posted} {k : Consumer}

/-- The completion arm, which both loops share. -/
theorem Dispatched.completion (hb : Base d) (hx : unread d.log = x :: rest) (hk : k ≠ .raw)
    (ht : x.packet.desc.packetType = vmPktComp) :
    Dispatched k x.packet d.view (handleCompletion x.packet.desc (x.packet.body.take rawBufLen)
      (removed x.packet d)).2 := by
  obtain ⟨hb1, hview⟩ :=
    handleCompletion_spec (hb.removed hx) x.packet.desc (x.packet.body.take rawBufLen)
  refine ⟨hb1, _, .completion k hk ht, ?_⟩
  rw [hview]
  exact .refl

/-- The packets that both loops skip. -/
theorem Dispatched.other (hb : Base d) (hx : unread d.log = x :: rest) (hk : k ≠ .raw)
    (ht : x.packet.desc.packetType ≠ vmPktDataUsingXferPages)
    (ht' : x.packet.desc.packetType ≠ vmPktComp) :
    Dispatched k x.packet d.view (removed x.packet d) :=
  ⟨hb.removed hx, _, .other k hk ht ht', .refl⟩

/-- **One round of `poll_channel`.** -/
theorem dispatch_poll (hb : Base d) (hx : unread d.log = x :: rest) :
    Dispatched .poll x.packet d.view
      (pollDispatch x.packet.desc (x.packet.body.take rawBufLen) (removed x.packet d)).2 := by
  by_cases ht : x.packet.desc.packetType = vmPktDataUsingXferPages
  · -- the completion is sent before the message is looked at
    obtain ⟨r, e, res, he, hb2, hack⟩ := ack_spec (hb.removed hx) x.packet.desc
    have hd : handleXferPage x.packet.desc (x.packet.body.take rawBufLen) (removed x.packet d) =
        pollMessage (messageOf d.recvBuf x.packet respBufLen)
          { removed x.packet d with send := r, log := (removed x.packet d).log ++ [e] } := by
      rw [handleXferPage, Prog.get_bind, Prog.bind_apply, hack]
      rfl
    have hmsg := pollMessage_does (F := False)
      (K := answersKeepalive .poll d.view x.packet = true)
      hb2 (messageOf d.recvBuf x.packet respBufLen) (by
        intro hfree hkeep
        have hfree' : d.view.sectionFree = true := hfree
        simp only [answersKeepalive, ht, hfree', beq_self_eq_true, Bool.true_and]
        exact hkeep)
    rw [pollDispatch_xferPages ht, hd]
    refine ⟨hmsg.1, _, .poll e ht he, ?_⟩
    have hmoves := hmsg.rel
    unfold Moves at hmoves
    simpa [NetvscDevice.view, View.add, removed] using hmoves
  by_cases ht' : x.packet.desc.packetType = vmPktComp
  · rw [pollDispatch_comp ht']
    exact .completion hb hx (by decide) ht'
  · rw [pollDispatch_other ht ht']
    exact .other hb hx (by decide) ht ht'

/-- **One round of `pump_channel`.** -/
theorem dispatch_pump (hb : Base d) (hx : unread d.log = x :: rest) :
    Dispatched .pump x.packet d.view
      (pumpDispatch x.packet.desc (x.packet.body.take rawBufLen) (removed x.packet d)).2 := by
  by_cases ht : x.packet.desc.packetType = vmPktDataUsingXferPages
  · by_cases hp : d.pendingRx = none
    · obtain ⟨r, e, res, he, hb2, hack⟩ := ack_spec (hb.removed hx) x.packet.desc
      obtain ⟨hb3, hmoves⟩ := pumpMessage_spec (F := False)
        (K := answersKeepalive .pump d.view x.packet = true)
        hb2 (messageOf d.recvBuf x.packet rxFrameMax) hp (by
          intro hfree hkeep
          have hfree' : d.view.sectionFree = true := hfree
          have hnone : d.view.pendingRx.isNone = true := by
            rw [NetvscDevice.view, hp, Option.isNone_none]
          simp only [answersKeepalive, ht, hfree', hnone, beq_self_eq_true, Bool.true_and]
          exact hkeep)
      rw [pumpDispatch_xferPages (d := removed x.packet d) ht hp hack]
      refine ⟨hb3, _, .pump e ht hp he, ?_⟩
      simpa [NetvscDevice.view, View.add, removed, messageOf] using hmoves
    · -- the packet has left the ring, and nothing else happens
      rw [pumpDispatch_pending (d := removed x.packet d) ht hp]
      exact ⟨hb.removed hx, _, .drop ht hp, .refl⟩
  by_cases ht' : x.packet.desc.packetType = vmPktComp
  · rw [pumpDispatch_comp ht']
    exact .completion hb hx (by decide) ht'
  · rw [pumpDispatch_other ht ht']
    exact .other hb hx (by decide) ht ht'

end

end Netvsc
