/-
Negotiation of the NVSP version.

`negotiate_nvsp_version` sends an Init for one version after the other and reads one
packet for each of them.  The host answers every Init with one InitComplete, in order,
and may put other packets on the ring as well; a packet that is not an InitComplete
counts as a rejection, so that the answers to come are read one Init too late.

* `acceptedVersion` — the version of the Init that the host accepted;
* `agrees_of_inStep` — the guest returns this version exactly when every packet it has
  read is an InitComplete;
* `version_shifted_by_one` — after an empty completion the guest returns a version that
  the host rejects.
-/
import Embclox.NetvscSteps

open Bytes Effect Ring Nvsp Run

namespace Netvsc

/-! ### Inits and their answers -/

/-- The version of an Init that the guest sent. -/
def Event.init? : Event → Option UInt32
  | .sent packetType _ payload =>
      if packetType = vmPktDataInband ∧ u32At payload 0 = NvspMessageType.init.asU32 then
        some (u32At payload 4)
      else none
  | _ => none

/-- The versions of the Inits sent, in order. -/
def inits (log : List Event) : List UInt32 := log.filterMap Event.init?

/-- The status of an InitComplete. -/
def initStatus (bytes : List UInt8) : Option UInt32 :=
  match parseNvspResponse bytes with
  | some (.initComplete _ _ status) => some status
  | _ => none

/-- The status in the InitComplete that was put; `none` for the other packets. -/
def Posted.answer? (x : Posted) : Option UInt32 := initStatus x.packet.payload

/-- The statuses of the InitCompletes that were put, in order. -/
def initAnswers (log : List Event) : List UInt32 := (puts log).filterMap Posted.answer?

/-- The version of the first Init whose answer reports success: the k-th InitComplete
answers the k-th Init. -/
def acceptedVersion (log : List Event) : Option UInt32 :=
  ((initAnswers log).findIdx? (· == nvspStatSuccess)).bind fun k => (inits log)[k]?

/-- The guest and the host agree on the version. -/
def Agreed (d : NetvscDevice) : Prop := acceptedVersion d.log = some d.nvspVersion

/-- The packets that `negotiate_nvsp_version` reads: one for each Init. -/
def negotiationPackets (log : List Event) : List Posted := (puts log).take (inits log).length

/-- Every packet it reads is an InitComplete. -/
def InStep (log : List Event) : Prop := ∀ x ∈ negotiationPackets log, x.answer? ≠ none

/-- The payloads of the packets it reads lie behind their descriptors. -/
def Placed (log : List Event) : Prop :=
  ∀ x ∈ negotiationPackets log, 2 ≤ x.packet.desc.offset8.toNat

def Ctl.negotiating : Ctl → Bool
  | .opened | .negotiate _ _ => true
  | _ => false

/-- The step is taken before `negotiate_nvsp_version` returns. -/
def Negotiating (s : Sys) (_ : Act) : Prop := s.ctl.negotiating = true

/-- The host answers every Init once, after it was sent. -/
def AnswersInits (s : Sys) : Act → Prop
  | .put p _ _ => initStatus p.payload ≠ none →
      (initAnswers s.dev.log).length < (inits s.dev.log).length
  | _ => True

/-! ### What the guest reads -/

theorem initStatus_eq (bytes : List UInt8) :
    initStatus bytes = if 16 ≤ bytes.length ∧ u32At bytes 0 = NvspMessageType.initComplete.asU32
      then some (u32At bytes 12) else none := by
  by_cases hlen : bytes.length < nvspHeaderSize
  · rw [initStatus, parseNvspResponse, if_pos hlen,
      if_neg (by unfold nvspHeaderSize at hlen; omega)]
  by_cases htype : u32At bytes 0 = NvspMessageType.initComplete.asU32
  · have hbody : 16 ≤ bytes.length ↔ ¬ (bytes.drop nvspHeaderSize).length < 12 := by
      rw [List.length_drop, nvspHeaderSize]
      omega
    rw [initStatus, parseNvspResponse, if_neg hlen]
    dsimp only
    rw [if_pos htype, castRef]
    by_cases h12 : (bytes.drop nvspHeaderSize).length < 12
    · rw [if_pos h12, if_neg fun h => hbody.mp h.1 h12]
    · rw [if_neg h12, if_pos ⟨hbody.mpr h12, htype⟩]
      exact congrArg some (u32At_drop bytes nvspHeaderSize 8)
  · rw [if_neg (fun h => htype h.2), initStatus, parseNvspResponse, if_neg hlen]
    dsimp only
    rw [if_neg htype]
    unfold castRef
    split_ifs <;> rfl

/-- The guest reads the status of an answer, and of any packet whose payload lies behind
its descriptor. -/
theorem initStatus_read {payload extra : List UInt8}
    (h : initStatus payload ≠ none ∨ extra = []) :
    initStatus ((payload ++ extra).take respBufLen) = initStatus payload := by
  have hword : ∀ off, off + 4 ≤ 16 → 16 ≤ payload.length →
      u32At ((payload ++ extra).take respBufLen) off = u32At payload off := by
    intro off hoff hlen
    rw [u32At_take (by unfold respBufLen; omega), ← u32At_take (n := payload.length) (by omega),
      List.take_left]
  have hlen : 16 ≤ ((payload ++ extra).take respBufLen).length ↔ 16 ≤ payload.length := by
    rw [List.length_take, List.length_append, respBufLen]
    rcases h with h | rfl
    · rw [initStatus_eq] at h
      have := (ite_ne_right_iff.mp h).1.1
      omega
    · rw [List.length_nil]
      omega
  rw [initStatus_eq, initStatus_eq]
  by_cases h16 : 16 ≤ payload.length
  · simp only [hlen, hword 0 (by omega) h16, hword 12 (by omega) h16]
  · rw [if_neg fun h => h16 (hlen.mp h.1), if_neg fun h => h16 h.1]

theorem onNegotiate_eq (env : Env) (ver : NvspVersion) (rest : List NvspVersion)
    (bytes : List UInt8) :
    onNegotiate env ver rest (parseNvspResponse bytes) =
      if initStatus bytes = some nvspStatSuccess then negotiated env ver
      else negotiateFrom rest := by
  unfold onNegotiate initStatus
  rcases parseNvspResponse bytes with _ | resp
  · exact (if_neg (by simp)).symm
  cases resp with
  | initComplete negotiatedVersion maxMdlChainLen status =>
    by_cases hs : status = nvspStatSuccess
    · exact (if_pos hs).trans (if_pos (congrArg some hs)).symm
    · exact (if_neg hs).trans (if_neg fun h => hs (Option.some_inj.mp h)).symm
  | _ => exact (if_neg (by simp)).symm

/-! ### What the guest sends -/

theorem inits_append (log new : List Event) : inits (log ++ new) = inits log ++ inits new :=
  List.filterMap_append

theorem init?_nvspMessage {msgType : NvspMessageType} (ht : msgType ≠ .init) (body : List UInt8)
    (packetType : UInt16) (transactionId : UInt64) :
    (Event.sent packetType transactionId
      (nvspMessagePadded (nvspMessage msgType body))).init? = none := by
  refine if_neg fun h => ?_
  rw [u32At_nvspMessagePadded] at h
  cases msgType <;> first | exact ht rfl | exact absurd h.2 (by decide)

theorem init?_buildNvspInit (version : UInt32) (transactionId : UInt64) :
    (Event.sent vmPktDataInband transactionId
      (nvspMessagePadded (buildNvspInit version))).init? = some version := by
  have hver : u32At (nvspMessagePadded (buildNvspInit version)) 4 = version := by
    simp only [buildNvspInit, nvspMessagePadded, nvspMessage, List.append_assoc]
    exact u32At_le32 (by simp)
  rw [Event.init?, if_pos ⟨rfl, u32At_nvspMessagePadded _ _⟩, hver]

/-- The device after a version was accepted: no Init is sent any more, and the version
in the record may be set. -/
structure Keeps (version : UInt32) (d d' : NetvscDevice) : Prop where
  inits : inits d'.log = inits d.log
  puts : puts d'.log = puts d.log
  version : d'.nvspVersion = d.nvspVersion ∨ d'.nvspVersion = version

theorem keeps_closed (version : UInt32) : Prog.Closed (Keeps version) (Keeps version) := by
  have htrans : ∀ {d d' d''}, Keeps version d d' → Keeps version d' d'' → Keeps version d d'' := by
    intro d d' d'' h h'
    refine ⟨h'.inits.trans h.inits, h'.puts.trans h.puts, ?_⟩
    rcases h'.version with hv | hv
    · rw [hv]
      exact h.version
    · exact .inr hv
  exact ⟨fun d => ⟨rfl, rfl, .inl rfl⟩, htrans, htrans, id⟩

theorem channelSend_keeps {version : UInt32} {e : Event} (op : Prog RingHalf RingError Unit)
    (he : e.init? = none) (hp : e.posted? = none) :
    Prog.Does (fun _ => True) (Keeps version) (Keeps version) (channelSend op e) := by
  have hlog : ∀ {d d' : NetvscDevice} {e : Event}, e.init? = none → e.posted? = none →
      d'.log = d.log ++ [e] → d'.nvspVersion = d.nvspVersion → Keeps version d d' := by
    intro d d' e he hp hlog hv
    refine ⟨?_, ?_, .inl hv⟩
    · rw [hlog, inits_append, show Netvsc.inits [e] = [] by simp [Netvsc.inits, he],
        List.append_nil]
    · rw [hlog, puts_append, show Netvsc.puts [e] = [] by simp [Netvsc.puts, hp],
        List.append_nil]
  intro d _
  unfold Prog.DoesAt channelSend
  rcases op d.send with ⟨_ | _ | _, r⟩
  · exact ⟨trivial, hlog he hp rfl rfl⟩
  · exact ⟨trivial, hlog (e := .ringFull) rfl rfl rfl rfl⟩
  · exact ⟨trivial, ⟨rfl, rfl, .inl rfl⟩⟩

theorem negotiated_keeps (env : Env) (ver : NvspVersion) :
    Prog.Does (fun _ => True) (Keeps ver.asU32) (Keeps ver.asU32) (negotiated env ver) := by
  have hc := keeps_closed ver.asU32
  refine Prog.Does.bind hc ?_ fun _ => Prog.Does.bind hc ?_ fun _ => Prog.Does.bind hc ?_ fun _ =>
    Prog.Does.bind hc ?_ fun handle => Prog.Does.bind hc ?_ fun _ => Prog.Does.pure hc _
  · unfold sendNdisConfig
    split
    · exact Prog.Does.pure hc _
    · exact channelSend_keeps _ (init?_nvspMessage (by decide) _ _ _) rfl
  · exact Prog.Does.modify fun d _ => ⟨trivial, ⟨rfl, rfl, .inr rfl⟩⟩
  · unfold sendNdisVersion
    split <;> exact channelSend_keeps _ (init?_nvspMessage (by decide) _ _ _) rfl
  · unfold createGpadl
    cases env.gpadl with
    | ok handle => exact Prog.Does.pure hc handle
    | error e => exact Prog.Does.fail hc e
  · exact channelSend_keeps _ (init?_nvspMessage (by decide) _ _ _) rfl

theorem negotiated_returns (env : Env) (ver : NvspVersion) :
    Prog.Returns (fun c => c.negotiating = false) (negotiated env ver) :=
  Prog.Returns.bind fun _ => Prog.Returns.bind fun _ => Prog.Returns.bind fun _ =>
    Prog.Returns.bind fun _ => Prog.Returns.bind fun _ => Prog.Returns.pure rfl

/-- The next Init is sent, or the negotiation ends without a version. -/
theorem perform_negotiateFrom (versions : List NvspVersion) (s : Sys) :
    (perform (negotiateFrom versions) s).dev.nvspVersion = s.dev.nvspVersion ∧
      ((perform (negotiateFrom versions) s).ctl.negotiating = false ∨
        ∃ ver rest, versions = ver :: rest ∧
          (perform (negotiateFrom versions) s).ctl = .negotiate ver rest ∧
          (perform (negotiateFrom versions) s).dev.log = s.dev.log ++
            [.sent vmPktDataInband 0 (nvspMessagePadded (buildNvspInit ver.asU32))]) := by
  cases versions with
  | nil => exact ⟨rfl, .inl rfl⟩
  | cons ver rest =>
    simp only [perform, negotiateFrom, Prog.bind_apply, send, channelSend]
    rcases sendPacket (nvspMessagePadded (buildNvspInit ver.asU32)) 0
      vmbusDataPacketFlagCompletionRequested s.dev.send with ⟨_ | _ | _, r⟩
    · exact ⟨rfl, .inr ⟨ver, rest, rfl, rfl, rfl⟩⟩
    · exact ⟨rfl, .inl rfl⟩
    · exact ⟨rfl, .inl rfl⟩

/-! ### Rounds -/

/-- The guest reads the packet as what it is. -/
def Posted.Plain (x : Posted) : Prop := x.answer? ≠ none ∨ 2 ≤ x.packet.desc.offset8.toNat

/-- The Init for `ver` was sent after a packet was read for each version of `tried`, and
none of these packets reports a success. -/
structure Round (log : List Event) (tried : List NvspVersion) (ver : NvspVersion)
    (rest : List NvspVersion) : Prop where
  order : NvspVersion.negotiateOrder = tried ++ ver :: rest
  inits : inits log = (tried ++ [ver]).map NvspVersion.asU32
  read : tried.length ≤ (puts log).length
  rejected : (∀ x ∈ (puts log).take tried.length, x.Plain) →
    ∀ x ∈ (puts log).take tried.length, x.answer? ≠ some nvspStatSuccess

/-- `negotiate_nvsp_version` has returned this version on reading `x`. -/
structure Returned (d : NetvscDevice) (tried : List NvspVersion) (ver : NvspVersion)
    (rest : List NvspVersion) (x : Posted) : Prop where
  round : Round d.log tried ver rest
  version : d.nvspVersion = ver.asU32
  last : (puts d.log)[tried.length]? = some x
  success : x.Plain → x.answer? = some nvspStatSuccess

structure NegotiationInv (s : Sys) : Prop where
  base : Base s.dev
  opened : s.ctl = .opened → inits s.dev.log = [] ∧ removedCount s.dev.log = 0
  round : ∀ ver rest, s.ctl = .negotiate ver rest →
    ∃ tried, Round s.dev.log tried ver rest ∧ removedCount s.dev.log = tried.length
  unset : s.ctl.negotiating = true → s.dev.nvspVersion = 0
  returned : s.dev.nvspVersion ≠ 0 → ∃ tried ver rest x, Returned s.dev tried ver rest x

theorem Round.congr {log log' : List Event} {tried rest : List NvspVersion} {ver : NvspVersion}
    (h : Round log tried ver rest) (hi : Netvsc.inits log' = Netvsc.inits log)
    (hp : puts log <+: puts log') : Round log' tried ver rest := by
  have htake : (puts log').take tried.length = (puts log).take tried.length := by
    obtain ⟨new, hnew⟩ := hp
    rw [← hnew, List.take_append_of_le_length h.read]
  refine ⟨h.order, hi.trans h.inits, Nat.le_trans h.read hp.length_le, ?_⟩
  rw [htake]
  exact h.rejected

/-- The next round, after a packet that is not read as a success. -/
theorem Round.next {log log' : List Event} {tried rest : List NvspVersion}
    {ver ver' : NvspVersion} {x : Posted} (h : Round log tried ver (ver' :: rest))
    (hx : (puts log)[tried.length]? = some x) (hno : x.Plain → x.answer? ≠ some nvspStatSuccess)
    (hi : Netvsc.inits log' = Netvsc.inits log ++ [ver'.asU32]) (hp : puts log' = puts log) :
    Round log' (tried ++ [ver]) ver' rest := by
  have hlt : tried.length < (puts log).length := (List.getElem?_eq_some_iff.mp hx).1
  refine ⟨by rw [h.order]; simp, by rw [hi, h.inits]; simp, ?_, ?_⟩
  · rw [hp, List.length_append]
    exact hlt
  rw [hp, List.length_append, List.length_singleton, List.take_add_one, hx]
  intro hplain y hy
  rcases List.mem_append.mp hy with hy | hy
  · exact h.rejected (fun z hz => hplain z (List.mem_append_left _ hz)) y hy
  · obtain rfl : y = x := by simpa using hy
    exact hno (hplain y (List.mem_append_right _ hy))

/-! ### Steps of the negotiation -/

section

variable {s : Sys}

theorem puts_sent {log : List Event} {packetType : UInt16} {transactionId : UInt64}
    {payload : List UInt8} :
    puts (log ++ [.sent packetType transactionId payload]) = puts log ∧
      removedCount (log ++ [.sent packetType transactionId payload]) = removedCount log := by
  rw [puts_append, removedCount_append]
  exact ⟨List.append_nil _, rfl⟩

theorem inits_init (log : List Event) (ver : NvspVersion) :
    inits (log ++ [.sent vmPktDataInband 0 (nvspMessagePadded (buildNvspInit ver.asU32))]) =
      inits log ++ [ver.asU32] := by
  rw [inits_append]
  exact congrArg _ (by simp [inits, init?_buildNvspInit])

/-- A state in which the guest has given up. -/
theorem NegotiationInv.of_stopped (hb : Base s.dev) (hc : s.ctl.negotiating = false)
    (hv : s.dev.nvspVersion = 0) : NegotiationInv s where
  base := hb
  opened := fun h => absurd hc (by simp [h, Ctl.negotiating])
  round := fun _ _ h => absurd hc (by simp [h, Ctl.negotiating])
  unset := fun _ => hv
  returned := fun h => absurd hv h

/-- The next Init is sent, which begins a round, or the guest gives up. -/
theorem NegotiationInv.of_negotiateFrom {versions : List NvspVersion} (tried : List NvspVersion)
    {u : Sys} (hu : u = perform (negotiateFrom versions) s) (hb : Base u.dev)
    (hv : s.dev.nvspVersion = 0) (hcount : removedCount s.dev.log = tried.length)
    (hround : ∀ ver rest log, versions = ver :: rest →
      inits log = inits s.dev.log ++ [ver.asU32] → puts log = puts s.dev.log →
      Round log tried ver rest) : NegotiationInv u := by
  obtain ⟨hversion, hstop | ⟨ver, rest, hord, hctl, hlog⟩⟩ := perform_negotiateFrom versions s
  · rw [← hu] at hversion hstop
    exact .of_stopped hb hstop (hversion.trans hv)
  · rw [← hu] at hversion hctl hlog
    have hv0 : u.dev.nvspVersion = 0 := hversion.trans hv
    refine ⟨hb, fun h => absurd (hctl.symm.trans h) (by simp), ?_, fun _ => hv0,
      fun h => absurd hv0 h⟩
    intro ver' rest' h
    obtain ⟨rfl, rfl⟩ := Ctl.negotiate.inj (hctl.symm.trans h)
    refine ⟨tried, hround ver rest _ hord ?_ ?_, ?_⟩
    · rw [hlog, inits_init]
    · rw [hlog, puts_sent.1]
    · rw [hlog, puts_sent.2, hcount]

/-- The first Init. -/
theorem NegotiationInv.start (hi : NegotiationInv s) (hc : s.ctl = .opened) {u : Sys}
    (hb : Base u.dev) (hu : u = perform (negotiateFrom NvspVersion.negotiateOrder) s) :
    NegotiationInv u := by
  obtain ⟨hinits, hcount⟩ := hi.opened hc
  have hunset := hi.unset (by rw [hc]; rfl)
  refine .of_negotiateFrom [] hu hb hunset hcount fun ver rest log hord hlog _ => ?_
  exact ⟨hord, by rw [hlog, hinits]; rfl, Nat.zero_le _, fun _ x hx => absurd hx (by simp)⟩

/-- Removing a packet is neither an Init nor a put. -/
theorem log_removed (p : Packet) (d : NetvscDevice) :
    inits (removed p d).log = inits d.log ∧ puts (removed p d).log = puts d.log ∧
      removedCount (removed p d).log = removedCount d.log + 1 := by
  rw [removed, inits_append, puts_append, removedCount_append]
  exact ⟨List.append_nil _, List.append_nil _, rfl⟩

/-- The version is accepted. -/
theorem NegotiationInv.accept {env : Env} {tried rest : List NvspVersion} {ver : NvspVersion}
    {x : Posted} (hround : Round s.dev.log tried ver rest) (hunset : s.dev.nvspVersion = 0)
    (hlast : (puts s.dev.log)[tried.length]? = some x)
    (hsuccess : x.Plain → x.answer? = some nvspStatSuccess) {u : Sys} (hb : Base u.dev)
    (hu : u = perform (negotiated env ver) s) : NegotiationInv u := by
  have hkeeps : Keeps ver.asU32 s.dev u.dev := by
    rw [hu, perform_dev]
    exact (negotiated_keeps env ver _ trivial).rel
  have hstop : u.ctl.negotiating = false := by
    rw [hu]
    exact ctl_perform (negotiated_returns env ver) (fun _ => rfl) rfl _
  refine ⟨hb, fun h => absurd hstop (by simp [h, Ctl.negotiating]),
    fun _ _ h => absurd hstop (by simp [h, Ctl.negotiating]),
    fun h => absurd hstop (by simp [h]), fun hne => ?_⟩
  refine ⟨tried, ver, rest, x, hround.congr hkeeps.inits (by rw [hkeeps.puts]),
    hkeeps.version.resolve_left fun h => hne (h.trans hunset), ?_, hsuccess⟩
  rw [hkeeps.puts]
  exact hlast

/-- The guest has read a packet for the Init of this version. -/
theorem NegotiationInv.next (hi : NegotiationInv s) {env : Env} {ver : NvspVersion}
    {rest : List NvspVersion} (hc : s.ctl = .negotiate ver rest) {x : Posted} {tail : List Posted}
    (hx : unread s.dev.log = x :: tail) {bytes : List UInt8}
    (hread : x.Plain → initStatus bytes = x.answer?) {u : Sys} (hb : Base u.dev)
    (hu : u = perform (onNegotiate env ver rest (parseNvspResponse bytes))
      ⟨removed x.packet s.dev, s.ctl⟩) : NegotiationInv u := by
  obtain ⟨tried, hround, hcount⟩ := hi.round ver rest hc
  have hunset := hi.unset (by rw [hc]; rfl)
  have hlast : (puts s.dev.log)[tried.length]? = some x := by
    rw [← hcount, ← List.head?_drop, show (puts s.dev.log).drop _ = x :: tail from hx]
    rfl
  obtain ⟨hinits, hputs, hremoved⟩ := log_removed x.packet s.dev
  rw [onNegotiate_eq] at hu
  by_cases hs : initStatus bytes = some nvspStatSuccess
  · rw [if_pos hs] at hu
    have hround' : Round (removed x.packet s.dev).log tried ver rest :=
      hround.congr hinits (by rw [hputs])
    rw [← hputs] at hlast
    exact .accept (s := ⟨removed x.packet s.dev, s.ctl⟩) hround' hunset hlast
      (fun hp => (hread hp).symm.trans hs) hb hu
  · rw [if_neg hs] at hu
    refine .of_negotiateFrom (tried ++ [ver]) hu hb hunset ?_ ?_
    · rw [hremoved, hcount, List.length_append]
      rfl
    · intro ver' rest' log hrest hlog hputs'
      rw [hrest] at hround
      exact hround.next hlast (fun hp h => hs ((hread hp).trans h))
        (hlog.trans (by rw [hinits])) (hputs'.trans hputs)

section

variable {d d' : NetvscDevice} (env : Env) (ver : NvspVersion) (rest : List NvspVersion)

theorem negotiate_reads {desc : VmPacketDescriptor} {bytes : List UInt8}
    (h : tryRecv respBufLen d = (.ok (some (desc, bytes)), d')) :
    perform (resume env (.negotiate ver rest)) ⟨d, .negotiate ver rest⟩ =
      perform (onNegotiate env ver rest (parseNvspResponse bytes)) ⟨d', .negotiate ver rest⟩ := by
  refine perform_congr ?_
  show advance env (.negotiate ver rest) d = _
  rw [advance, Prog.bind_apply, receive, h]
  rfl

theorem negotiate_waits (h : tryRecv respBufLen d = (.ok none, d')) :
    perform (resume env (.negotiate ver rest)) ⟨d, .negotiate ver rest⟩ =
      ⟨d', if env.expired then .failed .timeout else .negotiate ver rest⟩ := by
  show perform (advance env (.negotiate ver rest)) _ = _
  rw [perform, advance, Prog.bind_apply, receive, h]
  cases hexp : env.expired <;> simp [onEmpty, hexp]

theorem negotiate_fails {e : HvError} (h : tryRecv respBufLen d = (.err e, d')) :
    perform (resume env (.negotiate ver rest)) ⟨d, .negotiate ver rest⟩ = ⟨d', .failed e⟩ := by
  show perform (advance env (.negotiate ver rest)) _ = _
  rw [perform, advance, Prog.bind_apply, receive, h]

theorem negotiate_panics (h : tryRecv respBufLen d = (.panic, d')) :
    perform (resume env (.negotiate ver rest)) ⟨d, .negotiate ver rest⟩ = ⟨d', .panicked⟩ := by
  show perform (advance env (.negotiate ver rest)) _ = _
  rw [perform, advance, Prog.bind_apply, receive, h]

end

theorem NegotiationInv.guest (hi : NegotiationInv s) {env : Env} {u : Sys}
    (hc : s.ctl.negotiating = true) (h : step s (.guest env) = some u) : NegotiationInv u := by
  have hb : Base u.dev := base_of_step hi.base h
  simp only [step, Option.ite_none_right_eq_some, Option.some.injEq] at h
  obtain ⟨-, hu⟩ := h
  obtain ⟨d, c⟩ := s
  cases c with
  | opened => exact hi.start rfl hb (hu.symm.trans (perform_congr rfl))
  | negotiate ver rest =>
    -- without an answer the device stays as it is, and the guest waits or stops
    have hstop : ∀ c' : Ctl, c'.negotiating = false → u = ⟨d, c'⟩ → NegotiationInv u := by
      intro c' hc' hp
      rw [hp] at hb ⊢
      exact .of_stopped hb hc' (hi.unset rfl)
    rcases hx : unread d.log with _ | ⟨x, tail⟩
    · have hwait := hu.symm.trans
        (negotiate_waits env ver rest (tryRecv_nil hi.base hx respBufLen))
      cases hexp : env.expired with
      | true => exact hstop (.failed .timeout) rfl (hwait.trans (by rw [hexp]; rfl))
      | false =>
        rw [hwait, hexp]
        exact hi
    · rcases tryRecv_cons hi.base hx respBufLen with ⟨-, extra, hextra, h⟩ | ⟨-, ⟨e, h⟩ | h⟩
      · have hread : x.Plain →
            initStatus ((x.packet.payload ++ extra).take respBufLen) = x.answer? :=
          fun hp => initStatus_read (hp.imp id hextra)
        exact hi.next rfl hx hread hb (hu.symm.trans (negotiate_reads env ver rest h))
      · exact hstop (.failed e) rfl (hu.symm.trans (negotiate_fails env ver rest h))
      · exact hstop .panicked rfl (hu.symm.trans (negotiate_panics env ver rest h))
  | _ => exact absurd hc (by simp [Ctl.negotiating])

theorem NegotiationInv.put (hi : NegotiationInv s) {p : Packet} {mem : ℕ → UInt8}
    {tag : Option ℕ} {u : Sys} (hc : s.ctl.negotiating = true)
    (h : step s (.put p mem tag) = some u) : NegotiationInv u := by
  have hb : Base u.dev := base_of_step hi.base h
  have hv : u.dev.nvspVersion = s.dev.nvspVersion := by
    simp only [step, hostPut, Option.map_eq_some_iff] at h
    obtain ⟨d, hd, rfl⟩ := h
    split at hd
    · exact absurd hd (by simp)
    · rw [Option.ite_none_right_eq_some, Option.some.injEq] at hd
      rw [← hd.2]
  obtain ⟨hctl, -, hview⟩ := put_moves hi.base h
  have hlog : u.dev.log = s.dev.log ++ [.put p tag (postedFrame p mem)] :=
    congrArg View.log hview
  have hinits : inits u.dev.log = inits s.dev.log := by
    rw [hlog, inits_append]
    exact List.append_nil _
  have hcount : removedCount u.dev.log = removedCount s.dev.log := by
    rw [hlog, removedCount_append]
    rfl
  have hunset := hv.trans (hi.unset hc)
  refine ⟨hb, fun ho => ?_, fun ver rest hr => ?_, fun _ => hunset, fun h => absurd hunset h⟩
  · rw [hinits, hcount]
    exact hi.opened (hctl.symm.trans ho)
  · obtain ⟨tried, hround, hn⟩ := hi.round ver rest (hctl.symm.trans hr)
    refine ⟨tried, hround.congr hinits ?_, hcount.trans hn⟩
    rw [hlog, puts_append]
    exact List.prefix_append _ _

theorem NegotiationInv.step {a : Act} {u : Sys} (hi : NegotiationInv s) (hg : Negotiating s a)
    (h : step s a = some u) : NegotiationInv u := by
  cases a with
  | guest env => exact hi.guest hg h
  | call c =>
    obtain ⟨hready, -⟩ := call_moves hi.base h
    rw [Negotiating, hready] at hg
    exact absurd hg (by simp [Ctl.negotiating])
  | put p mem tag => exact hi.put hg h
  | take =>
    have hb : Base u.dev := base_of_step hi.base h
    simp only [Netvsc.step, Option.some.injEq] at h
    subst h
    exact ⟨hb, hi.opened, hi.round, hi.unset, fun h => absurd (hi.unset hg) h⟩

end

theorem negotiationInv_openedSys (ram : Ram) : NegotiationInv (openedSys ram) where
  base := base_openedDevice ram
  opened := fun _ => ⟨rfl, rfl⟩
  round := fun _ _ h => absurd h (by simp [openedSys])
  unset := fun _ => rfl
  returned := fun h => absurd rfl h

/-! ### Agreement -/

theorem NvspVersion.asU32_injective : Function.Injective NvspVersion.asU32 := by
  intro a b h
  cases a <;> cases b <;> first | rfl | exact absurd h (by decide)

section

variable {d : NetvscDevice} {tried rest : List NvspVersion} {ver : NvspVersion} {x : Posted}

theorem Returned.negotiationPackets_eq (h : Returned d tried ver rest x) :
    negotiationPackets d.log = (puts d.log).take tried.length ++ [x] := by
  rw [negotiationPackets, h.round.inits, List.length_map, List.length_append,
    List.length_singleton, List.take_add_one, h.last]
  rfl

/-- The number of answers that were read before the last packet. -/
def answersRead (log : List Event) (n : ℕ) : ℕ := ((puts log).take n).countP (·.answer?.isSome)

/-- The first success among the answers is the one that was read last. -/
theorem Returned.acceptedVersion_eq (h : Returned d tried ver rest x)
    (hplain : ∀ y ∈ negotiationPackets d.log, y.Plain) :
    acceptedVersion d.log =
      ((tried ++ [ver])[answersRead d.log tried.length]?).map NvspVersion.asU32 := by
  rw [h.negotiationPackets_eq] at hplain
  obtain ⟨hlt, hget⟩ := List.getElem?_eq_some_iff.mp h.last
  have hanswer : x.answer? = some nvspStatSuccess := h.success (hplain x (by simp))
  have hsplit : puts d.log = (puts d.log).take tried.length ++
      x :: (puts d.log).drop (tried.length + 1) := by
    rw [← hget, ← List.drop_eq_getElem_cons hlt, List.take_append_drop]
  have hanswers : initAnswers d.log = ((puts d.log).take tried.length).filterMap Posted.answer? ++
      nvspStatSuccess :: ((puts d.log).drop (tried.length + 1)).filterMap Posted.answer? := by
    rw [initAnswers]
    nth_rewrite 1 [hsplit]
    rw [List.filterMap_append, List.filterMap_cons, hanswer]
  -- the answers before it are rejections
  have hnone : (((puts d.log).take tried.length).filterMap Posted.answer?).findIdx?
      (· == nvspStatSuccess) = none := by
    rw [List.findIdx?_eq_none_iff]
    intro status hmem
    obtain ⟨y, hy, hstatus⟩ := List.mem_filterMap.mp hmem
    have hno := h.round.rejected (fun z hz => hplain z (List.mem_append_left _ hz)) y hy
    rw [hstatus] at hno
    simpa using fun heq => hno (congrArg some heq)
  rw [acceptedVersion, hanswers, List.findIdx?_append, hnone, h.round.inits]
  simp only [List.findIdx?_cons, beq_self_eq_true, if_true, Option.map_some, Option.none_or,
    Option.bind_some, Nat.zero_add, List.length_filterMap_eq_countP, List.getElem?_map, answersRead]

/-- The guest has returned the version of the accepted Init exactly if all packets it
has read are answers. -/
theorem Returned.agreed_iff (h : Returned d tried ver rest x)
    (hplain : ∀ y ∈ negotiationPackets d.log, y.Plain) : Agreed d ↔ InStep d.log := by
  have hle : answersRead d.log tried.length ≤ tried.length :=
    Nat.le_trans List.countP_le_length (List.length_take_le _ _)
  have hlen : ((puts d.log).take tried.length).length = tried.length :=
    List.length_take_of_le h.round.read
  have hanswer : x.answer? = some nvspStatSuccess :=
    h.success (hplain x (by rw [h.negotiationPackets_eq]; simp))
  have hcount : answersRead d.log tried.length = tried.length ↔
      ∀ y ∈ (puts d.log).take tried.length, y.answer?.isSome = true := by
    rw [answersRead, ← List.countP_eq_length, hlen]
  have hall : InStep d.log ↔ answersRead d.log tried.length = tried.length := by
    rw [InStep, h.negotiationPackets_eq, hcount]
    simp [Option.isSome_iff_ne_none, or_imp, forall_and, hanswer]
  rw [hall, Agreed, h.acceptedVersion_eq hplain, h.version]
  constructor
  · intro hver
    by_contra hne
    -- the accepted version was tried before, and no version is tried twice
    obtain ⟨ver', hmem, heq⟩ := Option.map_eq_some_iff.mp hver
    obtain rfl := NvspVersion.asU32_injective heq
    rw [List.getElem?_append_left (by omega)] at hmem
    have hnodup : (tried ++ ver' :: rest).Nodup := by
      rw [← h.round.order]
      decide
    exact (List.nodup_append.mp hnodup).2.2 ver' (List.mem_of_getElem? hmem) ver'
      (List.mem_cons_self ..) rfl
  · intro heq
    rw [heq, List.getElem?_append_right (Nat.le_refl _), Nat.sub_self]
    rfl

end

/-- **Agreement on the version.**  When `negotiate_nvsp_version` returns a version, it is
the version of the Init that the host accepted if every packet that the guest has read
is an InitComplete.  It is another one otherwise, provided that the payloads lie behind
their descriptors. -/
theorem agrees_of_inStep (ram : Ram) {l : List Act} {s : Sys}
    (h : Exec step Negotiating (openedSys ram) l s) (hret : s.dev.nvspVersion ≠ 0) :
    (InStep s.dev.log → Agreed s.dev) ∧
      (Placed s.dev.log → Agreed s.dev → InStep s.dev.log) := by
  have hinv : NegotiationInv s := h.invariant (negotiationInv_openedSys ram) NegotiationInv.step
  obtain ⟨tried, ver, rest, x, hr⟩ := hinv.returned hret
  exact ⟨fun hin => (hr.agreed_iff fun y hy => .inl (hin y hy)).mpr hin,
    fun hplaced => (hr.agreed_iff fun y hy => .inr (hplaced y hy)).mp⟩

/-- The answer to an Init, by a host of version 6.1. -/
def answerInit (status : UInt32) : Act :=
  answerNvsp (le32 NvspMessageType.initComplete.asU32 ++ le32 0x60001 ++ le32 0 ++ le32 status)

/-- A completion without a payload. -/
def emptyCompletion : Act := .put ⟨⟨vmPktComp, 2, 2, 0, 0⟩, [], by simp⟩ (fun _ => 0) none

instance (s : Sys) (a : Act) : Decidable (Negotiating s a) :=
  inferInstanceAs (Decidable (s.ctl.negotiating = true))

instance (s : Sys) : (a : Act) → Decidable (AnswersInits s a)
  | .put _ _ _ => inferInstanceAs (Decidable (_ ≠ none → _))
  | .guest _ | .call _ | .take => .isTrue trivial

instance (log : List Event) : Decidable (InStep log) :=
  inferInstanceAs (Decidable (∀ _ ∈ negotiationPackets log, _ ≠ none))

/-- The host rejects version 6.1 and accepts version 6.0. -/
theorem agreed_after_rejection :
    ∃ s, Exec step Negotiating (openedSys { })
        [receives, answerInit 2, receives, answerInit nvspStatSuccess, receives] s ∧
      s.dev.nvspVersion = NvspVersion.v6.asU32 ∧ Agreed s.dev := by
  obtain ⟨s, hs, hv, hin⟩ : ∃ s, Exec step Negotiating (openedSys { })
      [receives, answerInit 2, receives, answerInit nvspStatSuccess, receives] s ∧
        s.dev.nvspVersion = NvspVersion.v6.asU32 ∧ InStep s.dev.log :=
    Exec.exists_of_run (by decide +kernel)
  exact ⟨s, hs, hv, (agrees_of_inStep { } hs (by rw [hv]; decide)).1 hin⟩

/-- The guest takes an empty completion for a rejection of version 6.1 and the
acceptance of 6.1 for the acceptance of 6.0, which the host has rejected. -/
theorem version_shifted_by_one :
    ∃ s, Exec step (fun s a => Negotiating s a ∧ AnswersInits s a) (openedSys { })
        [receives, emptyCompletion, answerInit nvspStatSuccess, receives, answerInit 2,
          receives] s ∧
      s.dev.nvspVersion = NvspVersion.v6.asU32 ∧
      acceptedVersion s.dev.log = some NvspVersion.v61.asU32 ∧ ¬ Agreed s.dev := by
  obtain ⟨s, hs, hv, hacc⟩ : ∃ s,
      Exec step (fun s a => Negotiating s a ∧ AnswersInits s a) (openedSys { })
        [receives, emptyCompletion, answerInit nvspStatSuccess, receives, answerInit 2,
          receives] s ∧
        s.dev.nvspVersion = NvspVersion.v6.asU32 ∧
        acceptedVersion s.dev.log = some NvspVersion.v61.asU32 :=
    Exec.exists_of_run (by decide +kernel)
  refine ⟨s, hs, hv, hacc, fun hagreed => ?_⟩
  rw [Agreed, hacc, hv] at hagreed
  exact absurd hagreed (by decide)

end Netvsc
