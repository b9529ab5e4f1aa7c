/-
Channel offers: `request_offers`.

The guest posts REQUEST_OFFERS and the host answers with one OFFERCHANNEL message for
each device and with ALLOFFERS_DELIVERED at the end.  The offers are collected by the
matcher of `wait_for_match` as a side effect; messages of other types, and offers that
are too short, are dropped.

* `offerMatcher`, `requestOffers` — the matcher, and the call around the wait;
* `offersBefore` — the offers that a sequence of messages makes;
* `feed_offerMatcher` — what the matcher collects;
* `requestOffers_exact` — the call returns the offers before the first
  ALLOFFERS_DELIVERED, or past the deadline those seen so far.
-/
import Embclox.Gpadl
import Embclox.Probe
import Embclox.WaitMatch

open Bytes Effect Matching Run WaitMatch
open Boot (Guid)
open Channel (postMessage)
open Netvsc (HvError)
open Synic (HvMessage)

namespace Offers

def channelmsgOfferchannel : UInt32 := 1
def channelmsgRequestOffers : UInt32 := 3
def channelmsgAlloffersDelivered : UInt32 := 4

/-- A discovered channel; the probing reads the device type and the channel id. -/
structure ChannelOffer extends Boot.ChannelOffer where
  instanceId : Guid
  connectionId : UInt32
  monitorId : UInt8
  monitorAllocated : Bool
  isDedicatedInterrupt : Bool
  deriving DecidableEq

/-- `Guid::from_bytes`; the first three fields are little-endian. -/
def fromBytes (bytes : List UInt8) : Guid :=
  ⟨u32At bytes 0, u16At bytes 4, u16At bytes 6, bytes.drop 8⟩

def parseOffer (payload : List UInt8) : Option ChannelOffer :=
  if payload.length < 196 then none
  else some {
    deviceType := fromBytes ((payload.drop 8).take 16)
    instanceId := fromBytes ((payload.drop 24).take 16)
    childRelid := u32At payload 184
    connectionId := u32At payload 192
    monitorId := payload.getD 188 0
    monitorAllocated := payload.getD 189 0 != 0
    isDedicatedInterrupt := u16At payload 190 != 0 }

/-- The matcher, with the offers that it captures. -/
def offerMatcher (offers : List ChannelOffer) (payload : List UInt8) :
    List ChannelOffer × Option Unit :=
  if payload.length < 4 then (offers, none)
  else if u32At payload 0 = channelmsgOfferchannel then
    match parseOffer payload with
    | some offer => (offers ++ [offer], none)
    | none => (offers, none)
  else if u32At payload 0 = channelmsgAlloffersDelivered then (offers, some ())
  else (offers, none)

/-- `request_offers`, where `waited` is how the wait ends and what its matcher has
collected then. -/
def requestOffers (fails : ℕ → Option HvError) (waited : Except HvError Unit × List ChannelOffer) :
    Prog (List (List UInt8)) HvError (List ChannelOffer) := do
  postMessage fails (le32 channelmsgRequestOffers ++ le32 0)
  match waited.1 with
  | .ok () => pure waited.2
  | .error .timeout => if waited.2.isEmpty then Prog.fail .timeout else pure waited.2
  | .error e => Prog.fail e

/-! ### The offers in a sequence of messages -/

/-- An OFFERCHANNEL message that is long enough. -/
def isOffer (payload : List UInt8) : Bool :=
  decide (196 ≤ payload.length) && u32At payload 0 == channelmsgOfferchannel

def isAllDelivered (payload : List UInt8) : Bool :=
  decide (4 ≤ payload.length) && u32At payload 0 == channelmsgAlloffersDelivered

/-- The offers that precede the first ALLOFFERS_DELIVERED. -/
def offersBefore (payloads : List (List UInt8)) : List ChannelOffer :=
  ((payloads.takeWhile fun p => !isAllDelivered p).filter isOffer).filterMap parseOffer

theorem parseOffer_isSome (payload : List UInt8) :
    (parseOffer payload).isSome = true ↔ 196 ≤ payload.length := by
  unfold parseOffer
  by_cases h : payload.length < 196
  · rw [if_pos h]
    simp only [Option.isSome_none, Bool.false_eq_true, false_iff]
    omega
  · rw [if_neg h]
    simp only [Option.isSome_some, true_iff]
    omega

/-- A message has one type. -/
theorem isOffer_of_isAllDelivered {payload : List UInt8} (h : isAllDelivered payload = true) :
    isOffer payload = false := by
  have htypes : (channelmsgAlloffersDelivered == channelmsgOfferchannel) = false := by decide
  simp only [isAllDelivered, Bool.and_eq_true, beq_iff_eq] at h
  rw [isOffer, h.2, htypes, Bool.and_false]

/-- The offer in one message. -/
def offerIn (payload : List UInt8) : List ChannelOffer :=
  ([payload].filter isOffer).filterMap parseOffer

theorem offerIn_of_not {payload : List UInt8} (h : isOffer payload = false) :
    offerIn payload = [] := by
  simp [offerIn, h]

theorem offersBefore_cons (payload : List UInt8) (rest : List (List UInt8)) :
    offersBefore (payload :: rest) =
      if isAllDelivered payload then [] else offerIn payload ++ offersBefore rest := by
  unfold offersBefore offerIn
  rw [List.takeWhile_cons]
  cases isAllDelivered payload with
  | true => rfl
  | false =>
    simp only [Bool.not_false, if_true, Bool.false_eq_true, if_false]
    rw [← List.filterMap_append, ← List.filter_append, List.singleton_append]

/-- One message adds at most one offer, and ALLOFFERS_DELIVERED is the match. -/
theorem offerMatcher_eq (offers : List ChannelOffer) (payload : List UInt8) :
    offerMatcher offers payload =
      (offers ++ offerIn payload, if isAllDelivered payload then some () else none) := by
  unfold offerMatcher
  by_cases h4 : payload.length < 4
  · have hoff : isOffer payload = false := by simp [isOffer]; omega
    have hall : isAllDelivered payload = false := by simp [isAllDelivered]; omega
    rw [if_pos h4, offerIn_of_not hoff, hall, List.append_nil]
    rfl
  · rw [if_neg h4]
    by_cases h1 : u32At payload 0 = channelmsgOfferchannel
    · have hall : isAllDelivered payload = false := by
        have htypes : (channelmsgOfferchannel == channelmsgAlloffersDelivered) = false := by decide
        rw [isAllDelivered, h1, htypes, Bool.and_false]
      rw [if_pos h1, hall]
      cases hp : parseOffer payload with
      | none =>
        have hlen : ¬ 196 ≤ payload.length := by
          rw [← parseOffer_isSome, hp]
          exact Bool.false_ne_true
        have hoff : isOffer payload = false := by simp [isOffer, hlen]
        rw [offerIn_of_not hoff, List.append_nil]
        rfl
      | some offer =>
        have hlen : 196 ≤ payload.length := by
          rw [← parseOffer_isSome, hp]
          rfl
        have hoff : isOffer payload = true := by simp [isOffer, h1, hlen]
        simp [offerIn, hoff, hp]
    · have hoff : isOffer payload = false := by simp [isOffer, h1]
      rw [if_neg h1, offerIn_of_not hoff, List.append_nil]
      by_cases h2 : u32At payload 0 = channelmsgAlloffersDelivered
      · have hall : isAllDelivered payload = true := by simp [isAllDelivered, h2]; omega
        rw [if_pos h2, hall, if_pos rfl]
      · have hall : isAllDelivered payload = false := by simp [isAllDelivered, h2]
        rw [if_neg h2, hall]
        rfl

/-- **What the matcher collects**: the offers before the first ALLOFFERS_DELIVERED,
which is the match. -/
theorem feed_offerMatcher (offers : List ChannelOffer) (payloads : List (List UInt8)) :
    feed offerMatcher offers payloads =
      (offers ++ offersBefore payloads,
        if payloads.any isAllDelivered then some () else none) := by
  induction payloads generalizing offers with
  | nil => simp [feed, offersBefore]
  | cons p rest ih =>
    have hp := offerMatcher_eq offers p
    rw [offersBefore_cons, List.any_cons]
    cases hall : isAllDelivered p with
    | true =>
      rw [hall, offerIn_of_not (isOffer_of_isAllDelivered hall)] at hp
      exact feed_cons_of_some hp rest
    | false =>
      rw [hall] at hp
      rw [feed_cons_of_none hp, ih, List.append_assoc]
      rfl

/-! ### The call -/

/-- The offers that the call returns when the deadline passes. -/
def returnedOnTimeout (offers : List ChannelOffer) : Outcome HvError (List ChannelOffer) :=
  if offers = [] then .err .timeout else .ok offers

section

variable {fails : ℕ → Option HvError} {posted : List (List UInt8)}

/-- REQUEST_OFFERS is posted, or the call ends. -/
theorem requestOffers_of_fails {e : HvError} (h : fails posted.length = some e)
    (waited : Except HvError Unit × List ChannelOffer) :
    requestOffers fails waited posted = (.err e, posted) := by
  rw [requestOffers, Prog.bind_apply]
  simp [postMessage, Synic.payloadMax, h]

theorem requestOffers_ok (h : fails posted.length = none) (offers : List ChannelOffer) :
    requestOffers fails (.ok (), offers) posted =
      (.ok offers, posted ++ [le32 channelmsgRequestOffers ++ le32 0]) := by
  rw [requestOffers, Prog.bind_apply]
  simp [postMessage, Synic.payloadMax, h]

theorem requestOffers_timeout (h : fails posted.length = none) (offers : List ChannelOffer) :
    requestOffers fails (.error .timeout, offers) posted =
      (returnedOnTimeout offers, posted ++ [le32 channelmsgRequestOffers ++ le32 0]) := by
  rw [requestOffers, Prog.bind_apply]
  cases offers with
  | nil => simp [postMessage, Synic.payloadMax, h, returnedOnTimeout]
  | cons offer rest => simp [postMessage, Synic.payloadMax, h, returnedOnTimeout]

end

/-! ### Whole runs -/

/-- What the call returns for the messages `ms`, in a state `s` of its wait that the
steps `l` have led to. -/
structure Collected (ms : List Message) (l : List Act) (s : Sys (List ChannelOffer) Unit) :
    Prop where
  /-- After ALLOFFERS_DELIVERED: the offers that precede it. -/
  delivered : s.ctl = .done (.ok ()) →
    (ms.map Message.bytes).any isAllDelivered = true ∧
    ∀ fails posted, fails posted.length = none →
      requestOffers fails (.ok (), s.captured) posted =
        (.ok (offersBefore (ms.map Message.bytes)),
          posted ++ [le32 channelmsgRequestOffers ++ le32 0])
  /-- Past the deadline: the offers seen so far, none of them after the end. -/
  timedOut : ∀ e, s.ctl = .done (.error e) →
    Act.guest true ∈ l ∧ s.calls.any isAllDelivered = false ∧
    ∀ fails posted, fails posted.length = none →
      requestOffers fails (.error e, s.captured) posted =
        (returnedOnTimeout (offersBefore s.calls),
          posted ++ [le32 channelmsgRequestOffers ++ le32 0])
  /-- It does return: a poll that the host does not disturb sees all that was shown. -/
  returns : s.ctl = .parked → ∀ expired, ∃ n t,
    Exec (step offerMatcher) (fun _ _ => True) s (.poll :: List.replicate n (.guest expired)) t ∧
    t.calls ++ s.upcoming.map Message.bytes = ms.map Message.bytes ∧
    t.ctl = if t.calls.any isAllDelivered then .done (.ok ())
      else if expired then .done (.error .timeout) else .parked

theorem collected {slot : HvMessage} {ms : List Message} {l : List Act}
    {s : Sys (List ChannelOffer) Unit}
    (h : Exec (step offerMatcher) (fun _ _ => True) (init slot [] ms) l s) :
    Collected ms l s where
  delivered := by
    intro hdone
    obtain ⟨-, hfeed⟩ := (exact_of_exec h).matched () hdone
    rw [feed_offerMatcher, List.nil_append] at hfeed
    obtain ⟨hcaptured, hany⟩ := Prod.mk.inj hfeed
    refine ⟨by simpa using hany, fun fails posted hpost => ?_⟩
    rw [requestOffers_ok hpost, hcaptured]
  timedOut := by
    intro e he
    obtain ⟨rfl, hfeed⟩ := (exact_of_exec h).unmatched e he
    rw [feed_offerMatcher, List.nil_append] at hfeed
    obtain ⟨hcaptured, hany⟩ := Prod.mk.inj hfeed
    refine ⟨expired_of_timeout h he, by simpa using hany, fun fails posted hpost => ?_⟩
    rw [requestOffers_timeout hpost, hcaptured]
  returns := by
    intro hp expired
    obtain ⟨n, t, hrun, hshown, -, hfeed, hctl⟩ := (inv_of_exec h).drains hp expired
    refine ⟨n, t, hrun, hshown, ?_⟩
    rw [feed_offerMatcher] at hfeed
    have hany := (Prod.mk.inj hfeed).2
    rcases hctl with ⟨r, hr⟩ | hr
    · rw [hr, Ctl.result] at hany
      cases hc : t.calls.any isAllDelivered with
      | true => exact hr
      | false =>
        rw [hc] at hany
        exact absurd hany (by simp)
    · cases hc : t.calls.any isAllDelivered with
      | false => exact hr
      | true =>
        rw [hc, hr] at hany
        cases expired <;> exact absurd hany (by simp [Ctl.result])

/-- **Offer collection is exact.**  For every sequence of messages, however it is spread
over the polls, `wait_for_match` passes each message to its matcher once and in order up
to the first match and acknowledges just those, and every poll ends.  So the call
returns the offers before the first ALLOFFERS_DELIVERED, or past the deadline those seen
so far if there are any. -/
theorem requestOffers_exact (slot : HvMessage) (ms : List Message) :
    (∀ (σ ρ : Type) (matcher : σ → List UInt8 → σ × Option ρ) (c₀ : σ) (l : List Act)
      (s : Sys σ ρ), Exec (step matcher) (fun _ _ => True) (init slot c₀ ms) l s →
        Exact matcher c₀ ms s ∧ Drains matcher c₀ ms s ∧
          l.countP Act.isGuest ≤ 13 * ms.length + 10 * l.count .poll) ∧
    ∀ (l : List Act) (s : Sys (List ChannelOffer) Unit),
      Exec (step offerMatcher) (fun _ _ => True) (init slot [] ms) l s → Collected ms l s := by
  refine ⟨fun σ ρ matcher c₀ l s h => ⟨exact_of_exec h, (inv_of_exec h).drains, ?_⟩,
    fun l s h => collected h⟩
  have hle := guests_le h
  have hinit : (init slot c₀ ms : Sys σ ρ).weight = 13 * ms.length := Nat.zero_add _
  rw [hinit] at hle
  exact Nat.le_trans (Nat.le_add_right _ _) hle

/-- A message of 196 bytes with its type and a channel id. -/
def offerMessage (type relid : UInt8) : Message where
  messageType := 1
  payloadSize := 196
  messageFlags := 0
  payload := ⟨⟨type :: List.replicate 183 0 ++ relid :: List.replicate 55 0⟩, rfl⟩
  typed := by decide

/-- A GUID of zeros. -/
def zeroGuid : Guid := ⟨0, 0, 0, List.replicate 8 0⟩

/-- An offer comes before the first poll, and the end while it is acknowledged. -/
theorem requestOffers_exact_one_offer :
    ∃ l s, Exec (step offerMatcher) (fun _ _ => True)
        (init Synic.channelMessage [] [offerMessage 1 7, offerMessage 4 0]) l s ∧
      s.ctl = .done (.ok ()) ∧
      requestOffers (fun _ => none) (.ok (), s.captured) [] =
        (.ok [⟨⟨zeroGuid, 7⟩, zeroGuid, 0, 0, false, false⟩],
          [le32 channelmsgRequestOffers ++ le32 0]) := by
  obtain ⟨s, hs, hdone⟩ : ∃ s, Exec (step offerMatcher) (fun _ _ => True)
      (init Synic.channelMessage [] [offerMessage 1 7, offerMessage 4 0])
      [.present, .poll, .guest false, .mark, .guest false, .guest false, .present, .guest false,
        .guest false, .guest false, .guest false, .guest false] s ∧ s.ctl = .done (.ok ()) :=
    Exec.exists_of_run (by decide +kernel)
  have hcoll := (requestOffers_exact Synic.channelMessage
    [offerMessage 1 7, offerMessage 4 0]).2 _ s hs
  have hoffers : offersBefore [(offerMessage 1 7).bytes, (offerMessage 4 0).bytes] =
      [⟨⟨zeroGuid, 7⟩, zeroGuid, 0, 0, false, false⟩] := by decide +kernel
  refine ⟨_, s, hs, hdone, ?_⟩
  rw [← hoffers]
  exact (hcoll.delivered hdone).2 _ [] rfl

end Offers
