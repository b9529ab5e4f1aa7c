/-
Acknowledgement of transfer-page packets.

Every `VM_PKT_DATA_USING_XFER_PAGES` packet that the guest removes from the receive
ring must be answered by one `VM_PKT_COMP` packet with its transaction id; otherwise
the host never reuses the section of the receive buffer behind it.

* `Acknowledged` — the completions sent are those of the packets removed, in order;
* `acknowledged_iff_completes` — along a run in which the send ring is never full,
  it holds in every state exactly when no receive takes a transfer-page packet that
  it does not complete: `recv_with_timeout` completes none, and `pump_channel` none
  while a frame is pending;
* `second_packet_unacknowledged` — two packets after `init` are enough.
-/
import Embclox.NetvscSteps

open Bytes Effect Ring Nvsp Relation Run

namespace Netvsc

/-- The transaction id of a removed transfer-page packet. -/
def Event.removedXfer? : Event → Option UInt64
  | .removed desc =>
      if desc.packetType = vmPktDataUsingXferPages then some desc.transactionId else none
  | _ => none

/-- The transaction ids of the completions on the send ring. -/
def comps (log : List Event) : List UInt64 := log.filterMap Event.comp?

/-- The transaction ids of the transfer-page packets removed. -/
def removedXfers (log : List Event) : List UInt64 := log.filterMap Event.removedXfer?

/-- Each removed transfer-page packet has its one completion. -/
def Acknowledged (s : Sys) : Prop := comps s.dev.log = removedXfers s.dev.log

/-- The step does not find the send ring full. -/
def NeverFull (s : Sys) (a : Act) : Prop := ∀ u, step s a = some u → Event.ringFull ∉ u.dev.log

/-- The next receive takes a transfer-page packet without completing it. -/
def leavesUnacked (s : Sys) : Bool :=
  match s.ctl.consumer, s.dev.view.next with
  | some k, some p =>
      p.desc.packetType == vmPktDataUsingXferPages && k.accepts p &&
        (k == .raw || k == .pump && s.dev.pendingRx.isSome)
  | _, _ => false

abbrev Completes : Sys → Act → Prop := Avoids leavesUnacked

instance (s : Sys) : Decidable (Acknowledged s) := inferInstanceAs (Decidable (_ = _))

instance (s : Sys) (a : Act) : Decidable (NeverFull s a) :=
  inferInstanceAs (Decidable (∀ u ∈ step s a, Event.ringFull ∉ u.dev.log))

theorem comps_append (log new : List Event) : comps (log ++ new) = comps log ++ comps new :=
  List.filterMap_append

theorem removedXfers_append (log new : List Event) :
    removedXfers (log ++ new) = removedXfers log ++ removedXfers new :=
  List.filterMap_append

theorem removedXfer?_offRing {e : Event} (h : e.offRing) : e.removedXfer? = none := by
  cases e with
  | removed desc => exact absurd h.2 (by simp [Event.isRemoved])
  | _ => rfl

section

variable {K F : Prop} {v w : View}

/-- The moves that remove nothing change neither list. -/
theorem acks_of_moves (h : ReflTransGen (Micro K F) v w) :
    comps w.log = comps v.log ∧ removedXfers w.log = removedXfers v.log := by
  obtain ⟨new, hlog, hnew⟩ := moves_log h
  have hc : comps new = [] := List.filterMap_eq_nil_iff.mpr fun e he => (hnew e he).2
  have hr : removedXfers new = [] :=
    List.filterMap_eq_nil_iff.mpr fun e he => removedXfer?_offRing (hnew e he).1
  rw [hlog, comps_append, removedXfers_append, hc, hr, List.append_nil, List.append_nil]
  exact ⟨rfl, rfl⟩

theorem mem_of_moves (h : ReflTransGen (Micro K F) v w) {e : Event} (he : e ∈ v.log) :
    e ∈ w.log := by
  obtain ⟨new, hlog, -⟩ := moves_log h
  rw [hlog]
  exact List.mem_append_left new he

/-- The removal of a packet that is completed. -/
theorem acks_of_completed {log : List Event} {desc : VmPacketDescriptor} {e : Event}
    (ht : desc.packetType = vmPktDataUsingXferPages) (he : e.acks desc) (hfull : e ≠ .ringFull) :
    comps (log ++ [.removed desc, e]) = comps log ++ [desc.transactionId] ∧
      removedXfers (log ++ [.removed desc, e]) = removedXfers log ++ [desc.transactionId] := by
  obtain rfl : e = .sent vmPktComp desc.transactionId compPayload := he.resolve_right hfull
  have hc : comps [.removed desc, .sent vmPktComp desc.transactionId compPayload] =
      [desc.transactionId] := rfl
  have hr : removedXfers [.removed desc, .sent vmPktComp desc.transactionId compPayload] =
      [desc.transactionId] := by
    simp [removedXfers, Event.removedXfer?, ht]
  rw [comps_append, removedXfers_append, hc, hr]
  exact ⟨rfl, rfl⟩

/-- The removal of a packet that is not completed. -/
theorem acks_of_removed (log : List Event) (desc : VmPacketDescriptor) :
    comps (log ++ [.removed desc]) = comps log ∧
      removedXfers (log ++ [.removed desc]) = removedXfers log ++
        if desc.packetType = vmPktDataUsingXferPages then [desc.transactionId] else [] := by
  rw [comps_append, removedXfers_append]
  refine ⟨List.append_nil _, congrArg (removedXfers log ++ ·) ?_⟩
  by_cases ht : desc.packetType = vmPktDataUsingXferPages
  · simp [removedXfers, Event.removedXfer?, ht]
  · simp [removedXfers, Event.removedXfer?, ht]

end

/-! ### Runs -/

section

variable {s u : Sys} {a : Act}

/-- What the condition says about the packet that is taken. -/
theorem leavesUnacked_iff {k : Consumer} {p : Packet} (hk : s.ctl.consumer = some k)
    (hp : s.dev.view.next = some p) :
    leavesUnacked s = true ↔ p.desc.packetType = vmPktDataUsingXferPages ∧ k.accepts p = true ∧
      (k = .raw ∨ k = .pump ∧ s.dev.view.pendingRx ≠ none) := by
  simp only [leavesUnacked, hk, hp, Bool.and_eq_true, Bool.or_eq_true, beq_iff_eq, and_assoc,
    Option.isSome_iff_ne_none]
  rfl

/-- A step whose receive completes what it takes keeps the two lists equal. -/
theorem acknowledged_step (hb : Base s.dev) (hs : Acknowledged s) (hnf : NeverFull s a)
    (hc : Completes s a) (h : step s a = some u) : Acknowledged u := by
  have hfull : Event.ringFull ∉ u.dev.view.log := hnf u h
  have hs' : comps s.dev.view.log = removedXfers s.dev.view.log := hs
  show comps u.dev.view.log = removedXfers u.dev.view.log
  cases a with
  | guest env =>
    rcases guest_moves hb h with ⟨-, -, hw⟩ | ⟨k, p, w, hk, hp, ha, ht, -, hw⟩
    · rw [(acks_of_moves hw).1, (acks_of_moves hw).2, hs']
    · rw [(acks_of_moves hw).1, (acks_of_moves hw).2]
      rcases ht.log with ⟨hty, e, he, hlog⟩ | ⟨hlog, hwhy⟩
      · have hne : e ≠ .ringFull := by
          rintro rfl
          exact hfull (mem_of_moves hw (by rw [hlog]; simp))
        rw [hlog, (acks_of_completed hty he hne).1, (acks_of_completed hty he hne).2, hs']
      · -- the condition excludes the packets that are not completed
        have hty : p.desc.packetType ≠ vmPktDataUsingXferPages := by
          intro hty
          have hbad := (leavesUnacked_iff hk hp).mpr ⟨hty, ha, hwhy hty⟩
          exact Bool.eq_false_iff.mp hc hbad
        rw [hlog, (acks_of_removed _ _).1, (acks_of_removed _ _).2, if_neg hty, List.append_nil,
          hs']
  | call c =>
    obtain ⟨-, -, hw⟩ := call_moves hb h
    rw [(acks_of_moves hw).1, (acks_of_moves hw).2, hs']
  | put p mem tag =>
    obtain ⟨-, -, hv⟩ := put_moves hb h
    rw [hv]
    show comps (s.dev.log ++ _) = removedXfers (s.dev.log ++ _)
    rw [comps_append, removedXfers_append, show comps s.dev.log = _ from hs]
    rfl
  | take =>
    obtain ⟨-, -, hv⟩ := take_moves hb h
    rw [hv, hs']

/-- A receive that breaks the condition removes a packet and completes nothing. -/
theorem not_acknowledged_of_leaves (hb : Base s.dev) (hs : Acknowledged s) (hc : ¬ Completes s a)
    (h : step s a = some u) : ¬ Acknowledged u := by
  obtain ⟨⟨env, rfl⟩, hleaves⟩ := Avoids.of_not hc
  show ¬ comps u.dev.view.log = removedXfers u.dev.view.log
  rcases guest_moves hb h with ⟨hidle, -⟩ | ⟨k, p, w, hk, hp, -, ht, -, hw⟩
  · -- the packet is there and the receive accepts it
    obtain ⟨k, hk⟩ : ∃ k, s.ctl.consumer = some k := by
      rcases hk : s.ctl.consumer with _ | k
      · simp [leavesUnacked, hk] at hleaves
      · exact ⟨k, rfl⟩
    obtain ⟨p, hp⟩ : ∃ p, s.dev.view.next = some p := by
      rcases hp : s.dev.view.next with _ | p
      · simp [leavesUnacked, hk, hp] at hleaves
      · exact ⟨p, rfl⟩
    exact absurd ((leavesUnacked_iff hk hp).mp hleaves).2.1 (Bool.eq_false_iff.mp (hidle k p hk hp))
  · obtain ⟨hty, -, hwhy⟩ := (leavesUnacked_iff hk hp).mp hleaves
    have hlog : w.log = s.dev.log ++ [.removed p.desc] := by
      cases ht with
      | raw => rfl
      | poll e ht he => simp at hwhy
      | pump e ht hp he => exact absurd hp (by simpa using hwhy)
      | drop ht hp => rfl
      | completion k hk ht => exact absurd (ht.symm.trans hty) vmPktComp_ne_xferPages
      | other k hk ht ht' => exact absurd hty ht
    rw [(acks_of_moves hw).1, (acks_of_moves hw).2, hlog, (acks_of_removed _ _).1,
      (acks_of_removed _ _).2, if_pos hty, show comps s.dev.log = _ from hs]
    intro heq
    have hlen := congrArg List.length heq
    simp at hlen

end

/-- **Acknowledgement.**  Along a run from the opened channel in which the send ring
is never full, every removed transfer-page packet has exactly one completion in
every state exactly when no receive takes one that it does not complete. -/
theorem acknowledged_iff_completes {ram : Ram} {l : List Act} {s : Sys}
    (h : Exec step NeverFull (openedSys ram) l s) :
    (∀ l' s', l' <+: l → Exec step NeverFull (openedSys ram) l' s' → Acknowledged s') ↔
      Exec step (fun s a => NeverFull s a ∧ Completes s a) (openedSys ram) l s := by
  have hinv : ∀ {l s}, Exec step (fun s a => NeverFull s a ∧ Completes s a) (openedSys ram) l s →
      Base s.dev ∧ Acknowledged s := by
    intro l s h
    refine h.invariant (I := fun s => Base s.dev ∧ Acknowledged s)
      ⟨base_openedDevice ram, rfl⟩ ?_
    intro s u a hi hg hstep
    exact ⟨base_of_step hi.1 hstep, acknowledged_step hi.1 hi.2 hg.1 hg.2 hstep⟩
  refine Exec.guarded_iff (fun h => (hinv h).2) (fun hr _ hc hstep => ?_) h
  exact not_acknowledged_of_leaves (hinv hr).1 (hinv hr).2 hc hstep

theorem acknowledged_iff_completes_one_packet :
    ∃ s, Exec step NeverFull (openedSys { })
        (initPhase ++
          [postFrame 11 0 [1, 2, 3] fun _ => 0, .call .hasRxPacket, receives, receives]) s ∧
      comps s.dev.log = [7, 8, 9, 10, 11] ∧ Acknowledged s := by
  obtain ⟨s, hs, hcomps⟩ : ∃ s, Exec step (fun s a => NeverFull s a ∧ Completes s a)
      (openedSys { }) (initPhase ++
        [postFrame 11 0 [1, 2, 3] fun _ => 0, .call .hasRxPacket, receives, receives]) s ∧
        comps s.dev.log = [7, 8, 9, 10, 11] :=
    Exec.exists_of_run (by decide +kernel)
  have hrun := hs.mono fun _ _ h => h.1
  exact ⟨s, hrun, hcomps, (acknowledged_iff_completes hrun).mpr hs _ s List.prefix_rfl hrun⟩

/-- Two data packets after `init`, and a call of `has_rx_packet`. -/
def twoPackets : List Act :=
  initPhase ++ postTwo [1, 2, 3] [4, 5, 6] ++ [.call .hasRxPacket, receives, receives]

/-- The packet with transaction id 12 leaves the ring and is never completed. -/
theorem second_packet_unacknowledged :
    ∃ s, Exec step NeverFull (openedSys { }) twoPackets s ∧
      removedXfers s.dev.log = [7, 8, 9, 10, 11, 12] ∧ comps s.dev.log = [7, 8, 9, 10, 11] ∧
      ¬ Acknowledged s :=
  Exec.exists_of_run (by decide +kernel)

end Netvsc
