import EBusFsm.Machine.Service

/-!
# Where a request is

A call of `transmit` keeps its telegram in its own frame, and the message that it enqueues refers to it
(`m_telegram`). So a call must not return while the thread can still reach its message, and a message must
not be lost while its call waits.

`conserved` accounts for every number that was ever given to a call: it stands at exactly one place, on the
way to the queue, in the queue, as the active message or completed, and at the same time its call is either
in progress or has returned, once. From this the frame of every message that is active or waits is alive, as long
as no caller wakes up by itself.
-/

namespace EBusFsm

open Prog

/-! ### The property -/

/-- The numbers given so far. -/
def System.issued (s : System) : List Nat := List.range' 1 (s.nextId - 1)

/-- The numbers of the calls, in progress or returned; a call that failed its checks has none. -/
def System.calledIds (s : System) : List Nat :=
  s.calls.map Call.id ++ (s.returned.map Return.id).filter (· ≠ 0)

/-- The call of the message is in progress, it is the only one with this number, and the message carries its
telegram. -/
def InProgress (address : Byte) (s : System) (message : Message) : Prop :=
  ∃ call ∈ s.calls, call.id = message.id ∧ message.Carries address call.request ∧
    ∀ call' ∈ s.calls, call'.id = message.id → call' = call

/-- The result that a call returned is that of its message. -/
def Fulfilled (address : Byte) (s : System) (ret : Return) : Prop :=
  ∃ message ∈ s.completed, message.id = ret.id ∧ message.Carries address ret.request ∧
    ret.result = message.state ∧ ret.response = message.telegram.slave.seq

structure Conserved (address : Byte) (s : System) : Prop where
  placed : (s.messages.map Message.id).Perm s.issued
  called : s.calledIds.Perm s.issued
  returned : ∀ ret ∈ s.returned, ret.id ≠ 0 → Fulfilled address s ret
  inProgress : ∀ message ∈ s.entering ++ s.impl.held, InProgress address s message

/-! ### Steps -/

/-- What the steps keep. -/
structure Accounted (address : Byte) (s : System) : Prop where
  next : 0 < s.nextId
  placed : (s.messages.map Message.id).Perm s.issued
  called : s.calledIds.Perm s.issued
  returned : ∀ ret ∈ s.returned, ret.id ≠ 0 → Fulfilled address s ret

theorem accounted_init (address : Byte) : Accounted address (System.init address) where
  next := Nat.one_pos
  placed := .refl []
  called := .refl []
  returned := fun _ h => absurd h List.not_mem_nil

theorem Fulfilled.mono {address : Byte} {s s' : System} {ret : Return} (h : Fulfilled address s ret)
    (hcompleted : s.completed ⊆ s'.completed) : Fulfilled address s' ret := by
  obtain ⟨message, hmessage, hfulfilled⟩ := h
  exact ⟨message, hcompleted hmessage, hfulfilled⟩

section Step

variable {address : Byte} {s s' : System} {a : Action}

theorem issued_succ (hnext : 0 < s.nextId) : List.range' 1 (s.nextId + 1 - 1) = s.issued ++ [s.nextId] := by
  obtain ⟨n, hn⟩ := Nat.exists_eq_add_of_lt hnext
  rw [System.issued, hn]
  simp [List.range'_concat]
  omega

/-- A step that moves messages from place to place, and leaves the calls alone. -/
theorem Accounted.moved (h : Accounted address s) (hnext : s'.nextId = s.nextId)
    (hplaced : (s'.messages.map Message.id).Perm (s.messages.map Message.id)) (hcalls : s'.calls = s.calls)
    (hreturned : s'.returned = s.returned) (hcompleted : s.completed ⊆ s'.completed) :
    Accounted address s' := by
  have hissued : s'.issued = s.issued := by rw [System.issued, System.issued, hnext]
  refine ⟨hnext ▸ h.next, ?_, ?_, ?_⟩
  · rw [hissued]
    exact hplaced.trans h.placed
  · rw [hissued, System.calledIds, hcalls, hreturned]
    exact h.called
  · rw [hreturned]
    exact fun ret hret hid => (h.returned ret hret hid).mono hcompleted

theorem Accounted.step (hsound : Sound address s) (h : Accounted address s) (hstep : s.step a = some s') :
    Accounted address s' := by
  have hsame : List.Subset s.completed s.completed := fun _ hm => hm
  cases stepped hsound.control hstep with
  | setting => exact h.moved rfl (.refl _) rfl rfl hsame
  | @failed message result response =>
    refine ⟨h.next, h.placed, ?_, fun ret hret hid => ?_⟩
    · have hzero : (((⟨0, message, result, response⟩ : Return) :: s.returned).map Return.id).filter (· ≠ 0) =
          (s.returned.map Return.id).filter (· ≠ 0) := by simp
      show (s.calls.map Call.id ++ List.filter (· ≠ 0) (((⟨0, message, result, response⟩ : Return) ::
        s.returned).map Return.id)).Perm s.issued
      rw [hzero]
      exact h.called
    · rcases List.mem_cons.1 hret with rfl | hret
      · exact absurd rfl hid
      · exact h.returned ret hret hid
  | @called message tel m =>
    refine ⟨Nat.succ_pos _, ?_, ?_, h.returned⟩
    · show (s.nextId :: s.messages.map Message.id).Perm (List.range' 1 (s.nextId + 1 - 1))
      rw [issued_succ h.next]
      exact (h.placed.cons s.nextId).trans (List.perm_append_singleton _ _).symm
    · show (s.nextId :: s.calledIds).Perm (List.range' 1 (s.nextId + 1 - 1))
      rw [issued_succ h.next]
      exact (h.called.cons s.nextId).trans (List.perm_append_singleton _ _).symm
  | @enqueued message hmessage =>
    refine h.moved rfl (List.Perm.map _ ?_) rfl rfl hsame
    show (s.entering.erase message ++ (s.impl.activeMessage.toList ++ (s.impl.messageQueue ++ [message])) ++
      s.completed).Perm (s.entering ++ (s.impl.activeMessage.toList ++ s.impl.messageQueue) ++ s.completed)
    refine List.Perm.append_right _ ?_
    rw [← List.append_assoc, ← List.append_assoc]
    refine (List.perm_append_singleton _ _).trans ?_
    rw [List.append_assoc, ← List.cons_append]
    exact (List.perm_cons_erase hmessage).symm.append_right _
  | @awoken call message hcall hmessage hid =>
    have hzero : call.id ≠ 0 := by
      have hmem : call.id ∈ s.issued :=
        h.called.mem_iff.1 (List.mem_append_left _ (List.mem_map_of_mem hcall))
      rw [System.issued, List.mem_range'_1] at hmem
      omega
    refine ⟨h.next, h.placed, ?_, fun ret hret hne => ?_⟩
    · refine List.Perm.trans ?_ h.called
      show ((s.calls.erase call).map Call.id ++ List.filter (· ≠ 0) (call.id :: s.returned.map Return.id)).Perm
        (s.calls.map Call.id ++ (s.returned.map Return.id).filter (· ≠ 0))
      rw [List.filter_cons_of_pos (by simpa using hzero)]
      refine List.perm_middle.trans ?_
      rw [← List.cons_append]
      exact ((List.perm_cons_erase hcall).symm.map Call.id).append_right _
    · rcases List.mem_cons.1 hret with rfl | hret
      · have hplace : message ∈ s.messages := List.mem_append_right _ hmessage
        exact ⟨message, hmessage, hid, hsound.calls call hcall message hplace hid, rfl, rfl⟩
      · exact h.returned ret hret hne
  | @thread _ _ _ impl' evs _ hh =>
    refine h.moved rfl ?_ rfl rfl (List.subset_append_right _ _)
    show ((s.entering ++ impl'.held ++ (notifiedMessages evs ++ s.completed)).map Message.id).Perm
      ((s.entering ++ s.impl.held ++ s.completed).map Message.id)
    have hids : s.impl.held.map Message.id =
        (notifiedMessages evs).map Message.id ++ impl'.held.map Message.id := hh.moved.heldIds
    simp only [List.map_append, hids, List.append_assoc]
    refine List.Perm.append_left _ ?_
    rw [← List.append_assoc, ← List.append_assoc]
    exact List.perm_append_comm.append_right _
  | _ => exact h.moved rfl (.refl _) rfl rfl hsame

end Step

theorem accounted_of_run {address : Byte} {guard : System → Action → Prop} {as : List Action} {s : System}
    (hrun : Run System.step guard (System.init address) as s) : Accounted address s := by
  refine (hrun.invariant (I := fun s => Sound address s ∧ Accounted address s) ?_ ?_).2
  · rintro s a s' ⟨hsound, h⟩ - hstep
    exact ⟨hsound.step hstep, h.step hsound hstep⟩
  · exact ⟨sound_init address, accounted_init address⟩

/-! ### Referents -/

/-- The call of a message that is not completed is in progress. -/
theorem Accounted.inProgress {address : Byte} {s : System} (hsound : Sound address s) (h : Accounted address s)
    {message : Message} (hmessage : message ∈ s.entering ++ s.impl.held) : InProgress address s message := by
  have hplace : message ∈ s.messages := List.mem_append_left _ hmessage
  have hissued : message.id ∈ s.issued := h.placed.mem_iff.1 (List.mem_map_of_mem hplace)
  have hnodup : s.issued.Nodup := List.nodup_range'
  rcases List.mem_append.1 (h.called.mem_iff.2 hissued) with hcall | hreturned
  · obtain ⟨call, hcall, hid⟩ := List.mem_map.1 hcall
    refine ⟨call, hcall, hid, hsound.calls call hcall message hplace hid.symm, fun call' hcall' hid' => ?_⟩
    have hcalls : (s.calls.map Call.id).Nodup := (h.called.nodup_iff.2 hnodup).of_append_left
    exact List.inj_on_of_nodup_map hcalls hcall' hcall (hid'.trans hid.symm)
  · -- a message that is completed stands at no other place
    obtain ⟨hmem, hne⟩ := List.mem_filter.1 hreturned
    obtain ⟨ret, hret, hid⟩ := List.mem_map.1 hmem
    obtain ⟨message', hmessage', hid', -⟩ := h.returned ret hret (by simpa [hid] using hne)
    have hplaced := h.placed.nodup_iff.2 hnodup
    rw [System.messages, List.map_append] at hplaced
    refine absurd (List.mem_map_of_mem hmessage') (List.disjoint_of_nodup_append hplaced ?_)
    rw [hid', hid]
    exact List.mem_map_of_mem hmessage

/-- **No request is lost, doubled or left without its caller**: in every run every number that a call got
stands at exactly one place, its call is in progress or has returned once, and the frame of every message that
is active or waits is alive. -/
theorem conserved {address : Byte} {guard : System → Action → Prop} {as : List Action} {s : System}
    (hrun : Run System.step guard (System.init address) as s) : Conserved address s := by
  have haccounted := accounted_of_run hrun
  exact ⟨haccounted.placed, haccounted.called, haccounted.returned,
    fun _ hmessage => haccounted.inProgress (sound_of_run hrun) hmessage⟩

/-- The first of two calls has returned, and the second one is in progress with its message active. -/
theorem conserved_sample :
    ∃ s, execute System.step (fun _ _ => true) (System.init 0xff) (requestTwo ++
        handlers [[0xaa], [0xff], [0xfe, 0xb5, 0x05, 0x01, 0x27, 0x31], [0xaa], [0xaa]] ++ [awakeBroadcast]) =
        some s ∧
      s.returned = [broadcastReturn] ∧ s.messages.map Message.id = [2, 1] ∧ Conserved 0xff s := by
  have hrun : (execute System.step (fun _ _ => true) (System.init 0xff) (requestTwo ++
      handlers [[0xaa], [0xff], [0xfe, 0xb5, 0x05, 0x01, 0x27, 0x31], [0xaa], [0xaa]] ++ [awakeBroadcast])).map
        (fun s => (s.returned, s.messages.map Message.id)) = some ([broadcastReturn], [2, 1]) := by decide +kernel
  obtain ⟨s, hs, heq⟩ := Option.map_eq_some_iff.1 hrun
  obtain ⟨hreturned, hids⟩ := Prod.mk.inj heq
  have hconserved : Conserved 0xff s :=
    conserved (run_of_execute (fun _ _ _ => trivial) hs : Run System.step (fun _ _ => True) _ _ s)
  exact ⟨s, hs, hreturned, hids, hconserved⟩

end EBusFsm
