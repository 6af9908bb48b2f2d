import EBusFsm.Machine.Online

/-!
# The bytes between two synchronization bytes

`m_sequence` is meant to hold what was read since the last synchronization byte. `intact_iff` says when it
does, for a telegram that is not for this participant up to its end, and for one that is up to its second
byte: when the handler that read the opening byte read nothing behind it, this participant wrote nothing,
and `close` did not take effect. What it writes otherwise is the byte of `lockBus`, which reads the first
byte of the master that won the arbitration and drops it.

The proof follows a block from its opening byte on: it is collected `Whole`, or `m_sequence` is `Lacking` a
byte of it until the next synchronization byte.
-/

namespace EBusFsm

open Prog

/-! ### The property -/

/-- The handler of the next round throws a device exception. -/
def System.Throws (s : System) (a : Action) : Prop :=
  ∃ env state, a = .thread env ∧ s.control = .loop state ∧ EBusFsm.Throws s.impl env state

/-- `m_sequence` is the block `l` with the second byte `zz`, and the machine is where such a block leads. -/
def Intact (s : System) (l : List Byte) (zz : Byte) : Prop :=
  s.impl.sequence = ⟨l, true⟩ ∧
    s.control = .loop (if Addressed s.impl zz then .receiveMessage else .monitorBus)

/-! ### Following a block -/

/-- The state of the thread, before its handler or behind the handler that chose it, satisfies `P`. -/
def Control.Holds (P : State → Prop) : Control → Prop
  | .loop state => P state
  | .check state => P state
  | .waiting => P .openDevice
  | _ => True

/-- `m_sequence` is the block so far. -/
def Whole (impl : EbusImpl) (l : List Byte) : State → Prop
  | .monitorBus => impl.sequence.seq = l ∧ (l ≠ [] → impl.sequence.extended = true) ∧
      ∀ zz, l[1]? = some zz → ¬ Addressed impl zz
  | .receiveMessage => ∃ qq zz, l = [qq, zz] ∧ impl.sequence = ⟨[qq, zz], true⟩ ∧ Addressed impl zz
  | .lockBus => l = [] ∧ impl.sequence.seq = []
  | .receiveResponse => False
  | .idleSystem | .openDevice => True
  | _ => l = []

/-- `m_sequence` lacks a byte of the block. -/
def Lacking (impl : EbusImpl) (l : List Byte) : State → Prop
  | .monitorBus | .receiveMessage => impl.sequence.seq.length < l.length
  | .lockBus => l ≠ [] ∧ impl.sequence.seq = []
  | _ => l ≠ []

/-- The block went past the second byte of a telegram for this participant. -/
def Past (impl : EbusImpl) (l : List Byte) : Prop :=
  2 < l.length ∧ ∃ zz, l[1]? = some zz ∧ Addressed impl zz

/-- A state that is entered without a byte of a telegram. -/
def Fresh (impl : EbusImpl) : State → Prop
  | .monitorBus | .lockBus => impl.sequence.seq = []
  | .receiveMessage | .receiveResponse => False
  | _ => True

theorem Fresh.whole {impl : EbusImpl} {state : State} (h : Fresh impl state) : Whole impl [] state := by
  cases state with
  | monitorBus => exact ⟨h, fun hne => absurd rfl hne, nofun⟩
  | lockBus => exact ⟨rfl, h⟩
  | receiveMessage | receiveResponse => exact absurd h id
  | idleSystem | openDevice => trivial
  | _ => rfl

theorem Fresh.lacking {impl : EbusImpl} {state : State} (h : Fresh impl state) {l : List Byte}
    (hl : l ≠ []) : Lacking impl l state := by
  cases state with
  | monitorBus =>
    show impl.sequence.seq.length < l.length
    rw [show impl.sequence.seq = [] from h]
    exact List.length_pos_iff.2 hl
  | lockBus => exact ⟨hl, h⟩
  | receiveMessage | receiveResponse => exact absurd h id
  | _ => exact hl

theorem Lacking.ne_nil {impl : EbusImpl} {state : State} {l : List Byte} (h : Lacking impl l state) :
    l ≠ [] := by
  rintro rfl
  cases state with
  | monitorBus | receiveMessage => exact absurd h (Nat.not_lt_zero _)
  | lockBus => exact h.1 rfl
  | _ => exact h rfl

theorem Past.append {impl : EbusImpl} {l : List Byte} (h : Past impl l) (r : List Byte) :
    Past impl (l ++ r) := by
  obtain ⟨hlen, zz, hzz, haddr⟩ := h
  refine ⟨?_, zz, ?_, haddr⟩
  · rw [List.length_append]
    omega
  · rw [List.getElem?_append_left (by omega)]
    exact hzz

theorem Control.Holds.mono {P Q : State → Prop} {control : Control} (h : control.Holds P)
    (hPQ : ∀ state, P state → Q state) : control.Holds Q := by
  cases control with
  | loop state => exact hPQ state h
  | check state => exact hPQ state h
  | waiting => exact hPQ _ h
  | _ => trivial

/-! ### Bytes of a round -/

theorem Control.Holds.whole {impl : EbusImpl} {control : Control} (h : control.Holds (Fresh impl)) :
    control.Holds (Whole impl []) := h.mono fun _ hfresh => hfresh.whole

theorem Control.Holds.lacking {impl : EbusImpl} {control : Control} (h : control.Holds (Fresh impl))
    {l : List Byte} (hl : l ≠ []) : control.Holds (Lacking impl l) :=
  h.mono fun _ hfresh => hfresh.lacking hl

theorem Echoed.ne_nil {l : List Byte} {b : Byte} {evs : List Event} (h : Echoed (l ++ [b]) evs) :
    wroteBytes evs ≠ [] ∧ gotBytes evs ≠ [] := by
  have hgot := h.got_length
  refine ⟨?_, fun hnil => ?_⟩
  · rw [h.wrote]
    simp
  · rw [hnil] at hgot
    simp at hgot

theorem MessageSent.ne_nil {tel : Telegram} {evs : List Event} {ack : Byte}
    (h : MessageSent tel evs ack) : wroteBytes evs ≠ [] ∧ ∃ l, gotBytes evs = l ++ [ack] := by
  cases h with
  | once h =>
    refine ⟨?_, _, gotBytes_append _ _⟩
    rw [wroteBytes_append]
    exact List.append_ne_nil_of_left_ne_nil h.ne_nil.1 _
  | again h h' =>
    refine ⟨?_, ?_⟩
    · rw [wroteBytes_append, wroteBytes_append, List.append_assoc]
      exact List.append_ne_nil_of_left_ne_nil h.ne_nil.1 _
    · rw [← List.append_assoc]
      exact ⟨_, gotBytes_append _ _⟩

theorem PartSent.ne_nil {stored : Sequence} {crc : Byte} {evs : List Event} {ack : Byte}
    (h : PartSent (partBytes stored crc) evs ack) : wroteBytes evs ≠ [] ∧ gotBytes evs ≠ [] := by
  cases h with
  | once h =>
    have hne := Echoed.ne_nil h
    rw [wroteBytes_append, gotBytes_append]
    exact ⟨List.append_ne_nil_of_left_ne_nil hne.1 _, List.append_ne_nil_of_left_ne_nil hne.2 _⟩
  | again h h' =>
    have hne := Echoed.ne_nil h
    rw [wroteBytes_append, wroteBytes_append, gotBytes_append, gotBytes_append, List.append_assoc,
      List.append_assoc]
    exact ⟨List.append_ne_nil_of_left_ne_nil hne.1 _, List.append_ne_nil_of_left_ne_nil hne.2 _⟩

@[simp] theorem gotBytes_resetEvents (message : Option Message) : gotBytes (resetEvents message) = [] := by
  rcases message with _ | message <;> rfl

@[simp] theorem gotBytes_processEvents (impl : EbusImpl) (stored : Sequence) :
    gotBytes (processEvents impl stored) = [] := by
  unfold processEvents
  split_ifs <;> rfl

@[simp] theorem wroteBytes_processEvents (impl : EbusImpl) (stored : Sequence) :
    wroteBytes (processEvents impl stored) = [] := by
  unfold processEvents
  split_ifs <;> rfl

/-! ### Rounds -/

section Round

/-- A round leaves `m_sequence` empty, or goes on with a telegram. -/
inductive Turn (impl : EbusImpl) : State → Except Stop State → EbusImpl → List Event → Prop
  | fresh {state : State} {result : Except Stop State} {impl' : EbusImpl} {evs : List Event}
      (h : (Control.after result).Holds (Fresh impl')) : Turn impl state result impl' evs
  | collected {b : Byte} (hb : b ≠ seqSyn) (hno : ∀ qq, impl.sequence.seq = [qq] → ¬ Addressed impl b) :
      Turn impl .monitorBus (.ok .monitorBus) { impl with sequence := impl.sequence.pushBack b } [.got b]
  | addressed {qq zz : Byte} (hzz : zz ≠ seqSyn) (hseq : impl.sequence.seq = [qq])
      (haddr : Addressed impl zz) :
      Turn impl .monitorBus (.ok .receiveMessage) { impl with sequence := ⟨[qq, zz], true⟩ } [.got zz]
  | acked {impl' : EbusImpl} {evs : List Event} {l : List Byte} (hgot : gotBytes evs = l ++ [seqAck]) :
      Turn impl .sendMessage (.ok .receiveResponse) impl' evs

variable {impl impl' : EbusImpl} {env : Env} {state : State} {result : Except Stop State}
  {evs : List Event} {l : List Byte}

theorem Handled.turn (h : Handled impl env state result impl' evs)
    (hcleared : state = .lockBus → impl.sequence.seq = []) (hthrows : ¬ Throws impl env state) :
    Turn impl state result impl' evs := by
  cases h with
  | idle hresult => rcases hresult with ⟨-, rfl⟩ | ⟨-, rfl⟩ <;> exact .fresh trivial
  | collected hb hno => exact .collected hb hno
  | addressed hzz _ hseq haddr => exact .addressed hzz hseq haddr
  | synced _ _ _ hseq =>
    refine .fresh ?_
    split_ifs <;> exact hseq
  | lost => exact .fresh (hcleared rfl)
  | acked _ _ hevs =>
    obtain ⟨-, l, hgot⟩ := hevs.ne_nil
    split_ifs
    · exact .fresh trivial
    · exact .acked hgot
  | unopened _ _ h => exact absurd h hthrows
  | device _ _ _ h => exact absurd h hthrows
  | _ => exact .fresh (by trivial)

/-- What is lacking stays lacking. -/
theorem Turn.lacking (h : Turn impl state result impl' evs) (hl : Lacking impl l state) :
    (Control.after result).Holds (Lacking impl' (l ++ gotBytes evs)) := by
  have hne : l ++ gotBytes evs ≠ [] := List.append_ne_nil_of_left_ne_nil hl.ne_nil _
  cases h with
  | fresh h => exact h.lacking hne
  | @collected b =>
    have hlt : impl.sequence.seq.length < l.length := hl
    show (impl.sequence.pushBack b).seq.length < (l ++ [b]).length
    rw [Sequence.pushBack_seq, List.length_append, List.length_append]
    omega
  | @addressed qq zz _ hseq =>
    have hlt : impl.sequence.seq.length < l.length := hl
    show [qq, zz].length < (l ++ [zz]).length
    rw [hseq, List.length_singleton] at hlt
    simp only [List.length_append, List.length_cons, List.length_nil]
    omega
  | acked => exact hne

/-- The round that reads the opening byte. -/
theorem Turn.opening {pre t : List Event} (h : Turn impl state result impl' (pre ++ .got seqSyn :: t)) :
    gotBytes t = [] ∧ (Control.after result).Holds (Whole impl' []) ∨
      gotBytes t ≠ [] ∧ (Control.after result).Holds (Lacking impl' (gotBytes t)) := by
  have hsingle : ∀ b : Byte, pre ++ .got seqSyn :: t = [.got b] → b = seqSyn := by
    intro b heq
    have hgot := congrArg gotBytes heq
    have hlen := congrArg List.length hgot
    simp only [gotBytes_append, gotBytes_got, gotBytes_nil, List.length_append, List.length_cons,
      List.length_nil] at hlen
    have hpre : gotBytes pre = [] := List.length_eq_zero_iff.1 (by omega)
    rw [gotBytes_append, hpre, gotBytes_got, gotBytes_got, List.nil_append] at hgot
    exact (List.head_eq_of_cons_eq hgot).symm
  generalize hevs : pre ++ Event.got seqSyn :: t = evs at h hsingle
  cases h with
  | fresh h =>
    by_cases ht : gotBytes t = []
    · exact .inl ⟨ht, h.whole⟩
    · exact .inr ⟨ht, h.lacking ht⟩
  | collected hb => exact absurd (hsingle _ rfl) hb
  | addressed hzz => exact absurd (hsingle _ rfl) hzz
  | acked hgot =>
    refine .inr ⟨fun ht => ?_, fun ht => ?_⟩
    all_goals
      rw [← hevs, gotBytes_append, gotBytes_got, ht] at hgot
      have hlast := (List.append_inj' hgot rfl).2
      exact absurd hlast (by decide)

/-- A message for this participant goes past its second byte. -/
theorem Handled.past (h : Handled impl env state result impl' evs) (hl : Whole impl l .receiveMessage)
    (hgot : gotBytes evs ≠ []) : Past impl' (l ++ gotBytes evs) := by
  obtain ⟨qq, zz, rfl, -, haddr⟩ := hl
  have hlen := List.length_pos_iff.2 hgot
  refine ⟨?_, zz, rfl, ?_⟩
  · simp only [List.length_append, List.length_cons, List.length_nil]
    omega
  · unfold Addressed
    rw [h.address, h.slaveAddress]
    exact haddr

/-- What becomes of a block that was whole before a round. -/
theorem Handled.whole (h : Handled impl env state result impl' evs) (hl : Whole impl l state)
    (hthrows : ¬ Throws impl env state) (hsyn : seqSyn ∉ gotBytes evs) :
    wroteBytes evs = [] ∧ (Control.after result).Holds (Whole impl' (l ++ gotBytes evs)) ∨
      wroteBytes evs ≠ [] ∧ (Control.after result).Holds (Lacking impl' (l ++ gotBytes evs)) ∨
      Past impl' (l ++ gotBytes evs) := by
  have hpast : Whole impl l .receiveMessage → gotBytes evs ≠ [] → Past impl' (l ++ gotBytes evs) := h.past
  cases h with
  | idle hresult =>
    refine .inl ⟨wroteBytes_resetEvents _, ?_⟩
    rcases hresult with ⟨-, rfl⟩ | ⟨-, rfl⟩ <;> trivial
  | opened hflushed h =>
    obtain ⟨pre, rfl, -⟩ := hflushed
    simp at hsyn
  | @collected b _ _ hno =>
    obtain ⟨rfl, hext, haddr⟩ := hl
    refine .inl ⟨rfl, Sequence.pushBack_seq _ _ _, fun _ => rfl, fun zz hzz => ?_⟩
    by_cases hlen : impl.sequence.seq.length = 1
    · obtain ⟨qq, hqq⟩ := List.length_eq_one_iff.1 hlen
      rw [hqq] at hzz
      obtain rfl : b = zz := by simpa using hzz
      exact hno qq hqq
    · refine haddr zz ?_
      rw [← hzz, gotBytes_got, gotBytes_nil]
      by_cases hlt : 1 < impl.sequence.seq.length
      · rw [List.getElem?_append_left hlt]
      · rw [List.getElem?_eq_none (by omega), List.getElem?_eq_none]
        rw [List.length_append, List.length_singleton]
        omega
  | @addressed qq zz _ hzz _ hseq haddr =>
    obtain ⟨rfl, -, -⟩ := hl
    refine .inl ⟨rfl, qq, zz, ?_, rfl, haddr⟩
    rw [hseq]
    rfl
  | synced => simp at hsyn
  | oversizeAlone => exact .inl ⟨rfl, trivial⟩
  | misread => exact .inl ⟨wroteBytes_map_got _, trivial⟩
  | oversize => exact .inr (.inr (hpast hl (by simp)))
  | received _ hr | refused _ hr =>
    obtain ⟨_, _, _, _, _, _, heq⟩ := hr.header
    refine .inr (.inr (hpast hl ?_))
    simp only [List.cons.injEq] at heq
    simp [heq.2.2]
  | answer | drop =>
    obtain rfl : l = [] := hl
    refine .inl ⟨wroteBytes_processEvents _ _, ?_⟩
    rw [gotBytes_processEvents]
    exact Control.Holds.whole (by trivial)
  | responded _ hevs =>
    obtain rfl : l = [] := hl
    have hfresh : (Control.after (.ok .monitorBus)).Holds (Fresh (resetImpl impl)) := rfl
    refine .inr (.inl ⟨?_, hfresh.lacking ?_⟩)
    · rw [wroteBytes_append]
      exact List.append_ne_nil_of_left_ne_nil hevs.ne_nil.1 _
    · rw [List.nil_append, gotBytes_append]
      exact List.append_ne_nil_of_left_ne_nil hevs.ne_nil.2 _
  | won =>
    obtain ⟨rfl, -⟩ := hl
    exact .inr (.inl ⟨List.cons_ne_nil _ _, List.cons_ne_nil _ _⟩)
  | @lost _ qq b =>
    obtain ⟨rfl, hseq⟩ := hl
    have hfresh : (Control.after (.ok .monitorBus)).Holds
        (Fresh { impl with lockCounter := lostLock impl qq b }) := hseq
    exact .inr (.inl ⟨List.cons_ne_nil _ _, hfresh.lacking (List.cons_ne_nil _ _)⟩)
  | broadcast _ _ hevs =>
    obtain rfl : l = [] := hl
    exact .inr (.inl hevs.ne_nil)
  | acked _ _ hevs =>
    obtain rfl : l = [] := hl
    obtain ⟨hwrote, r, hgot⟩ := hevs.ne_nil
    have hne : gotBytes evs ≠ [] := by
      rw [hgot]
      simp
    refine .inr (.inl ⟨hwrote, ?_⟩)
    split_ifs <;> exact hne
  | unacked _ hevs =>
    obtain rfl : l = [] := hl
    obtain ⟨hwrote, r, hgot⟩ := hevs.ne_nil
    have hne : gotBytes evs ≠ [] := by
      rw [hgot]
      simp
    exact .inr (.inl ⟨hwrote, hne⟩)
  | responseOversize | accepted | rejected => exact absurd hl id
  | freed =>
    obtain rfl : l = [] := hl
    have hfresh : (Control.after (.ok .monitorBus)).Holds (Fresh (resetImpl impl)) := rfl
    exact .inr (.inl ⟨List.cons_ne_nil _ _, hfresh.lacking (List.cons_ne_nil _ _)⟩)
  | unopened _ _ h => exact absurd h hthrows
  | device _ _ _ h => exact absurd h hthrows
  | hung =>
    by_cases hwrote : wroteBytes evs = []
    · exact .inl ⟨hwrote, trivial⟩
    · exact .inr (.inl ⟨hwrote, trivial⟩)

end Round

/-! ### Blocks of a run -/

/-- What became of the block that began with the bytes `t`, while the events `evs` went by. -/
def Collected (s : System) (t : List Byte) (evs : List Event) : Prop :=
  (t = [] ∧ wroteBytes evs = []) ∧ s.control.Holds (Whole s.impl (gotBytes evs)) ∨
    (t ≠ [] ∨ wroteBytes evs ≠ []) ∧ s.control.Holds (Lacking s.impl (t ++ gotBytes evs)) ∨
    Past s.impl (t ++ gotBytes evs)

/-- `lockBus` is entered with `m_sequence` empty. -/
def Control.Cleared (impl : EbusImpl) (control : Control) : Prop :=
  control.Holds fun state => state = .lockBus → impl.sequence.seq = []

theorem Handled.cleared {impl impl' : EbusImpl} {env : Env} {state : State}
    {result : Except Stop State} {evs : List Event} (h : Handled impl env state result impl' evs) :
    (Control.after result).Cleared impl' := by
  cases h with
  | idle hresult => rcases hresult with ⟨-, rfl⟩ | ⟨-, rfl⟩ <;> exact nofun
  | synced _ _ _ hseq => exact fun _ => hseq
  | acked => split_ifs <;> exact nofun
  | device _ he => rcases he with rfl | rfl <;> exact nofun
  | oversizeAlone | misread | hung => trivial
  | _ => exact nofun

theorem Control.Cleared.step {address : Byte} {s s' : System} {a : Action} (hsound : Sound address s)
    (h : s.control.Cleared s.impl) (hstep : s.step a = some s') : s'.control.Cleared s'.impl := by
  cases stepped hsound.control hstep with
  | setting | enqueued | failed | called | awoken => exact h
  | stopped => trivial
  | thread _ hh => exact hh.cleared
  | @check state hstate =>
    rw [hstate] at h
    show (Control.loop (if s.impl.close then .idleSystem else state)).Cleared s.impl
    split_ifs
    · exact nofun
    · exact h
  | wake => exact nofun

theorem cleared_of_run {address : Byte} {guard : System → Action → Prop} {as : List Action} {s : System}
    (hrun : Run System.step guard (System.init address) as s) : s.control.Cleared s.impl :=
  (hrun.invariant (I := fun s => Sound address s ∧ s.control.Cleared s.impl)
    (fun _ _ _ h _ hstep => ⟨h.1.step hstep, h.2.step h.1 hstep⟩)
    ⟨sound_init address, nofun⟩).2

/-- A round in which nothing is thrown and no block ends. -/
theorem Collected.handled {s : System} {t : List Byte} {evs₀ : List Event} (h : Collected s t evs₀)
    {env : Env} {state : State} {result : Except Stop State} {impl' : EbusImpl} {evs : List Event}
    (hstate : s.control = .loop state) (hh : Handled s.impl env state result impl' evs)
    (hcleared : s.control.Cleared s.impl) (hthrows : ¬ Throws s.impl env state)
    (hsyn : seqSyn ∉ gotBytes evs) {s' : System} (himpl : s'.impl = impl')
    (hcontrol : s'.control = .after result) : Collected s' t (evs₀ ++ evs) := by
  unfold Collected at h ⊢
  rw [hstate] at h hcleared
  rw [himpl, hcontrol, gotBytes_append, wroteBytes_append]
  rcases h with ⟨⟨rfl, hwrote⟩, hl⟩ | ⟨hne, hl⟩ | hpast
  · rw [hwrote, List.nil_append, List.nil_append]
    rcases hh.whole hl hthrows hsyn with ⟨hwrote', hl'⟩ | ⟨hwrote', hl'⟩ | hpast
    · exact .inl ⟨⟨rfl, hwrote'⟩, hl'⟩
    · exact .inr (.inl ⟨.inr hwrote', hl'⟩)
    · exact .inr (.inr hpast)
  · have hturn := hh.turn hcleared hthrows
    refine .inr (.inl ⟨?_, ?_⟩)
    · exact hne.imp_right fun hwrote => List.append_ne_nil_of_left_ne_nil hwrote _
    · rw [← List.append_assoc]
      exact hturn.lacking hl
  · refine .inr (.inr ?_)
    have happend := hpast.append (gotBytes evs)
    rw [List.append_assoc] at happend
    unfold Past Addressed at happend ⊢
    rw [hh.address, hh.slaveAddress]
    exact happend

/-- The events since the block was opened, and what became of it. -/
def Following (log : List Event) (t : List Byte) (s : System) : Prop :=
  ∃ evs, s.log = log ++ evs ∧ (seqSyn ∉ gotBytes evs → Collected s t evs)

theorem Following.step {log : List Event} {t : List Byte} {address : Byte} {s s' : System} {a : Action}
    (hsound : Sound address s) (hcleared : s.control.Cleared s.impl) (h : Following log t s)
    (hguard : ¬ s.Throws a) (hstep : s.step a = some s') : Following log t s' := by
  obtain ⟨evs₀, hlog, hcollected⟩ := h
  cases stepped hsound.control hstep with
  | setting | enqueued | failed | called | awoken => exact ⟨evs₀, hlog, hcollected⟩
  | stopped =>
    refine ⟨evs₀, hlog, fun hsyn => ?_⟩
    rcases hcollected hsyn with ⟨hno, -⟩ | ⟨hno, -⟩ | hpast
    · exact .inl ⟨hno, trivial⟩
    · exact .inr (.inl ⟨hno, trivial⟩)
    · exact .inr (.inr hpast)
  | @thread state env _ _ evs hstate hh =>
    refine ⟨evs₀ ++ evs, ?_, fun hsyn => ?_⟩
    · rw [← List.append_assoc, ← hlog]
    · rw [gotBytes_append, List.mem_append, not_or] at hsyn
      exact (hcollected hsyn.1).handled hstate hh hcleared
        (fun hthrows => hguard ⟨env, state, rfl, hstate, hthrows⟩) hsyn.2 rfl rfl
  | @check state hstate =>
    refine ⟨evs₀, hlog, fun hsyn => ?_⟩
    have hc := hcollected hsyn
    unfold Collected at hc ⊢
    rw [hstate] at hc
    show _ ∨ _ ∧ (Control.loop (if s.impl.close then .idleSystem else state)).Holds _ ∨ _
    split_ifs
    · rcases hc with ⟨hno, -⟩ | ⟨hno, hl⟩ | hpast
      · exact .inl ⟨hno, trivial⟩
      · exact .inr (.inl ⟨hno, Lacking.ne_nil hl⟩)
      · exact .inr (.inr hpast)
    · exact hc
  | wake hwait =>
    refine ⟨evs₀, hlog, fun hsyn => ?_⟩
    have hc := hcollected hsyn
    unfold Collected at hc ⊢
    rw [hwait] at hc
    exact hc

theorem Following.start {s₁ s₂ : System} {address : Byte} (hsound : Sound address s₁)
    (hcleared : s₁.control.Cleared s₁.impl) {env : Env} (hopening : s₁.step (.thread env) = some s₂)
    (hthrows : ¬ s₁.Throws (.thread env)) {pre t : List Event}
    (hlog : s₂.log = s₁.log ++ (pre ++ .got seqSyn :: t)) : Following s₂.log (gotBytes t) s₂ := by
  refine ⟨[], (List.append_nil _).symm, fun _ => ?_⟩
  cases stepped hsound.control hopening with
  | setting => simp at hlog
  | stopped => simp at hlog
  | @thread state _ _ _ _ hstate hh =>
    obtain rfl := List.append_cancel_left hlog
    rw [hstate] at hcleared
    have hturn := hh.turn hcleared fun h => hthrows ⟨env, state, rfl, hstate, h⟩
    rcases hturn.opening with ⟨ht, hl⟩ | ⟨ht, hl⟩
    · exact .inl ⟨⟨ht, rfl⟩, hl⟩
    · refine .inr (.inl ⟨.inl ht, ?_⟩)
      rw [gotBytes_nil, List.append_nil]
      exact hl

theorem Intact.of_whole {s : System} {l : List Byte} {zz : Byte} {state : State}
    (hstate : s.control = .loop state) (hactive : state.operational = true) (hzz : l[1]? = some zz)
    (h : Whole s.impl l state) : Intact s l zz := by
  have hne : l ≠ [] := by
    rintro rfl
    exact nomatch hzz
  cases state with
  | monitorBus =>
    obtain ⟨hseq, hext, hno⟩ := h
    refine ⟨?_, ?_⟩
    · rw [← hseq, ← hext hne]
    · rw [hstate, if_neg (hno zz hzz)]
  | receiveMessage =>
    obtain ⟨qq, zz', rfl, hseq, haddr⟩ := h
    obtain rfl : zz' = zz := by simpa using hzz
    refine ⟨hseq, ?_⟩
    rw [hstate, if_pos haddr]
  | lockBus => exact absurd h.1 hne
  | receiveResponse => exact absurd h id
  | idleSystem | openDevice => exact nomatch hactive
  | _ => exact absurd h hne

theorem Intact.not_lacking {s : System} {l : List Byte} {zz : Byte} {state : State}
    (hstate : s.control = .loop state) (h : Intact s l zz) : ¬ Lacking s.impl l state := by
  intro hl
  obtain ⟨hseq, hcontrol⟩ := h
  rw [hstate] at hcontrol
  have hlt : s.impl.sequence.seq.length < l.length := by
    split_ifs at hcontrol <;>
      · cases hcontrol
        exact hl
  rw [hseq] at hlt
  exact Nat.lt_irrefl _ hlt

theorem Intact.operational {s : System} {l : List Byte} {zz : Byte} {state : State}
    (hstate : s.control = .loop state) (h : Intact s l zz) : state.operational = true := by
  have hcontrol := h.2
  rw [hstate] at hcontrol
  split_ifs at hcontrol <;>
    · cases hcontrol
      rfl

/-- **A block is received intact exactly if its opening byte was the last byte of its round, this
participant wrote nothing in it and `close` did not take effect in it**: for every block that a run without
device exceptions reads, up to its second byte if that is an address of this participant. -/
theorem intact_iff {address : Byte} {guard : System → Action → Prop} {as as' : List Action}
    {s₁ s₂ s : System} {env : Env} {pre t evs : List Event} {zz : Byte}
    (hrun : Run System.step guard (System.init address) as s₁)
    (hopening : s₁.step (.thread env) = some s₂) (hthrows : ¬ s₁.Throws (.thread env))
    (hlog : s₂.log = s₁.log ++ (pre ++ .got seqSyn :: t))
    (hblock : Run System.step (fun s a => ¬ s.Throws a) s₂ as' s) (hlog' : s.log = s₂.log ++ evs)
    (hsyn : seqSyn ∉ gotBytes evs) {state : State} (hstate : s.control = .loop state)
    (hzz : (gotBytes (t ++ evs))[1]? = some zz)
    (hown : Addressed s.impl zz → (gotBytes (t ++ evs)).length = 2) :
    Intact s (gotBytes (t ++ evs)) zz ↔
      gotBytes t = [] ∧ wroteBytes evs = [] ∧ state.operational = true := by
  have hsound := sound_of_run hrun
  have hcleared := cleared_of_run hrun
  have hstart : Following s₂.log (gotBytes t) s₂ := .start hsound hcleared hopening hthrows hlog
  have hinv := hblock.invariant
    (I := fun s => Sound address s ∧ s.control.Cleared s.impl ∧ Following s₂.log (gotBytes t) s)
    (fun _ _ _ h hguard hstep =>
      ⟨h.1.step hstep, h.2.1.step h.1 hstep, h.2.2.step h.1 h.2.1 hguard hstep⟩)
    ⟨hsound.step hopening, hcleared.step hsound hopening, hstart⟩
  obtain ⟨evs', hlog'', hcollected⟩ := hinv.2.2
  obtain rfl := List.append_cancel_left (hlog'.symm.trans hlog'')
  rw [gotBytes_append] at hzz hown ⊢
  have hcases := hcollected hsyn
  unfold Collected at hcases
  rw [hstate] at hcases
  rcases hcases with ⟨⟨ht, hwrote⟩, hl⟩ | ⟨hne, hl⟩ | ⟨hlen, zz', hzz', haddr⟩
  · rw [ht, List.nil_append] at hzz ⊢
    exact ⟨fun h => ⟨rfl, hwrote, h.operational hstate⟩, fun h => .of_whole hstate h.2.2 hzz hl⟩
  · refine iff_of_false (fun h => h.not_lacking hstate hl) ?_
    rintro ⟨ht, hwrote, -⟩
    exact hne.elim (fun h => h ht) fun h => h hwrote
  · obtain rfl := Option.some_inj.1 (hzz'.symm.trans hzz)
    rw [hown haddr] at hlen
    exact absurd hlen (Nat.lt_irrefl _)

/-- The handler of the next round does not end with a device exception. -/
def System.silent (s : System) : Action → Bool
  | .thread env =>
    match s.control with
    | .loop state =>
      match (exec (handler state) { impl := s.impl, env }).1 with
      | .error .warning | .error .error => false
      | _ => true
    | _ => true
  | _ => true

theorem not_throws_of_silent (s : System) (a : Action) (h : s.silent a = true) : ¬ s.Throws a := by
  rintro ⟨env, state, rfl, hstate, e, w, hthrown, he⟩
  rw [System.silent, hstate] at h
  simp only [hthrown] at h
  rcases he with rfl | rfl <;> exact absurd h Bool.false_ne_true

/-- `openDevice` reads the opening byte, and a master sends the first bytes `1008` of a telegram. -/
theorem intact_sample :
    ∃ s, execute System.step System.silent (System.init 0xff)
        ([.thread { reads := [.byte 0xaa] }, .check] ++ handlers [[0x10], [0x08]]) = some s ∧
      Intact s [0x10, 0x08] 0x08 := by
  let opening : Action := .thread { reads := [.byte 0xaa] }
  let block : List Action := .check :: handlers [[0x10], [0x08]]
  have hstart : Run System.step (fun _ _ => True) (System.init 0xff) [] (System.init 0xff) := .nil _
  obtain ⟨s₂, hopening, hlog⟩ := Option.map_eq_some_iff.1
    (show ((System.init 0xff).step opening).map System.log =
      some ([] ++ ([] ++ .got seqSyn :: [])) by decide +kernel)
  have hrun : ((execute System.step System.silent (System.init 0xff) (opening :: block)).map
      fun s => (s.control, s.log, s.impl.address, s.impl.slaveAddress)) =
        some (.loop .monitorBus, [.got 0xaa, .got 0x10, .got 0x08], 0xff, 0x04) := by decide +kernel
  obtain ⟨s, hs, heq⟩ := Option.map_eq_some_iff.1 hrun
  obtain ⟨hstate, hlog', hown, hslave⟩ : s.control = .loop .monitorBus ∧
      s.log = [.got 0xaa, .got 0x10, .got 0x08] ∧ s.impl.address = 0xff ∧ s.impl.slaveAddress = 0x04 := by
    simpa using heq
  have hsilent : (System.init 0xff).silent opening = true := by decide +kernel
  have hblock : execute System.step System.silent s₂ block = some s := by
    rw [execute, if_pos hsilent, hopening] at hs
    exact hs
  have hevs : s.log = s₂.log ++ [.got 0x10, .got 0x08] := by
    rw [hlog', hlog]
    rfl
  have hforeign : ¬ Addressed s.impl 0x08 := by
    unfold Addressed
    rw [hown, hslave]
    decide
  refine ⟨s, hs, ?_⟩
  exact (intact_iff hstart hopening (not_throws_of_silent _ _ hsilent) hlog
    (run_of_execute not_throws_of_silent hblock) hevs (by decide) hstate rfl
    fun haddr => absurd haddr hforeign).2 ⟨rfl, rfl, rfl⟩

/-- The participant `ff` loses the arbitration to the master `10`: the block `1008` is collected without its
first byte, which `lockBus` read. -/
theorem broken_sample :
    ¬ ∀ (address : Byte) (as as' : List Action) (s₁ s₂ s s' : System) (env env' : Env)
      (pre t evs rest : List Event) (zz : Byte) (state : State),
      Run System.step (fun s a => ¬ s.Throws a) (System.init address) as s₁ →
      s₁.step (.thread env) = some s₂ → ¬ s₁.Throws (.thread env) →
      s₂.log = s₁.log ++ (pre ++ .got seqSyn :: t) →
      Run System.step (fun s a => ¬ s.Throws a) s₂ as' s → s.log = s₂.log ++ evs →
      seqSyn ∉ gotBytes (t ++ evs) → s.control = .loop state → ¬ s.Throws (.thread env') →
      s.step (.thread env') = some s' → s'.log = s.log ++ .got seqSyn :: rest →
      wroteBytes (t ++ evs) = [] ∨ wroteBytes (t ++ evs) = [address] →
      (gotBytes (t ++ evs))[1]? = some zz → ¬ Addressed s.impl zz →
      Intact s (gotBytes (t ++ evs)) zz := by
  intro h
  let syn : Action := .thread { reads := [.byte 0xaa] }
  let block : List Action := .check :: handlers [[0x10], [0x08]]
  let run (as : List Action) := execute System.step System.silent (System.init 0xff) as
  obtain ⟨s₁, hs₁, hlog₁⟩ := Option.map_eq_some_iff.1
    (show (run requestBroadcast).map System.log = some [.got 0xaa] by decide +kernel)
  obtain ⟨s₂, hs₂, hlog₂⟩ := Option.map_eq_some_iff.1
    (show (run (requestBroadcast ++ [syn])).map System.log =
      some ([Event.got 0xaa] ++ ([] ++ Event.got seqSyn :: [])) by decide +kernel)
  obtain ⟨s, hs, heq⟩ := Option.map_eq_some_iff.1
    (show (run (requestBroadcast ++ [syn] ++ block)).map (fun s => (s.control, s.log, s.impl.sequence,
      s.impl.address, s.impl.slaveAddress)) = some (.loop .monitorBus,
        [Event.got 0xaa] ++ ([] ++ Event.got seqSyn :: []) ++ [Event.wrote 0xff, Event.got 0x10, Event.got 0x08],
        ⟨[0x08], true⟩, 0xff, 0x04) by decide +kernel)
  obtain ⟨hstate, hlog, hseq, hown, hslave⟩ : s.control = .loop .monitorBus ∧
      s.log = [Event.got 0xaa] ++ ([] ++ Event.got seqSyn :: []) ++
        [Event.wrote 0xff, Event.got 0x10, Event.got 0x08] ∧
      s.impl.sequence = ⟨[0x08], true⟩ ∧ s.impl.address = 0xff ∧ s.impl.slaveAddress = 0x04 := by
    simpa using heq
  obtain ⟨s', hs', hlog'⟩ := Option.map_eq_some_iff.1
    (show (run (requestBroadcast ++ [syn] ++ block ++ [syn])).map System.log =
      some ([.got 0xaa, .got 0xaa, .wrote 0xff, .got 0x10, .got 0x08] ++ .got seqSyn :: []) by decide +kernel)
  simp only [run] at hs₁ hs₂ hs hs'
  rw [execute_append, hs] at hs'
  rw [execute_append, hs₂] at hs
  rw [execute_append, hs₁] at hs₂
  obtain ⟨hsilent₁, hopening⟩ := step_of_execute hs₂
  obtain ⟨hsilent, hclosing⟩ := step_of_execute hs'
  have hforeign : ¬ Addressed s.impl 0x08 := by
    unfold Addressed
    rw [hown, hslave]
    decide
  have hlog₂' : s₂.log = s₁.log ++ ([] ++ .got seqSyn :: []) := by rw [hlog₂, hlog₁]
  have hevs : s.log = s₂.log ++ [.wrote 0xff, .got 0x10, .got 0x08] := by rw [hlog, hlog₂]
  have hclosed : s'.log = s.log ++ .got seqSyn :: [] := by
    rw [hlog', hlog]
    rfl
  have hintact := h 0xff _ block s₁ s₂ s s' _ _ [] [] _ [] 0x08 _ (run_of_execute not_throws_of_silent hs₁)
    hopening (not_throws_of_silent _ _ hsilent₁) hlog₂' (run_of_execute not_throws_of_silent hs) hevs
    (by decide) hstate (not_throws_of_silent _ _ hsilent) hclosing hclosed (.inr rfl) rfl hforeign
  have hlost := hseq.symm.trans hintact.1
  exact absurd hlost (by decide)

end EBusFsm
