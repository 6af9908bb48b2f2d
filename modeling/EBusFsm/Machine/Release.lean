import EBusFsm.Machine.Blocks
import EBusFsm.Machine.Publish

/-!
# The bus is released

A participant that won the arbitration owns the bus until it writes a synchronization byte, which only
`freeBus` does. Every exit of `sendMessage` and of `receiveResponse` leads to `freeBus`, except for one: at a
size byte that is too large `receiveResponse` resets the machine by itself and returns to `monitorBus`.
`released` says that the bus is released whenever `receiveResponse` meets no such byte, and that it is not
released when it does.

Between its victory and the release the machine is `Engaged`; the invariant of a run is that it is engaged
or that `freeBus` has run (`Freed`).
-/

namespace EBusFsm

open Prog

/-! ### The property -/

/-- `freeBus` ran in one of these rounds and wrote the synchronization byte. -/
def Freed (h : List (System × Action)) : Prop :=
  ∃ t env t' evs, (t, .thread env) ∈ h ∧ t.control = .loop .freeBus ∧
    t.step (.thread env) = some t' ∧ t'.log = t.log ++ .wrote seqSyn :: evs

/-- The machine is in `monitorBus`, or about to enter it. -/
def System.Monitors (s : System) : Prop :=
  s.control = .loop .monitorBus ∨ s.control = .check .monitorBus

/-- `lockBus` wins the arbitration in this round. -/
def Won (s : System) (env : Env) (s' : System) : Prop :=
  s.control = .loop .lockBus ∧ s.step (.thread env) = some s' ∧ s'.control = .check .sendMessage

/-- The device throws no exception, and `close` does not take effect. -/
structure Unforced (s : System) (a : Action) : Prop where
  silent : ¬ s.Throws a
  closed : a = .check → s.impl.close = false

/-! ### The condition -/

/-- No response that is read next is oversized. -/
def InBounds (s : System) (a : Action) : Prop :=
  ∀ env, a = .thread env → s.control = .loop .receiveResponse → s.impl.running = true →
    ResponseInBounds env

/-! ### From the victory to the release -/

/-- The states in which the participant owns the bus. -/
def Engaged (state : State) : Prop := state = .sendMessage ∨ state = .receiveResponse ∨ state = .freeBus

theorem Control.Holds.not_monitors {s : System} (h : s.control.Holds Engaged) : ¬ s.Monitors := by
  unfold System.Monitors
  intro hmonitors
  have hengaged : Engaged .monitorBus := by
    rcases hmonitors with hc | hc
    · rw [hc] at h
      exact h
    · rw [hc] at h
      exact h
  exact absurd hengaged (by unfold Engaged; decide)

theorem freed_append {h h' : List (System × Action)} :
    Freed (h ++ h') ↔ Freed h ∨ Freed h' := by
  constructor
  · rintro ⟨t, env, t', evs, hmem, hrest⟩
    rcases List.mem_append.1 hmem with hmem | hmem
    · exact .inl ⟨t, env, t', evs, hmem, hrest⟩
    · exact .inr ⟨t, env, t', evs, hmem, hrest⟩
  · rintro (⟨t, env, t', evs, hmem, hrest⟩ | ⟨t, env, t', evs, hmem, hrest⟩)
    · exact ⟨t, env, t', evs, List.mem_append_left _ hmem, hrest⟩
    · exact ⟨t, env, t', evs, List.mem_append_right _ hmem, hrest⟩

/-- One round that released the bus was a round of `freeBus`. -/
theorem Freed.control {s : System} {a : Action} (h : Freed [(s, a)]) : s.control = .loop .freeBus := by
  obtain ⟨t, env, t', evs, hmem, hfree, -⟩ := h
  obtain ⟨rfl, -⟩ := Prod.mk.inj (List.mem_singleton.1 hmem)
  exact hfree

/-- A round of an engaged machine: it stays engaged, or it was `freeBus` and wrote the byte. -/
theorem Handled.engaged {impl impl' : EbusImpl} {env : Env} {state : State} {result : Except Stop State}
    {evs : List Event} (h : Handled impl env state result impl' evs) (hstate : Engaged state)
    (hthrows : ¬ Throws impl env state) (hbounds : state = .receiveResponse → ResponseInBounds env) :
    (Control.after result).Holds Engaged ∨ state = .freeBus ∧ ∃ rest, evs = .wrote seqSyn :: rest := by
  unfold Engaged at hstate
  rcases hstate with rfl | rfl | rfl
  · left
    cases h with
    | broadcast | unacked => exact .inr (.inr rfl)
    | acked =>
      show Engaged _
      unfold Engaged
      split_ifs
      · exact .inr (.inr rfl)
      · exact .inr (.inl rfl)
    | device _ _ _ hthrown => exact absurd hthrown hthrows
    | hung => trivial
  · left
    cases h with
    | responseOversize _ hretried h₁ hnn h₂ =>
      have hle := (hbounds rfl).le hretried h₁ h₂
      exact absurd hle (Nat.not_le_of_gt hnn)
    | accepted | rejected => exact .inr (.inr rfl)
    | device _ _ _ hthrown => exact absurd hthrown hthrows
    | hung => trivial
  · cases h with
    | freed => exact .inr ⟨rfl, _, rfl⟩
    | device _ _ _ hthrown => exact absurd hthrown hthrows
    | hung => exact .inl trivial

/-- A step of an engaged machine. -/
theorem engaged_step {address : Byte} {s s' : System} {a : Action} (hsound : Sound address s)
    (h : s.control.Holds Engaged) (hforced : Unforced s a) (hbounds : InBounds s a)
    (hstep : s.step a = some s') : s'.control.Holds Engaged ∨ Freed [(s, a)] := by
  cases stepped hsound.control hstep with
  | setting | failed | called | enqueued | awoken => exact .inl h
  | stopped => exact .inl trivial
  | @thread state env result impl' evs hstate hh hrunning =>
    rw [hstate] at h
    have hthrows : ¬ Throws s.impl env state := fun hthrown =>
      hforced.silent ⟨env, state, rfl, hstate, hthrown⟩
    have hnext := hh.engaged h hthrows fun hresponse =>
      hbounds env rfl (hstate.trans (congrArg Control.loop hresponse)) hrunning
    rcases hnext with hnext | ⟨rfl, rest, rfl⟩
    · exact .inl hnext
    · exact .inr ⟨s, env, _, rest, List.mem_singleton_self _, hstate, hstep, rfl⟩
  | @check state hstate =>
    left
    rw [hstate] at h
    rw [hforced.closed rfl, if_neg Bool.false_ne_true]
    exact h
  | wake hwait =>
    rw [hwait] at h
    exact absurd (show Engaged .openDevice from h) (by unfold Engaged; decide)

/-! ### The exit without a release -/

/-- An attempt that finds a whole response on the stream is the first one, and its response is rejected. -/
theorem RejectedNext.of_oversized {w w₁ : World} {evs : List Event} {raw : List Byte}
    {t : List RecvResult} (h : ¬ ResponseInBounds w.env) (hevs : Retried evs) (h₁ : Adv w w₁ evs)
    (hraw : Response raw) (hreads : w₁.env.reads = raw.map .byte ++ t) :
    ¬ Rejected evs ∧ ∃ rest, RejectedNext w₁.env.reads rest := by
  unfold ResponseInBounds at h
  push Not at h
  obtain ⟨nn, rest, hnext, hnn⟩ := h
  have hhead : ∀ {raw' : List Byte} {reads t' t'' : List RecvResult}, Response raw' →
      reads = raw'.map .byte ++ t' → reads ≠ .byte nn :: t'' := fun hraw' hreads' heq =>
    absurd (hraw'.head_le hreads' heq) (Nat.not_le_of_gt hnn)
  have hfirst : ¬ Rejected evs := by
    intro hrejected
    have hrej := (hrejected.next h₁).1
    rcases hnext with hnext | hnext
    · obtain ⟨raw', t', hraw', hreads'⟩ := hrej.onStream
      exact hhead hraw' hreads' hnext
    · exact hhead hraw hreads (hrej.unique hnext)
  obtain rfl := hevs.resolve_right hfirst
  have hsame : w.env.reads = w₁.env.reads := h₁.reads
  rw [hsame] at hnext
  exact ⟨hfirst, _, hnext.resolve_left (hhead hraw hreads)⟩

/-- When a size byte is too large, `receiveResponse` leaves the bus as it is. -/
theorem receiveResponse_oversized {impl : EbusImpl} {env : Env} {message : Message}
    (hmessage : impl.activeMessage = some message) (h : ¬ ResponseInBounds env) :
    wp receiveResponse (fun state _ => state = .monitorBus) (fun _ _ => True) { impl, env } := by
  apply wp_receiveResponse _ _ _ hmessage
  · intro evs nn message' w₁ w' _ _ _ _ _ _ _
    rfl
  · intro evs raw s stored x w₁ w' hevs h₁ hraw ht h₂ _
    obtain ⟨-, rest, hrej⟩ := RejectedNext.of_oversized h hevs h₁ hraw h₂.reads_got
    exact absurd ht (hrej.not_text hraw h₂.reads_got)
  · intro evs evs' message' w₁ w' hrejected h₁ hrejected' h₂ _ _ _
    obtain ⟨raw, t, hraw, hreads⟩ := (hrejected'.next h₂).1.onStream
    exact absurd hrejected (RejectedNext.of_oversized h (.inr hrejected) h₁ hraw hreads).1
  · intro e w₁ w' evs evs' _ _ _ _
    trivial

/-- A round ends as its handler does, when the handler throws no exception of the device. -/
theorem wp_runState_silent {impl : EbusImpl} {env : Env} {state : State} {Q : State → World → Prop}
    (hthrows : ¬ Throws impl env state)
    (h : wp (handler state) Q (fun _ _ => True) { impl, env }) :
    wp (runState state) Q (fun _ _ => True) { impl, env } := by
  unfold runState
  rw [wp_tryCatch, wp_def]
  rw [wp_def] at h
  refine ⟨h.1, fun e w hthrown => ?_⟩
  cases e with
  | warning => exact absurd ⟨_, w, hthrown, .inl rfl⟩ hthrows
  | error => exact absurd ⟨_, w, hthrown, .inr rfl⟩ hthrows
  | _ => exact trivial

theorem monitors_of_oversized {address : Byte} {s s' : System} {env : Env} (hsound : Sound address s)
    (hstate : s.control = .loop .receiveResponse) (hrunning : s.impl.running = true)
    (hthrows : ¬ s.Throws (.thread env)) (hno : ¬ ResponseInBounds env)
    (hstep : s.step (.thread env) = some s') (hhung : s'.control ≠ .hung) : s'.Monitors := by
  have hready : Ready s.impl .receiveResponse := by
    have h := hsound.control
    rw [hstate] at h
    exact h
  have hactive : ∃ message, s.impl.activeMessage = some message := hready
  obtain ⟨message, hmessage⟩ := hactive
  have hwp := wp_runState_silent (fun hthrown => hthrows ⟨env, _, rfl, hstate, hthrown⟩)
    (receiveResponse_oversized hmessage hno)
  simp only [System.step, hstate, Option.some.injEq] at hstep
  subst hstep
  unfold System.runThread at hhung ⊢
  simp only [hrunning, Bool.not_true, Bool.false_eq_true, if_false] at hhung ⊢
  rcases hx : exec (runState .receiveResponse) { impl := s.impl, env } with ⟨e | next, w⟩
  · have hh := wp_error (handled hready) hx
    rw [hx] at hhung
    generalize w.impl = impl', w.events = evs at hh
    cases hh with
    | hung => exact absurd rfl hhung
  · have hnext := wp_ok hwp hx
    subst hnext
    exact .inr rfl

/-! ### Runs -/

/-- **The bus is released**: between the victory in the arbitration and the next time in `monitorBus`, `freeBus`
has written the synchronization byte, in every run in which no response is oversized; and it has not after a
round that meets an oversized one. -/
theorem released {address : Byte} {as as' : List Action} {s₀ s₁ s : System} {env : Env}
    (hrun₀ : Run System.step (fun _ _ => True) (System.init address) as s₀)
    (hwon : Won s₀ env s₁)
    (hrun : Run System.step (fun s a => Unforced s a ∧ InBounds s a) s₁ as' s) :
    (s.Monitors → Freed (visited System.step s₁ as')) ∧
      ∀ a s', Unforced s a → s.step a = some s' → s'.control ≠ .hung →
        ¬ Freed (visited System.step s₁ as') →
        ((s'.Monitors → Freed (visited System.step s₁ (as' ++ [a]))) ↔ InBounds s a) := by
  obtain ⟨-, hstep₀, hcontrol⟩ := hwon
  have hsound₁ : Sound address s₁ := (sound_of_run hrun₀).step hstep₀
  have hengaged₁ : s₁.control.Holds Engaged := by
    rw [hcontrol]
    exact .inl rfl
  obtain ⟨hsound, hinv⟩ := hrun.history
    (I := fun h s => Sound address s ∧ (Freed h ∨ s.control.Holds Engaged))
    (fun h t a t' hI hguard hstep => by
      refine ⟨hI.1.step hstep, ?_⟩
      rcases hI.2 with hfreed | hengaged
      · exact .inl (freed_append.2 (.inl hfreed))
      rcases engaged_step hI.1 hengaged hguard.1 hguard.2 hstep with hnext | hfreed
      · exact .inr hnext
      · exact .inl (freed_append.2 (.inr hfreed)))
    ⟨hsound₁, .inr hengaged₁⟩
  refine ⟨fun hmonitors => hinv.resolve_right fun h => h.not_monitors hmonitors, ?_⟩
  intro a s' hforced hstep hhung hheld
  have hengaged := hinv.resolve_left hheld
  have hvisited : visited System.step s₁ (as' ++ [a]) = visited System.step s₁ as' ++ [(s, a)] := by
    rw [hrun.visited_append, Run.visited_cons hstep]
    rfl
  rw [hvisited]
  constructor
  · rintro hreleased env rfl hstate hrunning
    by_contra hno
    have hmonitors := monitors_of_oversized hsound hstate hrunning hforced.silent hno hstep hhung
    have hfreed := (freed_append.1 (hreleased hmonitors)).resolve_left hheld
    exact absurd (hstate.symm.trans hfreed.control) (by decide)
  · intro hbounds hmonitors
    rcases engaged_step hsound hengaged hforced hbounds hstep with hnext | hfreed
    · exact absurd hmonitors hnext.not_monitors
    · exact freed_append.2 (.inr hfreed)

/-- The test of `Unforced`. -/
def unforced (s : System) (a : Action) : Bool := s.silent a && (a != .check || !s.impl.close)

theorem of_unforced (s : System) (a : Action) (h : unforced s a = true) : Unforced s a := by
  unfold unforced at h
  rw [Bool.and_eq_true] at h
  refine ⟨not_throws_of_silent s a h.1, ?_⟩
  rintro rfl
  simpa using h.2

/-- A test that is enough for `InBounds`: no byte that `receiveResponse` could read is too large. -/
def inBounds (s : System) : Action → Bool
  | .thread env => s.control != .loop .receiveResponse ||
      env.reads.all fun r => match r with
        | .byte b => decide (b.toNat ≤ seqMaxBytes)
        | _ => true
  | _ => true

theorem of_inBounds (s : System) (a : Action) (h : inBounds s a = true) : InBounds s a := by
  rintro env rfl hstate -
  simp only [inBounds, hstate, bne_self_eq_false, Bool.false_or, List.all_eq_true] at h
  intro nn rest hreads
  have hmem : RecvResult.byte nn ∈ env.reads := by
    rcases hreads with hreads | ⟨raw, x, hreads, -⟩
    · rw [hreads]
      exact List.mem_cons_self
    · rw [hreads]
      simp
  exact of_decide_eq_true (h _ hmem)

/-- The request `ff08b5050127`. -/
def slaveMessage : Message :=
  ⟨1, bareTelegram (.ofCheck 0xff 0x08 0xb5 0x05 [0x27] (.refl true)), 0⟩

/-- The device is opened, the request is enqueued, and the bus is free. -/
def requestSlave : List Action :=
  [.setLockCounterMax 1] ++ handlers [[0xaa]] ++
    [.transmit [0x08, 0xb5, 0x05, 0x01, 0x27], .enqueue slaveMessage] ++ handlers [[0xaa]]

/-- The request is sent and acknowledged, and `response` arrives. -/
def exchangeSlave (response : List Byte) : List Action :=
  .check :: handlers [[0x08, 0xb5, 0x05, 0x01, 0x27, 0xa8, 0x00], response]

/-- The request is answered by an empty response. -/
theorem released_sample :
    ∃ s₀ s₁ s, execute System.step (fun _ _ => true) (System.init 0xff) requestSlave = some s₀ ∧
      Won s₀ { reads := [.byte 0xff] } s₁ ∧
      execute System.step (fun s a => unforced s a && inBounds s a) s₁
        (exchangeSlave [0x00, 0x00, 0x00] ++ handlers [[0xaa]]) = some s ∧
      s.Monitors ∧
      Freed (visited System.step s₁ (exchangeSlave [0x00, 0x00, 0x00] ++ handlers [[0xaa]])) := by
  have hwon : ((execute System.step (fun _ _ => true) (System.init 0xff) requestSlave).map fun s₀ =>
      (s₀.control, (s₀.step (.thread { reads := [.byte 0xff] })).map fun s₁ =>
        (s₁.control, (execute System.step (fun s a => unforced s a && inBounds s a) s₁
          (exchangeSlave [0x00, 0x00, 0x00] ++ handlers [[0xaa]])).map System.control))) =
      some (.loop .lockBus, some (.check .sendMessage, some (.loop .monitorBus))) := by
    decide +kernel
  obtain ⟨s₀, hs₀, heq⟩ := Option.map_eq_some_iff.1 hwon
  obtain ⟨hlock, heq⟩ := Prod.mk.inj heq
  obtain ⟨s₁, hs₁, heq⟩ := Option.map_eq_some_iff.1 heq
  obtain ⟨hsend, heq⟩ := Prod.mk.inj heq
  obtain ⟨s, hs, hmonitors⟩ := Option.map_eq_some_iff.1 heq
  refine ⟨s₀, s₁, s, hs₀, ⟨hlock, hs₁, hsend⟩, hs, .inl hmonitors, ?_⟩
  refine (released (run_of_execute (fun _ _ _ => trivial) hs₀) ⟨hlock, hs₁, hsend⟩
    (run_of_execute (fun t a h => ?_) hs)).1 (.inl hmonitors)
  rw [Bool.and_eq_true] at h
  exact ⟨of_unforced t a h.1, of_inBounds t a h.2⟩

/-- The response starts with the size byte `11`: the machine is back in `monitorBus`, and no
synchronization byte was written. -/
theorem unreleased_sample :
    ¬ ∀ (address : Byte) (as as' : List Action) (s₀ s₁ s : System) (env : Env),
      Run System.step (fun _ _ => True) (System.init address) as s₀ → Won s₀ env s₁ →
      Run System.step Unforced s₁ as' s → s.Monitors → Freed (visited System.step s₁ as') := by
  intro h
  have hwon : ((execute System.step (fun _ _ => true) (System.init 0xff) requestSlave).map fun s₀ =>
      (s₀.control, (s₀.step (.thread { reads := [.byte 0xff] })).map fun s₁ =>
        (s₁.control, (visited System.step s₁ (exchangeSlave [0x11])).all
            (fun p => p.1.control != .loop .freeBus),
          (execute System.step unforced s₁ (exchangeSlave [0x11])).map System.control))) =
      some (.loop .lockBus, some (.check .sendMessage, true, some (.loop .monitorBus))) := by
    decide +kernel
  obtain ⟨s₀, hs₀, heq⟩ := Option.map_eq_some_iff.1 hwon
  obtain ⟨hlock, heq⟩ := Prod.mk.inj heq
  obtain ⟨s₁, hs₁, heq⟩ := Option.map_eq_some_iff.1 heq
  obtain ⟨hsend, heq⟩ := Prod.mk.inj heq
  obtain ⟨hheld, heq⟩ := Prod.mk.inj heq
  obtain ⟨s, hs, hmonitors⟩ := Option.map_eq_some_iff.1 heq
  obtain ⟨t, env, t', evs, hmem, hfree, -⟩ :=
    h 0xff _ _ s₀ s₁ s _ (run_of_execute (fun _ _ _ => trivial) hs₀) ⟨hlock, hs₁, hsend⟩
      (run_of_execute of_unforced hs) (.inl hmonitors)
  rw [List.all_eq_true] at hheld
  exact absurd hfree (by simpa using hheld _ hmem)

end EBusFsm
