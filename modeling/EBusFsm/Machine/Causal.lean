import EBusFsm.Machine.Io

/-!
# Handlers on a stream

A handler reads its stream from the front (`Reads`), and it cannot see how long the stream is: on a longer
stream it does the same, and where it had to wait before it reads the next byte (`Prefixed`). Both
properties are kept by every way in which the handlers are put together (`Causal`). The loops take the
length of the script as their bound, so for them two bounds are compared.
-/

namespace EBusFsm

open Prog

/-- The environment with a stream of bytes, in which every write succeeds. -/
def Env.on (env : Env) (l : List Byte) : Env := { env with reads := l.map .byte, sends := [] }

def World.on (w : World) (l : List Byte) : World := { w with env := w.env.on l }

/-- The world with more events. -/
def World.add (w : World) (evs : List Event) : World := { w with events := w.events ++ evs }

theorem World.on_inj {w w' : World} {l l' : List Byte} (h : w.on l = w'.on l') : l = l' := by
  have hreads : l.map RecvResult.byte = l'.map RecvResult.byte := congrArg (fun w => w.env.reads) h
  exact List.map_injective_iff.2 (fun _ _ h => RecvResult.byte.inj h) hreads

/-- `x` takes bytes from the front of the stream, and its events say which. -/
def Reads {α : Type} (x : EbusM α) : Prop :=
  ∀ (w : World) (l : List Byte), ∃ (w' : World) (evs : List Event) (l' : List Byte),
    (exec x (w.on l)).2 = w'.on l' ∧ w'.events = w.events ++ evs ∧ l = gotBytes evs ++ l'

/-- `y` does on `l ++ r` what `x` does on `l`; where `x` waits for a byte, `y` reads the next one. -/
inductive Prefixed {α : Type} (x y : EbusM α) (w : World) (l r : List Byte) : Prop
  | done (result : Except Stop α) (w' : World) (l' : List Byte) (hne : result ≠ .error .starved)
      (hx : exec x (w.on l) = (result, w'.on l'))
      (hy : exec y (w.on (l ++ r)) = (result, w'.on (l' ++ r)))
  | starved (w' : World) (hx : exec x (w.on l) = (.error .starved, w'.on []))
      (hy : ∀ b r', r = b :: r' → ∃ (w'' : World) (l'' : List Byte) (evs : List Event),
        (exec y (w.on (l ++ r))).2 = w''.on l'' ∧ w''.events = w'.events ++ .got b :: evs)

/-- A piece that cannot see the end of its stream. -/
structure Causal {α : Type} (x : EbusM α) : Prop where
  reads : Reads x
  cut : ∀ w l r, Prefixed x x w l r

/-! ### Putting pieces together -/

section Pieces

variable {α β : Type}

theorem Reads.bind {x : EbusM α} {f : α → EbusM β} (hx : Reads x) (hf : ∀ a, Reads (f a)) :
    Reads (x >>= f) := by
  intro w l
  obtain ⟨w', evs, l', hw', hevs, hl⟩ := hx w l
  rw [exec_bind]
  rcases hrun : exec x (w.on l) with ⟨e | a, w''⟩
  · rw [hrun] at hw'
    exact ⟨w', evs, l', hw', hevs, hl⟩
  · rw [hrun] at hw'
    obtain rfl : w'' = w'.on l' := hw'
    obtain ⟨w₂, evs₂, l₂, hw₂, hevs₂, hl₂⟩ := hf a w' l'
    refine ⟨w₂, evs ++ evs₂, l₂, hw₂, ?_, ?_⟩
    · rw [hevs₂, hevs, List.append_assoc]
    · rw [hl, hl₂, gotBytes_append, List.append_assoc]

theorem Prefixed.bind {x y : EbusM α} {f g : α → EbusM β} {w : World} {l r : List Byte}
    (h : Prefixed x y w l r) (hx : Reads x) (hg : ∀ a, Reads (g a))
    (hnext : ∀ a w' l', l'.length ≤ l.length → Prefixed (f a) (g a) w' l' r) :
    Prefixed (x >>= f) (y >>= g) w l r := by
  have hle : ∀ {result : Except Stop α} {w' : World} {l' : List Byte},
      exec x (w.on l) = (result, w'.on l') → l'.length ≤ l.length := by
    intro result w' l' hrun
    obtain ⟨w'', evs, l'', hw'', -, hl⟩ := hx w l
    rw [hrun] at hw''
    rw [hl, World.on_inj hw'', List.length_append]
    omega
  cases h with
  | done result w' l' hne hx hy =>
    rcases result with e | a
    · refine .done (.error e) w' l' (fun h => hne (by rw [Except.error.inj h])) ?_ ?_
      · exact exec_bind_error hx
      · exact exec_bind_error hy
    · cases hnext a w' l' (hle hx) with
      | done result w₂ l₂ hne hx₂ hy₂ =>
        refine .done result w₂ l₂ hne ?_ ?_
        · exact (exec_bind_ok hx).trans hx₂
        · exact (exec_bind_ok hy).trans hy₂
      | starved w₂ hx₂ hy₂ =>
        refine .starved w₂ ?_ fun b r' hr => ?_
        · exact (exec_bind_ok hx).trans hx₂
        · rw [exec_bind_ok hy]
          exact hy₂ b r' hr
  | starved w' hx hy =>
    refine .starved w' ?_ fun b r' hr => ?_
    · exact exec_bind_error hx
    · obtain ⟨w₂, l₂, evs, hw₂, hevs⟩ := hy b r' hr
      rw [exec_bind]
      rcases hrun : exec y (w.on (l ++ r)) with ⟨e | a, w''⟩
      · rw [hrun] at hw₂
        exact ⟨w₂, l₂, evs, hw₂, hevs⟩
      · rw [hrun] at hw₂
        obtain rfl : w'' = w₂.on l₂ := hw₂
        obtain ⟨w₃, evs₃, l₃, hw₃, hevs₃, -⟩ := hg a w₂ l₂
        refine ⟨w₃, l₃, evs ++ evs₃, hw₃, ?_⟩
        rw [hevs₃, hevs, List.append_assoc, List.cons_append]

theorem Causal.bind {x : EbusM α} {f : α → EbusM β} (hx : Causal x) (hf : ∀ a, Causal (f a)) :
    Causal (x >>= f) where
  reads := hx.reads.bind fun a => (hf a).reads
  cut w l r := (hx.cut w l r).bind hx.reads (fun a => (hf a).reads) fun a w' l' _ => (hf a).cut w' l' r

theorem Causal.ite {p : Prop} [Decidable p] {x y : EbusM α} (hx : Causal x) (hy : Causal y) :
    Causal (if p then x else y) := by
  split_ifs
  · exact hx
  · exact hy

/-- A piece that does not touch the stream. -/
theorem Causal.of_offline {x : EbusM α}
    (h : ∀ w : World, ∃ (result : Except Stop α) (w' : World) (evs : List Event),
      result ≠ .error .starved ∧ w'.events = w.events ++ evs ∧ gotBytes evs = [] ∧
        ∀ l, exec x (w.on l) = (result, w'.on l)) : Causal x where
  reads w l := by
    obtain ⟨result, w', evs, -, hevs, hgot, hrun⟩ := h w
    refine ⟨w', evs, l, ?_, hevs, ?_⟩
    · rw [hrun]
    · rw [hgot]
      rfl
  cut w l r := by
    obtain ⟨result, w', evs, hne, -, -, hrun⟩ := h w
    exact .done result w' l hne (hrun l) (hrun (l ++ r))

end Pieces

/-! ### The members and the device -/

theorem causal_pure {α : Type} (a : α) : Causal (pure a : EbusM α) :=
  .of_offline fun w => ⟨.ok a, w, [], nofun, (List.append_nil _).symm, rfl, fun _ => rfl⟩

theorem causal_throw {α : Type} {e : Stop} (he : e ≠ .starved) : Causal (throw e : EbusM α) :=
  .of_offline fun w => ⟨.error e, w, [], fun h => he (Except.error.inj h), (List.append_nil _).symm, rfl,
    fun _ => rfl⟩

theorem causal_getImpl : Causal getImpl :=
  .of_offline fun w => ⟨.ok w.impl, w, [], nofun, (List.append_nil _).symm, rfl, fun _ => rfl⟩

theorem causal_modifyImpl (f : EbusImpl → EbusImpl) : Causal (modifyImpl f) :=
  .of_offline fun w => ⟨.ok ⟨⟩, { w with impl := f w.impl }, [], nofun, (List.append_nil _).symm, rfl,
    fun _ => rfl⟩

theorem causal_emit {e : Event} (he : gotBytes [e] = []) : Causal (emit e) :=
  .of_offline fun w => ⟨.ok ⟨⟩, w.add [e], [e], nofun, rfl, he, fun _ => rfl⟩

theorem causal_liftRange {α : Type} (x : Except OutOfRange α) : Causal (liftRange x) := by
  unfold liftRange
  cases x with
  | ok a => exact causal_pure a
  | error => exact causal_throw (by decide)

theorem causal_deref (message : Option Message) : Causal (deref message) := by
  unfold deref
  cases message with
  | some message => exact causal_pure message
  | none => exact causal_throw (by decide)

theorem causal_setSequence (seq : Sequence) : Causal (setSequence seq) := causal_modifyImpl _

theorem causal_setActive (message : Message) : Causal (setActive message) := causal_modifyImpl _

theorem causal_write (b : Byte) : Causal (write b) :=
  .of_offline fun w => ⟨.ok ⟨⟩, w.add [.wrote b], [.wrote b], nofun, rfl, rfl, fun _ => rfl⟩

theorem exec_read_nil (sec nsec : Nat) (w : World) :
    exec (read sec nsec) (w.on []) = (.error .starved, w.on []) := rfl

theorem reads_read (sec nsec : Nat) : Reads (read sec nsec) := by
  intro w l
  cases l with
  | nil => exact ⟨w, [], [], rfl, (List.append_nil _).symm, rfl⟩
  | cons b l => exact ⟨w.add [.got b], [.got b], l, rfl, rfl, rfl⟩

theorem causal_read (sec nsec : Nat) : Causal (read sec nsec) where
  reads := reads_read sec nsec
  cut w l r := by
    cases l with
    | nil =>
      refine .starved w rfl ?_
      rintro b r' rfl
      exact ⟨w.add [.got b], r', [], rfl, rfl⟩
    | cons b l => exact .done (.ok b) (w.add [.got b]) l nofun rfl rfl

theorem causal_writeRead (b : Byte) (sec nsec : Nat) : Causal (writeRead b sec nsec) :=
  (causal_write b).bind fun _ => (causal_read sec nsec).bind fun _ => causal_pure _

/-! ### The loops -/

/-- A loop that goes on behind the byte that it reads. -/
theorem Prefixed.read {α : Type} {f g : Byte → EbusM α} {sec nsec : Nat} {w : World} {l r : List Byte}
    (hg : ∀ b, Reads (g b)) (hnext : ∀ b l', l = b :: l' → Prefixed (f b) (g b) (w.add [.got b]) l' r) :
    Prefixed (read sec nsec >>= f) (read sec nsec >>= g) w l r := by
  cases l with
  | nil =>
    refine .starved w rfl ?_
    rintro b r' rfl
    obtain ⟨w', evs, l', hw', hevs, -⟩ := hg b (w.add [.got b]) r'
    refine ⟨w', l', evs, hw', ?_⟩
    rw [hevs]
    exact List.append_assoc _ _ _
  | cons b l =>
    cases hnext b l rfl with
    | done result w' l' hne hx hy => exact .done result w' l' hne hx hy
    | starved w' hx hy => exact .starved w' hx hy

/-- A loop over the state `σ` with a bound: a round reads a byte and goes on in the state that it determines,
until the state is final. -/
structure Looping {σ α : Type} (loop : Nat → σ → EbusM α) (final : σ → Prop) : Prop where
  stop : ∀ s, final s → ∃ x : EbusM α, Causal x ∧ ∀ fuel, loop fuel s = x
  zero : ∀ s, ¬ final s → loop 0 s = throw .starved
  round : ∀ s, ¬ final s → ∃ (body : Byte → EbusM PUnit) (next : Byte → σ), (∀ b, Causal (body b)) ∧
    ∀ fuel, loop (fuel + 1) s = read 1 0 >>= fun b => body b >>= fun _ => loop fuel (next b)

section Loop

variable {σ α : Type} {loop : Nat → σ → EbusM α} {final : σ → Prop}

theorem Looping.reads (h : Looping loop final) (fuel : Nat) (s : σ) : Reads (loop fuel s) := by
  induction fuel generalizing s with
  | zero =>
    by_cases hs : final s
    · obtain ⟨x, hx, heq⟩ := h.stop s hs
      rw [heq]
      exact hx.reads
    · intro w l
      rw [h.zero s hs]
      exact ⟨w, [], l, rfl, (List.append_nil _).symm, rfl⟩
  | succ fuel ih =>
    by_cases hs : final s
    · obtain ⟨x, hx, heq⟩ := h.stop s hs
      rw [heq]
      exact hx.reads
    · obtain ⟨body, next, hbody, heq⟩ := h.round s hs
      rw [heq]
      exact (reads_read 1 0).bind fun b => (hbody b).reads.bind fun _ => ih (next b)

/-- The loop does not depend on its bound when the bound exceeds the stream. -/
theorem Looping.cut (h : Looping loop final) {fuel fuel' : Nat} (s : σ) (w : World) {l r : List Byte}
    (hl : l.length < fuel) (hr : (l ++ r).length < fuel') :
    Prefixed (loop fuel s) (loop fuel' s) w l r := by
  induction fuel generalizing fuel' s w l with
  | zero => exact absurd hl (Nat.not_lt_zero _)
  | succ fuel ih =>
    cases fuel' with
    | zero => exact absurd hr (Nat.not_lt_zero _)
    | succ fuel' =>
      by_cases hs : final s
      · obtain ⟨x, hx, heq⟩ := h.stop s hs
        rw [heq, heq]
        exact hx.cut w l r
      · obtain ⟨body, next, hbody, heq⟩ := h.round s hs
        rw [heq, heq]
        apply Prefixed.read
        · intro b
          exact (hbody b).reads.bind fun _ => h.reads fuel' (next b)
        · rintro b l' rfl
          simp only [List.cons_append, List.length_cons] at hl hr
          apply ((hbody b).cut _ l' r).bind (hbody b).reads fun _ => h.reads fuel' (next b)
          intro _ w' l'' hle
          rw [List.length_append] at hr
          exact ih (next b) w' (by omega) (by rw [List.length_append]; omega)

/-- The loop with the bound that the handlers give it. -/
theorem Looping.causal (h : Looping loop final) (s : σ) :
    Causal (do loop ((← get).env.reads.length + 1) s) := by
  have hrun : ∀ w l, exec (do loop ((← get).env.reads.length + 1) s) (World.on w l) =
      exec (loop (l.length + 1) s) (w.on l) := by
    intro w l
    rw [exec_bind, exec_get]
    simp only [World.on, Env.on, List.length_map]
  refine ⟨fun w l => ?_, fun w l r => ?_⟩
  · rw [hrun]
    exact h.reads _ s w l
  · cases h.cut s w (Nat.lt_succ_self l.length) (Nat.lt_succ_self (l ++ r).length) with
    | done result w' l' hne hx hy =>
      exact .done result w' l' hne ((hrun w l).trans hx) ((hrun w (l ++ r)).trans hy)
    | starved w' hx hy =>
      refine .starved w' ((hrun w l).trans hx) fun b r' hr => ?_
      rw [hrun]
      exact hy b r' hr

end Loop

theorem looping_flushDevice :
    Looping (fun fuel (done : Bool) => if done then pure ⟨⟩ else flushDevice fuel) (· = true) where
  stop s hs := ⟨pure ⟨⟩, causal_pure _, fun fuel => if_pos hs⟩
  zero s hs := if_neg hs
  round s hs := by
    refine ⟨fun _ => pure ⟨⟩, fun b => decide (b = seqSyn), fun _ => causal_pure _, fun fuel => ?_⟩
    rw [if_neg hs, flushDevice]
    congr 1
    funext b
    rw [pure_bind]
    by_cases hb : b = seqSyn
    · simp only [hb, ne_eq, not_true_eq_false, if_false, decide_true, if_true]
    · simp only [hb, ne_eq, not_false_eq_true, if_true, decide_false, Bool.false_eq_true, if_false]

theorem looping_receiveBytes : Looping receiveBytes (· = 0) where
  stop s hs := ⟨pure ⟨⟩, causal_pure _, fun fuel => by rw [hs]; cases fuel <;> rfl⟩
  zero s hs := by
    obtain ⟨bytes, rfl⟩ := Nat.exists_eq_succ_of_ne_zero hs
    rfl
  round s hs := by
    obtain ⟨bytes, rfl⟩ := Nat.exists_eq_succ_of_ne_zero hs
    refine ⟨fun b => getImpl >>= fun impl => setSequence (impl.sequence.pushBack b),
      fun b => if b = seqExp then bytes + 1 else bytes, fun b => causal_getImpl.bind fun _ =>
        causal_setSequence _, fun fuel => ?_⟩
    simp only [receiveBytes, receiveByte, bind_assoc, pure_bind]
    congr 1
    funext b
    split_ifs <;> rfl

theorem looping_receivePart :
    Looping (fun fuel (s : Nat × Sequence) => receivePart fuel s.1 s.2) (·.1 = 0) where
  stop := by
    rintro ⟨bytes, seq⟩ rfl
    exact ⟨pure seq, causal_pure _, fun fuel => by cases fuel <;> rfl⟩
  zero := by
    rintro ⟨bytes, seq⟩ hs
    obtain ⟨bytes, rfl⟩ := Nat.exists_eq_succ_of_ne_zero hs
    rfl
  round := by
    rintro ⟨bytes, seq⟩ hs
    obtain ⟨bytes, rfl⟩ := Nat.exists_eq_succ_of_ne_zero hs
    refine ⟨fun _ => pure ⟨⟩, fun b => (if b = seqExp then bytes + 1 else bytes, seq.pushBack b),
      fun _ => causal_pure _, fun fuel => ?_⟩
    simp only [receivePart, pure_bind]
    congr 1
    funext b
    split_ifs <;> rfl

/-! ### The handlers -/

theorem causal_reset : Causal reset := by
  unfold reset
  refine (causal_modifyImpl _).bind fun _ => causal_getImpl.bind fun impl => ?_
  cases impl.activeMessage with
  | none => exact causal_modifyImpl _
  | some message =>
    exact (causal_emit rfl).bind fun _ => (causal_emit rfl).bind fun _ =>
      (causal_modifyImpl _).bind fun _ => causal_modifyImpl _

theorem causal_setActiveState (state : Int) : Causal (setActiveState state) :=
  causal_getImpl.bind fun _ => (causal_deref _).bind fun _ => causal_setActive _

theorem causal_closeDevice : Causal closeDevice :=
  causal_getImpl.bind fun _ => .ite (causal_modifyImpl _) (causal_pure _)

theorem causal_idleSystem : Causal idleSystem :=
  causal_closeDevice.bind fun _ => causal_reset.bind fun _ => (causal_modifyImpl _).bind fun _ =>
    causal_getImpl.bind fun _ => .ite (causal_pure _) (causal_throw (by decide))

/-- Whether the device opens does not depend on the stream. -/
theorem exec_deviceOpen (w : World) (l : List Byte) : exec deviceOpen (w.on l) =
    if w.impl.deviceOpen = true then (.ok ⟨⟩, w.on l)
    else if w.env.opens = true then
      (.ok ⟨⟩, ({ w with impl := { w.impl with deviceOpen := true } } : World).on l)
    else (.error .error, w.on l) := by
  obtain ⟨impl, ⟨reads, sends, opens, reaction, response⟩, events⟩ := w
  unfold deviceOpen
  rw [exec_bind]
  show exec (if !impl.deviceOpen then _ else _) _ = _
  cases hopen : impl.deviceOpen with
  | true => rfl
  | false =>
    cases opens with
    | true => rfl
    | false => rfl

theorem causal_deviceOpen : Causal deviceOpen := by
  refine .of_offline fun w => ?_
  simp only [exec_deviceOpen]
  split_ifs
  · exact ⟨.ok ⟨⟩, w, [], nofun, (List.append_nil _).symm, rfl, fun _ => rfl⟩
  · exact ⟨.ok ⟨⟩, { w with impl := { w.impl with deviceOpen := true } }, [], nofun,
      (List.append_nil _).symm, rfl, fun _ => rfl⟩
  · exact ⟨.error .error, w, [], nofun, (List.append_nil _).symm, rfl, fun _ => rfl⟩

theorem causal_synchronize : Causal synchronize :=
  (looping_flushDevice.causal false).bind fun _ => causal_reset.bind fun _ =>
    (causal_modifyImpl _).bind fun _ => causal_pure _

theorem causal_openDevice : Causal openDevice := by
  unfold openDevice
  refine causal_getImpl.bind fun impl => .ite ?_ causal_synchronize
  refine causal_deviceOpen.bind fun _ => causal_getImpl.bind fun impl => .ite ?_ causal_synchronize
  exact (causal_modifyImpl _).bind fun _ => causal_getImpl.bind fun _ =>
    .ite (causal_pure _) (causal_pure _)

theorem causal_decodeSequence : Causal decodeSequence := by
  unfold decodeSequence
  refine causal_getImpl.bind fun impl => (causal_liftRange _).bind fun decoded => ?_
  refine (causal_setSequence _).bind fun _ => ?_
  have hrest : Causal (do
      modifyImpl fun impl =>
        { impl with
          lockCounter :=
            if impl.sequence.size = 1 ∧ impl.lockCounter < 2 then 2 else impl.lockCounter }
      setSequence {}) := (causal_modifyImpl _).bind fun _ => causal_setSequence _
  exact .ite ((causal_emit rfl).bind fun _ => hrest) hrest

theorem causal_checkMessage : Causal checkMessage :=
  (causal_modifyImpl _).bind fun _ => causal_getImpl.bind fun _ => .ite (causal_pure _) (causal_pure _)

theorem causal_handleSyn : Causal handleSyn :=
  (causal_modifyImpl _).bind fun _ => causal_getImpl.bind fun _ =>
    .ite (causal_decodeSequence.bind fun _ => causal_checkMessage) causal_checkMessage

theorem causal_monitorBus : Causal monitorBus := by
  unfold monitorBus
  refine (causal_read _ _).bind fun byte => .ite causal_handleSyn ?_
  refine causal_getImpl.bind fun _ => (causal_setSequence _).bind fun _ =>
    causal_getImpl.bind fun _ => .ite ?_ (causal_pure _)
  exact (causal_liftRange _).bind fun _ => .ite (causal_pure _) (causal_pure _)

theorem causal_receiveByte : Causal receiveByte :=
  (causal_read _ _).bind fun _ => causal_getImpl.bind fun _ => (causal_setSequence _).bind fun _ =>
    causal_pure _

theorem causal_receiveCounted (bytes : Nat) : Causal (receiveCounted bytes) :=
  looping_receiveBytes.causal bytes

theorem causal_deliverMessage (tel : Telegram) : Causal (deliverMessage tel) := by
  unfold deliverMessage
  refine .ite ?_ ((causal_setSequence _).bind fun _ => causal_pure _)
  exact .ite ((causal_emit rfl).bind fun _ => causal_pure _) (causal_pure _)

theorem causal_acknowledgeMessage : Causal acknowledgeMessage := by
  unfold acknowledgeMessage
  refine causal_getImpl.bind fun _ => (causal_liftRange _).bind fun created => ?_
  refine (causal_setSequence _).bind fun _ => (causal_liftRange _).bind fun zz => ?_
  exact .ite ((causal_writeRead _ _ _).bind fun _ => causal_deliverMessage _) (causal_deliverMessage _)

theorem causal_receiveMessage : Causal receiveMessage := by
  unfold receiveMessage
  refine causal_receiveByte.bind fun _ => causal_receiveByte.bind fun _ =>
    causal_receiveByte.bind fun _ => ?_
  refine causal_getImpl.bind fun _ => (causal_liftRange _).bind fun nn => .ite ?_ ?_
  · exact (causal_setActiveState _).bind fun _ => causal_reset.bind fun _ => causal_pure _
  · exact (causal_receiveCounted _).bind fun _ => (causal_receiveCounted _).bind fun _ =>
      causal_acknowledgeMessage

theorem causal_process (message : List Byte) : Causal (process message) := by
  unfold process
  refine causal_getImpl.bind fun impl => .ite ?_ (causal_pure _)
  refine (causal_emit rfl).bind fun _ => .of_offline fun w => ?_
  exact ⟨.ok (w.env.reaction, w.env.response), w, [], nofun, (List.append_nil _).symm, rfl,
    fun _ => rfl⟩

theorem causal_processMessage : Causal processMessage := by
  unfold processMessage
  have hquit : Causal (do
      setSequence {}
      return State.monitorBus) := (causal_setSequence _).bind fun _ => causal_pure _
  refine causal_getImpl.bind fun _ => (causal_liftRange _).bind fun created => ?_
  refine (causal_setSequence _).bind fun _ => (causal_process _).bind fun reaction => ?_
  refine .ite (.ite ?_ hquit) hquit
  refine (causal_liftRange _).bind fun answered => .ite ?_ hquit
  exact (causal_modifyImpl _).bind fun _ => causal_pure _

theorem causal_sendPart (part : List Byte) (crc : Byte) : Causal (sendPart part crc) := by
  refine Causal.bind ?_ fun _ => causal_writeRead _ _ _
  induction part with
  | nil => exact causal_pure _
  | cons b part ih => exact (causal_writeRead _ _ _).bind fun _ => ih

theorem causal_finishResponse (message : Message) (byte : Byte) :
    Causal (finishResponse message byte) :=
  (causal_modifyImpl _).bind fun _ => (causal_emit rfl).bind fun _ => causal_reset.bind fun _ =>
    causal_pure _

theorem causal_sendResponse : Causal sendResponse := by
  unfold sendResponse
  refine causal_getImpl.bind fun _ => (causal_deref _).bind fun message => ?_
  refine (causal_sendPart _ _).bind fun _ => (causal_read _ _).bind fun byte => ?_
  refine .ite ?_ (causal_finishResponse _ _)
  exact (causal_sendPart _ _).bind fun _ => (causal_read _ _).bind fun _ => causal_finishResponse _ _

theorem causal_lockBus : Causal lockBus := by
  unfold lockBus
  refine causal_getImpl.bind fun _ => (causal_deref _).bind fun message => ?_
  refine (causal_liftRange _).bind fun qq => (causal_write _).bind fun _ => ?_
  refine (causal_read _ _).bind fun byte => .ite ?_ (causal_pure _)
  exact .ite ((causal_modifyImpl _).bind fun _ => causal_pure _)
    ((causal_modifyImpl _).bind fun _ => causal_pure _)

theorem causal_sendAttempt (retry : Nat) : Causal (sendAttempt retry) := by
  unfold sendAttempt
  refine causal_getImpl.bind fun _ => (causal_deref _).bind fun message => ?_
  refine (causal_sendPart _ _).bind fun _ => .ite (causal_pure _) ?_
  refine (causal_read _ _).bind fun byte => (causal_setActive _).bind fun _ => .ite ?_ (.ite ?_ ?_)
  · exact (causal_setActive _).bind fun _ => causal_pure _
  · exact .ite (causal_pure _) (causal_pure _)
  · exact .ite ((causal_setActive _).bind fun _ => causal_pure _) (causal_pure _)

/-- A handler with two rounds. -/
theorem causal_twice {x y : EbusM (Option State)} (hx : Causal x) (hy : Causal y) : Causal (do
    match ← x with
    | some state => return state
    | none =>
      match ← y with
      | some state => return state
      | none => return State.freeBus) := by
  refine hx.bind fun next => ?_
  cases next with
  | some state => exact causal_pure _
  | none =>
    refine hy.bind fun next => ?_
    cases next with
    | some state => exact causal_pure _
    | none => exact causal_pure _

theorem causal_sendMessage : Causal sendMessage :=
  causal_twice (causal_sendAttempt 1) (causal_sendAttempt 0)

theorem causal_acknowledgeResponse (retry : Nat) (seq : Sequence) :
    Causal (acknowledgeResponse retry seq) := by
  unfold acknowledgeResponse
  refine causal_getImpl.bind fun _ => (causal_deref _).bind fun message => ?_
  refine (causal_liftRange _).bind fun created => (causal_setActive _).bind fun _ => ?_
  refine (causal_writeRead _ _ _).bind fun _ => (causal_setActive _).bind fun _ => ?_
  refine .ite (causal_pure _) ?_
  exact .ite ((causal_setActiveState _).bind fun _ => causal_pure _) (causal_pure _)

theorem causal_receiveSlave (nn : Byte) : Causal (receiveSlave nn) :=
  looping_receivePart.causal (nn.toNat + 1, ({} : Sequence).pushBack nn)

theorem causal_receiveAttempt (retry : Nat) : Causal (receiveAttempt retry) := by
  unfold receiveAttempt
  refine (causal_read _ _).bind fun nn => .ite ?_ ?_
  · exact (causal_setActiveState _).bind fun _ => causal_reset.bind fun _ => causal_pure _
  · exact (causal_receiveSlave _).bind fun _ => causal_acknowledgeResponse _ _

theorem causal_receiveResponse : Causal receiveResponse :=
  causal_getImpl.bind fun _ => (causal_deref _).bind fun _ =>
    causal_twice (causal_receiveAttempt 1) (causal_receiveAttempt 0)

theorem causal_freeBus : Causal freeBus :=
  (causal_writeRead _ _ _).bind fun _ => causal_reset.bind fun _ => causal_pure _

theorem causal_handleDeviceError (error : Bool) : Causal (handleDeviceError error) := by
  unfold handleDeviceError
  have hclose : Causal (do
      reset
      if error then
        deviceClose
        return State.openDevice
      return State.monitorBus) :=
    causal_reset.bind fun _ => .ite ((causal_modifyImpl _).bind fun _ => causal_pure _) (causal_pure _)
  refine causal_getImpl.bind fun impl => ?_
  cases impl.activeMessage with
  | none => exact hclose
  | some message => exact (causal_setActive _).bind fun _ => hclose

theorem causal_handler (state : State) : Causal (handler state) := by
  cases state with
  | idleSystem => exact causal_idleSystem
  | openDevice => exact causal_openDevice
  | monitorBus => exact causal_monitorBus
  | receiveMessage => exact causal_receiveMessage
  | processMessage => exact causal_processMessage
  | sendResponse => exact causal_sendResponse
  | lockBus => exact causal_lockBus
  | sendMessage => exact causal_sendMessage
  | receiveResponse => exact causal_receiveResponse
  | freeBus => exact causal_freeBus

/-- What `run` does with a stop. -/
theorem causal_stop {e : Stop} (he : e ≠ .starved) : Causal (match e with
    | .warning => handleDeviceError false
    | .error => handleDeviceError true
    | stop => throw stop) := by
  cases e with
  | warning => exact causal_handleDeviceError false
  | error => exact causal_handleDeviceError true
  | starved => exact absurd rfl he
  | _ => exact causal_throw (by decide)

/-- A piece whose stops are handled, except that it waits. -/
theorem Causal.tryCatch {α : Type} {x : EbusM α} {f : Stop → EbusM α} (hx : Causal x)
    (hf : ∀ e, e ≠ .starved → Causal (f e)) (hstarved : f .starved = throw .starved) :
    Causal (tryCatch x f) := by
  have hreads : ∀ e, Reads (f e) := by
    intro e
    by_cases he : e = .starved
    · rw [he, hstarved]
      exact fun w l => ⟨w, [], l, rfl, (List.append_nil _).symm, rfl⟩
    · exact (hf e he).reads
  constructor
  · intro w l
    obtain ⟨w', evs, l', hw', hevs, hl⟩ := hx.reads w l
    rw [exec_tryCatch]
    rcases hrun : exec x (w.on l) with ⟨e | a, w''⟩
    · rw [hrun] at hw'
      obtain rfl : w'' = w'.on l' := hw'
      obtain ⟨w₂, evs₂, l₂, hw₂, hevs₂, hl₂⟩ := hreads e w' l'
      refine ⟨w₂, evs ++ evs₂, l₂, hw₂, ?_, ?_⟩
      · rw [hevs₂, hevs, List.append_assoc]
      · rw [hl, hl₂, gotBytes_append, List.append_assoc]
    · rw [hrun] at hw'
      exact ⟨w', evs, l', hw', hevs, hl⟩
  · intro w l r
    cases hx.cut w l r with
    | done result w' l' hne hx hy =>
      rcases result with e | a
      · have he : e ≠ .starved := fun h => hne (by rw [h])
        cases (hf e he).cut w' l' r with
        | done result w₂ l₂ hne hx₂ hy₂ =>
          refine .done result w₂ l₂ hne ?_ ?_
          · rw [exec_tryCatch, hx]
            exact hx₂
          · rw [exec_tryCatch, hy]
            exact hy₂
        | starved w₂ hx₂ hy₂ =>
          refine .starved w₂ ?_ fun b r' hr => ?_
          · rw [exec_tryCatch, hx]
            exact hx₂
          · rw [exec_tryCatch, hy]
            exact hy₂ b r' hr
      · refine .done (.ok a) w' l' nofun ?_ ?_
        · rw [exec_tryCatch, hx]
        · rw [exec_tryCatch, hy]
    | starved w' hx hy =>
      refine .starved w' ?_ fun b r' hr => ?_
      · rw [exec_tryCatch, hx]
        show exec (f .starved) (w'.on []) = _
        rw [hstarved]
        rfl
      · obtain ⟨w₂, l₂, evs, hw₂, hevs⟩ := hy b r' hr
        rw [exec_tryCatch]
        rcases hrun : exec x (w.on (l ++ r)) with ⟨e | a, w''⟩
        · rw [hrun] at hw₂
          obtain rfl : w'' = w₂.on l₂ := hw₂
          obtain ⟨w₃, evs₃, l₃, hw₃, hevs₃, -⟩ := hreads e w₂ l₂
          refine ⟨w₃, l₃, evs ++ evs₃, hw₃, ?_⟩
          rw [hevs₃, hevs, List.append_assoc, List.cons_append]
        · rw [hrun] at hw₂
          exact ⟨w₂, l₂, evs, hw₂, hevs⟩

theorem causal_runState (state : State) : Causal (runState state) :=
  (causal_handler state).tryCatch (fun _ he => causal_stop he) rfl

end EBusFsm
