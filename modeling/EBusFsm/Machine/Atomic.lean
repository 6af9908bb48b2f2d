import EBusFsm.Lib.Reduction
import EBusFsm.Lib.Run
import EBusFsm.Machine.System

/-!
# Handlers among other threads

A step of the thread in `System` is a whole handler. Here the handlers are cut into parts (`runCode`), and other
threads may act between any two of them: `open`, `close`, the setters, `register_process`, the two steps of
`transmit`. `atomic` says that nothing is lost with whole handlers: every run in which the others act inside of handlers
ends where a run of `System` ends, with the same actions, those of each kind in their order.

A part that touches none of the members in `Shared` is not cut any further, since nobody can tell. A part that touches
some touches those of one kind of action only: `reset` reads `m_lock_counter_max`, `idleSystem` clears `m_online`, then
`m_close`, and reads the flag of `Notify`, `openDevice` sets `m_online`, `monitorBus` takes a message from the queue,
`processMessage` reads the callback. On no way through a handler two parts touch the members of one kind.

Left out: a caller that was notified returns behind the handler, and the destructor sets `m_running` between
handlers.
-/

namespace EBusFsm

open Prog

/-! ### The members that other threads touch -/

structure Shared where
  online : Bool
  close : Bool
  notify : Bool
  processing : Bool
  lockCounterMax : Int
  openCounterMax : Int
  messageQueue : List Message

/-- What the actions of other threads are about. -/
inductive Kind
  | open
  | close
  | process
  | lockCounterMax
  | openCounterMax
  | transmit
  deriving DecidableEq, Repr

/-- `none` for the actions that do not come inside of a handler. -/
def Action.kind : Action → Option Kind
  | .openCall => some .open
  | .closeCall => some .close
  | .registerProcess => some .process
  | .setLockCounterMax _ => some .lockCounterMax
  | .setOpenCounterMax _ => some .openCounterMax
  | .transmit _ | .enqueue _ => some .transmit
  | _ => none

/-- The members of a kind are those of the second. -/
def Shared.put (m : Shared) (kind : Option Kind) (m' : Shared) : Shared :=
  match kind with
  | some .open => { m with notify := m'.notify }
  | some .close => { m with close := m'.close }
  | some .process => { m with processing := m'.processing }
  | some .lockCounterMax => { m with lockCounterMax := m'.lockCounterMax }
  | some .openCounterMax => { m with openCounterMax := m'.openCounterMax }
  | some .transmit => { m with online := m'.online, messageQueue := m'.messageQueue }
  | none => m

def EbusImpl.shared (impl : EbusImpl) : Shared where
  online := impl.online
  close := impl.close
  notify := impl.notify
  processing := impl.processing
  lockCounterMax := impl.lockCounterMax
  openCounterMax := impl.openCounterMax
  messageQueue := impl.messageQueue

def EbusImpl.withShared (impl : EbusImpl) (m : Shared) : EbusImpl :=
  { impl with
    online := m.online
    close := m.close
    notify := m.notify
    processing := m.processing
    lockCounterMax := m.lockCounterMax
    openCounterMax := m.openCounterMax
    messageQueue := m.messageQueue }

def World.withShared (w : World) (m : Shared) : World := { w with impl := w.impl.withShared m }

/-- An action of another thread inside of a handler. The members of the machine are those of the world. -/
def act (a : Action) (s : World × System) : Option (World × System) :=
  match a.kind with
  | some _ =>
    (System.step { s.2 with impl := s.1.impl } a).map fun s' =>
      ({ s.1 with impl := s'.impl }, { s' with impl := s.2.impl })
  | none => none

/-- The same, by what it does to the shared members. -/
def effect (a : Action) (address : Byte) (m : Shared) (s : System) : Option (Shared × System) :=
  match a with
  | .openCall => some ({ m with notify := true }, s)
  | .closeCall => some ({ m with close := true }, s)
  | .registerProcess => some ({ m with processing := true }, s)
  | .setLockCounterMax lockCounterMax => some ({ m with lockCounterMax }, s)
  | .setOpenCounterMax openCounterMax => some ({ m with openCounterMax }, s)
  | .transmit message =>
    (System.callTransmit { s with impl := { address, slaveAddress := 0, online := m.online } } message).map
      fun s' => (m, { s' with impl := s.impl })
  | .enqueue message =>
    if message ∈ s.entering then
      some ({ m with messageQueue := m.messageQueue ++ [message] },
        { s with entering := s.entering.erase message })
    else none
  | _ => none

theorem act_eq (a : Action) (w : World) (s : System) :
    act a (w, s) =
      (effect a w.impl.address w.impl.shared s).map fun p => (w.withShared p.1, p.2) := by
  cases a
  case transmit message =>
    simp only [act, Action.kind, effect, System.step, System.callTransmit, EbusImpl.shared]
    rcases Telegram.createMasterFrom {} w.impl.address message with e | ⟨tel, seq⟩
    · rfl
    · dsimp only
      by_cases hstate : tel.masterState ≠ SEQ_OK
      · rw [if_pos hstate, if_pos hstate]
        rfl
      rw [if_neg hstate, if_neg hstate]
      by_cases hmaster : !isMaster w.impl.address
      · rw [if_pos hmaster, if_pos hmaster]
        rfl
      rw [if_neg hmaster, if_neg hmaster]
      rcases w with ⟨⟨running, _ | _, close, address, slaveAddress, lockCounterMax, lockCounter, openCounterMax,
        openCounter, messageQueue, deviceOpen, processing, sequence, active, passive, notify⟩, env, events⟩
      · rfl
      · rfl
  case enqueue message =>
    by_cases hmessage : message ∈ s.entering
    · simp only [act, Action.kind, effect, System.step, if_pos hmessage]
      rfl
    · simp only [act, Action.kind, effect, System.step, if_neg hmessage]
      rfl
  all_goals rfl

/-! ### Programs that touch the members of one kind -/

/-- The program touches the shared members of one kind only. -/
structure Near (kind : Option Kind) {α : Type} (x : EbusM α) : Prop where
  frame : ∀ w m, m.put kind w.impl.shared = m →
    exec x (w.withShared m) = ((exec x w).1, (exec x w).2.withShared (m.put kind (exec x w).2.impl.shared))
  address : ∀ w, (exec x w).2.impl.address = w.impl.address

/-- An action touches the shared members of its kind only. -/
theorem effect_near {a : Action} {address : Byte} {m m' : Shared} {s s' : System}
    (h : effect a address m s = some (m', s')) :
    m' = m.put a.kind m' ∧
      ∀ m₂ : Shared, m₂.put a.kind m = m₂ → effect a address m₂ s = some (m₂.put a.kind m', s') := by
  cases a
  case transmit message =>
    obtain ⟨s₁, hs₁, hpair⟩ := Option.map_eq_some_iff.1 h
    cases hpair
    refine ⟨rfl, fun m₂ h₂ => ?_⟩
    have honline : (m₂.put (some .transmit) m).online = m₂.online := congrArg Shared.online h₂
    change m.online = m₂.online at honline
    rw [h₂]
    simp only [effect, ← honline, hs₁, Option.map_some]
  case enqueue message =>
    simp only [effect] at h
    split_ifs at h with hmessage
    cases h
    refine ⟨rfl, fun m₂ h₂ => ?_⟩
    have honline : (m₂.put (some .transmit) m).online = m₂.online := congrArg Shared.online h₂
    have hqueue : (m₂.put (some .transmit) m).messageQueue = m₂.messageQueue := congrArg Shared.messageQueue h₂
    change m.online = m₂.online at honline
    change m.messageQueue = m₂.messageQueue at hqueue
    simp only [effect, if_pos hmessage, Action.kind, Shared.put, hqueue, honline]
  all_goals
    cases h
    try exact ⟨rfl, fun _ _ => rfl⟩

/-! ### The members of a kind -/

namespace Shared

variable {kind kind' : Option Kind} (m m' m'' : Shared)

theorem put_self : m.put kind m = m := by
  rcases kind with _ | kind
  · rfl
  · cases kind <;> rfl

theorem put_of_put : m.put kind (m'.put kind m'') = m.put kind m'' := by
  rcases kind with _ | kind
  · rfl
  · cases kind <;> rfl

theorem put_other {g : Kind} (h : kind ≠ some g) : m.put (some g) (m.put kind m') = m := by
  rcases kind with _ | kind
  · exact m.put_self
  · cases g <;> cases kind <;> first | rfl | exact absurd rfl h

theorem put_comm {g : Kind} (h : kind ≠ some g) :
    (m.put (some g) m').put kind m'' = (m.put kind m'').put (some g) m' := by
  rcases kind with _ | kind
  · rfl
  · cases g <;> cases kind <;> first | rfl | exact absurd rfl h

end Shared

theorem withShared_self (w : World) : w.withShared w.impl.shared = w := rfl

theorem Near.shared {kind : Option Kind} {α : Type} {x : EbusM α} (h : Near kind x) (w : World) :
    w.impl.shared.put kind (exec x w).2.impl.shared = (exec x w).2.impl.shared := by
  have hframe := h.frame w w.impl.shared (w.impl.shared.put_self)
  rw [withShared_self] at hframe
  exact congrArg (fun p => p.2.impl.shared) hframe.symm

theorem act_some {a : Action} {w w' : World} {s s' : System} (h : act a (w, s) = some (w', s')) :
    ∃ g m, a.kind = some g ∧ effect a w.impl.address w.impl.shared s = some (m, s') ∧ w' = w.withShared m := by
  obtain ⟨g, hg⟩ : ∃ g, a.kind = some g := by
    rcases hkind : a.kind with _ | g
    · simp [act, hkind] at h
    · exact ⟨g, rfl⟩
  rw [act_eq] at h
  obtain ⟨⟨m, s₁⟩, heffect, hpair⟩ := Option.map_eq_some_iff.1 h
  cases hpair
  exact ⟨g, m, hg, heffect, rfl⟩

theorem act_of_effect {a : Action} {w : World} {s s' : System} {m : Shared}
    (h : effect a w.impl.address w.impl.shared s = some (m, s')) : act a (w, s) = some (w.withShared m, s') := by
  rw [act_eq, h]
  rfl

/-- Actions of other kinds may come before or behind. -/
theorem Near.movable {kind : Option Kind} {α : Type} {x : EbusM α} (h : Near kind x) :
    Movable act Action.kind x fun _ g => g = kind ∧ g ≠ none := by
  constructor
  · intro a w w' s s' ha hkind
    obtain ⟨g, m, hg, heffect, rfl⟩ := act_some ha
    have hne : kind ≠ some g := fun hk => hkind ⟨hg.trans hk.symm, by simp [hg]⟩
    obtain ⟨hm, hsame⟩ := effect_near heffect
    rw [hg] at hm hsame
    have hshared := h.shared w
    have hput : m.put kind w.impl.shared = m := by
      rw [hm, Shared.put_comm _ _ _ hne, Shared.put_self]
    have hown : (exec x w).2.impl.shared.put (some g) w.impl.shared = (exec x w).2.impl.shared := by
      rw [← hshared, ← Shared.put_comm _ _ _ hne, Shared.put_self]
    have hresult : (exec x w).2.impl.shared.put (some g) m = m.put kind (exec x w).2.impl.shared := by
      conv_lhs => rw [← hshared]
      rw [← Shared.put_comm _ _ _ hne, ← hm]
    rw [h.frame w m hput]
    refine ⟨rfl, ?_⟩
    rw [← hresult]
    refine act_of_effect ?_
    rw [h.address w]
    exact hsame _ hown
  · intro a w t s s' ha hkind
    obtain ⟨g, m, hg, heffect, rfl⟩ := act_some ha
    have hne : kind ≠ some g := fun hk => hkind ⟨hg.trans hk.symm, by simp [hg]⟩
    obtain ⟨hm, hsame⟩ := effect_near heffect
    rw [hg] at hm hsame
    have hshared := h.shared w
    have hown : w.impl.shared.put (some g) (exec x w).2.impl.shared = w.impl.shared := by
      rw [← hshared]
      exact Shared.put_other _ _ hne
    have hput : (w.impl.shared.put (some g) m).put kind w.impl.shared = w.impl.shared.put (some g) m := by
      rw [Shared.put_comm _ _ _ hne, Shared.put_self]
    have hresult : (w.impl.shared.put (some g) m).put kind (exec x w).2.impl.shared = m := by
      rw [Shared.put_comm _ _ _ hne, hshared, ← hm]
    rw [h.address w] at heffect hsame
    refine ⟨_, act_of_effect (hsame _ hown), ?_⟩
    rw [h.frame w _ hput, hresult]

/-- The program of an action that sets a member. -/
def setting (g : Kind) (m : Shared) : EbusM PUnit :=
  modifyImpl fun impl => impl.withShared (impl.shared.put (some g) m)

theorem near_setting (g : Kind) (m : Shared) : Near (some g) (setting g m) where
  frame w m' _ := by
    refine Prod.ext rfl ?_
    show World.withShared w (m'.put (some g) m) =
      World.withShared w (m'.put (some g) (w.impl.shared.put (some g) m))
    rw [Shared.put_of_put]
  address _ := rfl

/-- Every action but those of `transmit` sets a member. -/
theorem exists_setting {a : Action} {g : Kind} (h : a.kind = some g) (hg : g ≠ .transmit) :
    ∃ m, ∀ w s, act a (w, s) = some ((exec (setting g m) w).2, s) := by
  cases a <;> cases h
  case openCall => exact ⟨⟨true, true, true, true, 0, 0, []⟩, fun _ _ => rfl⟩
  case closeCall => exact ⟨⟨true, true, true, true, 0, 0, []⟩, fun _ _ => rfl⟩
  case registerProcess => exact ⟨⟨true, true, true, true, 0, 0, []⟩, fun _ _ => rfl⟩
  case setLockCounterMax value => exact ⟨⟨true, true, true, true, value, 0, []⟩, fun _ _ => rfl⟩
  case setOpenCounterMax value => exact ⟨⟨true, true, true, true, 0, value, []⟩, fun _ _ => rfl⟩
  all_goals exact absurd rfl hg

/-- One of two actions of different kinds sets a member, and the other may come before or behind it. -/
theorem commuting : Commuting act Action.kind := by
  rintro a b hkind ⟨w, s⟩ ⟨t₁, t₂⟩ h
  obtain ⟨⟨w', s'⟩, ha, hb⟩ := Option.bind_eq_some_iff.1 h
  obtain ⟨g, -, hga, -, -⟩ := act_some ha
  obtain ⟨g', -, hgb, -, -⟩ := act_some hb
  have hne : g ≠ g' := fun h => hkind (by rw [hga, hgb, h])
  by_cases hg : g = .transmit
  · obtain ⟨m, hm⟩ := exists_setting hgb (fun h => hne (hg.trans h.symm))
    obtain ⟨-, hlater⟩ := (near_setting g' m).movable.later ha fun hC => hkind (hC.1.trans hgb.symm)
    rw [hm] at hb
    rw [hm]
    exact hlater.trans hb
  · obtain ⟨m, hm⟩ := exists_setting hga hg
    rw [hm] at ha
    cases ha
    obtain ⟨w₁, hw₁, hexec⟩ := (near_setting g m).movable.sooner hb fun hC => hkind (hga.trans hC.1.symm)
    refine Option.bind_eq_some_iff.2 ⟨(w₁, t₂), hw₁, ?_⟩
    rw [hm, hexec]

/-! ### Programs that touch no shared member -/

/-- The program touches no shared member. -/
abbrev Local {α : Type} (x : EbusM α) : Prop := Near none x

namespace Local

variable {α β : Type} {x y : EbusM α}

theorem of_frame (h : ∀ w m, exec x (w.withShared m) = ((exec x w).1, (exec x w).2.withShared m))
    (haddress : ∀ w, (exec x w).2.impl.address = w.impl.address) : Local x := ⟨fun w m _ => h w m, haddress⟩

theorem pure (a : α) : Local (Pure.pure a : EbusM α) := .of_frame (fun _ _ => rfl) fun _ => rfl

theorem throw (e : Stop) : Local (MonadExcept.throw e : EbusM α) := .of_frame (fun _ _ => rfl) fun _ => rfl

theorem bind {f : α → EbusM β} (hx : Local x) (hf : ∀ a, Local (f a)) : Local (x >>= f) := by
  refine .of_frame (fun w m => ?_) fun w => ?_
  · have hframe := hx.frame w m rfl
    rcases hxw : exec x w with ⟨e | a, w'⟩
    · rw [hxw] at hframe
      rw [exec_bind_error hframe, exec_bind_error hxw]
      rfl
    · rw [hxw] at hframe
      rw [exec_bind_ok hframe, exec_bind_ok hxw]
      exact (hf a).frame w' m rfl
  · have haddress := hx.address w
    rcases hxw : exec x w with ⟨e | a, w'⟩
    · rw [hxw] at haddress
      rw [exec_bind_error hxw]
      exact haddress
    · rw [hxw] at haddress
      rw [exec_bind_ok hxw]
      exact ((hf a).address w').trans haddress

/-- The members that are read are not shared. -/
theorem getImpl {f : EbusImpl → EbusM β} (hread : ∀ impl m, f (EbusImpl.withShared impl m) = f impl)
    (hf : ∀ impl, Local (f impl)) : Local (EBusFsm.getImpl >>= f) := by
  refine .of_frame (fun w m => ?_) fun w => (hf w.impl).address w
  show exec (f (w.impl.withShared m)) (w.withShared m) = _
  rw [hread]
  exact (hf w.impl).frame w m rfl

/-- Of the world, what is not among the members. -/
theorem get {f : World → EbusM β} (hread : ∀ w m, f (World.withShared w m) = f w) (hf : ∀ w, Local (f w)) :
    Local (MonadState.get >>= f) := by
  refine .of_frame (fun w m => ?_) fun w => (hf w).address w
  show exec (f (w.withShared m)) (w.withShared m) = _
  rw [hread]
  exact (hf w).frame w m rfl

theorem modifyImpl {f : EbusImpl → EbusImpl} (hf : ∀ impl m, f (EbusImpl.withShared impl m) = (f impl).withShared m)
    (haddress : ∀ impl, (f impl).address = impl.address) : Local (EBusFsm.modifyImpl f) :=
  .of_frame (fun w m => Prod.ext rfl (congrArg (fun impl => { w with impl }) (hf w.impl m))) fun w => haddress w.impl

theorem ite {p : Prop} [Decidable p] (hx : Local x) (hy : Local y) : Local (if p then x else y) := by
  split_ifs
  · exact hx
  · exact hy

theorem emit (e : Event) : Local (EBusFsm.emit e) := .of_frame (fun _ _ => rfl) fun _ => rfl

theorem liftRange (x : Except OutOfRange α) : Local (EBusFsm.liftRange x) := by
  cases x with
  | ok a => exact .pure a
  | error e => exact .throw _

theorem deref (message : Option Message) : Local (EBusFsm.deref message) := by
  cases message with
  | none => exact .throw _
  | some message => exact .pure message

theorem setSequence (seq : Sequence) : Local (EBusFsm.setSequence seq) := .modifyImpl (fun _ _ => rfl) fun _ => rfl

theorem setActive (message : Message) : Local (EBusFsm.setActive message) := .modifyImpl (fun _ _ => rfl) fun _ => rfl

theorem publish (message response : List Byte) : Local (EBusFsm.publish message response) := .emit _

/-! #### The device -/

theorem deviceClose : Local EBusFsm.deviceClose := .modifyImpl (fun _ _ => rfl) fun _ => rfl

theorem deviceOpen : Local EBusFsm.deviceOpen := by
  refine .getImpl (fun _ _ => rfl) fun impl => .ite ?_ (.pure _)
  refine .get (fun _ _ => rfl) fun w => .ite (.bind (.throw _) fun _ => ?_) ?_
  all_goals exact .modifyImpl (fun _ _ => rfl) fun _ => rfl

theorem deviceSend (byte : Byte) : Local (EBusFsm.deviceSend byte) := by
  constructor
  · rintro ⟨impl, ⟨reads, _ | ⟨_ | _ | _, sends⟩, opens, reaction, response⟩, events⟩ m - <;> rfl
  · rintro ⟨impl, ⟨reads, _ | ⟨_ | _ | _, sends⟩, opens, reaction, response⟩, events⟩ <;> rfl

theorem deviceRecv (sec nsec : Nat) : Local (EBusFsm.deviceRecv sec nsec) := by
  unfold EBusFsm.deviceRecv
  by_cases h : sec > 0 ∨ nsec > 0
  · simp only [if_pos h]
    constructor
    · rintro ⟨impl, ⟨_ | ⟨_ | _, reads⟩, sends, opens, reaction, response⟩, events⟩ m - <;> rfl
    · rintro ⟨impl, ⟨_ | ⟨_ | _, reads⟩, sends, opens, reaction, response⟩, events⟩ <;> rfl
  · simp only [if_neg h]
    constructor
    · rintro ⟨impl, ⟨_ | ⟨_ | _, reads⟩, sends, opens, reaction, response⟩, events⟩ m - <;> rfl
    · rintro ⟨impl, ⟨_ | ⟨_ | _, reads⟩, sends, opens, reaction, response⟩, events⟩ <;> rfl

theorem read (sec nsec : Nat) : Local (EBusFsm.read sec nsec) :=
  .bind (.deviceRecv sec nsec) fun byte => .bind (.emit _) fun _ => .pure byte

theorem write (byte : Byte) : Local (EBusFsm.write byte) := .deviceSend byte

theorem writeRead (byte : Byte) (sec nsec : Nat) : Local (EBusFsm.writeRead byte sec nsec) :=
  .bind (.write byte) fun _ => .bind (.read sec nsec) fun _ => .pure _

theorem closeDevice : Local EBusFsm.closeDevice :=
  .getImpl (fun _ _ => rfl) fun _ => .ite .deviceClose (.pure _)

/-! #### The passive side -/

theorem flushDevice (fuel : Nat) : Local (EBusFsm.flushDevice fuel) := by
  induction fuel with
  | zero => exact .throw _
  | succ fuel ih => exact .bind (.read 1 0) fun _ => .ite ih (.pure _)

theorem flush : Local EBusFsm.flush := .get (fun _ _ => rfl) fun _ => .flushDevice _

theorem countLock : Local EBusFsm.countLock := .modifyImpl (fun _ _ => rfl) fun _ => rfl

theorem decodeSequence : Local EBusFsm.decodeSequence := by
  refine .getImpl (fun _ _ => rfl) fun impl => .bind (.liftRange _) fun ⟨tel, seq⟩ => ?_
  refine .bind (.setSequence seq) fun _ => ?_
  have hrest : Local (do
      EBusFsm.modifyImpl fun impl =>
        { impl with
          lockCounter :=
            if impl.sequence.size = 1 ∧ impl.lockCounter < 2 then 2 else impl.lockCounter }
      EBusFsm.setSequence {}) :=
    .bind (.modifyImpl (fun _ _ => rfl) fun _ => rfl) fun _ => .setSequence {}
  exact .ite (.bind (.publish _ _) fun _ => hrest) hrest

theorem receiveByte : Local EBusFsm.receiveByte :=
  .bind (.read 1 0) fun byte => .getImpl (fun _ _ => rfl) fun _ => .bind (.setSequence _) fun _ => .pure byte

theorem receiveBytes (fuel bytes : Nat) : Local (EBusFsm.receiveBytes fuel bytes) := by
  induction fuel generalizing bytes with
  | zero =>
    cases bytes with
    | zero => exact .pure _
    | succ bytes => exact .throw _
  | succ fuel ih =>
    cases bytes with
    | zero => exact .pure _
    | succ bytes => exact .bind .receiveByte fun _ => .ite (ih _) (ih _)

theorem receiveCounted (bytes : Nat) : Local (EBusFsm.receiveCounted bytes) :=
  .get (fun _ _ => rfl) fun _ => .receiveBytes _ bytes

theorem deliverMessage (tel : Telegram) : Local (EBusFsm.deliverMessage tel) := by
  refine .ite (.ite (.bind (.publish _ _) fun _ => .pure _) (.pure _)) (.bind (.setSequence {}) fun _ => .pure _)

theorem acknowledgeMessage : Local EBusFsm.acknowledgeMessage := by
  refine .getImpl (fun _ _ => rfl) fun impl => .bind (.liftRange _) fun ⟨tel, seq⟩ => ?_
  refine .bind (.setSequence seq) fun _ => .bind (.liftRange _) fun zz => ?_
  exact .ite (.bind (.writeRead _ 0 0) fun _ => .deliverMessage tel) (.deliverMessage tel)

theorem forM (l : List Byte) {f : Byte → EbusM PUnit} (hf : ∀ b, Local (f b)) : Local (l.forM f) := by
  induction l with
  | nil => exact .pure _
  | cons b l ih => exact .bind (hf b) fun _ => ih

theorem sendPart (part : List Byte) (crc : Byte) : Local (EBusFsm.sendPart part crc) :=
  .bind (.forM part fun _ => .writeRead _ 0 0) fun _ => .writeRead crc 0 0

/-! #### The active side -/

theorem setActiveState (state : Int) : Local (EBusFsm.setActiveState state) :=
  .getImpl (fun _ _ => rfl) fun _ => .bind (.deref _) fun _ => .setActive _

theorem sendAttempt (retry : Nat) : Local (EBusFsm.sendAttempt retry) := by
  refine .getImpl (fun _ _ => rfl) fun impl => .bind (.deref _) fun message => ?_
  refine .bind (.sendPart _ _) fun _ => .ite (.pure _) (.bind (.read 0 10000) fun byte => ?_)
  refine .bind (.setActive _) fun _ => .ite (.bind (.setActive _) fun _ => .pure _) ?_
  refine .ite (.ite (.pure _) (.pure _)) (.ite ?_ (.pure _))
  exact .bind (.setActive _) fun _ => .pure _

theorem sendMessage : Local EBusFsm.sendMessage := by
  refine .bind (.sendAttempt 1) fun state => ?_
  cases state with
  | some state => exact .pure _
  | none =>
    refine .bind (.sendAttempt 0) fun state => ?_
    cases state <;> exact .pure _

theorem receivePart (fuel bytes : Nat) (seq : Sequence) : Local (EBusFsm.receivePart fuel bytes seq) := by
  induction fuel generalizing bytes seq with
  | zero =>
    cases bytes with
    | zero => exact .pure _
    | succ bytes => exact .throw _
  | succ fuel ih =>
    cases bytes with
    | zero => exact .pure _
    | succ bytes => exact .bind (.read 1 0) fun _ => .ite (ih _ _) (ih _ _)

theorem receiveSlave (nn : Byte) : Local (EBusFsm.receiveSlave nn) := .get (fun _ _ => rfl) fun _ => .receivePart _ _ _

theorem acknowledgeResponse (retry : Nat) (seq : Sequence) : Local (EBusFsm.acknowledgeResponse retry seq) := by
  refine .getImpl (fun _ _ => rfl) fun impl => .bind (.deref _) fun message => ?_
  refine .bind (.liftRange _) fun ⟨tel, _⟩ => .bind (.setActive _) fun _ => ?_
  refine .bind (.writeRead _ 0 0) fun _ => .bind (.setActive _) fun _ => .ite (.pure _) (.ite ?_ (.pure _))
  exact .bind (.setActiveState _) fun _ => .pure _

end Local

/-! ### The parts of the handlers -/

/-- `reset` where it reads `m_lock_counter_max`. -/
def resetCounters : EbusM PUnit :=
  modifyImpl fun impl => { impl with openCounter := 0, lockCounter := impl.lockCounterMax, sequence := {} }

/-- The rest of `reset`. -/
def resetMessages : EbusM PUnit := do
  match (← getImpl).activeMessage with
  | none => pure ()
  | some message =>
    publish message.telegram.master.seq message.telegram.slave.seq
    emit (.notified message)
    modifyImpl fun impl => { impl with activeMessage := none }
  modifyImpl fun impl => { impl with passiveMessage := none }

def setOnline (online : Bool) : EbusM PUnit := modifyImpl fun impl => { impl with online }

def clearClose : EbusM PUnit := modifyImpl fun impl => { impl with close := false }

/-- `wait()` in `idleSystem`. -/
def waitOpen : EbusM State := do
  if (← getImpl).notify then return .openDevice
  throw .blocked

/-- `openDevice` up to the test of the counter; whether the device is still closed. -/
def tryOpen : EbusM Bool := do
  if !(← getImpl).deviceOpen then
    deviceOpen
    if !(← getImpl).deviceOpen then
      modifyImpl fun impl => { impl with openCounter := impl.openCounter + 1 }
      return true
  return false

/-- The test of the counter. -/
def testCounter : EbusM State := do
  let impl ← getImpl
  if impl.openCounter > impl.openCounterMax then return .idleSystem
  return .openDevice

/-- `monitorBus` behind a synchronization byte, up to the queue. -/
def decodeSyn : EbusM PUnit := do
  countLock
  if (← getImpl).sequence.size ≠ 0 then decodeSequence

/-- `monitorBus` behind the queue. -/
def chooseState : EbusM State := do
  let impl ← getImpl
  if impl.activeMessage.isSome ∧ impl.lockCounter = 0 then return .lockBus
  return .monitorBus

/-- `monitorBus` behind any other byte. -/
def collect (byte : Byte) : EbusM State := do
  setSequence ((← getImpl).sequence.pushBack byte)
  let impl ← getImpl
  if impl.sequence.size = 2 then
    let zz ← liftRange (impl.sequence.byteAt 1)
    if zz = seqBroad ∨ zz = impl.address ∨ zz = impl.slaveAddress then return .receiveMessage
  return .monitorBus

/-- `receiveMessage` up to the number of data bytes. -/
def receiveHead : EbusM Byte := do
  let _ ← receiveByte
  let _ ← receiveByte
  let _ ← receiveByte
  liftRange ((← getImpl).sequence.byteAt 4)

def receiveRest (nn : Byte) : EbusM State := do
  receiveCounted nn.toNat
  receiveCounted 1
  acknowledgeMessage

/-- `processMessage` up to the callback. -/
def decodeMaster : EbusM Telegram := do
  let (tel, seq) ← liftRange (({} : Telegram).createMaster (← getImpl).sequence)
  setSequence seq
  return tel

/-- `processMessage` behind the callback. -/
def react (tel : Telegram) (reaction : Reaction) (response : List Byte) : EbusM State := do
  if reaction = .response then
    if tel.type = .MS then
      let (tel, _) ← liftRange (tel.createSlaveFrom response)
      if tel.slaveState = SEQ_OK then
        modifyImpl fun impl => { impl with passiveMessage := some { id := 0, telegram := tel } }
        return .sendResponse
  setSequence {}
  return .monitorBus

/-- `sendResponse` up to the acknowledge byte that counts. -/
def sendSlave : EbusM (Message × Byte) := do
  let message ← deref (← getImpl).passiveMessage
  let tel := message.telegram
  sendPart tel.slave.seq tel.slaveCRC
  let byte ← read 0 10000
  if byte = seqNak then
    sendPart tel.slave.seq tel.slaveCRC
    return (message, ← read 0 10000)
  else return (message, byte)

def publishPassive (message : Message) (byte : Byte) : EbusM PUnit := do
  let tel := message.telegram.setMasterACK byte
  modifyImpl fun impl => { impl with passiveMessage := some { message with telegram := tel } }
  publish tel.master.seq tel.slave.seq

/-- `lockBus` up to the byte that is read back. -/
def arbitrate : EbusM (Byte × Byte) := do
  let message ← deref (← getImpl).activeMessage
  let qq ← liftRange message.telegram.getMasterQQ
  write qq
  return (qq, ← read 0 10000)

def setLockCounter : EbusM PUnit := modifyImpl fun impl => { impl with lockCounter := impl.lockCounterMax }

/-- A round of `receiveResponse` behind the number of data bytes. -/
def receiveRound (retry : Nat) (nn : Byte) : EbusM (Option State) := do
  let seq ← receiveSlave nn
  acknowledgeResponse retry seq

/-- `handleDeviceError` up to `reset`. -/
def failActive : EbusM PUnit := do
  match (← getImpl).activeMessage with
  | none => pure ()
  | some message => setActive { message with state := EBUS_ERR_DEVICE }

/-! #### What the parts touch -/

namespace Local

theorem resetMessages : Local EBusFsm.resetMessages := by
  refine .getImpl (fun _ _ => rfl) fun impl => ?_
  cases impl.activeMessage with
  | none => exact .modifyImpl (fun _ _ => rfl) fun _ => rfl
  | some message =>
    refine .bind (.publish _ _) fun _ => .bind (.emit _) fun _ => .bind ?_ fun _ => ?_
    all_goals exact .modifyImpl (fun _ _ => rfl) fun _ => rfl

theorem tryOpen : Local EBusFsm.tryOpen := by
  refine .getImpl (fun _ _ => rfl) fun _ => .ite (.bind .deviceOpen fun _ => ?_) (.pure _)
  refine .getImpl (fun _ _ => rfl) fun _ => .ite (.bind ?_ fun _ => .pure _) (.pure _)
  exact .modifyImpl (fun _ _ => rfl) fun _ => rfl

theorem decodeSyn : Local EBusFsm.decodeSyn :=
  .bind .countLock fun _ => .getImpl (fun _ _ => rfl) fun _ => .ite .decodeSequence (.pure _)

theorem chooseState : Local EBusFsm.chooseState :=
  .getImpl (fun _ _ => rfl) fun _ => .ite (.pure _) (.pure _)

theorem collect (byte : Byte) : Local (EBusFsm.collect byte) := by
  refine .getImpl (fun _ _ => rfl) fun _ => .bind (.setSequence _) fun _ => .getImpl (fun _ _ => rfl) fun _ => ?_
  exact .ite (.bind (.liftRange _) fun _ => .ite (.pure _) (.pure _)) (.pure _)

theorem receiveHead : Local EBusFsm.receiveHead := by
  refine .bind .receiveByte fun _ => .bind .receiveByte fun _ => .bind .receiveByte fun _ => ?_
  exact .getImpl (fun _ _ => rfl) fun _ => .liftRange _

theorem receiveRest (nn : Byte) : Local (EBusFsm.receiveRest nn) :=
  .bind (.receiveCounted _) fun _ => .bind (.receiveCounted _) fun _ => .acknowledgeMessage

theorem decodeMaster : Local EBusFsm.decodeMaster :=
  .getImpl (fun _ _ => rfl) fun _ => .bind (.liftRange _) fun ⟨_, _⟩ => .bind (.setSequence _) fun _ => .pure _

theorem react (tel : Telegram) (reaction : Reaction) (response : List Byte) :
    Local (EBusFsm.react tel reaction response) := by
  have hrest : Local (do
      EBusFsm.setSequence {}
      return State.monitorBus) := .bind (.setSequence {}) fun _ => .pure _
  refine .ite (.ite (.bind (.liftRange _) fun ⟨tel, _⟩ => .ite (.bind ?_ fun _ => .pure _) hrest) hrest) hrest
  exact .modifyImpl (fun _ _ => rfl) fun _ => rfl

theorem sendSlave : Local EBusFsm.sendSlave := by
  refine .getImpl (fun _ _ => rfl) fun _ => .bind (.deref _) fun message => .bind (.sendPart _ _) fun _ => ?_
  refine .bind (.read 0 10000) fun byte => .ite (.bind (.sendPart _ _) fun _ => ?_) (.pure _)
  exact .bind (.read 0 10000) fun _ => .pure _

theorem publishPassive (message : Message) (byte : Byte) : Local (EBusFsm.publishPassive message byte) :=
  .bind (.modifyImpl (fun _ _ => rfl) fun _ => rfl) fun _ => .publish _ _

theorem arbitrate : Local EBusFsm.arbitrate := by
  refine .getImpl (fun _ _ => rfl) fun _ => .bind (.deref _) fun _ => .bind (.liftRange _) fun _ => ?_
  exact .bind (.write _) fun _ => .bind (.read 0 10000) fun _ => .pure _

theorem receiveRound (retry : Nat) (nn : Byte) : Local (EBusFsm.receiveRound retry nn) :=
  .bind (.receiveSlave nn) fun _ => .acknowledgeResponse retry _

theorem failActive : Local EBusFsm.failActive := by
  refine .getImpl (fun _ _ => rfl) fun impl => ?_
  cases impl.activeMessage with
  | none => exact .pure _
  | some message => exact .setActive _

end Local

theorem near_resetCounters : Near (some .lockCounterMax) resetCounters := by
  refine ⟨fun w m h => ?_, fun w => rfl⟩
  obtain ⟨online, close, notify, processing, lockCounterMax, openCounterMax, messageQueue⟩ := m
  cases h
  rfl

theorem near_setLockCounter : Near (some .lockCounterMax) setLockCounter := by
  refine ⟨fun w m h => ?_, fun w => rfl⟩
  obtain ⟨online, close, notify, processing, lockCounterMax, openCounterMax, messageQueue⟩ := m
  cases h
  rfl

theorem near_setOnline (online : Bool) : Near (some .transmit) (setOnline online) := by
  refine ⟨fun w m h => ?_, fun w => rfl⟩
  obtain ⟨online, close, notify, processing, lockCounterMax, openCounterMax, messageQueue⟩ := m
  cases h
  rfl

theorem near_clearClose : Near (some .close) clearClose := by
  refine ⟨fun w m h => ?_, fun w => rfl⟩
  obtain ⟨online, close, notify, processing, lockCounterMax, openCounterMax, messageQueue⟩ := m
  cases h
  rfl

theorem exec_waitOpen (w : World) :
    exec waitOpen w = (if w.impl.notify then .ok .openDevice else .error .blocked, w) := by
  obtain ⟨⟨running, online, close, address, slaveAddress, lockCounterMax, lockCounter, openCounterMax, openCounter,
    messageQueue, deviceOpen, processing, sequence, active, passive, _ | _⟩, env, events⟩ := w
  all_goals rfl

theorem near_waitOpen : Near (some .open) waitOpen := by
  refine ⟨fun w m h => ?_, fun w => by rw [exec_waitOpen]⟩
  obtain ⟨online, close, notify, processing, lockCounterMax, openCounterMax, messageQueue⟩ := m
  cases h
  rw [exec_waitOpen, exec_waitOpen]
  rfl

theorem exec_testCounter (w : World) :
    exec testCounter w =
      (.ok (if w.impl.openCounter > w.impl.openCounterMax then .idleSystem else .openDevice), w) := by
  show exec (if w.impl.openCounter > w.impl.openCounterMax then pure State.idleSystem else pure State.openDevice) w = _
  split_ifs <;> rfl

theorem near_testCounter : Near (some .openCounterMax) testCounter := by
  refine ⟨fun w m h => ?_, fun w => by rw [exec_testCounter]⟩
  obtain ⟨online, close, notify, processing, lockCounterMax, openCounterMax, messageQueue⟩ := m
  cases h
  rw [exec_testCounter, exec_testCounter]
  rfl

theorem near_process (message : List Byte) : Near (some .process) (process message) := by
  refine ⟨fun w m h => ?_, fun w => ?_⟩
  · obtain ⟨online, close, notify, processing, lockCounterMax, openCounterMax, messageQueue⟩ := m
    cases h
    obtain ⟨⟨running, online, close, address, slaveAddress, lockCounterMax, lockCounter, openCounterMax, openCounter,
      messageQueue, deviceOpen, _ | _, sequence, active, passive, notify⟩, env, events⟩ := w
    all_goals rfl
  · obtain ⟨⟨running, online, close, address, slaveAddress, lockCounterMax, lockCounter, openCounterMax, openCounter,
      messageQueue, deviceOpen, _ | _, sequence, active, passive, notify⟩, env, events⟩ := w
    all_goals rfl

theorem near_dequeueMessage : Near (some .transmit) dequeueMessage := by
  refine ⟨fun w m h => ?_, fun w => ?_⟩
  · obtain ⟨online, close, notify, processing, lockCounterMax, openCounterMax, messageQueue⟩ := m
    cases h
    obtain ⟨⟨running, online, close, address, slaveAddress, lockCounterMax, lockCounter, openCounterMax, openCounter,
      _ | ⟨message, messageQueue⟩, deviceOpen, processing, sequence, _ | active, passive, notify⟩, env, events⟩ := w
    all_goals rfl
  · obtain ⟨⟨running, online, close, address, slaveAddress, lockCounterMax, lockCounter, openCounterMax, openCounter,
      _ | ⟨message, messageQueue⟩, deviceOpen, processing, sequence, _ | active, passive, notify⟩, env, events⟩ := w
    all_goals rfl

abbrev EbusCode (α : Type) := Code Stop World α

namespace EbusCode

variable {α β : Type}

/-- One part, and what comes behind it. -/
def next (x : EbusM β) (c : β → EbusCode α) : EbusCode α := .bind (.part x) c

/-- `reset`, and what comes behind it. -/
def reset (c : EbusCode α) : EbusCode α := next resetCounters fun _ => next resetMessages fun _ => c

def idleSystem : EbusCode State :=
  next EBusFsm.closeDevice fun _ => reset (next (setOnline false) fun _ => next clearClose fun _ => .part waitOpen)

def openDevice : EbusCode State :=
  next tryOpen fun closed =>
    if closed then .part testCounter
    else next flush fun _ => reset (next (setOnline true) fun _ => .part (pure .monitorBus))

def monitorBus : EbusCode State :=
  next (read 1 0) fun byte =>
    if byte = seqSyn then next decodeSyn fun _ => next dequeueMessage fun _ => .part chooseState
    else .part (collect byte)

def receiveMessage : EbusCode State :=
  next receiveHead fun nn =>
    if nn.toNat > seqMaxBytes then
      next (setActiveState EBUS_ERR_TRANSMIT) fun _ => reset (.part (pure .monitorBus))
    else .part (receiveRest nn)

def processMessage : EbusCode State :=
  next decodeMaster fun tel =>
    next (process tel.master.seq) fun (reaction, response) => .part (react tel reaction response)

def sendResponse : EbusCode State :=
  next sendSlave fun (message, byte) =>
    next (publishPassive message byte) fun _ => reset (.part (pure .monitorBus))

def lockBus : EbusCode State :=
  next arbitrate fun (qq, byte) =>
    if byte ≠ qq then
      if byte &&& 0x0f ≠ qq &&& 0x0f then next setLockCounter fun _ => .part (pure .monitorBus)
      else next (modifyImpl fun impl => { impl with lockCounter := 1 }) fun _ => .part (pure .monitorBus)
    else .part (pure .sendMessage)

/-- A round of the loop in `receiveResponse`, and what comes behind it. -/
def receiveAttempt (retry : Nat) (c : EbusCode State) : EbusCode State :=
  next (read 1 0) fun nn =>
    if nn.toNat > seqMaxBytes then
      next (setActiveState EBUS_ERR_TRANSMIT) fun _ => reset (.part (pure .monitorBus))
    else
      next (receiveRound retry nn) fun state =>
        match state with
        | some state => .part (pure state)
        | none => c

def receiveResponse : EbusCode State :=
  next (do deref (← getImpl).activeMessage) fun _ => receiveAttempt 1 (receiveAttempt 0 (.part (pure .freeBus)))

def freeBus : EbusCode State := next (writeRead seqSyn 0 0) fun _ => reset (.part (pure .monitorBus))

def handleDeviceError (error : Bool) : EbusCode State :=
  next failActive fun _ =>
    reset (if error then next deviceClose fun _ => .part (pure .openDevice) else .part (pure .monitorBus))

def handler : State → EbusCode State
  | .idleSystem => idleSystem
  | .openDevice => openDevice
  | .monitorBus => monitorBus
  | .receiveMessage => receiveMessage
  | .processMessage => processMessage
  | .sendResponse => sendResponse
  | .lockBus => lockBus
  | .sendMessage => .part sendMessage
  | .receiveResponse => receiveResponse
  | .freeBus => freeBus

def runState (state : State) : EbusCode State :=
  .tryCatch (handler state) fun stop =>
    match stop with
    | .warning => handleDeviceError false
    | .error => handleDeviceError true
    | stop => .part (throw stop)

/-! #### The parts make up the handlers -/

theorem prog_next (x : EbusM β) (c : β → EbusCode α) : (next x c).prog = x >>= fun b => (c b).prog := rfl

theorem prog_reset (c : EbusCode α) : (reset c).prog = EBusFsm.reset >>= fun _ => c.prog := by
  show (resetCounters >>= fun _ => resetMessages >>= fun _ => c.prog) = _
  rw [← bind_assoc]
  rfl

theorem prog_idleSystem : idleSystem.prog = EBusFsm.idleSystem := by
  unfold idleSystem
  rw [prog_next]
  simp only [prog_reset]
  rfl

theorem prog_openDevice : openDevice.prog = EBusFsm.openDevice := by
  have hsync : (next flush fun _ => reset (next (setOnline true) fun _ => .part (pure .monitorBus))).prog =
      EBusFsm.synchronize := by
    rw [prog_next]
    simp only [prog_reset]
    rfl
  unfold openDevice EBusFsm.openDevice tryOpen
  rw [prog_next]
  simp only [bind_assoc]
  refine congrArg _ (funext fun impl => ?_)
  split_ifs
  · simp only [bind_assoc]
    refine congrArg _ (funext fun _ => congrArg _ (funext fun impl => ?_))
    split_ifs
    · rfl
    · rw [pure_bind]
      exact hsync
  · rw [pure_bind]
    exact hsync

theorem prog_monitorBus : monitorBus.prog = EBusFsm.monitorBus := by
  unfold monitorBus EBusFsm.monitorBus
  rw [prog_next]
  refine congrArg _ (funext fun byte => ?_)
  split_ifs
  · unfold handleSyn decodeSyn
    rw [prog_next]
    simp only [bind_assoc]
    refine congrArg _ (funext fun _ => congrArg _ (funext fun impl => ?_))
    split_ifs <;> rfl
  · rfl

theorem prog_receiveMessage : receiveMessage.prog = EBusFsm.receiveMessage := by
  unfold receiveMessage EBusFsm.receiveMessage receiveHead
  rw [prog_next]
  simp only [bind_assoc]
  refine congrArg _ (funext fun _ => congrArg _ (funext fun _ => congrArg _ (funext fun _ => congrArg _ (funext fun _ =>
    congrArg _ (funext fun nn => ?_)))))
  split_ifs
  · rw [prog_next]
    simp only [prog_reset]
    rfl
  · rfl

theorem prog_processMessage : processMessage.prog = EBusFsm.processMessage := by
  unfold processMessage EBusFsm.processMessage decodeMaster
  rw [prog_next]
  simp only [bind_assoc]
  rfl

theorem prog_sendResponse : sendResponse.prog = EBusFsm.sendResponse := by
  have hfinish : ∀ message byte,
      (next (publishPassive message byte) fun _ => reset (.part (pure .monitorBus))).prog =
        finishResponse message byte := by
    intro message byte
    rw [prog_next]
    simp only [prog_reset]
    rfl
  unfold sendResponse EBusFsm.sendResponse sendSlave
  rw [prog_next]
  simp only [bind_assoc]
  refine congrArg _ (funext fun impl => congrArg _ (funext fun message => congrArg _ (funext fun _ => congrArg _ (funext fun byte => ?_))))
  split_ifs
  · simp only [bind_assoc, pure_bind, hfinish]
  · rw [pure_bind]
    exact hfinish message byte

theorem prog_lockBus : lockBus.prog = EBusFsm.lockBus := by
  unfold lockBus EBusFsm.lockBus arbitrate
  rw [prog_next]
  simp only [bind_assoc]
  refine congrArg _ (funext fun impl => congrArg _ (funext fun message => congrArg _ (funext fun qq => congrArg _ (funext fun _ => congrArg _ (funext fun byte => ?_)))))
  simp only [pure_bind]
  split_ifs <;> rfl

theorem prog_freeBus : freeBus.prog = EBusFsm.freeBus := by
  unfold freeBus
  rw [prog_next]
  simp only [prog_reset]
  rfl

theorem prog_receiveAttempt (retry : Nat) (c : EbusCode State) :
    (receiveAttempt retry c).prog =
      EBusFsm.receiveAttempt retry >>= fun state =>
        match state with
        | some state => pure state
        | none => c.prog := by
  unfold receiveAttempt EBusFsm.receiveAttempt
  rw [prog_next]
  simp only [bind_assoc]
  refine congrArg _ (funext fun nn => ?_)
  split_ifs
  · rw [prog_next]
    simp only [prog_reset, bind_assoc, pure_bind]
    rfl
  · unfold receiveRound
    rw [prog_next]
    simp only [bind_assoc]
    refine congrArg _ (funext fun _ => congrArg _ (funext fun state => ?_))
    cases state <;> rfl

theorem prog_receiveResponse : receiveResponse.prog = EBusFsm.receiveResponse := by
  unfold receiveResponse EBusFsm.receiveResponse
  rw [prog_next]
  simp only [bind_assoc, prog_receiveAttempt]
  refine congrArg _ (funext fun _ => congrArg _ (funext fun _ => congrArg _ (funext fun state => ?_)))
  cases state with
  | some state => rfl
  | none => rfl

theorem prog_handler (state : State) : (handler state).prog = EBusFsm.handler state := by
  cases state with
  | idleSystem => exact prog_idleSystem
  | openDevice => exact prog_openDevice
  | monitorBus => exact prog_monitorBus
  | receiveMessage => exact prog_receiveMessage
  | processMessage => exact prog_processMessage
  | sendResponse => exact prog_sendResponse
  | lockBus => exact prog_lockBus
  | sendMessage => rfl
  | receiveResponse => exact prog_receiveResponse
  | freeBus => exact prog_freeBus

theorem prog_handleDeviceError (error : Bool) :
    (handleDeviceError error).prog = EBusFsm.handleDeviceError error := by
  unfold handleDeviceError EBusFsm.handleDeviceError failActive
  rw [prog_next]
  simp only [bind_assoc, prog_reset]
  refine congrArg _ (funext fun impl => ?_)
  cases impl.activeMessage <;> cases error <;> rfl

theorem prog_runState (state : State) : (runState state).prog = EBusFsm.runState state := by
  unfold runState EBusFsm.runState
  rw [Code.prog, prog_handler]
  refine congrArg _ (funext fun stop => ?_)
  cases stop <;> first | exact prog_handleDeviceError _ | rfl

end EbusCode

/-! ### The handlers are atomic -/

/-- The exceptions that `run` catches. -/
def Rescued {α : Type} : Except Stop α → Prop
  | .error .warning | .error .error => True
  | _ => False

namespace EbusCode

variable {α β : Type}

/-- Where `reset` was called, no exception comes any more that `run` catches. -/
def Quiet {α : Type} (res : Except Stop α) (kind : Option Kind) : Prop := kind = some .lockCounterMax → ¬ Rescued res

abbrev Atomic (c : EbusCode α) (C : Except Stop α → Option Kind → Prop) : Prop := Reduces act Action.kind c C

variable {C : Except Stop α → Option Kind → Prop}

theorem atomic_local {x : EbusM α} (hx : Local x) : Atomic (.part x) C :=
  .part commuting (hx.movable.mono fun _ _ h => absurd h.1 h.2)

theorem atomic_near {x : EbusM α} {kind : Kind} (hx : Near (some kind) x) :
    Atomic (.part x) fun _ g => g = some kind := .part commuting (hx.movable.mono fun _ _ h => h.1)

theorem atomic_next_local {x : EbusM β} {c : β → EbusCode α} (hx : Local x) (hc : ∀ b, Atomic (c b) C) :
    Atomic (next x c) C :=
  .bind commuting (C := fun _ _ => False) (atomic_local hx) hc (fun _ _ _ h => h.elim)
    (fun _ _ _ h => h.elim False.elim id) fun _ _ h => h.elim

theorem atomic_next_near {x : EbusM β} {c : β → EbusCode α} {kind : Kind} {D : Option Kind → Prop}
    (hx : Near (some kind) x) (hc : ∀ b, Atomic (c b) fun _ => D) (hD : ¬ D (some kind)) :
    Atomic (next x c) fun _ g => g = some kind ∨ D g :=
  .bind commuting (atomic_near hx) hc (fun _ _ _ h => h ▸ hD) (fun _ _ _ h => h) fun _ _ h => .inl h

theorem exec_reset (s : World) : (exec EBusFsm.reset s).1 = .ok ⟨⟩ := by
  obtain ⟨⟨running, online, close, address, slaveAddress, lockCounterMax, lockCounter, openCounterMax, openCounter,
    messageQueue, deviceOpen, processing, sequence, _ | active, passive, notify⟩, env, events⟩ := s
  all_goals rfl

/-- What comes behind `reset` does not read `m_lock_counter_max`, and throws nothing that `run` catches. -/
theorem atomic_reset {c : EbusCode α} {D : Option Kind → Prop} (hc : Atomic c fun _ => D)
    (hD : ¬ D (some .lockCounterMax)) (hcalm : ∀ s, ¬ Rescued (exec c.prog s).1) : Atomic (reset c) Quiet := by
  refine Reduces.mono (atomic_next_near near_resetCounters
    (fun _ => atomic_next_local .resetMessages fun _ => hc) hD) fun s g _ _ => ?_
  rw [show (next resetCounters fun _ => next resetMessages fun _ => c).prog = _ from prog_reset c,
    exec_bind_ok (exec_eq_of_fst (exec_reset s))]
  exact hcalm _

theorem atomic_reset_pure (state : State) : Atomic (reset (.part (pure state))) Quiet :=
  atomic_reset (D := fun _ => False) (atomic_local (.pure state)) id fun _ => id

theorem quiet_of_not {c : EbusCode α} {D : Option Kind → Prop} (hc : Atomic c fun _ => D)
    (hD : ¬ D (some .lockCounterMax)) : Atomic c Quiet :=
  hc.mono fun _ _ hg hkind => absurd (hkind ▸ hg) hD

theorem atomic_idleSystem : Atomic idleSystem Quiet := by
  refine atomic_next_local .closeDevice fun _ => atomic_reset (atomic_next_near (near_setOnline false) (fun _ =>
    atomic_next_near near_clearClose (fun _ => atomic_near near_waitOpen) ?_) ?_) ?_ fun s => ?_
  · simp
  · simp
  · simp
  · show ¬ Rescued (exec waitOpen _).1
    rw [exec_waitOpen]
    split_ifs <;> exact id

theorem atomic_openDevice : Atomic openDevice Quiet := by
  refine atomic_next_local .tryOpen fun closed => ?_
  cases closed with
  | true => exact quiet_of_not (atomic_near near_testCounter) (by simp)
  | false =>
    refine atomic_next_local .flush fun _ => atomic_reset (atomic_next_near (near_setOnline true) (fun _ =>
      atomic_local (C := fun _ _ => False) (.pure _)) id) ?_ fun _ => id
    simp

theorem atomic_monitorBus : Atomic monitorBus Quiet := by
  refine atomic_next_local (.read 1 0) fun byte => ?_
  split_ifs
  · refine atomic_next_local .decodeSyn fun _ => quiet_of_not (atomic_next_near near_dequeueMessage (fun _ =>
      atomic_local (C := fun _ _ => False) .chooseState) id) ?_
    simp
  · exact atomic_local (.collect byte)

theorem atomic_receiveMessage : Atomic receiveMessage Quiet := by
  refine atomic_next_local .receiveHead fun nn => ?_
  split_ifs
  · exact atomic_next_local (.setActiveState _) fun _ => atomic_reset_pure _
  · exact atomic_local (.receiveRest nn)

theorem atomic_processMessage : Atomic processMessage Quiet := by
  refine atomic_next_local .decodeMaster fun tel => quiet_of_not (atomic_next_near (near_process _) (fun _ =>
    atomic_local (C := fun _ _ => False) (.react tel _ _)) id) ?_
  simp

theorem atomic_sendResponse : Atomic sendResponse Quiet :=
  atomic_next_local .sendSlave fun _ => atomic_next_local (.publishPassive _ _) fun _ => atomic_reset_pure _

theorem atomic_lockBus : Atomic lockBus Quiet := by
  refine atomic_next_local .arbitrate fun ⟨qq, byte⟩ => ?_
  dsimp only
  split_ifs
  · have hset : Atomic (next setLockCounter fun _ => .part (pure State.monitorBus)) _ :=
      atomic_next_near near_setLockCounter (fun _ => atomic_local (C := fun _ _ => False) (.pure State.monitorBus)) id
    exact hset.mono fun _ _ _ _ => id
  · exact atomic_next_local (.modifyImpl (fun _ _ => rfl) fun _ => rfl) fun _ => atomic_local (.pure _)
  · exact atomic_local (.pure _)

theorem atomic_receiveAttempt (retry : Nat) {c : EbusCode State} (hc : Atomic c Quiet) :
    Atomic (receiveAttempt retry c) Quiet := by
  refine atomic_next_local (.read 1 0) fun nn => ?_
  split_ifs
  · exact atomic_next_local (.setActiveState _) fun _ => atomic_reset_pure _
  · refine atomic_next_local (.receiveRound retry nn) fun state => ?_
    cases state with
    | some state => exact atomic_local (.pure state)
    | none => exact hc

theorem atomic_receiveResponse : Atomic receiveResponse Quiet :=
  atomic_next_local (.getImpl (fun _ _ => rfl) fun _ => .deref _) fun _ =>
    atomic_receiveAttempt 1 (atomic_receiveAttempt 0 (atomic_local (.pure _)))

theorem atomic_freeBus : Atomic freeBus Quiet :=
  atomic_next_local (.writeRead _ 0 0) fun _ => atomic_reset_pure _

theorem atomic_handler (state : State) : Atomic (handler state) Quiet := by
  cases state with
  | idleSystem => exact atomic_idleSystem
  | openDevice => exact atomic_openDevice
  | monitorBus => exact atomic_monitorBus
  | receiveMessage => exact atomic_receiveMessage
  | processMessage => exact atomic_processMessage
  | sendResponse => exact atomic_sendResponse
  | lockBus => exact atomic_lockBus
  | sendMessage => exact atomic_local .sendMessage
  | receiveResponse => exact atomic_receiveResponse
  | freeBus => exact atomic_freeBus

theorem atomic_handleDeviceError (error : Bool) :
    Atomic (handleDeviceError error) fun _ g => g = some .lockCounterMax := by
  refine atomic_next_local .failActive fun _ => Reduces.mono (atomic_next_near (D := fun _ => False)
    near_resetCounters (fun _ => atomic_next_local .resetMessages fun _ => ?_) id) fun _ _ h => h.resolve_right id
  split_ifs
  · exact atomic_next_local .deviceClose fun _ => atomic_local (.pure _)
  · exact atomic_local (.pure _)

/-- A round of the loop in `run` is atomic. -/
theorem atomic_runState (state : State) : Atomic (runState state) fun _ _ => True := by
  refine .tryCatch commuting (atomic_handler state)
    (D := fun stop _ g => g = some .lockCounterMax ∧ (stop = .warning ∨ stop = .error)) (fun stop => ?_) ?_
    (fun _ _ _ => trivial) fun _ _ _ _ => trivial
  · cases stop with
    | warning => exact (atomic_handleDeviceError false).mono fun _ _ h => ⟨h, .inl rfl⟩
    | error => exact (atomic_handleDeviceError true).mono fun _ _ h => ⟨h, .inr rfl⟩
    | outOfRange | nullDeref | starved | blocked => exact atomic_local (.throw _)
  · rintro stop - kind hquiet ⟨rfl, rfl | rfl⟩
    · exact hquiet rfl trivial
    · exact hquiet rfl trivial

end EbusCode

/-! ### Runs with actions inside of handlers -/

/-- What the system looks like with the members, the position and the events of the thread. -/
def System.dress (s : System) (impl : EbusImpl) (control : Control) (events : List Event) : System :=
  { s with
    impl
    control
    completed := notifiedMessages events ++ s.completed
    log := s.log ++ events }

/-- A run in which other threads act also inside of handlers. -/
inductive FineRun : System → List Action → System → Prop
  | nil (s : System) : FineRun s [] s
  | step {s s' s'' : System} {a : Action} {as : List Action} (hstep : s.step a = some s')
      (hrest : FineRun s' as s'') : FineRun s (a :: as) s''
  /-- A handler, with the actions `ks` of other threads inside of it. -/
  | thread {s s'' r : System} {state : State} {env : Env} {ks as : List Action} {res : Except Stop State} {w : World}
      (hcontrol : s.control = .loop state) (hrunning : s.impl.running = true)
      (hhandler : Interleaved act (EbusCode.runState state) ({ impl := s.impl, env }, s) ks res (w, r))
      (hrest : FineRun (r.dress w.impl (.after res) w.events) as s'') : FineRun s (ks ++ .thread env :: as) s''

theorem step_dress {a : Action} (ha : a.kind ≠ none) (s : System) (impl : EbusImpl) (control : Control)
    (events : List Event) :
    (s.dress impl control events).step a =
      (System.step { s with impl } a).map fun s' => s'.dress s'.impl control events := by
  cases a
  case transmit message =>
    simp only [System.step, System.callTransmit, System.dress]
    rcases Telegram.createMasterFrom {} impl.address message with e | ⟨tel, seq⟩
    · rfl
    · dsimp only
      by_cases hstate : tel.masterState ≠ SEQ_OK
      · rw [if_pos hstate, if_pos hstate]
        rfl
      rw [if_neg hstate, if_neg hstate]
      by_cases hmaster : (!isMaster impl.address) = true
      · simp only [if_pos hmaster, Option.map_some]
        exact if_pos hmaster
      simp only [if_neg hmaster]
      by_cases honline : (!impl.online) = true
      · simp only [if_pos honline, Option.map_some]
        exact (if_neg hmaster).trans (if_pos honline)
      · simp only [if_neg honline, Option.map_some]
        exact (if_neg hmaster).trans (if_neg honline)
  case enqueue message =>
    simp only [System.step, System.dress]
    by_cases hmessage : message ∈ s.entering
    · rw [if_pos hmessage]
      exact if_pos hmessage
    · rw [if_neg hmessage]
      exact if_neg hmessage
  all_goals first | rfl | exact absurd rfl ha

/-- An action of another thread is a step of the system, wherever the thread is. -/
theorem step_of_act {a : Action} {w w' : World} {s s' : System} (h : act a (w, s) = some (w', s'))
    (control : Control) (events : List Event) :
    (s.dress w.impl control events).step a = some (s'.dress w'.impl control events) := by
  obtain ⟨g, -, hg, -, -⟩ := act_some h
  rw [step_dress (by simp [hg])]
  simp only [act, hg] at h
  obtain ⟨s₁, hs₁, hpair⟩ := Option.map_eq_some_iff.1 h
  cases hpair
  rw [hs₁]
  rfl

theorem acts_kind {ks : List Action} {s t : World × System} (h : acts act ks s = some t) :
    ∀ k ∈ ks, k.kind ≠ none := by
  induction ks generalizing s with
  | nil => simp
  | cons k ks ih =>
    obtain ⟨⟨w, s₁⟩, hk, hrest⟩ := Option.bind_eq_some_iff.1 h
    obtain ⟨g, -, hg, -, -⟩ := act_some hk
    rintro l (_ | ⟨_, hl⟩)
    · simp [hg]
    · exact ih hrest l hl

theorem acts_withShared {ks : List Action} {w w' : World} {s s' : System} (h : acts act ks (w, s) = some (w', s')) :
    ∃ m, w' = w.withShared m := by
  induction ks generalizing w s with
  | nil =>
    cases h
    exact ⟨_, (withShared_self _).symm⟩
  | cons k ks ih =>
    obtain ⟨⟨w₁, s₁⟩, hk, hrest⟩ := Option.bind_eq_some_iff.1 h
    obtain ⟨-, m, -, -, rfl⟩ := act_some hk
    obtain ⟨m', rfl⟩ := ih hrest
    exact ⟨m', rfl⟩

theorem run_of_acts {ks : List Action} {w w' : World} {s s' : System} (h : acts act ks (w, s) = some (w', s'))
    (control : Control) (events : List Event) :
    Run System.step (fun _ _ => True) (s.dress w.impl control events) ks (s'.dress w'.impl control events) := by
  induction ks generalizing w s with
  | nil =>
    cases h
    exact .nil _
  | cons k ks ih =>
    obtain ⟨⟨w₁, s₁⟩, hk, hrest⟩ := Option.bind_eq_some_iff.1 h
    exact .cons trivial (step_of_act hk control events) (ih hrest)

/-- The thread may be moved before actions of others. -/
theorem ordered_thread {env : Env} {v : List Action} (hv : ∀ k ∈ v, k.kind ≠ none) :
    Ordered Action.kind (.thread env :: v) (v ++ [.thread env]) := by
  intro g
  rw [List.filter_append, List.filter_cons, List.filter_cons, List.filter_nil]
  by_cases hg : g = none
  · have hnone : v.filter (fun k => k.kind = g) = [] := List.filter_eq_nil_iff.2 fun k hk => by
      simpa [hg] using hv k hk
    rw [hnone, List.nil_append]
  · have hthread : ¬ (Action.thread env).kind = g := fun h => hg h.symm
    simp [hthread]

/-- A handler with actions of others inside of it is a handler with some of them before it and the rest behind it. -/
theorem run_of_handler {s r : System} {state : State} {env : Env} {ks : List Action} {res : Except Stop State}
    {w : World} (hcontrol : s.control = .loop state) (hrunning : s.impl.running = true)
    (hhandler : Interleaved act (EbusCode.runState state) ({ impl := s.impl, env }, s) ks res (w, r)) :
    ∃ as', Run System.step (fun _ _ => True) s as' (r.dress w.impl (.after res) w.events) ∧
      Ordered Action.kind as' (ks ++ [.thread env]) := by
  obtain ⟨u, v, w₁, s₁, horder, -, hbefore, hres, hbehind⟩ := (EbusCode.atomic_runState state).reduce hhandler
  rw [EbusCode.prog_runState] at hres hbehind
  obtain ⟨m, rfl⟩ := acts_withShared hbefore
  obtain ⟨m', rfl⟩ := acts_withShared hbehind
  have hfirst := run_of_acts hbefore s.control []
  have hlast := run_of_acts hbehind (.after res)
    (exec (EBusFsm.runState state) (World.withShared { impl := s.impl, env } m)).2.events
  have hstart : s.dress s.impl s.control [] = s := by simp [System.dress, notifiedMessages]
  have hthread : (s₁.dress (s.impl.withShared m) s.control []).step (.thread env) =
      some (s₁.dress (exec (EBusFsm.runState state) (World.withShared { impl := s.impl, env } m)).2.impl
        (.after res) (exec (EBusFsm.runState state) (World.withShared { impl := s.impl, env } m)).2.events) := by
    have hrun : (s.impl.withShared m).running = true := hrunning
    rw [← hres]
    simp only [System.step, System.runThread, System.dress, hcontrol, hrun, List.append_nil, Bool.not_true,
      Bool.false_eq_true, if_false]
    rfl
  rw [hstart] at hfirst
  refine ⟨u ++ .thread env :: v, hfirst.append (.cons trivial hthread hlast), ?_⟩
  refine Ordered.trans ((Ordered.refl u).append (ordered_thread (acts_kind hbehind))) ?_
  rw [← List.append_assoc]
  exact horder.append (.refl _)

/-- **Handlers are atomic**: a run in which other threads act inside of handlers ends where a run of whole handlers
ends, with the same actions, those of each kind in their order. -/
theorem atomic {s s' : System} {as : List Action} (h : FineRun s as s') :
    ∃ as', Run System.step (fun _ _ => True) s as' s' ∧ Ordered Action.kind as' as := by
  induction h with
  | nil s => exact ⟨[], .nil s, .refl []⟩
  | @step s s' s'' a as hstep _ ih =>
    obtain ⟨as', hrun, horder⟩ := ih
    exact ⟨a :: as', .cons trivial hstep hrun, (Ordered.refl [a]).append horder⟩
  | @thread s s'' r state env ks as res w hcontrol hrunning hhandler _ ih =>
    obtain ⟨bs, hrun, horder⟩ := run_of_handler hcontrol hrunning hhandler
    obtain ⟨as', hrun', horder'⟩ := ih
    refine ⟨bs ++ as', hrun.append hrun', ?_⟩
    rw [List.append_cons]
    exact horder.append horder'

/-- The value that is set behind the failed `open` is the one that `reset` reads, so it comes before the handler. -/
theorem atomic_sample :
    ∃ as', Run System.step (fun _ _ => True) (System.init 0x10) as'
      { impl := { initImpl 0x10 with close := true, lockCounterMax := 7, lockCounter := 7 },
        control := .check .openDevice } ∧
      Ordered Action.kind as' ([.setLockCounterMax 7, .closeCall] ++ [.thread { opens := false }]) := by
  have hopen : Interleaved act (.part tryOpen)
      ({ impl := initImpl 0x10, env := { opens := false } }, System.init 0x10) ([] ++ []) (.error .error)
      ({ impl := initImpl 0x10, env := { opens := false } }, System.init 0x10) := .of_part rfl rfl rfl
  have hfail : Interleaved act (.part failActive)
      ({ impl := initImpl 0x10, env := { opens := false } }, System.init 0x10) ([] ++ [.setLockCounterMax 7]) (.ok ⟨⟩)
      ({ impl := { initImpl 0x10 with lockCounterMax := 7 }, env := { opens := false } }, System.init 0x10) :=
    .of_part rfl rfl rfl
  have hcounters : Interleaved act (.part resetCounters)
      ({ impl := { initImpl 0x10 with lockCounterMax := 7 }, env := { opens := false } }, System.init 0x10)
      ([] ++ []) (.ok ⟨⟩)
      ({ impl := { initImpl 0x10 with lockCounterMax := 7, lockCounter := 7 }, env := { opens := false } },
        System.init 0x10) := .of_part rfl rfl rfl
  have hmessages : Interleaved act (.part resetMessages)
      ({ impl := { initImpl 0x10 with lockCounterMax := 7, lockCounter := 7 }, env := { opens := false } },
        System.init 0x10) ([] ++ [.closeCall]) (.ok ⟨⟩)
      ({ impl := { initImpl 0x10 with close := true, lockCounterMax := 7, lockCounter := 7 },
         env := { opens := false } }, System.init 0x10) := .of_part rfl rfl rfl
  have hclose : Interleaved act (EbusCode.next deviceClose fun _ => .part (pure State.openDevice))
      ({ impl := { initImpl 0x10 with close := true, lockCounterMax := 7, lockCounter := 7 },
         env := { opens := false } }, System.init 0x10) (([] ++ []) ++ ([] ++ [])) (.ok .openDevice)
      ({ impl := { initImpl 0x10 with close := true, lockCounterMax := 7, lockCounter := 7 },
         env := { opens := false } }, System.init 0x10) := .bind (.of_part rfl rfl rfl) (.of_part rfl rfl rfl)
  exact atomic (.thread rfl rfl (.tryCatch (.bindError hopen) (.bind hfail (.bind hcounters (.bind hmessages hclose))))
    (.nil _))

end EBusFsm
