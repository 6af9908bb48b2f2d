import EBusFsm.Machine.Handlers
import EBusFsm.Lib.Run

/-!
# The queue `NQueue`

`NQueue` is a queue with a mutex and a condition variable, for any number of threads that call `enqueue` and
`dequeue`. A step is a section of the code that holds the mutex: the whole of `enqueue`, `dequeue` up to its
return or up to `m_condition.wait`, and a round of its loop behind the wait. `notify_one` wakes one of the threads
that wait, whichever; a wake-up may also come by itself, and a thread that was woken may find the queue empty
again.

`handed_over` says that the items come out once each and in order, each to a thread that asked for one, and that
no thread sleeps over an item (`Prompt`).

The machine is the only thread that calls `dequeue`, and only behind `size() > 0`; it holds the mutex for each of
the two calls, and others call `enqueue` in between. `fetched` says that it never waits, and that it gets the
messages that `dequeueMessage` takes in one step.
-/

namespace EBusFsm

open Prog

structure NQueue (α ι : Type) where
  queue : List α := []
  /-- The threads in `m_condition.wait`. -/
  waiting : List ι := []
  /-- The threads that were woken up and are about to take the mutex again. -/
  woken : List ι := []
  deriving DecidableEq, Repr

namespace NQueue

inductive Action (α ι : Type)
  /-- `enqueue`, with the thread that `notify_one` wakes. -/
  | enqueue (item : α) (wakes : Option ι)
  /-- `dequeue` is called. -/
  | dequeue (thread : ι)
  /-- A wake-up that no `enqueue` caused. -/
  | wakeUp (thread : ι)
  /-- `m_condition.wait` returns. -/
  | resume (thread : ι)
  deriving DecidableEq, Repr

variable {α ι : Type}

/-- The loop of `dequeue`, up to the return or to the next wait. -/
def loop (s : NQueue α ι) (thread : ι) : NQueue α ι :=
  match s.queue with
  | [] => { s with waiting := thread :: s.waiting }
  | _ :: queue => { s with queue }

/-- The thread whose call of `dequeue` returns in this step, with the item. -/
def output (s : NQueue α ι) : Action α ι → Option (ι × α)
  | .dequeue thread | .resume thread => s.queue.head?.map fun item => (thread, item)
  | _ => none

def step [DecidableEq ι] (s : NQueue α ι) : Action α ι → Option (NQueue α ι)
  | .enqueue item none =>
    if s.waiting = [] then some { s with queue := s.queue ++ [item] } else none
  | .enqueue item (some thread) =>
    if thread ∈ s.waiting then
      some
        { queue := s.queue ++ [item], waiting := s.waiting.erase thread, woken := thread :: s.woken }
    else none
  | .dequeue thread => if thread ∈ s.waiting ∨ thread ∈ s.woken then none else some (s.loop thread)
  | .wakeUp thread =>
    if thread ∈ s.waiting then
      some { s with waiting := s.waiting.erase thread, woken := thread :: s.woken }
    else none
  | .resume thread =>
    if thread ∈ s.woken then some ({ s with woken := s.woken.erase thread }.loop thread) else none

/-! ### What a run has done -/

def Action.input : Action α ι → Option α
  | .enqueue item _ => some item
  | _ => none

def Action.caller : Action α ι → Option ι
  | .dequeue thread => some thread
  | _ => none

/-- The items that were enqueued. -/
def inputs (history : List (NQueue α ι × Action α ι)) : List α := history.filterMap fun e => e.2.input

/-- The threads that called `dequeue`. -/
def callers (history : List (NQueue α ι × Action α ι)) : List ι := history.filterMap fun e => e.2.caller

/-- The returns of `dequeue`. -/
def outputs (history : List (NQueue α ι × Action α ι)) : List (ι × α) :=
  history.filterMap fun e => e.1.output e.2

section Snoc

variable (history : List (NQueue α ι × Action α ι)) (s : NQueue α ι) (a : Action α ι)

theorem filterMap_snoc {β γ : Type} (f : β → Option γ) (l : List β) (b : β) :
    (l ++ [b]).filterMap f = l.filterMap f ++ (f b).toList := by
  rw [List.filterMap_append]
  cases hb : f b <;> simp [hb]

theorem inputs_snoc : inputs (history ++ [(s, a)]) = inputs history ++ a.input.toList := filterMap_snoc _ _ _

theorem callers_snoc : callers (history ++ [(s, a)]) = callers history ++ a.caller.toList := filterMap_snoc _ _ _

theorem outputs_snoc : outputs (history ++ [(s, a)]) = outputs history ++ (s.output a).toList := filterMap_snoc _ _ _

end Snoc

/-- No thread sleeps over an item: there is a thread on its way to each. -/
def Prompt (s : NQueue α ι) : Prop := s.waiting = [] ∨ s.queue.length ≤ s.woken.length

/-- The items `ins` went in, the threads `asked` called `dequeue`, and the calls `outs` returned. -/
structure HandedOver (ins : List α) (asked : List ι) (outs : List (ι × α)) (s : NQueue α ι) : Prop where
  /-- Every item comes out once, in order. -/
  order : ins = outs.map Prod.snd ++ s.queue
  /-- A thread has got as many items as it asked for, but for a call that is in progress. -/
  calls : asked.Perm (outs.map Prod.fst ++ (s.waiting ++ s.woken))
  prompt : s.Prompt

namespace HandedOver

variable {ins : List α} {asked : List ι} {outs : List (ι × α)} {s : NQueue α ι} {thread : ι}

/-- The loop of `dequeue` for a thread whose call is in progress, but neither waiting nor woken. -/
theorem looped (horder : ins = outs.map Prod.snd ++ s.queue)
    (hcalls : asked.Perm (outs.map Prod.fst ++ thread :: (s.waiting ++ s.woken)))
    (hprompt : s.waiting = [] ∨ s.queue.length ≤ s.woken.length + 1) :
    HandedOver ins asked (outs ++ (s.queue.head?.map fun item => (thread, item)).toList) (s.loop thread) := by
  rcases s with ⟨_ | ⟨item, queue⟩, waiting, woken⟩
  · rw [List.head?_nil, Option.map_none, Option.toList_none, List.append_nil]
    exact ⟨horder, hcalls, .inr (Nat.zero_le _)⟩
  · refine ⟨?_, ?_, hprompt.imp_right Nat.le_of_succ_le_succ⟩
    · rw [horder]
      simp [loop]
    · refine hcalls.trans ?_
      simp [loop]

theorem called (h : HandedOver ins asked outs s) (thread : ι) :
    HandedOver ins (asked ++ [thread]) (outs ++ (s.queue.head?.map fun item => (thread, item)).toList)
      (s.loop thread) := by
  refine looped h.order ?_ (h.prompt.imp_right Nat.le_succ_of_le)
  exact (h.calls.append_right [thread]).trans (by
    rw [List.append_assoc]
    exact (List.perm_append_singleton thread _).append_left _)

theorem enqueued (h : HandedOver ins asked outs s) (item : α) (hwaiting : s.waiting = []) :
    HandedOver (ins ++ [item]) asked outs { s with queue := s.queue ++ [item] } :=
  ⟨by rw [h.order, List.append_assoc], h.calls, .inl hwaiting⟩

variable [DecidableEq ι]

theorem resumed (h : HandedOver ins asked outs s) (hthread : thread ∈ s.woken) :
    HandedOver ins asked (outs ++ (s.queue.head?.map fun item => (thread, item)).toList)
      ({ s with woken := s.woken.erase thread }.loop thread) := by
  have hwoken := List.perm_cons_erase hthread
  refine looped (s := { s with woken := s.woken.erase thread }) h.order ?_ (h.prompt.imp_right fun hle => ?_)
  · exact h.calls.trans (((hwoken.append_left s.waiting).trans List.perm_middle).append_left _)
  · rw [hwoken.length_eq] at hle
    exact hle

/-- A thread that waits is woken. -/
theorem wokenUp (h : HandedOver ins asked outs s) (hthread : thread ∈ s.waiting) :
    HandedOver ins asked outs
      { s with waiting := s.waiting.erase thread, woken := thread :: s.woken } where
  order := h.order
  calls :=
    h.calls.trans ((((List.perm_cons_erase hthread).append_right s.woken).trans List.perm_middle.symm).append_left _)
  prompt := h.prompt.elim (fun hnil => absurd hthread (by simp [hnil])) fun hle =>
    .inr (hle.trans (Nat.le_succ _))

theorem notified (h : HandedOver ins asked outs s) (item : α) (hthread : thread ∈ s.waiting) :
    HandedOver (ins ++ [item]) asked outs
      { queue := s.queue ++ [item], waiting := s.waiting.erase thread, woken := thread :: s.woken } where
  order := by rw [h.order, List.append_assoc]
  calls := (h.wokenUp hthread).calls
  prompt := h.prompt.elim (fun hnil => absurd hthread (by simp [hnil])) fun hle => .inr (by
    rw [List.length_append, List.length_cons]
    exact Nat.succ_le_succ hle)

theorem step {history : List (NQueue α ι × Action α ι)} {s' : NQueue α ι} {a : Action α ι}
    (h : HandedOver (inputs history) (callers history) (outputs history) s) (hstep : s.step a = some s') :
    HandedOver (inputs (history ++ [(s, a)])) (callers (history ++ [(s, a)])) (outputs (history ++ [(s, a)])) s' := by
  rw [inputs_snoc, callers_snoc, outputs_snoc]
  rcases a with ⟨item, _ | thread⟩ | thread | thread | thread
  all_goals
    simp only [NQueue.step] at hstep
    split_ifs at hstep with hthread
    cases hstep
  · simpa [Action.input, Action.caller, output] using h.enqueued item hthread
  · simpa [Action.input, Action.caller, output] using h.notified item hthread
  · simpa [Action.input, Action.caller, output] using h.called thread
  · simpa [Action.input, Action.caller, output] using h.wokenUp hthread
  · simpa [Action.input, Action.caller, output] using h.resumed hthread

end HandedOver

/-- A thread that is woken while there is an item gets one. -/
theorem output_resume {s : NQueue α ι} {item : α} {queue : List α} (hqueue : s.queue = item :: queue) (thread : ι) :
    s.output (.resume thread) = some (thread, item) := by
  rw [output, hqueue]
  rfl

variable [DecidableEq ι]

/-- Whatever the threads do, every item comes out once and in order, to a thread that asked for one, and while
there is an item and a thread that asks for one, some thread has been woken and gets the first item when it takes
the mutex. -/
theorem handed_over {as : List (Action α ι)} {s : NQueue α ι} (hrun : Run step (fun _ _ => True) {} as s) :
    HandedOver (inputs (visited step {} as)) (callers (visited step {} as)) (outputs (visited step {} as)) s ∧
      ∀ item queue thread, s.queue = item :: queue → thread ∈ s.waiting ∨ thread ∈ s.woken →
        ∃ next ∈ s.woken, s.output (.resume next) = some (next, item) := by
  have h : HandedOver (inputs (visited step {} as)) (callers (visited step {} as)) (outputs (visited step {} as)) s :=
    hrun.history (I := fun history s => HandedOver (inputs history) (callers history) (outputs history) s)
      (fun _ _ _ _ h _ hstep => h.step hstep) ⟨rfl, .nil, .inl rfl⟩
  refine ⟨h, fun item queue thread hqueue hthread => ?_⟩
  have hwoken : s.woken ≠ [] := by
    rcases h.prompt with hwaiting | hle
    · rw [hwaiting] at hthread
      exact List.ne_nil_of_mem (hthread.resolve_left List.not_mem_nil)
    · rw [hqueue] at hle
      exact List.ne_nil_of_length_pos ((Nat.succ_pos _).trans_le hle)
  obtain ⟨next, hnext⟩ := List.exists_mem_of_ne_nil _ hwoken
  exact ⟨next, hnext, output_resume hqueue next⟩

/-- A thread that comes between takes the item of one that was woken, and that one waits again. -/
theorem handed_over_sample :
    outputs (visited step ({} : NQueue Nat Nat)
        [.dequeue 1, .enqueue 7 (some 1), .dequeue 2, .resume 1, .enqueue 8 (some 1)]) = [(2, 7)] ∧
      ∃ next ∈ [1], ({ queue := [8], woken := [1] } : NQueue Nat Nat).output (.resume next) = some (next, 8) := by
  have hrun : execute step (fun _ _ => true) ({} : NQueue Nat Nat)
      [.dequeue 1, .enqueue 7 (some 1), .dequeue 2, .resume 1, .enqueue 8 (some 1)] =
        some { queue := [8], woken := [1] } := rfl
  exact ⟨by decide, (handed_over (run_of_execute (fun _ _ _ => trivial) hrun)).2 8 [] 1 rfl (.inr (by decide))⟩

end NQueue

/-! ### The machine at the queue -/

/-- The queue of messages with the one thread that takes them. -/
structure Fetch where
  queue : NQueue Message Unit := {}
  active : Option Message := none
  /-- Whether the thread has found the queue not empty and calls `dequeue` next. -/
  found : Bool := false
  deriving DecidableEq, Repr

namespace Fetch

inductive Action
  /-- A section of the queue. -/
  | queue (a : NQueue.Action Message Unit)
  /-- `m_activeMessage == nullptr && m_messageQueue.size() > 0`. -/
  | test
  /-- The message is done with. -/
  | reset
  deriving DecidableEq, Repr

/-- What the thread finds. -/
def finds (s : Fetch) : Bool := s.active.isNone && decide (s.queue.queue.length > 0)

def step (s : Fetch) : Action → Option Fetch
  | .queue a =>
    if a.caller.isSome && !s.found then none
    else
      (s.queue.step a).map fun queue =>
        match s.queue.output a with
        | some (_, message) => { queue, active := some message, found := false }
        | none => { s with queue }
  | .test => if s.found then none else some { s with found := s.finds }
  | .reset => if s.found then none else some { s with active := none }

/-- What a step does to the members of the machine, where `dequeueMessage` is one step: the test that finds
something is no step. -/
def coarse (e : Fetch × Action) (impl : EbusImpl) : EbusImpl :=
  match e.2 with
  | .queue (.enqueue message _) => { impl with messageQueue := impl.messageQueue ++ [message] }
  | .queue (.dequeue _) => (exec dequeueMessage { impl }).2.impl
  | .queue _ => impl
  | .test => if e.1.finds then impl else (exec dequeueMessage { impl }).2.impl
  | .reset => { impl with activeMessage := none }

/-- The members of the machine that the queue is about. -/
def members (s : Fetch) (impl : EbusImpl) : EbusImpl :=
  { impl with messageQueue := s.queue.queue, activeMessage := s.active }

/-- The thread does not wait, and what it found is there. -/
structure Unblocked (s : Fetch) : Prop where
  waiting : s.queue.waiting = []
  woken : s.queue.woken = []
  found : s.found = true → s.finds = true

theorem finds_iff (s : Fetch) : s.finds = true ↔ s.active = none ∧ s.queue.queue ≠ [] := by
  rw [finds, Bool.and_eq_true, Option.isNone_iff_eq_none, decide_eq_true_iff, gt_iff_lt, List.length_pos_iff]

/-- Where there is nothing to take, `dequeueMessage` does nothing. -/
theorem dequeue_of_not_finds {s : Fetch} (h : ¬ s.finds = true) (impl : EbusImpl) :
    (exec dequeueMessage { impl := s.members impl }).2.impl = s.members impl := by
  rw [finds_iff] at h
  obtain ⟨⟨_ | ⟨message, queue⟩, waiting, woken⟩, _ | active, found⟩ := s
  · rfl
  · rfl
  · exact absurd ⟨rfl, by simp⟩ h
  · rfl

theorem Unblocked.queue {s s' : Fetch} {a : NQueue.Action Message Unit} (h : Unblocked s)
    (hstep : s.step (.queue a) = some s') (impl : EbusImpl) :
    Unblocked s' ∧ coarse (s, .queue a) (s.members impl) = s'.members impl := by
  have hwaiting := h.waiting
  have hwoken := h.woken
  rcases a with ⟨message, _ | thread⟩ | thread | thread | thread
  · simp only [step, NQueue.step, if_pos hwaiting] at hstep
    cases hstep
    refine ⟨⟨hwaiting, hwoken, fun hfound => ?_⟩, rfl⟩
    obtain ⟨hactive, -⟩ := (finds_iff s).1 (h.found hfound)
    exact (finds_iff _).2 ⟨hactive, show s.queue.queue ++ [message] ≠ [] by simp⟩
  · simp [step, NQueue.step, hwaiting] at hstep
  · rcases hfound : s.found with _ | _
    · simp [step, NQueue.Action.caller, hfound] at hstep
    obtain ⟨hactive, hqueue⟩ := (finds_iff s).1 (h.found hfound)
    obtain ⟨⟨_ | ⟨message, queue⟩, waiting, woken⟩, active, found⟩ := s
    · exact absurd rfl hqueue
    cases hwaiting
    cases hwoken
    cases hfound
    cases hactive
    cases hstep
    exact ⟨⟨rfl, rfl, fun h => by cases h⟩, rfl⟩
  · simp [step, NQueue.step, hwaiting] at hstep
  · simp [step, NQueue.step, hwoken] at hstep

theorem step_coarse {s s' : Fetch} {a : Action} (h : Unblocked s) (hstep : s.step a = some s') (impl : EbusImpl) :
    Unblocked s' ∧ coarse (s, a) (s.members impl) = s'.members impl := by
  cases a with
  | queue a => exact h.queue hstep impl
  | test =>
    simp only [step] at hstep
    split_ifs at hstep
    cases hstep
    refine ⟨⟨h.waiting, h.woken, fun hfound => hfound⟩, ?_⟩
    show (if s.finds then _ else _) = _
    split_ifs with hfinds
    · rfl
    · exact dequeue_of_not_finds hfinds impl
  | reset =>
    simp only [step] at hstep
    split_ifs at hstep with hfound
    cases hstep
    exact ⟨⟨h.waiting, h.woken, fun h => absurd h hfound⟩, rfl⟩

/-- The thread never waits in `dequeue`, and it gets the messages that `dequeueMessage` takes in one step. -/
theorem fetched {as : List Action} {s : Fetch} (hrun : Run step (fun _ _ => True) {} as s) (impl : EbusImpl) :
    Unblocked s ∧
      (visited step {} as).foldl (fun impl e => coarse e impl) (({} : Fetch).members impl) = s.members impl := by
  refine hrun.history (I := fun history s => Unblocked s ∧
    history.foldl (fun impl e => coarse e impl) (({} : Fetch).members impl) = s.members impl) ?_ ?_
  · rintro history s a s' ⟨hs, hfold⟩ - hstep
    rw [List.foldl_append, hfold]
    exact step_coarse hs hstep impl
  · exact ⟨⟨rfl, rfl, fun h => by cases h⟩, rfl⟩

/-- A message comes between `size` and `dequeue`, another behind them. -/
theorem fetched_sample :
    Unblocked { queue := { queue := [⟨2, {}, 0⟩, ⟨3, {}, 0⟩] }, active := some ⟨1, {}, 0⟩ } ∧
      (visited step {}
        [.queue (.enqueue ⟨1, {}, 0⟩ none), .test, .queue (.enqueue ⟨2, {}, 0⟩ none), .queue (.dequeue ()),
          .queue (.enqueue ⟨3, {}, 0⟩ none)]).foldl (fun impl e => coarse e impl)
          (({} : Fetch).members { address := 0x10, slaveAddress := 0x15 }) =
        members { queue := { queue := [⟨2, {}, 0⟩, ⟨3, {}, 0⟩] }, active := some ⟨1, {}, 0⟩ }
          { address := 0x10, slaveAddress := 0x15 } := by
  have hrun : execute step (fun _ _ => true) ({} : Fetch)
      [.queue (.enqueue ⟨1, {}, 0⟩ none), .test, .queue (.enqueue ⟨2, {}, 0⟩ none), .queue (.dequeue ()),
        .queue (.enqueue ⟨3, {}, 0⟩ none)] =
      some { queue := { queue := [⟨2, {}, 0⟩, ⟨3, {}, 0⟩] }, active := some ⟨1, {}, 0⟩ } := rfl
  exact fetched (run_of_execute (fun _ _ _ => trivial) hrun) _

end Fetch

end EBusFsm
