import IocMediator.Conservation

/-!
# Wakeups: the steady state, and shutdown

A worker tests its queue under the queue's mutex, and `pthread_cond_wait` releases that mutex and
blocks in one step.  Every enqueue on the queue takes the same mutex and signals before releasing
it.  So a worker never sleeps on a queue that has work: `WakeInv` says that a worker blocked in
`pthread_cond_wait` with no signal delivered has an empty queue, and `no_lost_wakeup` that this
holds in every reachable state, for both workers.  The key step is `WakeInv.enqueue`: the enqueue
either goes to the sleeper's own queue, and then its signal wakes it, or it leaves that queue
alone.

**Shutdown.**  `Shutdown` is the handshake between `ioc_kill_workers` and the threads, as they
see it: whether `closing` is set, where `ioc_kill_workers` is, and which threads have returned.
Its steps say what each side may do (`Shutdown.Step`), and `Shutdown.Inv` what that guarantees:
a worker returns only once `closing` is set, and every thread `ioc_kill_workers` has joined has
returned.  `Step.shutdown` says the thread model refines the handshake: every step of every
thread is a handshake step or leaves it as it is, so the invariant holds in every reachable
state (`Reachable.shutdownInv`).  Hence `iocKillWorkers_done`: when
`ioc_kill_workers` returns, the three threads have returned and every request slot is on exactly
one queue, none left in a thread's hands.

Whether `ioc_kill_workers` returns is another matter.  It sends one signal to each worker, after
setting `closing`.  The worker tests `closing` only after a wait returns and after the `while`
loop, never before it starts waiting.  If the signal arrives while the worker runs its handler, it
is lost; the worker then comes back to an empty queue and waits, with `closing` already set.
`iocKillWorkers_rx_hangs` is such a run, for every pool size: `ioc_kill_workers` is left in
`pthread_join` on the rx worker, which sleeps with no signal pending.
-/

namespace Ioc

variable {N : Nat}

/-- A worker blocked in `pthread_cond_wait`, with no signal delivered, has an empty queue. -/
def WakeInv (s : Sys N) : Prop :=
  ∀ w, s.worker w = .Waiting → (s.dev.qhead w.queue).sqhFirst = none

lemma WorkerPc.signal_ne_waiting (pc : WorkerPc N) : pc.signal ≠ .Waiting := by
  cases pc <;> simp [WorkerPc.signal]

lemma Worker.queue_ne_free (w : Worker) : w.queue ≠ .Free := by
  cases w <;> decide

lemma Worker.queue_injective {w w' : Worker} (h : w.queue = w'.queue) : w = w' := by
  cases w <;> cases w' <;> first | rfl | cases h

namespace WakeInv

variable {s : Sys N}

lemma of_eq {s' : Sys N} (h : WakeInv s) (hq : ∀ w, s'.worker w = .Waiting →
    s.worker w = .Waiting ∧ (s'.dev.qhead w.queue).sqhFirst = (s.dev.qhead w.queue).sqhFirst) :
    WakeInv s' := fun w hw => by rw [(hq w hw).2]; exact h w (hq w hw).1

lemma setWorker (h : WakeInv s) (w : Worker) (pc : WorkerPc N) (hpc : pc ≠ .Waiting) :
    WakeInv (s.setWorker w pc) :=
  h.of_eq fun w' hw' => by
    by_cases hw : w' = w
    · subst hw; simp at hw'; exact absurd hw' hpc
    · simp [Function.update_noteq hw] at hw'; exact ⟨hw', rfl⟩

/-- **An enqueue never leaves a worker asleep on a non-empty queue**: it signals the sleeper of
its own queue and leaves the other queues alone. -/
lemma enqueue (h : WakeInv s) (q : CbcQueueType) (r : Fin N) (b : Bool) :
    WakeInv (s.enqueue q r b) := by
  intro w hw
  have hq : q ≠ w.queue := by
    rintro rfl
    simp [Sys.enqueue] at hw
    exact WorkerPc.signal_ne_waiting _ hw
  have hw' : s.worker w = .Waiting := by
    cases hqw : q.waiter with
    | none => simpa [Sys.enqueue, hqw] using hw
    | some w' =>
      have : w' ≠ w := by
        rintro rfl
        cases w' <;> cases q <;> simp_all [CbcQueueType.waiter, Worker.queue]
      simpa [Sys.enqueue, hqw, Function.update_noteq this.symm] using hw
  simpa [cbcRequestEnqueue, IocDev.insert, Function.update_noteq hq.symm] using h w hw'

/-- Taking the head of a queue no sleeper waits on. -/
lemma removeHead (h : WakeInv s) {q : CbcQueueType}
    (hq : ∀ w, s.worker w = .Waiting → q ≠ w.queue) :
    WakeInv { s with dev := s.dev.removeHead q } :=
  h.of_eq fun w hw => ⟨hw, by simp [IocDev.removeHead, Function.update_noteq (hq w hw).symm]⟩

end WakeInv

lemma wakeInv_init : WakeInv (initSys N) := fun _ hw => by cases hw

/-- The step lemma: every step of every thread keeps `WakeInv`. -/
lemma WakeInv.step {K : IocConsts} {s s' : Sys N} {ev : Ev N} (h : WakeInv s)
    (hs : Step K s ev s') : WakeInv s' := by
  rcases hs with hs | ⟨w, hs⟩ | hs
  · cases hs with
    | ringFeed | buildDrop | txDrop | exit => exact h
    | buildTake _ _ _ hd | txTake _ _ hd =>
      obtain ⟨-, rfl⟩ := cbcRequestDequeue_free hd
      exact h.removeHead fun w _ => w.queue_ne_free.symm
    | buildPut | txRecvFail | txRecvOk => refine WakeInv.enqueue ?_ _ _ _; exact h
  · cases hs with
    | lock | nonEmpty | spurious | reacquire | recheckExit | recheckLoop | readyExit =>
      exact h.setWorker w _ (by simp)
    | wait _ he =>
      intro w' hw'
      by_cases hw : w' = w
      · subst hw; exact he
      · simp [Function.update_noteq hw] at hw'; exact h w' hw'
    | take hw =>
      refine WakeInv.setWorker (h.removeHead fun w' hw' he => ?_) w _ (by simp)
      rw [Worker.queue_injective he.symm, hw] at hw'
      cases hw'
    | forward | recycle =>
      refine WakeInv.enqueue (WakeInv.setWorker ?_ w .Top (by simp)) _ _ _; exact h
  · cases hs with
    | signalRx => exact h.setWorker .Rx _ (WorkerPc.signal_ne_waiting (s.worker .Rx))
    | signalTx => exact h.setWorker .Tx _ (WorkerPc.signal_ne_waiting (s.worker .Tx))
    | _ => exact h

/-- The run lemma: `WakeInv` holds in every reachable state. -/
lemma Reachable.wakeInv {K : IocConsts} {s : Sys N} (h : Reachable K s) : WakeInv s :=
  h.induction WakeInv wakeInv_init fun _ _ _ _ hi hs => hi.step hs

/-- **No lost wakeup.**  In every state an interleaving of the three threads and
`ioc_kill_workers` reaches, a worker blocked in `pthread_cond_wait` with no signal pending has an
empty queue: an enqueue is never left unserved while its worker sleeps. -/
theorem no_lost_wakeup {K : IocConsts} {s : Sys N} (h : Reachable K s) (w : Worker)
    (hw : s.worker w = .Waiting) : (s.dev.qhead w.queue).sqhFirst = none :=
  h.wakeInv w hw

/-- The rx worker, right after it starts, waits on its empty queue. -/
theorem no_lost_wakeup_rx_starts : ∃ s : Sys 1, Reachable ⟨1, 0, 0⟩ s ∧
    s.worker .Rx = .Waiting ∧ (s.dev.qhead Worker.Rx.queue).sqhFirst = none := by
  have hr : Run ⟨1, 0, 0⟩ (initSys 1) _ _ :=
    .cons (.worker .Rx (.lock rfl)) <| .cons (.worker .Rx (.wait rfl rfl)) <| .nil _
  exact ⟨_, ⟨_, hr⟩, rfl, no_lost_wakeup ⟨_, hr⟩ .Rx rfl⟩

/-! ## Shutdown -/

/-- How far `ioc_kill_workers` has got. -/
def KillPc.rank : KillPc → Nat
  | .Idle => 0
  | .CloseEpoll => 1
  | .JoinCore => 2
  | .SignalRx => 3
  | .JoinRx => 4
  | .SignalTx => 5
  | .JoinTx => 6
  | .Done => 7

/-- **The shutdown handshake** as the threads see it: whether `closing` is set, where
`ioc_kill_workers` is, and which threads have returned. -/
structure Shutdown where
  closing : Bool
  kill : KillPc
  coreDone : Bool
  rxDone : Bool
  txDone : Bool
  deriving DecidableEq, Repr

/-- Worker `w` has returned. -/
def Shutdown.exit (v : Shutdown) : Worker → Shutdown
  | .Rx => { v with rxDone := true }
  | .Tx => { v with txDone := true }

/-- The steps of the handshake: the core thread may return at any time (its `epoll_wait` fails),
a worker only once `closing` is set, and `ioc_kill_workers` takes its steps in order, each join
waiting for its thread to have returned. -/
inductive Shutdown.Step : Shutdown → Shutdown → Prop
  | coreExit (v : Shutdown) : Step v { v with coreDone := true }
  | workerExit (v : Shutdown) (w : Worker) (hc : v.closing = true) : Step v (v.exit w)
  | setClosing (v : Shutdown) (h : v.kill = .Idle) :
      Step v { v with closing := true, kill := .CloseEpoll }
  | closeEpoll (v : Shutdown) (h : v.kill = .CloseEpoll) : Step v { v with kill := .JoinCore }
  | joinCore (v : Shutdown) (h : v.kill = .JoinCore) (hc : v.coreDone = true) :
      Step v { v with kill := .SignalRx }
  | signalRx (v : Shutdown) (h : v.kill = .SignalRx) : Step v { v with kill := .JoinRx }
  | joinRx (v : Shutdown) (h : v.kill = .JoinRx) (hw : v.rxDone = true) :
      Step v { v with kill := .SignalTx }
  | signalTx (v : Shutdown) (h : v.kill = .SignalTx) : Step v { v with kill := .JoinTx }
  | joinTx (v : Shutdown) (h : v.kill = .JoinTx) (hw : v.txDone = true) :
      Step v { v with kill := .Done }

/-- **What the handshake guarantees**: `closing` is set exactly once `ioc_kill_workers` has
started, a worker has returned only if `closing` is set, and every thread `ioc_kill_workers` has
joined has returned. -/
structure Shutdown.Inv (v : Shutdown) : Prop where
  closing : v.closing = true ↔ v.kill ≠ .Idle
  rx_closing : v.rxDone = true → v.closing = true
  tx_closing : v.txDone = true → v.closing = true
  core : 3 ≤ v.kill.rank → v.coreDone = true
  rx : 5 ≤ v.kill.rank → v.rxDone = true
  tx : v.kill = .Done → v.txDone = true

lemma Shutdown.Inv.step {v v' : Shutdown} (h : v.Inv) (hs : Shutdown.Step v v') : v'.Inv := by
  obtain ⟨h₁, h₂, h₃, h₄, h₅, h₆⟩ := h
  cases hs with
  | coreExit => exact ⟨h₁, h₂, h₃, fun _ => rfl, h₅, h₆⟩
  | workerExit w hc =>
    cases w
    · exact ⟨h₁, fun _ => hc, h₃, h₄, fun _ => rfl, h₆⟩
    · exact ⟨h₁, h₂, fun _ => hc, h₄, h₅, fun _ => rfl⟩
  | setClosing h | closeEpoll h | joinCore h | signalRx h | joinRx h | signalTx h | joinTx h =>
    constructor <;> simp_all [KillPc.rank]

/-- **The handshake's purpose**: once `ioc_kill_workers` has finished, every thread has
returned. -/
lemma Shutdown.Inv.done {v : Shutdown} (h : v.Inv) (hd : v.kill = .Done) :
    v.coreDone = true ∧ v.rxDone = true ∧ v.txDone = true :=
  ⟨h.core (by simp [hd, KillPc.rank]), h.rx (by simp [hd, KillPc.rank]), h.tx hd⟩

/-- The handshake state of the mediator. -/
def Sys.shutdown (s : Sys N) : Shutdown :=
  ⟨s.closing, s.kill, decide (s.core = .Exited), decide (s.worker .Rx = .Exited),
    decide (s.worker .Tx = .Exited)⟩

lemma WorkerPc.signal_eq_exited (pc : WorkerPc N) : pc.signal = .Exited ↔ pc = .Exited := by
  cases pc <;> simp [WorkerPc.signal]

lemma Sys.setWorker_shutdown {s : Sys N} {w : Worker} {pc : WorkerPc N}
    (h : pc = .Exited ↔ s.worker w = .Exited) : (s.setWorker w pc).shutdown = s.shutdown := by
  cases w <;> simp [Sys.shutdown, Function.update_apply, h]

lemma Sys.setWorker_exit_shutdown (s : Sys N) (w : Worker) :
    (s.setWorker w .Exited).shutdown = s.shutdown.exit w := by
  cases w <;> simp [Sys.shutdown, Shutdown.exit, Function.update_apply]

lemma Sys.enqueue_shutdown (s : Sys N) (q : CbcQueueType) (r : Fin N) (b : Bool) :
    (s.enqueue q r b).shutdown = s.shutdown := by
  cases q <;> simp [Sys.enqueue, CbcQueueType.waiter, Sys.shutdown, Function.update_apply,
    WorkerPc.signal_eq_exited]

/-- **The thread model refines the handshake**: every step of every thread is a step of the
handshake, or leaves the handshake state as it is. -/
lemma Step.shutdown {K : IocConsts} {s s' : Sys N} {ev : Ev N} (hs : Step K s ev s') :
    s'.shutdown = s.shutdown ∨ Shutdown.Step s.shutdown s'.shutdown := by
  rcases hs with hs | ⟨w, hs⟩ | hs
  · cases hs with
    | ringFeed | buildDrop | txDrop => exact .inl rfl
    | buildTake _ _ h | txTake _ h => exact .inl (by simp [Sys.shutdown, h])
    | buildPut h | txRecvFail _ _ h | txRecvOk _ _ h =>
      exact .inl (by rw [Sys.enqueue_shutdown]; simp [Sys.shutdown, h])
    | exit => exact .inr (.coreExit _)
  · cases hs with
    | lock h | wait h | nonEmpty h | spurious h | reacquire h | recheckLoop h | take h =>
      exact .inl (Sys.setWorker_shutdown (by simp [h]))
    | recheckExit _ hc | readyExit _ hc =>
      exact .inr (Sys.setWorker_exit_shutdown s w ▸ .workerExit _ w hc)
    | forward _ h | recycle _ h =>
      exact .inl ((Sys.enqueue_shutdown _ _ _ _).trans (Sys.setWorker_shutdown (by simp [h])))
  · cases hs with
    | setClosing h => exact .inr (.setClosing _ h)
    | closeEpoll h => exact .inr (.closeEpoll _ h)
    | joinCore h hc => exact .inr (.joinCore _ h (by simp [Sys.shutdown, hc]))
    | signalRx h =>
      exact .inr (by simpa [Sys.shutdown, Function.update_apply, WorkerPc.signal_eq_exited]
        using Shutdown.Step.signalRx _ h)
    | joinRx h hw => exact .inr (.joinRx _ h (by simp [Sys.shutdown, hw]))
    | signalTx h =>
      exact .inr (by simpa [Sys.shutdown, Function.update_apply, WorkerPc.signal_eq_exited]
        using Shutdown.Step.signalTx _ h)
    | joinTx h hw => exact .inr (.joinTx _ h (by simp [Sys.shutdown, hw]))

lemma shutdownInv_init : (initSys N).shutdown.Inv := by
  constructor <;> simp [initSys, Sys.shutdown, KillPc.rank]

/-- The run lemma: the handshake's invariant holds in every reachable state. -/
lemma Reachable.shutdownInv {K : IocConsts} {s : Sys N} (h : Reachable K s) : s.shutdown.Inv :=
  h.induction (fun s => s.shutdown.Inv) shutdownInv_init
    fun _ _ _ _ hi hs => hs.shutdown.elim (fun e => (congrArg Shutdown.Inv e).mpr hi) hi.step

/-- A worker that has returned saw `closing` set. -/
lemma Shutdown.Inv.closing_of_exited {s : Sys N} (h : s.shutdown.Inv) {w : Worker}
    (hw : s.worker w = .Exited) : s.closing = true := by
  cases w
  · exact h.rx_closing (by simp [Sys.shutdown, hw])
  · exact h.tx_closing (by simp [Sys.shutdown, hw])

/-- **When `ioc_kill_workers` returns, the mediator is at rest**: the core thread and both
workers have returned, and every request slot is on exactly one of the three queues, none left in
a thread's hands. -/
theorem iocKillWorkers_done {K : IocConsts} {s : Sys N} (h : Reachable K s) (hd : s.kill = .Done) :
    s.core = .Exited ∧ (∀ w, s.worker w = .Exited) ∧
      ∃ L, Conserved s L ∧ ∀ i, queuedCount L i = 1 := by
  obtain ⟨hc, hrx, htx⟩ := h.shutdownInv.done hd
  simp only [Sys.shutdown, decide_eq_true_eq] at hc hrx htx
  have hw : ∀ w, s.worker w = .Exited := by rintro (_ | _) <;> assumption
  obtain ⟨evs, hr⟩ := h
  have hcons := conserved_init.run hr
  refine ⟨hc, hw, _, hcons, fun i => ?_⟩
  simpa [Sys.held, hc, hw, CorePc.held, WorkerPc.held] using hcons.once i

/-- `ioc_kill_workers` returns on the interleaving where both workers wait on their empty queues
when it signals them. -/
theorem iocKillWorkers_done_waiting : ∃ s : Sys 1, Reachable ⟨1, 0, 0⟩ s ∧ s.kill = .Done ∧
    s.core = .Exited ∧ (∀ w, s.worker w = .Exited) ∧
      ∃ L, Conserved s L ∧ ∀ i, queuedCount L i = 1 := by
  have hr : Run ⟨1, 0, 0⟩ (initSys 1) _ _ :=
    .cons (.worker .Rx (.lock rfl)) <| .cons (.worker .Rx (.wait rfl rfl)) <|
    .cons (.worker .Tx (.lock rfl)) <| .cons (.worker .Tx (.wait rfl rfl)) <|
    .cons (.kill (.setClosing rfl)) <| .cons (.kill (.closeEpoll rfl)) <|
    .cons (.core (.exit rfl)) <| .cons (.kill (.joinCore rfl rfl)) <|
    .cons (.kill (.signalRx rfl rfl)) <| .cons (.worker .Rx (.reacquire rfl)) <|
    .cons (.worker .Rx (.recheckExit rfl rfl)) <| .cons (.kill (.joinRx rfl rfl)) <|
    .cons (.kill (.signalTx rfl rfl)) <| .cons (.worker .Tx (.reacquire rfl)) <|
    .cons (.worker .Tx (.recheckExit rfl rfl)) <| .cons (.kill (.joinTx rfl rfl)) <| .nil _
  exact ⟨_, ⟨_, hr⟩, rfl, iocKillWorkers_done ⟨_, hr⟩ rfl⟩

/-- **`ioc_kill_workers` can hang on the rx worker**, whatever the pool size.  The core thread
builds the first free request onto the rx queue and the rx worker takes it.  While its handler
runs, `ioc_kill_workers` sets `closing`, joins the core thread and signals `rx_cond` with nobody
waiting.  The worker recycles the request, finds its queue empty and waits: `ioc_kill_workers` is
in `pthread_join` on it, `closing` is set, and no signal is pending. -/
theorem iocKillWorkers_rx_hangs : ∀ (K : IocConsts) (N : Nat), ∃ s : Sys (N + 1), Reachable K s ∧
    s.kill = .JoinRx ∧ s.worker .Rx = .Waiting ∧ s.closing = true := by
  intro K N
  -- the free queue of `ioc_init` starts with slot `0`
  have hfree : ((initSys (N + 1)).dev.qhead .Free).sqhFirst = some 0 := by
    have hp := ((conserved_init (N := N + 1)).shape .Free).path
    rw [show initLists (N + 1) .Free = 0 :: (List.finRange N).map Fin.succ from
      List.finRange_succ N] at hp
    exact hp.eq_some
  have h₁ : Step K (initSys (N + 1)) (.Deq .Free 0) { initSys (N + 1) with
      dev := (initSys (N + 1)).dev.removeHead .Free, core := .Building 0 0 0 } :=
    .core (.buildTake 0 0 rfl (by rw [cbcRequestDequeue, if_pos rfl, hfree]))
  have hr : Run K (initSys (N + 1)) _ _ :=
    .cons h₁ <|
    .cons (.core (.buildPut rfl rfl)) <|
    .cons (.worker .Rx (.lock rfl)) <|
    .cons (.worker .Rx (.nonEmpty rfl nofun)) <|
    .cons (.worker .Rx (.take rfl rfl rfl)) <|
    .cons (.kill (.setClosing rfl)) <|
    .cons (.kill (.closeEpoll rfl)) <|
    .cons (.core (.exit rfl)) <|
    .cons (.kill (.joinCore rfl rfl)) <|
    .cons (.kill (.signalRx rfl rfl)) <|
    .cons (.worker .Rx (.recycle zeroRequest rfl)) <|
    .cons (.worker .Rx (.lock rfl)) <|
    .cons (.worker .Rx (.wait rfl rfl)) <| .nil _
  exact ⟨_, ⟨_, hr⟩, rfl, rfl, rfl⟩

end Ioc
