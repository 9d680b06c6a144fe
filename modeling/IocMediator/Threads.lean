import IocMediator.Request

/-!
# The core thread, the two workers, and `ioc_kill_workers`

The mediator runs three threads over one `struct ioc_dev`.  A state `Sys` is the device, where
each thread is in its code, the `closing` flag and where `ioc_kill_workers` is.  A step is one
critical section of one thread; an interleaving is any sequence of steps (`Run`).

* `IocCoreThread`: the epoll loop.  `ioc_process_rx` feeds the ring through the CBC codec, which
  may call `ioc_build_request`; `ioc_process_tx` reads a native channel into a free request.  Both
  hold the request they took off the free queue until they enqueue it.
* `IocWorkerThread w`: `ioc_rx_thread` for `w = .Rx`, `ioc_tx_thread` for `w = .Tx`.  Every place
  where the loop can be preempted is a program counter of `WorkerPc`: the `while` test under the
  mutex, the wait, the two `closing` tests, and the handler run outside the mutex.  The handler
  is arbitrary: it may rewrite the request and choose either routing.
* `IocKillWorkers`: set `closing`, close the epoll fd, join the core thread, then for each worker
  signal its condition variable under its mutex and join it.

A condition variable is the waiter's state: `pthread_cond_signal` turns `Waiting` into `Woken`
and is lost on any other state (`WorkerPc.signal`), and a waiter may wake spuriously.  A worker's
mutex is held only by that worker between steps (`WorkerPc.holdsMutex`), so every other critical
section on its queue waits for it to be free (`Sys.mtxFree`).

Each step is labelled by what it did to a queue (`Ev`): which slot it put where, and on whose
behalf, or which slot it took off the head.

The core thread's take and put are two steps here, since a worker may run between them: the take
is `cbcRequestDequeue`, the put `buildRequestFill` or `processTxFill` followed by
`cbcRequestEnqueue`, the pieces `iocBuildRequest` and `iocProcessTx` are made of.
-/

namespace Ioc

variable {N : Nat}

/-- The two worker threads. -/
inductive Worker where
  | Rx
  | Tx
  deriving DecidableEq, Repr

/-- The queue a worker serves. -/
def Worker.queue : Worker → CbcQueueType
  | .Rx => .Rx
  | .Tx => .Tx

/-- The worker a handler forwards to. -/
def Worker.opposite : Worker → Worker
  | .Rx => .Tx
  | .Tx => .Rx

/-- Who waits on a queue's condition variable; the free queue has none. -/
def CbcQueueType.waiter : CbcQueueType → Option Worker
  | .Rx => some .Rx
  | .Tx => some .Tx
  | .Free => none

@[simp] lemma Worker.queue_waiter (w : Worker) : w.queue.waiter = some w := by cases w <;> rfl

/-- Where a worker is in its loop. -/
inductive WorkerPc (N : Nat) where
  /-- at `pthread_mutex_lock` at the top of `for (;;)` -/
  | Top
  /-- holds the mutex, at the `while (SIMPLEQ_EMPTY (...))` test -/
  | Check
  /-- blocked in `pthread_cond_wait`, the mutex released, no signal delivered -/
  | Waiting
  /-- signalled, or woken spuriously: reacquiring the mutex -/
  | Woken
  /-- holds the mutex after the wait, at `if (ioc->closing) goto exit` inside the loop -/
  | Recheck
  /-- holds the mutex, queue not empty, at `if (ioc->closing) goto exit` after the loop -/
  | Ready
  /-- dequeued `r` and released the mutex: runs the handler and routes `r` -/
  | Busy (r : Fin N)
  /-- returned -/
  | Exited
  deriving DecidableEq, Repr

/-- The worker holds its queue's mutex. -/
def WorkerPc.holdsMutex : WorkerPc N → Bool
  | .Check | .Recheck | .Ready => true
  | _ => false

/-- `pthread_cond_signal` as the waiter sees it: wakes a waiting worker, is lost otherwise. -/
def WorkerPc.signal : WorkerPc N → WorkerPc N
  | .Waiting => .Woken
  | pc => pc

/-- Where the core thread is. -/
inductive CorePc (N : Nat) where
  /-- in the `epoll_wait` loop -/
  | Polling
  /-- in `ioc_build_request`, holding `r` between its dequeue and its enqueue -/
  | Building (r : Fin N) (linkLen srvLen : Int)
  /-- in `ioc_process_tx` for channel `id`, holding `r` between its dequeue and its enqueue -/
  | Receiving (r : Fin N) (id : IocChId)
  /-- returned, after `epoll_wait` failed -/
  | Exited
  deriving DecidableEq, Repr

/-- Where `ioc_kill_workers` is. -/
inductive KillPc where
  /-- not called -/
  | Idle
  /-- `closing = 1` done, about to close the epoll fd -/
  | CloseEpoll
  /-- in `pthread_join (ioc->tid)` -/
  | JoinCore
  /-- about to lock `rx_mtx` and signal `rx_cond` -/
  | SignalRx
  /-- in `pthread_join (ioc->rx_tid)` -/
  | JoinRx
  /-- about to lock `tx_mtx` and signal `tx_cond` -/
  | SignalTx
  /-- in `pthread_join (ioc->tx_tid)` -/
  | JoinTx
  /-- every thread joined -/
  | Done
  deriving DecidableEq, Repr

/-- The mediator's shared state, and where each thread is. -/
structure Sys (N : Nat) where
  dev : IocDev N
  core : CorePc N
  worker : Worker → WorkerPc N
  closing : Bool
  kill : KillPc

/-- Who performed an enqueue. -/
inductive Thread where
  | Core
  | Worker (w : Worker)
  deriving DecidableEq, Repr

/-- What a step did to the queues. -/
inductive Ev (N : Nat) where
  /-- `cbc_request_enqueue` of `r` on `q`, by `p`, at the head or the tail -/
  | Enq (q : CbcQueueType) (r : Fin N) (p : Thread) (toHead : Bool)
  /-- `r` taken off the head of `q` -/
  | Deq (q : CbcQueueType) (r : Fin N)
  /-- no queue touched -/
  | Tau
  deriving DecidableEq, Repr

/-! ## State updates -/

/-- Move worker `w` to `pc`. -/
def Sys.setWorker (s : Sys N) (w : Worker) (pc : WorkerPc N) : Sys N :=
  { s with worker := Function.update s.worker w pc }

/-- No worker holds the mutex of queue `q`: the free queue's is only held inside one step. -/
def Sys.mtxFree (s : Sys N) (q : CbcQueueType) : Bool :=
  match q.waiter with
  | none => true
  | some w => !(s.worker w).holdsMutex

/-- `cbc_request_enqueue` of `r` with its signal: the splice, then `pthread_cond_signal` on the
queue's condition variable when it has one. -/
def Sys.enqueue (s : Sys N) (q : CbcQueueType) (r : Fin N) (toHead : Bool) : Sys N :=
  { s with
    dev := cbcRequestEnqueue s.dev (some r) q toHead
    worker := match q.waiter with
      | none => s.worker
      | some w => Function.update s.worker w (s.worker w).signal }

@[simp] lemma Sys.setWorker_dev (s : Sys N) (w : Worker) (pc : WorkerPc N) :
    (s.setWorker w pc).dev = s.dev := rfl
@[simp] lemma Sys.setWorker_core (s : Sys N) (w : Worker) (pc : WorkerPc N) :
    (s.setWorker w pc).core = s.core := rfl
@[simp] lemma Sys.setWorker_closing (s : Sys N) (w : Worker) (pc : WorkerPc N) :
    (s.setWorker w pc).closing = s.closing := rfl
@[simp] lemma Sys.setWorker_kill (s : Sys N) (w : Worker) (pc : WorkerPc N) :
    (s.setWorker w pc).kill = s.kill := rfl
@[simp] lemma Sys.setWorker_worker (s : Sys N) (w : Worker) (pc : WorkerPc N) :
    (s.setWorker w pc).worker = Function.update s.worker w pc := rfl

@[simp] lemma Sys.enqueue_dev (s : Sys N) (q : CbcQueueType) (r : Fin N) (b : Bool) :
    (s.enqueue q r b).dev = s.dev.insert q r b := rfl
@[simp] lemma Sys.enqueue_core (s : Sys N) (q : CbcQueueType) (r : Fin N) (b : Bool) :
    (s.enqueue q r b).core = s.core := rfl
@[simp] lemma Sys.enqueue_closing (s : Sys N) (q : CbcQueueType) (r : Fin N) (b : Bool) :
    (s.enqueue q r b).closing = s.closing := rfl
@[simp] lemma Sys.enqueue_kill (s : Sys N) (q : CbcQueueType) (r : Fin N) (b : Bool) :
    (s.enqueue q r b).kill = s.kill := rfl

/-! ## The threads -/

section Steps

variable (K : IocConsts)

/-- One critical section of `ioc_core_thread`, with `ioc_dispatch`, `ioc_process_rx`,
`ioc_build_request` and `ioc_process_tx`. -/
inductive IocCoreThread : Sys N → Ev N → Sys N → Prop
  /-- `ioc_process_rx`: one byte into the ring; the CBC codec moves the ring as it likes. -/
  | ringFeed {s : Sys N} (ring : CbcRing) (h : s.core = .Polling) :
      IocCoreThread s .Tau { s with dev := { s.dev with ring := ring } }
  /-- `ioc_build_request` on an empty free queue: the frame is dropped. -/
  | buildDrop {s : Sys N} (h : s.core = .Polling) (he : (s.dev.qhead .Free).sqhFirst = none) :
      IocCoreThread s .Tau s
  /-- `ioc_build_request` takes the free queue's head. -/
  | buildTake {s : Sys N} {r : Fin N} {d : IocDev N} (linkLen srvLen : Int)
      (h : s.core = .Polling) (hd : cbcRequestDequeue s.dev .Free = (some r, d)) :
      IocCoreThread s (.Deq .Free r) { s with dev := d, core := .Building r linkLen srvLen }
  /-- `ioc_build_request` fills the request from the ring and appends it to the rx queue. -/
  | buildPut {s : Sys N} {r : Fin N} {linkLen srvLen : Int}
      (h : s.core = .Building r linkLen srvLen) (hm : s.mtxFree .Rx) :
      IocCoreThread s (.Enq .Rx r .Core false)
        ({ s with dev := buildRequestFill K.ringBufferSize s.dev r linkLen srvLen,
                  core := .Polling }.enqueue .Rx r false)
  /-- `ioc_process_tx` on an empty free queue: the data is dropped. -/
  | txDrop {s : Sys N} (h : s.core = .Polling) (he : (s.dev.qhead .Free).sqhFirst = none) :
      IocCoreThread s .Tau s
  /-- `ioc_process_tx` for native channel `id` takes the free queue's head. -/
  | txTake {s : Sys N} {r : Fin N} {d : IocDev N} (id : IocChId) (h : s.core = .Polling)
      (hd : cbcRequestDequeue s.dev .Free = (some r, d)) :
      IocCoreThread s (.Deq .Free r) { s with dev := d, core := .Receiving r id }
  /-- `ioc_ch_recv` got nothing: the request goes back to the free queue. -/
  | txRecvFail {s : Sys N} {r : Fin N} {id : IocChId} (fd : Int) (rd : ReadRet)
      (h : s.core = .Receiving r id) (hc : (iocChRecv fd K.maxServiceSize rd).1 ≤ 0) :
      IocCoreThread s (.Enq .Free r .Core false)
        ({ s with core := .Polling }.enqueue .Free r false)
  /-- `ioc_ch_recv` read a service frame: the request goes to the tx queue's tail. -/
  | txRecvOk {s : Sys N} {r : Fin N} {id : IocChId} (fd : Int) (rd : ReadRet)
      (h : s.core = .Receiving r id) (hc : 0 < (iocChRecv fd K.maxServiceSize rd).1)
      (hm : s.mtxFree .Tx) :
      IocCoreThread s (.Enq .Tx r .Core false)
        ({ s with dev := processTxFill K s.dev r id (iocChRecv fd K.maxServiceSize rd).1
                    (iocChRecv fd K.maxServiceSize rd).2,
                  core := .Polling }.enqueue .Tx r false)
  /-- `epoll_wait` failed with something other than `EINTR`. -/
  | exit {s : Sys N} (h : s.core = .Polling) : IocCoreThread s .Tau { s with core := .Exited }

end Steps

/-- One critical section of a worker's loop: `ioc_rx_thread` for `w = .Rx`, `ioc_tx_thread` for
`w = .Tx`. -/
inductive IocWorkerThread (w : Worker) : Sys N → Ev N → Sys N → Prop
  /-- `pthread_mutex_lock` at the top of the loop. -/
  | lock {s : Sys N} (h : s.worker w = .Top) : IocWorkerThread w s .Tau (s.setWorker w .Check)
  /-- The queue is empty: `pthread_cond_wait` releases the mutex and blocks. -/
  | wait {s : Sys N} (h : s.worker w = .Check) (he : (s.dev.qhead w.queue).sqhFirst = none) :
      IocWorkerThread w s .Tau (s.setWorker w .Waiting)
  /-- The queue is not empty: the `while` loop ends. -/
  | nonEmpty {s : Sys N} (h : s.worker w = .Check) (he : (s.dev.qhead w.queue).sqhFirst ≠ none) :
      IocWorkerThread w s .Tau (s.setWorker w .Ready)
  /-- A spurious wakeup. -/
  | spurious {s : Sys N} (h : s.worker w = .Waiting) :
      IocWorkerThread w s .Tau (s.setWorker w .Woken)
  /-- `pthread_cond_wait` returns with the mutex held again. -/
  | reacquire {s : Sys N} (h : s.worker w = .Woken) :
      IocWorkerThread w s .Tau (s.setWorker w .Recheck)
  /-- `if (ioc->closing) goto exit` after the wait: unlock and return. -/
  | recheckExit {s : Sys N} (h : s.worker w = .Recheck) (hc : s.closing = true) :
      IocWorkerThread w s .Tau (s.setWorker w .Exited)
  /-- Not closing: back to the `while` test. -/
  | recheckLoop {s : Sys N} (h : s.worker w = .Recheck) (hc : s.closing = false) :
      IocWorkerThread w s .Tau (s.setWorker w .Check)
  /-- `if (ioc->closing) goto exit` after the loop: unlock and return. -/
  | readyExit {s : Sys N} (h : s.worker w = .Ready) (hc : s.closing = true) :
      IocWorkerThread w s .Tau (s.setWorker w .Exited)
  /-- `SIMPLEQ_FIRST`, `SIMPLEQ_REMOVE_HEAD`, unlock. -/
  | take {s : Sys N} {r : Fin N} (h : s.worker w = .Ready) (hc : s.closing = false)
      (hf : (s.dev.qhead w.queue).sqhFirst = some r) :
      IocWorkerThread w s (.Deq w.queue r)
        ({ s with dev := s.dev.removeHead w.queue }.setWorker w (.Busy r))
  /-- The handler set `packet.qtype` to the other worker's queue: head insertion there. -/
  | forward {s : Sys N} {r : Fin N} (req : CbcRequest) (h : s.worker w = .Busy r)
      (hm : s.mtxFree w.opposite.queue) :
      IocWorkerThread w s (.Enq w.opposite.queue r (.Worker w) true)
        (({ s with dev := { s.dev with pool := Function.update s.dev.pool r req } }.setWorker w .Top
          ).enqueue w.opposite.queue r true)
  /-- Any other `packet.qtype`: tail insertion on the free queue. -/
  | recycle {s : Sys N} {r : Fin N} (req : CbcRequest) (h : s.worker w = .Busy r) :
      IocWorkerThread w s (.Enq .Free r (.Worker w) false)
        (({ s with dev := { s.dev with pool := Function.update s.dev.pool r req } }.setWorker w .Top
          ).enqueue .Free r false)

/-- `ioc_rx_thread`: the worker on the rx queue, forwarding to the tx queue. -/
abbrev IocRxThread : Sys N → Ev N → Sys N → Prop := IocWorkerThread .Rx

/-- `ioc_tx_thread`: the worker on the tx queue, forwarding to the rx queue. -/
abbrev IocTxThread : Sys N → Ev N → Sys N → Prop := IocWorkerThread .Tx

/-- One step of `ioc_kill_workers`. -/
inductive IocKillWorkers : Sys N → Ev N → Sys N → Prop
  /-- `ioc->closing = 1`. -/
  | setClosing {s : Sys N} (h : s.kill = .Idle) :
      IocKillWorkers s .Tau { s with closing := true, kill := .CloseEpoll }
  /-- `close (ioc->epfd)`. -/
  | closeEpoll {s : Sys N} (h : s.kill = .CloseEpoll) :
      IocKillWorkers s .Tau { s with kill := .JoinCore }
  /-- `pthread_join (ioc->tid)` returns. -/
  | joinCore {s : Sys N} (h : s.kill = .JoinCore) (hc : s.core = .Exited) :
      IocKillWorkers s .Tau { s with kill := .SignalRx }
  /-- Lock `rx_mtx`, `pthread_cond_signal (&ioc->rx_cond)`, unlock. -/
  | signalRx {s : Sys N} (h : s.kill = .SignalRx) (hm : s.mtxFree .Rx) :
      IocKillWorkers s .Tau { s.setWorker .Rx (s.worker .Rx).signal with kill := .JoinRx }
  /-- `pthread_join (ioc->rx_tid)` returns. -/
  | joinRx {s : Sys N} (h : s.kill = .JoinRx) (hw : s.worker .Rx = .Exited) :
      IocKillWorkers s .Tau { s with kill := .SignalTx }
  /-- Lock `tx_mtx`, `pthread_cond_signal (&ioc->tx_cond)`, unlock. -/
  | signalTx {s : Sys N} (h : s.kill = .SignalTx) (hm : s.mtxFree .Tx) :
      IocKillWorkers s .Tau { s.setWorker .Tx (s.worker .Tx).signal with kill := .JoinTx }
  /-- `pthread_join (ioc->tx_tid)` returns. -/
  | joinTx {s : Sys N} (h : s.kill = .JoinTx) (hw : s.worker .Tx = .Exited) :
      IocKillWorkers s .Tau { s with kill := .Done }

/-- One step of any of the threads. -/
inductive Step (K : IocConsts) : Sys N → Ev N → Sys N → Prop
  | core {s s' : Sys N} {ev : Ev N} : IocCoreThread K s ev s' → Step K s ev s'
  | worker {s s' : Sys N} {ev : Ev N} (w : Worker) : IocWorkerThread w s ev s' → Step K s ev s'
  | kill {s s' : Sys N} {ev : Ev N} : IocKillWorkers s ev s' → Step K s ev s'

/-- An interleaving: the steps taken, in order. -/
inductive Run (K : IocConsts) : Sys N → List (Ev N) → Sys N → Prop
  | nil (s : Sys N) : Run K s [] s
  | cons {s s' s'' : Sys N} {ev : Ev N} {evs : List (Ev N)} :
      Step K s ev s' → Run K s' evs s'' → Run K s (ev :: evs) s''

lemma Run.append {K : IocConsts} {s s' s'' : Sys N} {evs evs' : List (Ev N)} (h : Run K s evs s')
    (h' : Run K s' evs' s'') : Run K s (evs ++ evs') s'' := by
  induction h with
  | nil => exact h'
  | cons hs _ ih => exact .cons hs (ih h')

lemma Run.split {K : IocConsts} {s s'' : Sys N} {evs evs' : List (Ev N)}
    (h : Run K s (evs ++ evs') s'') : ∃ s', Run K s evs s' ∧ Run K s' evs' s'' := by
  induction evs generalizing s with
  | nil => exact ⟨s, .nil s, h⟩
  | cons ev evs ih =>
    cases h with
    | cons hs hr =>
      obtain ⟨s', h1, h2⟩ := ih hr
      exact ⟨s', .cons hs h1, h2⟩

/-! ## The state `ioc_init` starts the threads in -/

/-- A request as `calloc` leaves it. -/
def zeroRequest : CbcRequest := ⟨fun _ => 0, 0, 0, .NativePmt⟩

/-- `SIMPLEQ_INSERT_TAIL` of the slots `l`, one after the other. -/
def insertTails (acc : Links N × CbcQhead N) (l : List (Fin N)) : Links N × CbcQhead N :=
  l.foldl (fun acc i => simpleqInsertTail acc.1 acc.2 i) acc

/-- The device after `ioc_init`: every slot on the free queue in pool order, the other queues
empty, the pool and the ring as `calloc` left them. -/
def initDev (N : Nat) : IocDev N :=
  let free := insertTails ((fun _ => none), simpleqInit) (List.finRange N)
  { pool := fun _ => zeroRequest
    next := free.1
    qhead := fun q => if q = .Free then free.2 else simpleqInit
    ring := ⟨fun _ => 0, 0, 0⟩ }

/-- The state when `ioc_init` returns: the three threads at the top of their loops. -/
def initSys (N : Nat) : Sys N :=
  ⟨initDev N, .Polling, fun _ => .Top, false, .Idle⟩

/-- The states some interleaving reaches from `initSys`. -/
def Reachable (K : IocConsts) (s : Sys N) : Prop :=
  ∃ evs, Run K (initSys N) evs s

lemma Reachable.step {K : IocConsts} {s s' : Sys N} {ev : Ev N} (h : Reachable K s)
    (hs : Step K s ev s') : Reachable K s' := by
  obtain ⟨evs, hr⟩ := h
  exact ⟨evs ++ [ev], hr.append (.cons hs (.nil _))⟩

/-- **Every run lemma from a step lemma**: a property of `initSys` that every step keeps holds in
every reachable state. -/
lemma Reachable.induction {K : IocConsts} (P : Sys N → Prop) (h0 : P (initSys N))
    (hs : ∀ s ev s', Reachable K s → P s → Step K s ev s' → P s') {s : Sys N}
    (h : Reachable K s) : P s := by
  obtain ⟨evs, hr⟩ := h
  suffices ∀ s₀ evs s, Reachable K s₀ → P s₀ → Run K s₀ evs s → P s from
    this _ _ _ ⟨[], .nil _⟩ h0 hr
  intro s₀ evs s hreach hp hr
  induction hr with
  | nil => exact hp
  | cons hst _ ih => exact ih (hreach.step hst) (hs _ _ _ hreach hp hst)

end Ioc
