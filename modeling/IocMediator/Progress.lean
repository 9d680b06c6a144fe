import IocMediator.Wakeup
import IocMediator.Ordering

/-!
# Progress: no request is stranded

Before shutdown, from every reachable state, every request can come back to the free queue
(`request_returns_free`), and all of them together (`mediator_returns_idle`): the cycle of a
request through `ioc_build_request` or `ioc_process_tx`, the rx and tx queues and the workers
never gets stuck, whatever the interleaving so far.  The handlers `cbc_rx_handler` and
`cbc_tx_handler` are not part of `ioc.c`; the result is for handlers that recycle every request
they take (the runs built here forward nothing: `Recycling`), and for whatever the read pending in
`ioc_process_tx` returns: its request goes where `ioc_process_tx` sends it after that read
(`readQueue`).  Each thread's part of such a run is a run of that thread alone (`ThreadRun`), and
the runs take nothing off the free queue (`FreeRun`), so a request that is back stays back.

* `worker_progress`: a worker whose queue has work takes its head by its own steps, whatever it
  was doing, and takes nothing else off its queue on the way.  It cannot be asleep with work
  queued (`Reachable.wakeInv`), nor have returned while `closing` is clear
  (`Reachable.shutdownInv`).
* `ReadyInv`: a worker past its `while` test, the mutex still held, has work queued.  So a worker
  lets go of its mutex by its own steps (`mtx_release`), and the core thread's enqueue onto its
  queue can go ahead.
* `drain_queue`: a worker takes and recycles the requests ahead of any request on its queue, and
  then that one.

The core thread's request goes onto a worker's queue once that worker has let go of its mutex,
and the worker drains it (`returns_through`): from `ioc_build_request` onto the rx queue, from
`ioc_process_tx` onto the tx queue when the read got a frame; a failed read puts it straight back
(`returns_of_core`).  A worker's request is recycled; a queued one is drained.
-/

namespace Ioc

variable {N : Nat}

/-! ## Runs of one thread -/

/-- An interleaving in which only thread `t` steps. -/
inductive ThreadRun (K : IocConsts) (t : Thread) : Sys N → List (Ev N) → Sys N → Prop
  | nil (s : Sys N) : ThreadRun K t s [] s
  | cons {s s' s'' : Sys N} {ev : Ev N} {evs : List (Ev N)} :
      ThreadStep K t s ev s' → ThreadRun K t s' evs s'' → ThreadRun K t s (ev :: evs) s''

section Runs

variable {K : IocConsts} {s s' s'' : Sys N} {ev : Ev N} {evs : List (Ev N)} {w : Worker}

lemma ThreadRun.worker (hs : IocWorkerThread w s ev s') (h : ThreadRun K (.Worker w) s' evs s'') :
    ThreadRun K (.Worker w) s (ev :: evs) s'' :=
  .cons hs h

lemma ThreadRun.run {t : Thread} (h : ThreadRun K t s evs s') : Run K s evs s' := by
  induction h with
  | nil => exact .nil _
  | cons hs _ ih =>
    rcases t with _ | w
    · exact .cons (.core hs) ih
    · exact .cons (.worker w hs) ih

lemma IocWorkerThread.frame (hs : IocWorkerThread w s ev s') :
    s'.closing = s.closing ∧ s'.core = s.core ∧ s'.kill = s.kill := by
  cases hs <;> exact ⟨rfl, rfl, rfl⟩

/-- A worker's steps change neither `closing`, the core thread, nor `ioc_kill_workers`. -/
lemma ThreadRun.worker_frame (h : ThreadRun K (.Worker w) s evs s') :
    s'.closing = s.closing ∧ s'.core = s.core ∧ s'.kill = s.kill := by
  induction h with
  | nil => exact ⟨rfl, rfl, rfl⟩
  | cons hs _ ih =>
    have e := IocWorkerThread.frame hs
    exact ⟨ih.1.trans e.1, ih.2.1.trans e.2.1, ih.2.2.trans e.2.2⟩

/-- A worker's steps take nothing off the free queue and are not the core thread's. -/
lemma ThreadRun.worker_labels (h : ThreadRun K (.Worker w) s evs s') :
    ∀ ev ∈ evs, (∀ r, ev ≠ .Deq .Free r) ∧ ∀ q r b, ev ≠ .Enq q r .Core b := by
  induction h with
  | nil => simp
  | cons hs _ ih =>
    refine List.forall_mem_cons.2 ⟨?_, ih⟩
    change IocWorkerThread w _ _ _ at hs
    cases hs <;> simp [w.queue_ne_free]

lemma Reachable.run (h : Reachable K s) (hr : Run K s evs s') : Reachable K s' :=
  let ⟨e, h₀⟩ := h
  ⟨e ++ evs, h₀.append hr⟩

lemma Reachable.conserved (h : Reachable K s) : ∃ L, Conserved s L :=
  let ⟨_, hr⟩ := h
  ⟨_, conserved_init.run hr⟩

/-- No step of `evs` inserts at a queue's head: no handler in it forwards. -/
def Recycling (evs : List (Ev N)) : Prop := ∀ q r p, .Enq q r p true ∉ evs

/-- An interleaving that takes nothing off the free queue, leaves `closing` as it was and forwards
nothing, and in which the core thread puts requests only on the rx queue and on `q`. -/
structure FreeRun (K : IocConsts) (q : CbcQueueType) (s : Sys N) (evs : List (Ev N)) (s' : Sys N) :
    Prop where
  run : Run K s evs s'
  closing : s'.closing = s.closing
  keep : ∀ r, .Deq .Free r ∉ evs
  recycles : Recycling evs
  core_puts : ∀ q' r, .Enq q' r .Core false ∈ evs → q' = .Rx ∨ q' = q

variable {q : CbcQueueType}

lemma FreeRun.nil (s : Sys N) : FreeRun K q s [] s :=
  ⟨.nil _, rfl, by simp, by simp [Recycling], by simp⟩

lemma FreeRun.append {evs' : List (Ev N)} (h : FreeRun K q s evs s')
    (h' : FreeRun K q s' evs' s'') : FreeRun K q s (evs ++ evs') s'' :=
  ⟨h.run.append h'.run, h'.closing.trans h.closing,
    fun r hr => (List.mem_append.1 hr).elim (h.keep r) (h'.keep r),
    fun q' r p hr => (List.mem_append.1 hr).elim (h.recycles q' r p) (h'.recycles q' r p),
    fun q' r hr => (List.mem_append.1 hr).elim (h.core_puts q' r) (h'.core_puts q' r)⟩

lemma FreeRun.enq {q' : CbcQueueType} {r : Fin N} {p : Thread}
    (hs : Step K s (.Enq q' r p false) s') (hc : s'.closing = s.closing)
    (hq : p = .Core → q' = .Rx ∨ q' = q) : FreeRun K q s [.Enq q' r p false] s' := by
  refine ⟨.cons hs (.nil _), hc, by simp, by simp [Recycling], ?_⟩
  simp only [List.mem_singleton, Ev.Enq.injEq]
  rintro q'' r' ⟨rfl, -, rfl, -⟩
  exact hq rfl

lemma ThreadRun.freeRun (h : ThreadRun K (.Worker w) s evs s') (hf : Recycling evs) :
    FreeRun K q s evs s' :=
  ⟨h.run, h.worker_frame.1, fun r hr => (h.worker_labels _ hr).1 r rfl, hf,
    fun q' r hr => absurd rfl ((h.worker_labels _ hr).2 q' r false)⟩

/-- A request on the free queue stays there. -/
lemma FreeRun.mem_free {L : CbcQueueType → List (Fin N)} {L' : CbcQueueType → List (Fin N)}
    {i : Fin N} (h : FreeRun K q s evs s') (hL : Conserved s L) (hL' : Conserved s' L')
    (hi : i ∈ L .Free) : i ∈ L' .Free :=
  (hL.run h.run).lists_eq hL' ▸ mem_persists hL h.run hi (h.keep i)

end Runs

/-! ## A worker takes the head of its queue -/

/-- From the `while` test with the mutex held and work queued, the worker takes the head. -/
lemma take_of_check {K : IocConsts} {w : Worker} {s : Sys N} {r : Fin N}
    (hw : s.worker w = .Check) (hc : s.closing = false)
    (hr : (s.dev.qhead w.queue).sqhFirst = some r) :
    ∃ s', ThreadRun K (.Worker w) s [.Tau, .Deq w.queue r] s' ∧ s'.worker w = .Busy r :=
  ⟨_, .worker (.nonEmpty hw (by simp [hr])) (.worker (.take (by simp) hc hr) (.nil _)), by simp⟩

/-- **A worker with work never waits on another thread.**  Before shutdown, from every reachable
state in which worker `w`'s queue is not empty, `w`'s own steps take the queue's head, whatever
`w` was doing, and take nothing else off its queue: a handler still running recycles its request
first, a worker cannot be asleep with work queued, and it cannot have returned while `closing` is
clear. -/
theorem worker_progress {K : IocConsts} {s : Sys N} (h : Reachable K s) (w : Worker)
    (hc : s.closing = false) {r : Fin N} (hr : (s.dev.qhead w.queue).sqhFirst = some r) :
    ∃ evs s', ThreadRun K (.Worker w) s evs s' ∧ Recycling evs ∧ s'.worker w = .Busy r ∧
      ∀ L : CbcQueueType → List (Fin N), (evs.foldl applyEv L) w.queue = (L w.queue).tail := by
  cases hw : s.worker w with
  | Top =>
    obtain ⟨s', h', e⟩ := take_of_check (K := K) (s := s.setWorker w .Check) (by simp) hc hr
    exact ⟨_, s', .worker (.lock hw) h', by simp [Recycling], e, fun L => by simp [applyEv]⟩
  | Check =>
    obtain ⟨s', h', e⟩ := take_of_check (K := K) hw hc hr
    exact ⟨_, s', h', by simp [Recycling], e, fun L => by simp [applyEv]⟩
  | Waiting => simp [h.wakeInv w hw] at hr
  | Woken =>
    obtain ⟨s', h', e⟩ := take_of_check (K := K)
      (s := (s.setWorker w .Recheck).setWorker w .Check) (by simp) hc hr
    exact ⟨_, s', .worker (.reacquire hw) (.worker (.recheckLoop (by simp) hc) h'),
      by simp [Recycling], e, fun L => by simp [applyEv]⟩
  | Recheck =>
    obtain ⟨s', h', e⟩ := take_of_check (K := K) (s := s.setWorker w .Check) (by simp) hc hr
    exact ⟨_, s', .worker (.recheckLoop hw hc) h', by simp [Recycling], e,
      fun L => by simp [applyEv]⟩
  | Ready =>
    exact ⟨_, _, .worker (.take hw hc hr) (.nil _), by simp [Recycling], by simp,
      fun L => by simp [applyEv]⟩
  | Busy r' =>
    -- the handler recycles its request to the free queue, which leaves `w`'s queue alone
    let s₀ : Sys N :=
      { s with dev := { s.dev with pool := Function.update s.dev.pool r' (s.dev.pool r') } }
    let s₁ := (s₀.setWorker w .Top).enqueue .Free r' false
    have hr₁ : (s₁.dev.qhead w.queue).sqhFirst = some r := by
      cases w <;> simpa [s₁, s₀, IocDev.insert, Function.update_apply, Worker.queue] using hr
    obtain ⟨s', h', e⟩ := take_of_check (K := K) (s := s₁.setWorker w .Check) (by simp) hc hr₁
    exact ⟨_, s', .worker (.recycle _ hw)
      (.worker (.lock (by simp [s₁, Sys.enqueue, CbcQueueType.waiter])) h'), by simp [Recycling],
      e, fun L => by simp [applyEv, Function.update_noteq w.queue_ne_free]⟩
  | Exited => simp [h.shutdownInv.closing_of_exited hw] at hc

/-! ## A worker lets go of its mutex -/

/-- **A worker past its `while` test, the mutex still held, has work queued.** -/
def ReadyInv (s : Sys N) : Prop :=
  ∃ L, Conserved s L ∧ ∀ w, s.worker w = .Ready → L w.queue ≠ []

lemma WorkerPc.signal_eq_ready (pc : WorkerPc N) : pc.signal = .Ready ↔ pc = .Ready := by
  cases pc <;> simp [WorkerPc.signal]

lemma Sys.enqueue_worker_ready {s : Sys N} {q : CbcQueueType} {r : Fin N} {b : Bool}
    {w : Worker} : (s.enqueue q r b).worker w = .Ready ↔ s.worker w = .Ready := by
  cases q <;> cases w <;>
    simp [Sys.enqueue, CbcQueueType.waiter, Function.update_apply, WorkerPc.signal_eq_ready]

/-- The only dequeue from a worker's queue is that worker's take. -/
lemma Step.deq_worker {K : IocConsts} {s s' : Sys N} {q : CbcQueueType} {r : Fin N}
    (hs : Step K s (.Deq q r) s') {w : Worker} (hq : q = w.queue) : s'.worker w = .Busy r := by
  rcases hs with hs | ⟨w', hs⟩ | hs
  · cases hs <;> exact absurd hq.symm w.queue_ne_free
  · cases hs with
    | take =>
      obtain rfl := Worker.queue_injective hq
      simp
  · cases hs

/-- A worker is at its take only if it was there already, or has just seen work queued. -/
lemma Step.ready {K : IocConsts} {s s' : Sys N} {ev : Ev N} (hs : Step K s ev s') {w : Worker}
    (hw : s'.worker w = .Ready) :
    s.worker w = .Ready ∨ ev = .Tau ∧ (s.dev.qhead w.queue).sqhFirst ≠ none := by
  rcases hs with hs | ⟨w', hs⟩ | hs
  · left
    cases hs <;> simpa [Sys.enqueue_worker_ready] using hw
  · by_cases hww : w' = w
    · subst hww
      cases hs with
      | nonEmpty _ he => exact .inr ⟨rfl, he⟩
      | _ => simp [Sys.enqueue_worker_ready] at hw
    · left
      cases hs <;> simpa [Sys.enqueue_worker_ready, Function.update_noteq (Ne.symm hww)] using hw
  · left
    cases hs <;> cases w <;> simpa [WorkerPc.signal_eq_ready] using hw

lemma ReadyInv.step {K : IocConsts} {s s' : Sys N} {ev : Ev N} (h : ReadyInv s)
    (hs : Step K s ev s') : ReadyInv s' := by
  obtain ⟨L, hL, hne⟩ := h
  refine ⟨_, hL.step hs, fun w hw => ?_⟩
  rcases hs.ready hw with hw₀ | ⟨rfl, he⟩
  · -- the queue had work, and the step takes nothing off it
    have hne := hne w hw₀
    cases ev with
    | Enq q r p b =>
      by_cases hq : w.queue = q
      · subst hq; cases b <;> simp [applyEv]
      · simpa [applyEv, Function.update_noteq hq] using hne
    | Deq q r =>
      have hq : q ≠ w.queue := fun hq => by simp [hs.deq_worker hq] at hw
      simpa [applyEv, Function.update_noteq hq.symm] using hne
    | Tau => exact hne
  · exact fun hnil => he ((hL.shape w.queue).eq_nil_iff.2 hnil)

lemma Reachable.readyInv {K : IocConsts} {s : Sys N} (h : Reachable K s) : ReadyInv s :=
  h.induction ReadyInv ⟨_, conserved_init, fun _ hw => by cases hw⟩
    fun _ _ _ _ hi hs => hi.step hs

/-- From the `while` test the worker lets go of its mutex: it waits on an empty queue, or takes
the head of a non-empty one. -/
lemma release_of_check {K : IocConsts} {w : Worker} {s : Sys N} (hw : s.worker w = .Check)
    (hc : s.closing = false) :
    ∃ evs s', ThreadRun K (.Worker w) s evs s' ∧ Recycling evs ∧
      (s'.worker w).holdsMutex = false := by
  cases he : (s.dev.qhead w.queue).sqhFirst with
  | none =>
    exact ⟨_, _, .worker (.wait hw he) (.nil _), by simp [Recycling], by simp [WorkerPc.holdsMutex]⟩
  | some r =>
    obtain ⟨s', h', e⟩ := take_of_check (K := K) hw hc he
    exact ⟨_, s', h', by simp [Recycling], by simp [e, WorkerPc.holdsMutex]⟩

/-- **A worker holding its mutex lets go of it by its own steps**, before shutdown. -/
lemma mtx_release {K : IocConsts} {s : Sys N} (h : Reachable K s) (w : Worker)
    (hc : s.closing = false) :
    ∃ evs s', ThreadRun K (.Worker w) s evs s' ∧ Recycling evs ∧
      (s'.worker w).holdsMutex = false := by
  cases hw : s.worker w with
  | Check => exact release_of_check hw hc
  | Recheck =>
    obtain ⟨evs, s', h', hn, e⟩ :=
      release_of_check (K := K) (w := w) (s := s.setWorker w .Check) (by simp) hc
    exact ⟨_, s', .worker (.recheckLoop hw hc) h', by simpa [Recycling] using hn, e⟩
  | Ready =>
    obtain ⟨L, hL, hne⟩ := h.readyInv
    obtain ⟨r, l, hl⟩ := List.exists_cons_of_ne_nil (hne w hw)
    have hf := (hL.shape w.queue).path
    rw [hl] at hf
    exact ⟨_, _, .worker (.take hw hc hf.eq_some) (.nil _), by simp [Recycling],
      by simp [WorkerPc.holdsMutex]⟩
  | _ => exact ⟨[], s, .nil _, by simp [Recycling], by simp [hw, WorkerPc.holdsMutex]⟩

/-! ## Draining a queue -/

section Drain

variable {K : IocConsts} {q : CbcQueueType}

/-- The worker takes the head `r` of its queue and recycles it. -/
lemma take_recycle {s : Sys N} {L : CbcQueueType → List (Fin N)} (h : Reachable K s) (w : Worker)
    (hc : s.closing = false) (hL : Conserved s L) {r : Fin N} {rest : List (Fin N)}
    (hl : L w.queue = r :: rest) :
    ∃ evs s' L', FreeRun K q s evs s' ∧ Conserved s' L' ∧ r ∈ L' .Free ∧ L' w.queue = rest := by
  have hf := (hL.shape w.queue).path
  rw [hl] at hf
  obtain ⟨evs, s₁, hr₁, hn₁, hb, ht⟩ := worker_progress h w hc hf.eq_some
  have hs₂ : Step K s₁ (.Enq .Free r (.Worker w) false) _ := .worker w (.recycle (s₁.dev.pool r) hb)
  refine ⟨_, _, _, (hr₁.freeRun hn₁).append (.enq hs₂ rfl nofun), (hL.run hr₁.run).step hs₂,
    by simp [applyEv], ?_⟩
  simp [applyEv, Function.update_noteq w.queue_ne_free, ht, hl]

/-- **A worker drains its queue up to any request on it**: it takes and recycles the requests
ahead of `i`, and then `i`. -/
lemma drain_queue (w : Worker) {i : Fin N} {post : List (Fin N)} :
    ∀ (pre : List (Fin N)) {s : Sys N} {L : CbcQueueType → List (Fin N)}, Reachable K s →
      s.closing = false → Conserved s L → L w.queue = pre ++ i :: post →
      ∃ evs s', FreeRun K q s evs s' ∧ ∃ L', Conserved s' L' ∧ i ∈ L' .Free := by
  intro pre
  induction pre with
  | nil =>
    intro s L h hc hL hl
    obtain ⟨evs, s', L', hr, hL', hi, -⟩ := take_recycle h w hc hL hl
    exact ⟨evs, s', hr, L', hL', hi⟩
  | cons a pre ih =>
    intro s L h hc hL hl
    obtain ⟨evs, s', L', hr, hL', -, hl'⟩ := take_recycle h w hc hL hl
    obtain ⟨evs', s'', hr', hfree⟩ := ih (h.run hr.run) (hr.closing.trans hc) hL' hl'
    exact ⟨evs ++ evs', s'', hr.append hr', hfree⟩

/-! ## Every request comes back -/

/-- A request in a worker's hands comes back when the handler recycles it. -/
lemma returns_of_worker {s : Sys N} {L : CbcQueueType → List (Fin N)} (hL : Conserved s L)
    {w : Worker} {i : Fin N} (hi : i ∈ (s.worker w).held) :
    ∃ evs s', FreeRun K q s evs s' ∧ ∃ L, Conserved s' L ∧ i ∈ L .Free := by
  cases hw : s.worker w with
  | Busy r =>
    obtain rfl : i = r := by simpa [hw, WorkerPc.held] using hi
    have hs : Step K s (.Enq .Free i (.Worker w) false) _ := .worker w (.recycle (s.dev.pool i) hw)
    exact ⟨_, _, .enq hs rfl nofun, _, hL.step hs, by simp [applyEv]⟩
  | _ => simp [hw, WorkerPc.held] at hi

/-- A request the core thread holds comes back through worker `w`'s queue: `w` lets go of its
mutex, the core thread puts the request at the queue's tail, and `w` drains the queue up to it. -/
lemma returns_through {s : Sys N} {L : CbcQueueType → List (Fin N)} (h : Reachable K s)
    (hc : s.closing = false) (hL : Conserved s L) (w : Worker) {i : Fin N}
    (hq : w.queue = .Rx ∨ w.queue = q)
    (hput : ∀ s₁ : Sys N, s₁.core = s.core → s₁.mtxFree w.queue →
      ∃ s₂, Step K s₁ (.Enq w.queue i .Core false) s₂ ∧ s₂.closing = s₁.closing) :
    ∃ evs s', FreeRun K q s evs s' ∧ ∃ L, Conserved s' L ∧ i ∈ L .Free := by
  obtain ⟨evs, s₁, hr₁, hn₁, hm⟩ := mtx_release h w hc
  obtain ⟨s₂, hs₂, hc₂⟩ := hput s₁ hr₁.worker_frame.2.1 (by simp [Sys.mtxFree, hm])
  have hr₂ := (hr₁.freeRun hn₁).append (.enq hs₂ hc₂ fun _ => hq)
  have hl : applyEv (evs.foldl applyEv L) (.Enq w.queue i .Core false) w.queue =
      (evs.foldl applyEv L) w.queue ++ [i] := by
    simp [applyEv]
  obtain ⟨evs', s₃, hr₃, hfree⟩ := drain_queue w _ (h.run hr₂.run) (hr₂.closing.trans hc)
    ((hL.run hr₁.run).step hs₂) hl
  exact ⟨_, s₃, hr₂.append hr₃, hfree⟩

end Drain

/-- Where `ioc_process_tx` puts its request after `ioc_ch_recv` returned what `rd` gives on `fd`:
the tx queue when it read a frame, the free queue otherwise. -/
def readQueue (K : IocConsts) (fd : Int) (rd : ReadRet) : CbcQueueType :=
  if 0 < (iocChRecv fd K.maxServiceSize rd).1 then .Tx else .Free

/-- A request in the core thread's hands comes back: from `ioc_build_request` through the rx
queue; from `ioc_process_tx` through the tx queue when the read got a frame, and straight to the
free queue when it did not. -/
lemma returns_of_core {K : IocConsts} {s : Sys N} {L : CbcQueueType → List (Fin N)}
    (h : Reachable K s) (hc : s.closing = false) (hL : Conserved s L) (fd : Int) (rd : ReadRet)
    {i : Fin N} (hi : i ∈ s.core.held) :
    ∃ evs s', FreeRun K (readQueue K fd rd) s evs s' ∧ ∃ L, Conserved s' L ∧ i ∈ L .Free := by
  cases hcore : s.core with
  | Building r linkLen srvLen =>
    obtain rfl : i = r := by simpa [hcore, CorePc.held] using hi
    exact returns_through h hc hL .Rx (.inl rfl) fun s₁ e hm =>
      ⟨_, .core (.buildPut (e.trans hcore) hm), rfl⟩
  | Receiving r id =>
    obtain rfl : i = r := by simpa [hcore, CorePc.held] using hi
    by_cases hrd : 0 < (iocChRecv fd K.maxServiceSize rd).1
    · exact returns_through h hc hL .Tx (.inr (by simp [readQueue, hrd, Worker.queue]))
        fun s₁ e hm => ⟨_, .core (.txRecvOk fd rd (e.trans hcore) hrd hm), rfl⟩
    · have hs : Step K s (.Enq .Free i .Core false) _ :=
        .core (.txRecvFail fd rd hcore (Int.not_lt.1 hrd))
      exact ⟨_, _, .enq hs rfl fun _ => .inr (by simp [readQueue, hrd]), _, hL.step hs,
        by simp [applyEv]⟩
  | Polling | Exited => simp [hcore, CorePc.held] at hi

/-- **No request is stranded.**  Before shutdown, from every reachable state, every request can
come back to the free queue, by a run that takes nothing off it and forwards nothing, and in which
the read pending in `ioc_process_tx` returns `rd`: a queued request by its queue's worker draining
the queue up to it, a request in a thread's hands as `returns_of_worker` and `returns_of_core`
say. -/
theorem request_returns_free {K : IocConsts} {s : Sys N} (h : Reachable K s)
    (hc : s.closing = false) (fd : Int) (rd : ReadRet) (i : Fin N) :
    ∃ evs s', FreeRun K (readQueue K fd rd) s evs s' ∧ ∃ L, Conserved s' L ∧ i ∈ L .Free := by
  obtain ⟨L, hL⟩ := h.conserved
  by_cases hf : i ∈ L .Free
  · exact ⟨[], s, .nil s, L, hL, hf⟩
  by_cases hrx : i ∈ L .Rx
  · obtain ⟨pre, post, hl⟩ := List.append_of_mem hrx
    exact drain_queue .Rx pre h hc hL hl
  by_cases htx : i ∈ L .Tx
  · obtain ⟨pre, post, hl⟩ := List.append_of_mem htx
    exact drain_queue .Tx pre h hc hL hl
  -- on no queue: a thread holds it
  have hheld : i ∈ s.held := by
    have := hL.once i
    simp only [queuedCount, List.count_eq_zero_of_not_mem hf, List.count_eq_zero_of_not_mem hrx,
      List.count_eq_zero_of_not_mem htx] at this
    exact List.count_pos_iff.1 (by omega)
  simp only [Sys.held, List.mem_append] at hheld
  rcases hheld with (hi | hi) | hi
  · exact returns_of_core h hc hL fd rd hi
  · exact returns_of_worker hL hi
  · exact returns_of_worker hL hi

/-- **The mediator can always come back to rest.**  Before shutdown, from every reachable state,
for handlers that recycle every request and whatever the read pending in `ioc_process_tx`
returns, some interleaving puts every request back on the free queue: it takes nothing off the
free queue, forwards nothing, and the core thread puts its request only where `ioc_process_tx`
sends it after that read, or on the rx queue from `ioc_build_request`.  The requests are brought
back one after the other, and those already back stay back. -/
theorem mediator_returns_idle {K : IocConsts} {s : Sys N} (h : Reachable K s)
    (hc : s.closing = false) (fd : Int) (rd : ReadRet) :
    ∃ evs s', Run K s evs s' ∧ (∀ r, .Deq .Free r ∉ evs) ∧ Recycling evs ∧
      (∀ q r, .Enq q r .Core false ∈ evs → q = .Rx ∨ q = readQueue K fd rd) ∧
      ∃ L, Conserved s' L ∧ ∀ i, i ∈ L .Free := by
  suffices ∀ l : List (Fin N), ∃ evs s', FreeRun K (readQueue K fd rd) s evs s' ∧
      ∃ L, Conserved s' L ∧ ∀ i ∈ l, i ∈ L .Free by
    obtain ⟨evs, s', hr, L, hL, hl⟩ := this (List.finRange N)
    exact ⟨evs, s', hr.run, hr.keep, hr.recycles, hr.core_puts, L, hL,
      fun i => hl i (List.mem_finRange i)⟩
  intro l
  induction l with
  | nil =>
    obtain ⟨L, hL⟩ := h.conserved
    exact ⟨[], s, .nil s, L, hL, by simp⟩
  | cons i l ih =>
    obtain ⟨evs, s₁, hr₁, L₁, hL₁, hl⟩ := ih
    obtain ⟨evs', s₂, hr₂, L₂, hL₂, hi⟩ :=
      request_returns_free (h.run hr₁.run) (hr₁.closing.trans hc) fd rd i
    refine ⟨evs ++ evs', s₂, hr₁.append hr₂, L₂, hL₂, fun j hj => ?_⟩
    rcases List.mem_cons.1 hj with rfl | hj
    · exact hi
    · exact hr₂.mem_free hL₁ hL₂ (hl j hj)

/-- `ioc_process_tx` holds one of two requests while its read gets a frame: the request goes
through the tx queue, and every request comes back. -/
theorem mediator_returns_idle_receiving : ∃ s : Sys 2, Reachable ⟨1, 0, 8⟩ s ∧
    s.closing = false ∧ ∃ evs s', Run ⟨1, 0, 8⟩ s evs s' ∧ (∀ r, .Deq .Free r ∉ evs) ∧
      Recycling evs ∧
      (∀ q r, .Enq q r .Core false ∈ evs → q = .Rx ∨ q = readQueue ⟨1, 0, 8⟩ 3 (.Bytes [1])) ∧
      ∃ L, Conserved s' L ∧ ∀ i, i ∈ L .Free := by
  have hr : Run ⟨1, 0, 8⟩ (initSys 2) _ _ := .cons (.core (.txTake .NativeSignal rfl rfl)) (.nil _)
  exact ⟨_, ⟨_, hr⟩, rfl, mediator_returns_idle ⟨_, hr⟩ rfl 3 (.Bytes [1])⟩

end Ioc
