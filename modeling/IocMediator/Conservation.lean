import IocMediator.Threads
import Mathlib.Data.List.FinRange
import Mathlib.Data.List.Nodup

/-!
# Request conservation

A request slot can be on one of the three queues, or in the hands of the thread between its
dequeue and its enqueue: the core thread in `ioc_build_request` or `ioc_process_tx`, a worker
while its handler runs (`Sys.held`).  `Conserved s L` says that the queues of `s` hold the lists
`L` (`QueueShape`: the chain from `sqh_first` is exactly `L q`, ends in `NULL`, and `sqh_last`
records its tail) and that every slot is counted exactly once over the three lists and the threads'
hands.

What a step does to the lists depends only on its label: `applyEv` is the abstract queue machine,
three lists with head insertion, tail insertion and removal at the head.  `Conserved.step` says the
pointer-level step refines it and keeps the count; the two cases that do the work are
`Conserved.take` and `Conserved.put`, one per direction a slot can move, and every constructor of
`Step` is one of them or touches neither the links nor any thread's hands.

**`requests_conserved`**: in every state an interleaving reaches from `ioc_init`'s, the invariant
holds, and every enqueue puts a slot that is on no queue.

**`request_buffer_owner`**: a request's buffer has one owner.  A thread's step writes only the
request that thread holds (`ThreadStep.pool_eq`), and by the invariant a held request is on no
queue and in no other thread's hands; so every write of a buffer is by the one thread holding it.
-/

namespace Ioc

variable {N : Nat}

/-- The request the core thread holds. -/
def CorePc.held : CorePc N → List (Fin N)
  | .Building r _ _ => [r]
  | .Receiving r _ => [r]
  | _ => []

/-- The request a worker holds. -/
def WorkerPc.held : WorkerPc N → List (Fin N)
  | .Busy r => [r]
  | _ => []

/-- The requests in the threads' hands. -/
def Sys.held (s : Sys N) : List (Fin N) :=
  s.core.held ++ (s.worker .Rx).held ++ (s.worker .Tx).held

/-- What a step does to the lists the queues hold. -/
def applyEv (L : CbcQueueType → List (Fin N)) : Ev N → CbcQueueType → List (Fin N)
  | .Enq q r _ toHead => Function.update L q (if toHead then r :: L q else L q ++ [r])
  | .Deq q _ => Function.update L q (L q).tail
  | .Tau => L

/-- **The conservation invariant**: the queues hold `L`, and every slot is counted once over the
queues and the threads' hands. -/
structure Conserved (s : Sys N) (L : CbcQueueType → List (Fin N)) : Prop where
  shape : ∀ q, QueueShape s.dev.next (s.dev.qhead q) (L q)
  once : ∀ i, queuedCount L i + s.held.count i = 1

/-! ## The threads' hands -/

@[simp] lemma WorkerPc.held_busy (r : Fin N) : (WorkerPc.Busy r).held = [r] := rfl

@[simp] lemma WorkerPc.held_signal (pc : WorkerPc N) : pc.signal.held = pc.held := by
  cases pc <;> rfl

lemma Sys.held_setWorker {s : Sys N} {w : Worker} {pc : WorkerPc N}
    (hw : (s.worker w).held = pc.held) :
    (s.setWorker w pc).held = s.held := by
  cases w <;> simp [Sys.held, Function.update_apply, hw]

lemma Sys.held_setWorker_busy {s : Sys N} {w : Worker} (hw : (s.worker w).held = []) (r : Fin N) :
    (s.setWorker w (.Busy r)).held.Perm (r :: s.held) := by
  cases w
  · simp [Sys.held, Function.update_apply, hw]
  · simp [Sys.held, Function.update_apply, hw, ← List.append_assoc]

lemma Sys.held_setWorker_release {s : Sys N} {w : Worker} {r : Fin N} (hw : s.worker w = .Busy r)
    {pc : WorkerPc N} (hpc : pc.held = []) : s.held.Perm (r :: (s.setWorker w pc).held) := by
  cases w
  · simp [Sys.held, Function.update_apply, hw, hpc]
  · simp [Sys.held, Function.update_apply, hw, hpc, ← List.append_assoc]

lemma Sys.held_enqueue (s : Sys N) (q : CbcQueueType) (r : Fin N) (b : Bool) :
    (s.enqueue q r b).held = s.held := by
  cases q <;> simp [Sys.enqueue, Sys.held, CbcQueueType.waiter, Function.update_apply]

/-! ## Moving a slot -/

namespace Conserved

variable {s s' : Sys N} {L : CbcQueueType → List (Fin N)}

lemma wf (h : Conserved s L) : QueuesWf s.dev L :=
  ⟨h.shape, fun i => by have := h.once i; omega⟩

/-- The lists are determined by the state. -/
lemma lists_eq {L' : CbcQueueType → List (Fin N)} (h : Conserved s L) (h' : Conserved s L') :
    L = L' :=
  funext fun q => (h.shape q).path.functional (h'.shape q).path

/-- A step that touches neither the links, the heads, nor anyone's hands. -/
lemma of_eq (h : Conserved s L) (hn : s'.dev.next = s.dev.next) (hq : s'.dev.qhead = s.dev.qhead)
    (hh : ∀ i, s'.held.count i = s.held.count i) : Conserved s' L :=
  ⟨fun q => hn ▸ hq ▸ h.shape q, fun i => hh i ▸ h.once i⟩

/-- **A slot leaves the head of `q` for a thread's hands.** -/
lemma take (h : Conserved s L) {q : CbcQueueType} {r : Fin N}
    (hf : (s.dev.qhead q).sqhFirst = some r)
    (hn : s'.dev.next = s.dev.next) (hq : s'.dev.qhead = (s.dev.removeHead q).qhead)
    (hh : s'.held.Perm (r :: s.held)) : Conserved s' (applyEv L (.Deq q r)) := by
  obtain ⟨l, hl⟩ := (hf ▸ (h.shape q).path).exists_of_some
  have hw := h.wf.removeHead hl
  refine ⟨fun q' => by simpa [applyEv, hl, hn, hq] using hw.shape q', fun i => ?_⟩
  have e := queuedCount_update L q l i
  have := h.once i
  rw [hl, List.count_cons] at e
  simp only [applyEv, hl, List.tail_cons, hh.count_eq, List.count_cons]
  omega

/-- **A slot leaves a thread's hands for the head or the tail of `q`.** -/
lemma put (h : Conserved s L) {q : CbcQueueType} {r : Fin N} {b : Bool} (p : Thread)
    (hn : s'.dev.next = (s.dev.insert q r b).next) (hq : s'.dev.qhead = (s.dev.insert q r b).qhead)
    (hh : s.held.Perm (r :: s'.held)) : Conserved s' (applyEv L (.Enq q r p b)) := by
  have hr0 : queuedCount L r = 0 := by
    have := h.once r
    have := hh.count_eq r
    simp only [List.count_cons_self] at this
    omega
  have hw := h.wf.insert hr0 q b
  refine ⟨fun q' => by simpa [applyEv, hn, hq] using hw.shape q', fun i => ?_⟩
  have e := queuedCount_update L q (if b then r :: L q else L q ++ [r]) i
  have := h.once i
  have := hh.count_eq i
  simp only [applyEv]
  cases b <;> simp only [if_true, if_false, Bool.false_eq_true, List.count_cons, List.count_append,
    List.count_singleton', List.count_nil] at e this ⊢ <;> omega

end Conserved

/-! ## Every step keeps it -/

lemma cbcRequestDequeue_free {d d' : IocDev N} {r : Fin N}
    (h : cbcRequestDequeue d .Free = (some r, d')) :
    (d.qhead .Free).sqhFirst = some r ∧ d' = d.removeHead .Free := by
  simp only [cbcRequestDequeue, if_true] at h
  split at h
  · cases h
  · cases h; exact ⟨‹_›, rfl⟩

lemma Conserved.core_step {K : IocConsts} {s s' : Sys N} {ev : Ev N}
    {L : CbcQueueType → List (Fin N)}
    (h : Conserved s L) (hs : IocCoreThread K s ev s') : Conserved s' (applyEv L ev) := by
  cases hs with
  | ringFeed ring hc => exact h.of_eq rfl rfl fun i => rfl
  | buildDrop | txDrop => exact h
  | buildTake _ _ hc hd | txTake _ hc hd =>
    obtain ⟨hf, rfl⟩ := cbcRequestDequeue_free hd
    exact h.take hf rfl rfl (.of_eq (by simp [Sys.held, hc, CorePc.held]))
  | buildPut hc _ | txRecvFail _ _ hc _ | txRecvOk _ _ hc _ _ =>
    exact h.put .Core rfl rfl (.of_eq (by rw [Sys.held_enqueue]; simp [Sys.held, hc, CorePc.held]))
  | exit hc => exact h.of_eq rfl rfl fun i => by simp [Sys.held, hc, CorePc.held]

lemma Conserved.worker_step {w : Worker} {s s' : Sys N} {ev : Ev N}
    {L : CbcQueueType → List (Fin N)}
    (h : Conserved s L) (hs : IocWorkerThread w s ev s') : Conserved s' (applyEv L ev) := by
  have idle : ∀ {a b : WorkerPc N}, s.worker w = a → a.held = [] → b.held = [] →
      Conserved (s.setWorker w b) L := fun ha h1 h2 =>
    h.of_eq rfl rfl fun i => by rw [Sys.held_setWorker (by rw [ha, h1, h2])]
  cases hs with
  | lock hw | wait hw _ | nonEmpty hw _ | spurious hw | reacquire hw | recheckExit hw _
    | recheckLoop hw _ | readyExit hw _ => exact idle hw rfl rfl
  | take hw _ hf => exact h.take hf rfl rfl (Sys.held_setWorker_busy (by rw [hw]; rfl) _)
  | forward _ hw _ | recycle _ hw =>
    exact h.put (.Worker w) rfl rfl
      (by rw [Sys.held_enqueue]; exact Sys.held_setWorker_release hw rfl)

lemma Conserved.kill_step {s s' : Sys N} {ev : Ev N} {L : CbcQueueType → List (Fin N)}
    (h : Conserved s L) (hs : IocKillWorkers s ev s') : Conserved s' (applyEv L ev) := by
  cases hs <;> refine h.of_eq rfl rfl fun i => ?_ <;>
    simp [Sys.held, Sys.setWorker, Function.update_apply]

/-- **The step lemma**: every step of every thread keeps the invariant, moving the lists as its
label says. -/
lemma Conserved.step {K : IocConsts} {s s' : Sys N} {ev : Ev N} {L : CbcQueueType → List (Fin N)}
    (h : Conserved s L) (hs : Step K s ev s') : Conserved s' (applyEv L ev) := by
  cases hs with
  | core hs => exact h.core_step hs
  | worker w hs => exact h.worker_step hs
  | kill hs => exact h.kill_step hs

/-- The run lemma: along an interleaving the lists follow the labels. -/
lemma Conserved.run {K : IocConsts} {s s' : Sys N} {evs : List (Ev N)}
    {L : CbcQueueType → List (Fin N)} (h : Conserved s L) (hr : Run K s evs s') :
    Conserved s' (evs.foldl applyEv L) := by
  induction hr generalizing L with
  | nil => exact h
  | cons hs _ ih => exact ih (h.step hs)

/-! ## The initial state -/

lemma insertTails_shape {next : Links N} {h : CbcQhead N} {m : List (Fin N)} (l : List (Fin N))
    (hs : QueueShape next h m) (hnd : (m ++ l).Nodup) :
    QueueShape (insertTails (next, h) l).1 (insertTails (next, h) l).2 (m ++ l) := by
  induction l generalizing next h m with
  | nil => simpa [insertTails] using hs
  | cons a l ih =>
    have ha : a ∉ m := fun hm => (List.nodup_append.1 hnd).2.2 hm (List.mem_cons_self a l)
    simpa [insertTails] using ih (simpleqInsertTail_shape hs ha) (by simpa using hnd)

/-- The lists the queues hold in `initSys`. -/
def initLists (N : Nat) : CbcQueueType → List (Fin N) :=
  fun q => if q = .Free then List.finRange N else []

lemma conserved_init : Conserved (initSys N) (initLists N) := by
  have hfree := insertTails_shape (List.finRange N) (simpleqInit_shape (fun _ => none))
    (by simpa using List.nodup_finRange N)
  refine ⟨fun q => ?_, fun i => ?_⟩
  · cases q
    · exact simpleqInit_shape _
    · exact simpleqInit_shape _
    · simpa [initSys, initDev, initLists] using hfree
  · simp [queuedCount, initLists, initSys, Sys.held, CorePc.held, WorkerPc.held,
      List.count_eq_one_of_mem (List.nodup_finRange N) (List.mem_finRange i)]

/-- A slot in a thread's hands is on no queue. -/
lemma Conserved.not_queued {s : Sys N} {L : CbcQueueType → List (Fin N)} (h : Conserved s L)
    {r : Fin N} (hr : r ∈ s.held) (q : CbcQueueType) : r ∉ L q := fun hm => by
  have := h.once r
  have := List.count_pos_iff.2 hr
  have := count_le_queuedCount L q r
  have := List.count_pos_iff.2 hm
  omega

/-- Only the thread holding a slot enqueues it. -/
lemma Step.enq_held {K : IocConsts} {s s' : Sys N} {q : CbcQueueType} {r : Fin N} {p : Thread}
    {b : Bool} (hs : Step K s (.Enq q r p b) s') : r ∈ s.held := by
  rcases hs with hs | ⟨w, hs⟩ | hs
  · cases hs <;> simp [Sys.held, CorePc.held, *]
  · cases hs <;> cases w <;> simp [Sys.held, WorkerPc.held, *]
  · cases hs

/-- **Request conservation.**  In every state an interleaving of the core thread, the two workers
and `ioc_kill_workers` reaches from `ioc_init`'s: each queue's chain from `sqh_first` is acyclic,
ends at the tail `sqh_last` records, and lists exactly the queue's members; every slot is on
exactly one queue, once, or in exactly one thread's hands; and the next enqueue, whoever does it,
puts a slot that is on no queue. -/
theorem requests_conserved {K : IocConsts} {s : Sys N} (h : Reachable K s) :
    ∃ L, Conserved s L ∧ (∀ q, (L q).Nodup) ∧
      ∀ ev s', Step K s ev s' → ∀ q r p b, ev = .Enq q r p b → ∀ q', r ∉ L q' := by
  obtain ⟨evs, hr⟩ := h
  have hc := conserved_init.run hr
  refine ⟨_, hc, fun q => (hc.shape q).path.nodup, ?_⟩
  rintro ev s' hs q r p b rfl q'
  exact hc.not_queued hs.enq_held q'

/-- With two requests: the core thread builds a frame onto the rx queue, the rx worker takes it and
its handler recycles it, and `ioc_process_tx` takes the other request off the free queue. -/
theorem requests_conserved_recycled : ∃ s : Sys 2, Reachable ⟨1, 0, 0⟩ s ∧
    ∃ L, Conserved s L ∧ (∀ q, (L q).Nodup) ∧
      ∀ ev s', Step ⟨1, 0, 0⟩ s ev s' → ∀ q r p b, ev = .Enq q r p b → ∀ q', r ∉ L q' := by
  have hr : Run ⟨1, 0, 0⟩ (initSys 2) _ _ :=
    .cons (.core (.buildTake 0 0 rfl rfl)) <| .cons (.core (.buildPut rfl rfl)) <|
    .cons (.worker .Rx (.lock rfl)) <| .cons (.worker .Rx (.nonEmpty rfl nofun)) <|
    .cons (.worker .Rx (.take rfl rfl rfl)) <| .cons (.worker .Rx (.recycle zeroRequest rfl)) <|
    .cons (.core (.txTake .NativeSignal rfl rfl)) <| .nil _
  exact ⟨_, ⟨_, hr⟩, requests_conserved ⟨_, hr⟩⟩

/-! ## One owner per request -/

/-- The request thread `t` holds. -/
def Sys.heldBy (s : Sys N) : Thread → List (Fin N)
  | .Core => s.core.held
  | .Worker w => (s.worker w).held

/-- One step of thread `t`. -/
def ThreadStep (K : IocConsts) : Thread → Sys N → Ev N → Sys N → Prop
  | .Core => IocCoreThread K
  | .Worker w => IocWorkerThread w

lemma Sys.mem_held {s : Sys N} {t : Thread} {r : Fin N} (h : r ∈ s.heldBy t) : r ∈ s.held := by
  rcases t with _ | ⟨_ | _⟩ <;> simp_all [Sys.held, Sys.heldBy]

/-- No two threads hold the same slot. -/
lemma Conserved.heldBy_unique {s : Sys N} {L : CbcQueueType → List (Fin N)} (h : Conserved s L)
    {r : Fin N} {t t' : Thread} (ht : r ∈ s.heldBy t) (ht' : r ∈ s.heldBy t') : t = t' := by
  have := h.once r
  have := List.count_pos_iff.2 ht
  have := List.count_pos_iff.2 ht'
  rcases t with _ | ⟨_ | _⟩ <;> rcases t' with _ | ⟨_ | _⟩ <;>
    first | rfl | (simp only [Sys.heldBy, Sys.held, List.count_append] at *; omega)

/-- **A thread writes only the request it holds**: a step of thread `t` leaves every other
slot's buffer as it was. -/
lemma ThreadStep.pool_eq {K : IocConsts} {t : Thread} {s s' : Sys N} {ev : Ev N}
    (hs : ThreadStep K t s ev s') {i : Fin N} (hi : i ∉ s.heldBy t) :
    s'.dev.pool i = s.dev.pool i := by
  rcases t with _ | w
  · change IocCoreThread K s ev s' at hs
    cases hs with
    | ringFeed | buildDrop | txDrop | txRecvFail | exit => rfl
    | buildTake _ _ _ hd | txTake _ _ hd => obtain ⟨-, rfl⟩ := cbcRequestDequeue_free hd; rfl
    | buildPut hc | txRecvOk _ _ hc =>
      simp only [Sys.heldBy, hc, CorePc.held, List.mem_singleton] at hi
      simp [buildRequestFill, processTxFill, Function.update_noteq hi]
  · change IocWorkerThread w s ev s' at hs
    cases hs with
    | forward _ hw | recycle _ hw =>
      simp only [Sys.heldBy, hw, WorkerPc.held, List.mem_singleton] at hi
      simp [Function.update_noteq hi]
    | _ => rfl

lemma IocKillWorkers.pool_eq {s s' : Sys N} {ev : Ev N} (hs : IocKillWorkers s ev s') :
    s'.dev.pool = s.dev.pool := by
  cases hs <;> rfl

/-- **A request's buffer has one owner.**  In every reachable state, a step that changes a
request's buffer is a step of the thread holding it, no other thread holds it, and it is on no
queue: a request belongs to the queue it is on or to the one thread processing it. -/
theorem request_buffer_owner {K : IocConsts} {s s' : Sys N} {ev : Ev N} (h : Reachable K s)
    (hs : Step K s ev s') {r : Fin N} (hr : s'.dev.pool r ≠ s.dev.pool r) :
    ∃ t, ThreadStep K t s ev s' ∧ r ∈ s.heldBy t ∧ (∀ t', r ∈ s.heldBy t' → t' = t) ∧
      ∃ L, Conserved s L ∧ ∀ q, r ∉ L q := by
  obtain ⟨evs, hrun⟩ := h
  have hc := conserved_init.run hrun
  have owner : ∀ t, ThreadStep K t s ev s' → ∃ t, ThreadStep K t s ev s' ∧ r ∈ s.heldBy t ∧
      (∀ t', r ∈ s.heldBy t' → t' = t) ∧ ∃ L, Conserved s L ∧ ∀ q, r ∉ L q := fun t ht => by
    have hrt : r ∈ s.heldBy t := by
      by_contra hn
      exact hr (ht.pool_eq hn)
    exact ⟨t, ht, hrt, fun t' h' => hc.heldBy_unique h' hrt, _, hc,
      hc.not_queued (Sys.mem_held hrt)⟩
  rcases hs with hs | ⟨w, hs⟩ | hs
  · exact owner .Core hs
  · exact owner (.Worker w) hs
  · exact absurd (congrFun hs.pool_eq r) hr

/-- The rx worker's handler rewrites the request it took, which then sits in no other thread's
hands and on no queue. -/
theorem request_buffer_owner_rx : ∃ (s s' : Sys 1) (ev : Ev 1), Reachable ⟨1, 0, 0⟩ s ∧
    Step ⟨1, 0, 0⟩ s ev s' ∧ s'.dev.pool 0 ≠ s.dev.pool 0 ∧
    ∃ t, ThreadStep ⟨1, 0, 0⟩ t s ev s' ∧ 0 ∈ s.heldBy t ∧ (∀ t', 0 ∈ s.heldBy t' → t' = t) ∧
      ∃ L, Conserved s L ∧ ∀ q, (0 : Fin 1) ∉ L q := by
  have hr : Run ⟨1, 0, 0⟩ (initSys 1) _ _ :=
    .cons (.core (.buildTake 0 0 rfl rfl)) <| .cons (.core (.buildPut rfl rfl)) <|
    .cons (.worker .Rx (.lock rfl)) <| .cons (.worker .Rx (.nonEmpty rfl nofun)) <|
    .cons (.worker .Rx (.take rfl rfl rfl)) <| .nil _
  refine' ⟨_, _, _, ⟨_, hr⟩, ?step, ?ne, request_buffer_owner ⟨_, hr⟩ ?step ?ne⟩
  case step => exact .worker .Rx (.recycle ⟨fun _ => 0, 0, 1, .NativePmt⟩ rfl)
  case ne => exact fun e => absurd (congrArg CbcRequest.srvLen e) (by decide)

end Ioc
