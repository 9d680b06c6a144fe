import IocMediator.Conservation

/-!
# Order on the queues

Which request a worker dequeues first depends on where each one was inserted.  The core thread
inserts at the tail (`ioc_build_request`, `ioc_process_tx`); a worker that forwards a request to
the other worker inserts it at the head, by design, so that a processed frame goes ahead of newly
arrived ones.

The lists `Conserved` attaches to a state follow the labels of a run (`Conserved.run`), and a
dequeue always takes the head of its list (`Step.deq_head`).  From that:

* `mem_persists`: a slot stays on its queue until a step dequeues it from there;
* `before_persists`: if `a` is ahead of `b` on a queue, it stays ahead until one of them is
  dequeued, and `b` cannot be dequeued first, as the list has no duplicates;
* **`core_fifo`**: if the core thread enqueues `a` and later `b` on one queue, then `b` is not
  dequeued from it before `a` is.

`forward_not_fifo` is the run that shows the same fails for a forwarding worker: the rx worker
forwards `0` and then `1` to the tx queue, each to its head, and the tx worker dequeues `1` first.
What head insertion does give is `forward_overtakes`: a forwarded request leaves its queue before
every request that was waiting there when it was forwarded, so processed frames go first.

**The free queue.**  Nothing is ever inserted at its head (`Step.enq_free_tail`): the handlers
recycle and `ioc_process_tx` returns a request after a failed read, both at the tail.  So
`free_fifo`: over every interleaving, the requests `ioc_build_request` and `ioc_process_tx` take off
the free queue come in the order they were there and were put back, whatever the workers do in
between.  `Conserved.free_step` is what one step does to it.
-/

namespace Ioc

variable {N : Nat}

/-- Slot `a` is ahead of slot `b` in `l`. -/
def Before (a b : Fin N) (l : List (Fin N)) : Prop :=
  ∃ l₁ l₂, l = l₁ ++ a :: l₂ ∧ b ∈ l₂

/-! ## What a step does to one queue's order -/

lemma Step.deq_head {K : IocConsts} {s s' : Sys N} {q : CbcQueueType} {r : Fin N}
    (hs : Step K s (.Deq q r) s') : (s.dev.qhead q).sqhFirst = some r := by
  rcases hs with hs | ⟨w, hs⟩ | hs
  · cases hs <;> exact (cbcRequestDequeue_free ‹_›).1
  · cases hs; assumption
  · cases hs

/-- The core thread only inserts at the tail. -/
lemma Step.core_enq_tail {K : IocConsts} {s s' : Sys N} {q : CbcQueueType} {r : Fin N} {b : Bool}
    (hs : Step K s (.Enq q r .Core b) s') : b = false := by
  rcases hs with hs | ⟨w, hs⟩ | hs <;> cases hs <;> rfl

/-- The list of the queue a step dequeues from starts with the slot it dequeues. -/
lemma Conserved.deq_cons {K : IocConsts} {s s' : Sys N} {L : CbcQueueType → List (Fin N)}
    {q : CbcQueueType} {r : Fin N} (h : Conserved s L) (hs : Step K s (.Deq q r) s') :
    L q = r :: (L q).tail := by
  obtain ⟨l, hl⟩ := (hs.deq_head ▸ (h.shape q).path).exists_of_some
  rw [hl, List.tail_cons]

lemma applyEv_enq_mem {L : CbcQueueType → List (Fin N)} {q : CbcQueueType} {a : Fin N}
    {p : Thread} {b : Bool} : a ∈ applyEv L (.Enq q a p b) q := by
  cases b <;> simp [applyEv]

/-- A slot already on a queue is ahead of one inserted at its tail. -/
lemma before_enq_tail {L : CbcQueueType → List (Fin N)} {q : CbcQueueType} {a b : Fin N}
    {p : Thread} (ha : a ∈ L q) : Before a b (applyEv L (.Enq q b p false) q) := by
  obtain ⟨l₁, l₂, hl⟩ := List.append_of_mem ha
  exact ⟨l₁, l₂ ++ [b], by simp [applyEv, hl], by simp⟩

lemma applyEv_mem {K : IocConsts} {s s' : Sys N} {L : CbcQueueType → List (Fin N)} {ev : Ev N}
    {q : CbcQueueType} {a : Fin N} (h : Conserved s L) (hs : Step K s ev s') (ha : a ∈ L q)
    (hne : ev ≠ .Deq q a) : a ∈ applyEv L ev q := by
  cases ev with
  | Enq q' r p b =>
    by_cases hq : q = q'
    · subst hq; cases b <;> simp [applyEv, ha]
    · simpa [applyEv, Function.update_noteq hq] using ha
  | Deq q' r =>
    by_cases hq : q = q'
    · subst hq
      have hl := h.deq_cons hs
      rw [hl] at ha
      rcases List.mem_cons.1 ha with rfl | ha
      · exact absurd rfl hne
      · simpa [applyEv] using ha
    · simpa [applyEv, Function.update_noteq hq] using ha
  | Tau => exact ha

lemma applyEv_before {K : IocConsts} {s s' : Sys N} {L : CbcQueueType → List (Fin N)} {ev : Ev N}
    {q : CbcQueueType} {a b : Fin N} (h : Conserved s L) (hs : Step K s ev s')
    (hab : Before a b (L q)) (hne : ev ≠ .Deq q a) : Before a b (applyEv L ev q) := by
  obtain ⟨l₁, l₂, hl, hb⟩ := hab
  cases ev with
  | Enq q' r p t =>
    by_cases hq : q = q'
    · subst hq
      cases t
      · exact ⟨l₁, l₂ ++ [r], by simp [applyEv, hl], by simp [hb]⟩
      · exact ⟨r :: l₁, l₂, by simp [applyEv, hl], hb⟩
    · exact ⟨l₁, l₂, by simpa [applyEv, Function.update_noteq hq] using hl, hb⟩
  | Deq q' r =>
    by_cases hq : q = q'
    · subst hq
      have hc := h.deq_cons hs
      rcases l₁ with _ | ⟨x, l₁⟩
      · rw [hl] at hc
        cases hc
        exact absurd rfl hne
      · rw [hl] at hc
        cases hc
        exact ⟨l₁, l₂, by simp [applyEv, hl], hb⟩
    · exact ⟨l₁, l₂, by simpa [applyEv, Function.update_noteq hq] using hl, hb⟩
  | Tau => exact ⟨l₁, l₂, hl, hb⟩

/-! ## Along a run -/

lemma Run.cons_inv {K : IocConsts} {s s'' : Sys N} {ev : Ev N} {evs : List (Ev N)}
    (h : Run K s (ev :: evs) s'') : ∃ s', Step K s ev s' ∧ Run K s' evs s'' := by
  cases h with
  | cons hs hr => exact ⟨_, hs, hr⟩

/-- A slot stays on its queue until a step dequeues it from there. -/
lemma mem_persists {K : IocConsts} {s s' : Sys N} {evs : List (Ev N)}
    {L : CbcQueueType → List (Fin N)} {q : CbcQueueType} {a : Fin N} (h : Conserved s L)
    (hr : Run K s evs s') (ha : a ∈ L q) (hn : .Deq q a ∉ evs) : a ∈ (evs.foldl applyEv L) q := by
  induction hr generalizing L with
  | nil => exact ha
  | cons hs _ ih =>
    simp only [List.mem_cons, not_or] at hn
    exact ih (h.step hs) (applyEv_mem h hs ha (Ne.symm hn.1)) hn.2

/-- A slot ahead of another stays ahead until it is dequeued. -/
lemma before_persists {K : IocConsts} {s s' : Sys N} {evs : List (Ev N)}
    {L : CbcQueueType → List (Fin N)} {q : CbcQueueType} {a b : Fin N} (h : Conserved s L)
    (hr : Run K s evs s') (hab : Before a b (L q)) (hn : .Deq q a ∉ evs) :
    Before a b ((evs.foldl applyEv L) q) := by
  induction hr generalizing L with
  | nil => exact hab
  | cons hs _ ih =>
    simp only [List.mem_cons, not_or] at hn
    exact ih (h.step hs) (applyEv_before h hs hab (Ne.symm hn.1)) hn.2

/-- A slot behind another is not at the head of a list without duplicates. -/
lemma Before.not_head {a b : Fin N} {l t : List (Fin N)} (hab : Before a b l) (hnd : l.Nodup)
    (hl : l = b :: t) : False := by
  obtain ⟨l₁, l₂, rfl, hb⟩ := hab
  rcases l₁ with _ | ⟨x, l₁⟩
  · cases hl
    exact (List.nodup_cons.1 hnd).1 hb
  · cases hl
    exact (List.nodup_cons.1 hnd).1 (List.mem_append_right _ (List.mem_cons_of_mem _ hb))

/-- **The core thread's requests leave a queue in the order it put them there.**  Over every
interleaving of the three threads, every routing decision and every input: if the core thread
enqueues `a` and later `b` on queue `q`, and `b` is dequeued from `q` after that, then `a` was
dequeued from `q` in between. -/
theorem core_fifo {K : IocConsts} {s : Sys N} {q : CbcQueueType} {a b : Fin N} {ha hb : Bool}
    {pre mid mid2 post : List (Ev N)}
    (hr : Run K (initSys N)
      (pre ++ .Enq q a .Core ha :: mid ++ .Enq q b .Core hb :: mid2 ++ .Deq q b :: post) s) :
    .Deq q a ∈ mid ++ mid2 := by
  by_contra hn
  simp only [List.mem_append, not_or] at hn
  -- cut the run at the three marked steps (`++` associates to the left)
  obtain ⟨s₅, hr, hr₅⟩ := Run.split hr
  obtain ⟨s₃, hr, hr₃⟩ := Run.split hr
  obtain ⟨s₁, hpre, hr₁⟩ := Run.split hr
  obtain ⟨s₂, hs₂, hmid⟩ := hr₁.cons_inv
  obtain ⟨s₄, hs₄, hmid2⟩ := hr₃.cons_inv
  obtain ⟨s₆, hs₆, -⟩ := hr₅.cons_inv
  have c₂ := (conserved_init.run hpre).step hs₂
  have c₄ := (c₂.run hmid).step hs₄
  have c₅ := c₄.run hmid2
  -- `a` is still queued when the core thread puts `b` behind it, and stays ahead of `b`
  have ha₃ := mem_persists c₂ hmid applyEv_enq_mem hn.1
  obtain rfl := hs₄.core_enq_tail
  have hab := before_persists c₄ hmid2 (before_enq_tail ha₃) hn.2
  exact hab.not_head (c₅.shape q).path.nodup (c₅.deq_cons hs₆)

/-- The core thread builds slots `0` and `1` onto the rx queue; the rx worker recycles `0` and
then takes `1`. -/
theorem core_fifo_two_builds : ∃ s : Sys 2, Run ⟨1, 0, 0⟩ (initSys 2)
    ([.Deq .Free 0] ++ .Enq .Rx 0 .Core false :: [.Deq .Free 1] ++ .Enq .Rx 1 .Core false ::
      [.Tau, .Tau, .Deq .Rx 0, .Enq .Free 0 (.Worker .Rx) false, .Tau, .Tau] ++ .Deq .Rx 1 :: [])
      s ∧
    (.Deq .Rx 0 : Ev 2) ∈ [.Deq .Free 1] ++
      [.Tau, .Tau, .Deq .Rx 0, .Enq .Free 0 (.Worker .Rx) false, .Tau, .Tau] := by
  refine' ⟨_, ?run, core_fifo ?run⟩
  case run =>
    exact .cons (.core (.buildTake 0 0 rfl rfl)) <|
      .cons (.core (.buildPut rfl rfl)) <|
      .cons (.core (.buildTake 0 0 rfl rfl)) <|
      .cons (.core (.buildPut rfl rfl)) <|
      .cons (.worker .Rx (.lock rfl)) <|
      .cons (.worker .Rx (.nonEmpty rfl nofun)) <|
      .cons (.worker .Rx (.take rfl rfl rfl)) <|
      .cons (.worker .Rx (.recycle zeroRequest rfl)) <|
      .cons (.worker .Rx (.lock rfl)) <|
      .cons (.worker .Rx (.nonEmpty rfl nofun)) <|
      .cons (.worker .Rx (.take rfl rfl rfl)) <| .nil _

/-- **Forwarded requests are not taken in order.**  The core thread builds slots `0` and `1` onto
the rx queue.  The rx worker takes and forwards `0`, then `1`, each to the head of the tx queue,
before the tx worker looks at it; the tx worker then takes `1` while `0` is still queued. -/
theorem forward_not_fifo : ¬ ∀ (N : Nat) (K : IocConsts) (s : Sys N) (q : CbcQueueType)
    (p : Thread) (a b : Fin N) (ha hb : Bool) (pre mid mid2 post : List (Ev N)),
    Run K (initSys N) (pre ++ .Enq q a p ha :: mid ++ .Enq q b p hb :: mid2 ++ .Deq q b :: post) s →
    .Deq q b ∉ mid2 → .Deq q a ∈ mid ++ mid2 := by
  intro h
  have hr : Run ⟨1, 0, 0⟩ (initSys 2) _ _ :=
    .cons (.core (.buildTake 0 0 rfl rfl)) <|
    .cons (.core (.buildPut rfl rfl)) <|
    .cons (.worker .Rx (.lock rfl)) <|
    .cons (.worker .Rx (.nonEmpty rfl nofun)) <|
    .cons (.worker .Rx (.take rfl rfl rfl)) <|
    .cons (.worker .Rx (.forward zeroRequest rfl rfl)) <|
    .cons (.core (.buildTake 0 0 rfl rfl)) <|
    .cons (.core (.buildPut rfl rfl)) <|
    .cons (.worker .Rx (.lock rfl)) <|
    .cons (.worker .Rx (.nonEmpty rfl nofun)) <|
    .cons (.worker .Rx (.take rfl rfl rfl)) <|
    .cons (.worker .Rx (.forward zeroRequest rfl rfl)) <|
    .cons (.worker .Tx (.lock rfl)) <|
    .cons (.worker .Tx (.nonEmpty rfl nofun)) <|
    .cons (.worker .Tx (.take rfl rfl rfl)) <| .nil _
  have := h 2 _ _ .Tx (.Worker .Rx) 0 1 true true
    [.Deq .Free 0, .Enq .Rx 0 .Core false, .Tau, .Tau, .Deq .Rx 0]
    [.Deq .Free 1, .Enq .Rx 1 .Core false, .Tau, .Tau, .Deq .Rx 1] [.Tau, .Tau] [] hr (by decide)
  exact absurd this (by decide)

/-- **A forwarded request overtakes the queue.**  Over every interleaving: if `a` is on queue `q`
when a worker forwards `b` to the head of `q`, and `a` is dequeued from `q` after that, then `b`
was dequeued from `q` in between. -/
theorem forward_overtakes {K : IocConsts} {s : Sys N} {q : CbcQueueType} {a b : Fin N}
    {w : Worker} {pre mid post : List (Ev N)}
    (hr : Run K (initSys N) (pre ++ .Enq q b (.Worker w) true :: mid ++ .Deq q a :: post) s)
    (ha : a ∈ (pre.foldl applyEv (initLists N)) q) : .Deq q b ∈ mid := by
  by_contra hn
  obtain ⟨s₃, hr, hr₃⟩ := Run.split hr
  obtain ⟨s₁, hpre, hr₁⟩ := Run.split hr
  obtain ⟨s₂, hs₂, hmid⟩ := hr₁.cons_inv
  obtain ⟨s₄, hs₄, -⟩ := hr₃.cons_inv
  have c₂ := (conserved_init.run hpre).step hs₂
  have c₃ := c₂.run hmid
  -- `b` goes in ahead of `a` and stays ahead, so `a` is never at the head before `b` leaves
  have hba : Before b a (applyEv (pre.foldl applyEv (initLists N)) (.Enq q b (.Worker w) true) q) :=
    ⟨[], _, by simp [applyEv], ha⟩
  exact (before_persists c₂ hmid hba hn).not_head (c₃.shape q).path.nodup (c₃.deq_cons hs₄)

/-- The core thread puts `0` on the tx queue; the rx worker then forwards `1` there, and the tx
worker takes `1` first. -/
theorem forward_overtakes_tx : ∃ s : Sys 2, Run ⟨1, 0, 8⟩ (initSys 2)
    ([.Deq .Free 0, .Enq .Tx 0 .Core false, .Deq .Free 1, .Enq .Rx 1 .Core false, .Tau, .Tau,
      .Deq .Rx 1] ++ .Enq .Tx 1 (.Worker .Rx) true ::
      [.Tau, .Tau, .Deq .Tx 1, .Enq .Free 1 (.Worker .Tx) false, .Tau, .Tau] ++ .Deq .Tx 0 :: [])
      s ∧
    (0 : Fin 2) ∈ ([.Deq .Free 0, .Enq .Tx 0 .Core false, .Deq .Free 1, .Enq .Rx 1 .Core false,
      .Tau, .Tau, .Deq .Rx 1] : List (Ev 2)).foldl applyEv (initLists 2) .Tx ∧
    (.Deq .Tx 1 : Ev 2) ∈ [.Tau, .Tau, .Deq .Tx 1, .Enq .Free 1 (.Worker .Tx) false, .Tau, .Tau] := by
  refine' ⟨_, ?run, ?mem, forward_overtakes ?run ?mem⟩
  case mem => decide
  case run =>
    exact .cons (.core (.txTake .NativeSignal rfl rfl)) <|
      .cons (.core (.txRecvOk 3 (.Bytes [1]) rfl (by decide) rfl)) <|
      .cons (.core (.buildTake 0 0 rfl rfl)) <|
      .cons (.core (.buildPut rfl rfl)) <|
      .cons (.worker .Rx (.lock rfl)) <|
      .cons (.worker .Rx (.nonEmpty rfl nofun)) <|
      .cons (.worker .Rx (.take rfl rfl rfl)) <|
      .cons (.worker .Rx (.forward zeroRequest rfl rfl)) <|
      .cons (.worker .Tx (.lock rfl)) <|
      .cons (.worker .Tx (.nonEmpty rfl nofun)) <|
      .cons (.worker .Tx (.take rfl rfl rfl)) <|
      .cons (.worker .Tx (.recycle zeroRequest rfl)) <|
      .cons (.worker .Tx (.lock rfl)) <|
      .cons (.worker .Tx (.nonEmpty rfl nofun)) <|
      .cons (.worker .Tx (.take rfl rfl rfl)) <| .nil _

/-! ## The free queue -/

/-- What a step takes off the free queue. -/
def Ev.freeTaken : Ev N → List (Fin N)
  | .Deq .Free r => [r]
  | _ => []

/-- What a step puts on the free queue. -/
def Ev.freeReturned : Ev N → List (Fin N)
  | .Enq .Free r _ _ => [r]
  | _ => []

/-- Every insertion on the free queue is at its tail. -/
lemma Step.enq_free_tail {K : IocConsts} {s s' : Sys N} {r : Fin N} {p : Thread} {b : Bool}
    (hs : Step K s (.Enq .Free r p b) s') : b = false := by
  rcases hs with hs | ⟨w, hs⟩ | hs
  · cases hs; rfl
  · cases w <;> cases hs <;> rfl
  · cases hs

/-- One step on the free queue: what it takes comes off the front, what it returns goes on the
back. -/
lemma Conserved.free_step {K : IocConsts} {s s' : Sys N} {L : CbcQueueType → List (Fin N)}
    {ev : Ev N} (h : Conserved s L) (hs : Step K s ev s') :
    ev.freeTaken ++ applyEv L ev .Free = L .Free ++ ev.freeReturned := by
  cases ev with
  | Enq q r p b =>
    cases q
    case Free => obtain rfl := hs.enq_free_tail; simp [Ev.freeTaken, Ev.freeReturned, applyEv]
    all_goals simp [Ev.freeTaken, Ev.freeReturned, applyEv]
  | Deq q r =>
    cases q
    case Free => rw [h.deq_cons hs]; simp [Ev.freeTaken, Ev.freeReturned, applyEv]
    all_goals simp [Ev.freeTaken, Ev.freeReturned, applyEv]
  | Tau => simp [Ev.freeTaken, Ev.freeReturned, applyEv]

/-- **The free queue is first-in, first-out.**  Over every interleaving of the three threads and
`ioc_kill_workers`, from a state whose queues hold `L`: the requests taken off the free queue,
followed by those still on it at the end, are the requests that were on it at the start, followed
by those put back on it, in order. -/
theorem free_fifo {K : IocConsts} {s s' : Sys N} {evs : List (Ev N)}
    {L : CbcQueueType → List (Fin N)} (h : Conserved s L) (hr : Run K s evs s') :
    evs.flatMap Ev.freeTaken ++ (evs.foldl applyEv L) .Free =
      L .Free ++ evs.flatMap Ev.freeReturned := by
  induction hr generalizing L with
  | nil => simp
  | @cons _ _ _ ev evs hs _ ih =>
    calc (ev :: evs).flatMap Ev.freeTaken ++ (evs.foldl applyEv (applyEv L ev)) .Free
        = ev.freeTaken ++ (evs.flatMap Ev.freeTaken ++ (evs.foldl applyEv (applyEv L ev)) .Free) :=
          by simp
      _ = ev.freeTaken ++ applyEv L ev .Free ++ evs.flatMap Ev.freeReturned := by
          rw [ih (h.step hs), List.append_assoc]
      _ = L .Free ++ (ev :: evs).flatMap Ev.freeReturned := by
          rw [h.free_step hs]; simp

/-- With one request, the rx worker recycles the first frame's request before the second frame
arrives, and `ioc_build_request` takes it again. -/
theorem free_fifo_recycled : ∃ (evs : List (Ev 1)) (s : Sys 1),
    Conserved (initSys 1) (initLists 1) ∧ Run ⟨1, 0, 0⟩ (initSys 1) evs s ∧
    evs.flatMap Ev.freeTaken = [0, 0] ∧
    evs.flatMap Ev.freeTaken ++ (evs.foldl applyEv (initLists 1)) .Free =
      initLists 1 .Free ++ evs.flatMap Ev.freeReturned := by
  have hr : Run ⟨1, 0, 0⟩ (initSys 1) _ _ :=
    .cons (.core (.buildTake 0 0 rfl rfl)) <| .cons (.core (.buildPut rfl rfl)) <|
    .cons (.worker .Rx (.lock rfl)) <| .cons (.worker .Rx (.nonEmpty rfl nofun)) <|
    .cons (.worker .Rx (.take rfl rfl rfl)) <| .cons (.worker .Rx (.recycle zeroRequest rfl)) <|
    .cons (.core (.buildTake 0 0 rfl rfl)) <| .nil _
  exact ⟨_, _, conserved_init, hr, rfl, free_fifo conserved_init hr⟩

end Ioc
