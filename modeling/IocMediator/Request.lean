import IocMediator.Simpleq
import IocMediator.Channel
import Mathlib.Algebra.Group.Nat.Basic

/-!
# Requests, the three queues, and the two producers of the core thread

`struct ioc_dev` holds the request pool, the free, rx and tx queue heads and the CBC ring buffer.
`IocDev` keeps exactly those, with the `me_queue` links of the pool as one map (`Simpleq`).
`cbc_request_enqueue` and `cbc_request_dequeue` are modelled here without their mutexes and
condition variables, which belong to the thread model (`Threads`): what is left is the splice.

`QueuesWf d L` says the queues of `d` hold the lists `L`, no slot on two queues or twice on one.
The three list operations keep it: `QueuesWf.insert` (a slot on no queue goes to the head or the
tail of one), `QueuesWf.removeHead`, and `QueuesWf.of_links` for writes that do not touch links.

**`ioc_build_request`** takes the request at the free queue's head, copies `link_len` bytes out of
the ring starting at `head` through the mask `CBC_RING_BUFFER_SIZE - 1`, and appends the request to
the rx queue.  `iocBuildRequest_spec`: for a power-of-two ring, the copy is the ring read modulo its
size, windows that wrap included, the lists move as stated and nothing else changes; with the free
queue empty the device is unchanged.

**`ioc_process_tx`** takes the same request, reads one service frame into it at `CBC_SRV_POS` and
appends it to the tx queue.  `iocProcessTx_spec`: when the read gets nothing the request goes back
to the free queue, at its tail.
-/

namespace Ioc

variable {N : Nat}

/-- `enum cbc_queue_type`. -/
inductive CbcQueueType where
  | Rx
  | Tx
  | Free
  deriving DecidableEq, Repr

/-- `struct cbc_request`, without its `me_queue` link (kept in `IocDev.next`) and its `rtype`,
which only the CBC handlers read. -/
structure CbcRequest where
  buf : Nat → UInt8
  linkLen : Int
  srvLen : Int
  id : IocChId

/-- `struct cbc_ring`: the storage, and the `head` and `tail` indices. -/
structure CbcRing where
  buf : Nat → UInt8
  head : Nat
  tail : Nat

/-- The constants of `ioc.h` the request path reads. -/
structure IocConsts where
  /-- `CBC_RING_BUFFER_SIZE` -/
  ringBufferSize : Nat
  /-- `CBC_SRV_POS`, where the service frame starts in a request's buffer -/
  srvPos : Nat
  /-- `CBC_MAX_SERVICE_SIZE` -/
  maxServiceSize : Nat

/-- The parts of `struct ioc_dev` the request path reads and writes. -/
structure IocDev (N : Nat) where
  pool : Fin N → CbcRequest
  next : Links N
  qhead : CbcQueueType → CbcQhead N
  ring : CbcRing

/-! ## Queue operations -/

/-- `SIMPLEQ_INSERT_HEAD` or `SIMPLEQ_INSERT_TAIL` of slot `r` on queue `q`. -/
def IocDev.insert (d : IocDev N) (q : CbcQueueType) (r : Fin N) (toHead : Bool) : IocDev N :=
  let ins := if toHead then simpleqInsertHead d.next (d.qhead q) r
    else simpleqInsertTail d.next (d.qhead q) r
  { d with next := ins.1, qhead := Function.update d.qhead q ins.2 }

/-- `SIMPLEQ_REMOVE_HEAD` on queue `q`. -/
def IocDev.removeHead (d : IocDev N) (q : CbcQueueType) : IocDev N :=
  { d with qhead := Function.update d.qhead q (simpleqRemoveHead d.next (d.qhead q)) }

@[simp] lemma IocDev.insert_pool (d : IocDev N) (q : CbcQueueType) (r : Fin N) (b : Bool) :
    (d.insert q r b).pool = d.pool := rfl
@[simp] lemma IocDev.insert_ring (d : IocDev N) (q : CbcQueueType) (r : Fin N) (b : Bool) :
    (d.insert q r b).ring = d.ring := rfl
@[simp] lemma IocDev.removeHead_pool (d : IocDev N) (q : CbcQueueType) :
    (d.removeHead q).pool = d.pool := rfl
@[simp] lemma IocDev.removeHead_ring (d : IocDev N) (q : CbcQueueType) :
    (d.removeHead q).ring = d.ring := rfl
@[simp] lemma IocDev.removeHead_next (d : IocDev N) (q : CbcQueueType) :
    (d.removeHead q).next = d.next := rfl

/-- `cbc_request_enqueue`, under the queue's mutex: a `NULL` request is ignored, any other is
spliced in at the head or the tail. -/
def cbcRequestEnqueue (d : IocDev N) (req : Option (Fin N)) (qtype : CbcQueueType)
    (toHead : Bool) : IocDev N :=
  match req with
  | none => d
  | some r => d.insert qtype r toHead

/-- `cbc_request_dequeue`: only the free queue is served; the head, or `NULL` when it is empty. -/
def cbcRequestDequeue (d : IocDev N) (qtype : CbcQueueType) : Option (Fin N) × IocDev N :=
  if qtype = .Free then
    match (d.qhead .Free).sqhFirst with
    | none => (none, d)
    | some r => (some r, d.removeHead .Free)
  else (none, d)

/-! ## Building and receiving requests -/

/-- The copy loop of `ioc_build_request`, iterations `i, i + 1, …`, `n` of them:
`req->buf[i] = ring->buf[(ring->head + i) & (CBC_RING_BUFFER_SIZE - 1)]`. -/
def ringCopy (ringSize : Nat) (ring : CbcRing) (buf : Nat → UInt8) (i : Nat) : Nat → Nat → UInt8
  | 0 => buf
  | n + 1 => ringCopy ringSize ring
      (Function.update buf i (ring.buf ((ring.head + i) &&& (ringSize - 1)))) (i + 1) n

/-- What `ioc_build_request` does to the request it holds: copy the link frame, set the lengths. -/
def buildRequestFill (ringSize : Nat) (d : IocDev N) (r : Fin N) (linkLen srvLen : Int) :
    IocDev N :=
  let req : CbcRequest :=
    { d.pool r with
      buf := ringCopy ringSize d.ring (d.pool r).buf 0 linkLen.toNat
      srvLen := srvLen
      linkLen := linkLen }
  { d with pool := Function.update d.pool r req }

/-- `ioc_build_request`: a free request, filled from the ring, onto the rx queue's tail; the frame
is dropped when the free queue is empty. -/
def iocBuildRequest (ringSize : Nat) (d : IocDev N) (linkLen srvLen : Int) : IocDev N :=
  match cbcRequestDequeue d .Free with
  | (none, d) => d
  | (some r, d) =>
    cbcRequestEnqueue (buildRequestFill ringSize d r linkLen srvLen) (some r) .Rx false

/-- `buf` with `data` stored from position `pos` on. -/
def writeAt (buf : Nat → UInt8) (pos : Nat) (data : List UInt8) : Nat → UInt8 :=
  fun j => if pos ≤ j ∧ j < pos + data.length then data.getD (j - pos) 0 else buf j

/-- What `ioc_process_tx` does to the request it holds once `ioc_ch_recv` returned `count` and
stored `data` at `CBC_SRV_POS`. -/
def processTxFill (K : IocConsts) (d : IocDev N) (r : Fin N) (id : IocChId) (count : Int)
    (data : List UInt8) : IocDev N :=
  let req : CbcRequest :=
    { d.pool r with
      buf := writeAt (d.pool r).buf K.srvPos data
      srvLen := count
      linkLen := 0
      id := id }
  { d with pool := Function.update d.pool r req }

/-- `ioc_process_tx` for channel `id` with descriptor `fd`, whose `read` gives `rd`: a free
request receives one service frame and goes onto the tx queue's tail, or back to the free queue
when nothing was read. -/
def iocProcessTx (K : IocConsts) (d : IocDev N) (id : IocChId) (fd : Int) (rd : ReadRet) :
    Int × IocDev N :=
  match cbcRequestDequeue d .Free with
  | (none, d) => (-1, d)
  | (some r, d) =>
    let rcv := iocChRecv fd K.maxServiceSize rd
    if rcv.1 ≤ 0 then (-1, cbcRequestEnqueue d (some r) .Free false)
    else (0, cbcRequestEnqueue (processTxFill K d r id rcv.1 rcv.2) (some r) .Tx false)

/-! ## Well-formed queues -/

/-- How many times slot `i` is on the three queues, whose lists are `L`. -/
def queuedCount (L : CbcQueueType → List (Fin N)) (i : Fin N) : Nat :=
  (L .Free).count i + (L .Rx).count i + (L .Tx).count i

/-- The queues of `d` hold the lists `L`, and no slot is on two queues or twice on one. -/
structure QueuesWf (d : IocDev N) (L : CbcQueueType → List (Fin N)) : Prop where
  shape : ∀ q, QueueShape d.next (d.qhead q) (L q)
  once : ∀ i, queuedCount L i ≤ 1

lemma queuedCount_update (L : CbcQueueType → List (Fin N)) (q : CbcQueueType) (l : List (Fin N))
    (i : Fin N) :
    queuedCount (Function.update L q l) i + (L q).count i = queuedCount L i + l.count i := by
  cases q <;> simp [queuedCount, Function.update_apply] <;> omega

lemma count_le_queuedCount (L : CbcQueueType → List (Fin N)) (q : CbcQueueType) (i : Fin N) :
    (L q).count i ≤ queuedCount L i := by
  cases q <;> simp [queuedCount] <;> omega

namespace QueuesWf

variable {d : IocDev N} {L : CbcQueueType → List (Fin N)}

/-- A slot on queue `q` is on no other queue. -/
lemma not_mem_other (h : QueuesWf d L) {q q' : CbcQueueType} (hne : q' ≠ q) {i : Fin N}
    (hi : i ∈ L q) : i ∉ L q' := by
  intro hi'
  have := h.once i
  have h1 := List.count_pos_iff.2 hi
  have h2 := List.count_pos_iff.2 hi'
  unfold queuedCount at this
  cases q <;> cases q' <;> first | exact hne rfl | omega

/-- Writes that leave the links and the heads alone keep the queues. -/
lemma of_links (h : QueuesWf d L) (d' : IocDev N) (hn : d'.next = d.next)
    (hq : d'.qhead = d.qhead) :
    QueuesWf d' L :=
  ⟨fun q => hn ▸ hq ▸ h.shape q, h.once⟩

/-- Splicing `r` into queue `q` leaves every other queue's chain as it was: it writes the links
of `r` and of `q`'s last slot, and neither is on another queue. -/
lemma insert_shape_other (h : QueuesWf d L) {r : Fin N} (hr : ∀ q', r ∉ L q')
    {q q' : CbcQueueType} (hq : q' ≠ q) (toHead : Bool) :
    QueueShape (d.insert q r toHead).next (d.qhead q') (L q') := by
  have hs := h.shape q'
  cases toHead
  · simp only [IocDev.insert, Bool.false_eq_true, if_false, simpleqInsertTail]
    have hs' := hs.update (hr q') none
    split
    · exact hs'
    · rename_i j hj
      have hjq : j ∈ L q := by
        have := (h.shape q).last
        rw [hj, lastLink] at this
        split at this
        · cases this
        · cases this; exact List.mem_of_getLast?_eq_some ‹_›
      exact hs'.update (h.not_mem_other hq hjq) _
  · simpa [IocDev.insert, simpleqInsertHead] using hs.update (hr q') _

/-- **Splicing a slot that is on no queue** into queue `q` puts it at the head or the tail of
`q`'s list, and every other list stays as it was. -/
lemma insert (h : QueuesWf d L) {r : Fin N} (hr : queuedCount L r = 0) (q : CbcQueueType)
    (toHead : Bool) :
    QueuesWf (d.insert q r toHead)
      (Function.update L q (if toHead then r :: L q else L q ++ [r])) := by
  have hrq : ∀ q', r ∉ L q' := fun q' hm =>
    absurd (count_le_queuedCount L q' r) (by rw [hr]; exact Nat.not_le.2 (List.count_pos_iff.2 hm))
  refine ⟨fun q' => ?_, fun i => ?_⟩
  · by_cases hq : q' = q
    · subst hq
      cases toHead
      · simpa [IocDev.insert] using simpleqInsertTail_shape (h.shape q') (hrq q')
      · simpa [IocDev.insert] using simpleqInsertHead_shape (h.shape q') (hrq q')
    · simpa [IocDev.insert, Function.update_noteq hq] using h.insert_shape_other hrq hq toHead
  · have e := queuedCount_update L q (if toHead then r :: L q else L q ++ [r]) i
    have h1 := h.once i
    by_cases hi : i = r
    · subst hi
      have : (L q).count i = 0 := Nat.eq_zero_of_le_zero (hr ▸ count_le_queuedCount L q i)
      cases toHead <;> simp_all
    · cases toHead <;> simp_all [List.count_cons, List.count_append]

/-- `SIMPLEQ_REMOVE_HEAD` on a queue whose list is `a :: l` leaves `l` there. -/
lemma removeHead (h : QueuesWf d L) {q : CbcQueueType} {a : Fin N} {l : List (Fin N)}
    (hl : L q = a :: l) : QueuesWf (d.removeHead q) (Function.update L q l) := by
  refine ⟨fun q' => ?_, fun i => ?_⟩
  · by_cases hq : q' = q
    · subst hq
      simpa [IocDev.removeHead] using simpleqRemoveHead_shape (hl ▸ h.shape q')
    · simpa [IocDev.removeHead, Function.update_noteq hq] using h.shape q'
  · have e := queuedCount_update L q l i
    have := h.once i
    rw [hl, List.count_cons] at e
    omega

/-- `cbc_request_dequeue` on an empty free queue returns `NULL` and changes nothing. -/
lemma dequeue_nil (h : QueuesWf d L) (he : L .Free = []) :
    cbcRequestDequeue d .Free = (none, d) := by
  simp [cbcRequestDequeue, (h.shape .Free).eq_nil_iff.2 he]

/-- **`cbc_request_dequeue` on the free queue** returns its head `r`; the rest stays there, and
`r` is then on no queue. -/
lemma dequeue_cons (h : QueuesWf d L) {r : Fin N} {rest : List (Fin N)} (hl : L .Free = r :: rest) :
    cbcRequestDequeue d .Free = (some r, d.removeHead .Free) ∧
      QueuesWf (d.removeHead .Free) (Function.update L .Free rest) ∧
      queuedCount (Function.update L .Free rest) r = 0 := by
  have hf : (d.qhead .Free).sqhFirst = some r := (hl ▸ (h.shape .Free).path).eq_some
  refine ⟨by simp [cbcRequestDequeue, hf], h.removeHead hl, ?_⟩
  have e := queuedCount_update L .Free rest r
  have := h.once r
  rw [hl, List.count_cons_self] at e
  omega

end QueuesWf

/-! ## `ioc_build_request` -/

lemma ringCopy_apply (ringSize : Nat) (ring : CbcRing) (buf : Nat → UInt8) (i n j : Nat) :
    ringCopy ringSize ring buf i n j =
      if i ≤ j ∧ j < i + n then ring.buf ((ring.head + j) &&& (ringSize - 1)) else buf j := by
  induction n generalizing buf i with
  | zero => rw [ringCopy, if_neg (by omega)]
  | succ n ih =>
    rw [ringCopy, ih]
    by_cases hj : j = i
    · subst hj; simp
    · simp only [Function.update_noteq hj]
      congr 1
      apply propext; omega

/-- For a power-of-two ring the mask is the modulus, so the copy wraps past the end of the ring. -/
lemma ringCopy_pow_two {k : Nat} (ring : CbcRing) (buf : Nat → UInt8) (n j : Nat) :
    ringCopy (2 ^ k) ring buf 0 n j =
      if j < n then ring.buf ((ring.head + j) % 2 ^ k) else buf j := by
  simp [ringCopy_apply, Nat.and_pow_two_sub_one_eq_mod]

/-- **`ioc_build_request`.**  With the free queue empty nothing changes.  Otherwise the request
`r` at its head gets `buf[i] = ring.buf[(head + i) mod CBC_RING_BUFFER_SIZE]` for `i < link_len`,
its own bytes elsewhere, and the two lengths; `r` leaves the free queue and is appended to the rx
queue; the tx queue, the ring and every other request are unchanged. -/
theorem iocBuildRequest_spec {ringSize k : Nat} (hpow : ringSize = 2 ^ k) {d : IocDev N}
    {L : CbcQueueType → List (Fin N)} (hwf : QueuesWf d L) (linkLen srvLen : Int) :
    (L .Free = [] → iocBuildRequest ringSize d linkLen srvLen = d) ∧
    ∀ r rest, L .Free = r :: rest →
      let d' := iocBuildRequest ringSize d linkLen srvLen
      (∀ i, (d'.pool r).buf i =
        if i < linkLen.toNat then d.ring.buf ((d.ring.head + i) % ringSize) else (d.pool r).buf i) ∧
      (d'.pool r).linkLen = linkLen ∧ (d'.pool r).srvLen = srvLen ∧
      QueuesWf d' (Function.update (Function.update L .Free rest) .Rx (L .Rx ++ [r])) ∧
      d'.qhead .Tx = d.qhead .Tx ∧ d'.ring = d.ring ∧ ∀ j, j ≠ r → d'.pool j = d.pool j := by
  subst hpow
  refine ⟨fun he => by simp [iocBuildRequest, hwf.dequeue_nil he], fun r rest hl => ?_⟩
  obtain ⟨hd, h1, hr⟩ := hwf.dequeue_cons hl
  have h2 := (h1.of_links (buildRequestFill (2 ^ k) (d.removeHead .Free) r linkLen srvLen)
    rfl rfl).insert hr .Rx false
  simp only [iocBuildRequest, hd, cbcRequestEnqueue]
  refine ⟨fun i => ?_, ?_, ?_, by simpa using h2, ?_, rfl, fun j hj => ?_⟩
  · simp [buildRequestFill, ringCopy_pow_two]
  · simp [buildRequestFill]
  · simp [buildRequestFill]
  · simp [IocDev.insert, buildRequestFill, IocDev.removeHead]
  · simp [buildRequestFill, Function.update_noteq hj]

/-- A ring of four bytes holding `0, 1, 2, 3`, with `head = 3`, and one free request: a frame of
two bytes wraps past the end of the ring. -/
theorem iocBuildRequest_wraps :
    let d : IocDev 1 := ⟨fun _ => ⟨fun _ => 0, 0, 0, .NativePmt⟩, fun _ => none,
      fun q => if q = .Free then ⟨some 0, .Next 0⟩ else ⟨none, .First⟩, ⟨fun i => i.toUInt8, 3, 0⟩⟩
    ((iocBuildRequest 4 d 2 1).pool 0).buf 0 = 3 ∧ ((iocBuildRequest 4 d 2 1).pool 0).buf 1 = 0 := by
  intro d
  have hwf : QueuesWf d fun q => if q = .Free then [0] else [] :=
    ⟨fun q => by cases q <;> exact ⟨by first | exact .nil | exact .cons .nil, rfl⟩, by decide⟩
  have h := ((iocBuildRequest_spec (k := 2) rfl hwf 2 1).2 0 [] rfl).1
  exact ⟨by simpa using h 0, by simpa using h 1⟩

/-! ## `ioc_process_tx` -/

/-- **`ioc_process_tx`.**  With the free queue empty the data is dropped and nothing changes.
Otherwise the request `r` at the free queue's head is taken.  When `ioc_ch_recv` gets nothing,
`r` goes back, unchanged, to the free queue's tail.  When it reads a service frame, `r` gets the
frame at `CBC_SRV_POS`, the count as `srv_len`, `link_len = 0` and the channel, and is appended to
the tx queue; every other request is unchanged. -/
theorem iocProcessTx_spec (K : IocConsts) {d : IocDev N} {L : CbcQueueType → List (Fin N)}
    (hwf : QueuesWf d L) (id : IocChId) (fd : Int) (rd : ReadRet) :
    (L .Free = [] → iocProcessTx K d id fd rd = (-1, d)) ∧
    ∀ r rest, L .Free = r :: rest →
      let rcv := iocChRecv fd K.maxServiceSize rd
      let res := iocProcessTx K d id fd rd
      (rcv.1 ≤ 0 → res.1 = -1 ∧ res.2.pool = d.pool ∧
        QueuesWf res.2 (Function.update L .Free (rest ++ [r]))) ∧
      (0 < rcv.1 → res.1 = 0 ∧
        res.2.pool r = { d.pool r with
          buf := writeAt (d.pool r).buf K.srvPos rcv.2, srvLen := rcv.1, linkLen := 0, id := id } ∧
        (∀ j, j ≠ r → res.2.pool j = d.pool j) ∧
        QueuesWf res.2 (Function.update (Function.update L .Free rest) .Tx (L .Tx ++ [r]))) := by
  refine ⟨fun he => by simp [iocProcessTx, hwf.dequeue_nil he], fun r rest hl => ?_⟩
  obtain ⟨hd, h1, hr⟩ := hwf.dequeue_cons hl
  simp only [iocProcessTx, hd]
  refine ⟨fun hc => ?_, fun hc => ?_⟩
  · rw [if_pos hc]
    exact ⟨rfl, rfl, by simpa [cbcRequestEnqueue] using h1.insert hr .Free false⟩
  · rw [if_neg (Int.not_le.2 hc)]
    have h2 := (h1.of_links (processTxFill K (d.removeHead .Free) r id
      (iocChRecv fd K.maxServiceSize rd).1 (iocChRecv fd K.maxServiceSize rd).2) rfl rfl).insert
      hr .Tx false
    exact ⟨rfl, by simp [cbcRequestEnqueue, processTxFill],
      fun j hj => by simp [cbcRequestEnqueue, processTxFill, Function.update_noteq hj],
      by simpa [cbcRequestEnqueue] using h2⟩

/-- One free request, and a read of two bytes on the signal channel. -/
theorem iocProcessTx_spec_read :
    let K : IocConsts := ⟨4, 1, 8⟩
    let d : IocDev 1 := ⟨fun _ => ⟨fun _ => 0, 0, 0, .NativePmt⟩, fun _ => none,
      fun q => if q = .Free then ⟨some 0, .Next 0⟩ else ⟨none, .First⟩, ⟨fun _ => 0, 0, 0⟩⟩
    let L : CbcQueueType → List (Fin 1) := fun q => if q = .Free then [0] else []
    QueuesWf d L ∧
    (L .Free = [] → iocProcessTx K d .NativeSignal 3 (.Bytes [7, 9]) = (-1, d)) ∧
    ∀ r rest, L .Free = r :: rest →
      let rcv := iocChRecv 3 K.maxServiceSize (.Bytes [7, 9])
      let res := iocProcessTx K d .NativeSignal 3 (.Bytes [7, 9])
      (rcv.1 ≤ 0 → res.1 = -1 ∧ res.2.pool = d.pool ∧
        QueuesWf res.2 (Function.update L .Free (rest ++ [r]))) ∧
      (0 < rcv.1 → res.1 = 0 ∧
        res.2.pool r = { d.pool r with
          buf := writeAt (d.pool r).buf K.srvPos rcv.2, srvLen := rcv.1, linkLen := 0,
          id := .NativeSignal } ∧
        (∀ j, j ≠ r → res.2.pool j = d.pool j) ∧
        QueuesWf res.2 (Function.update (Function.update L .Free rest) .Tx (L .Tx ++ [r]))) := by
  intro K d L
  have hwf : QueuesWf d L :=
    ⟨fun q => by cases q <;> exact ⟨by first | exact .nil | exact .cons .nil, rfl⟩, by decide⟩
  exact ⟨hwf, iocProcessTx_spec K hwf .NativeSignal 3 (.Bytes [7, 9])⟩

end Ioc
