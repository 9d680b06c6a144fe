import IocMediator.Channel
import IocMediator.Threads
import Mathlib.Data.Multiset.Basic

/-!
# A failed `ioc_init`, and what its teardown releases

`ioc_init` sets resources up in order (the epoll descriptor, `free_mtx`, the channels, the rx and
tx condition variables and mutexes, the three threads) and, on a failure, jumps into a chain of
labels `work_err → chl_err → alloc_err → ioc_err` meant to release them in reverse.  Here
`iocInit` is the list of calls it makes on those resources, for every outcome of the calls it
depends on (`InitEnv`), and `Res.check` runs such a list against what POSIX allows: a mutex or
condition variable is used or destroyed only while initialised, a thread is joined only after it
was created, and a descriptor is closed only while open.

* `iocChDeinit_iocChInit`: on the table `ioc_ch_init` leaves, successful or not, `ioc_ch_deinit`
  closes exactly the descriptors `ioc_ch_init` opened, as long as `IOC_INIT_FD` is negative.
* `iocInit_chlErr_unwinds`: every failure up to and including `ioc_ch_init` releases everything it
  set up, once, whatever the opens returned.
* `iocInit_createRx_fails` lists every call outside POSIX when the rx thread cannot be created:
  `work_err` destroys the rx and tx objects, then `ioc_kill_workers` joins three threads that do
  not exist, locks, signals and destroys the rx and tx objects again, and `free_mtx` is destroyed
  twice.

Memory (`calloc` and `free`) and the threads' own use of the objects are left out, and a join
returns at once: the results here are about failures that come before any thread is started.
-/

namespace Ioc

/-! ## Resources and the calls on them -/

/-- The mutexes and condition variables of `struct ioc_dev`. -/
inductive SyncObj where
  | FreeMtx
  | RxCond
  | RxMtx
  | TxCond
  | TxMtx
  deriving DecidableEq, Repr

/-- A call `ioc_init` or its teardown makes on a resource. -/
inductive Act where
  | MutexInit (m : SyncObj)
  | CondInit (c : SyncObj)
  | Lock (m : SyncObj)
  | Unlock (m : SyncObj)
  | Signal (c : SyncObj)
  | MutexDestroy (m : SyncObj)
  | CondDestroy (c : SyncObj)
  /-- a `pthread_create` that succeeded -/
  | Create (t : Thread)
  | Join (t : Thread)
  /-- an `epoll_create1` or `open` that returned `fd ≥ 0` -/
  | Open (fd : Int)
  | Close (fd : Int)
  deriving DecidableEq, Repr

/-- What the calls `ioc_init` depends on return. -/
structure InitEnv where
  /-- `ioc_is_platform_supported () == 0` -/
  platform : Bool
  /-- `ioc_boot_reason`, set by `ioc_parse` -/
  bootReason : UInt32
  /-- the `calloc` of the device -/
  callocDev : Bool
  /-- the `calloc`s of the pool and of the epoll events -/
  callocBufs : Bool
  /-- `epoll_create1 (0)` -/
  epfd : Int
  /-- the opens of `ioc_ch_init` -/
  chans : OpenEnv
  /-- whether `pthread_create` succeeds, for each thread -/
  create : Thread → Bool

/-! ## `ioc_init` -/

/-- The descriptors `ioc_ch_init` opens, in order: every enabled row's successful open, up to the
failure of a critical channel. -/
def iocChInitOpens (env : OpenEnv) : List IocChInfo → List Int
  | [] => []
  | chl :: rest =>
    if chl.stat = .Off then iocChInitOpens env rest
    else if iocChOpen env chl.id < 0 ∧ chl.id.critical then []
    else if 0 ≤ iocChOpen env chl.id then iocChOpen env chl.id :: iocChInitOpens env rest
    else iocChInitOpens env rest

/-- `ioc_kill_workers (ioc)` with `ioc->epfd = epfd`, which it then resets to `IOC_INIT_FD`. -/
def iocKillWorkers (epfd : Int) : List Act :=
  [.Close epfd, .Join .Core,
   .Lock .RxMtx, .Signal .RxCond, .Unlock .RxMtx, .Join (.Worker .Rx),
   .Lock .TxMtx, .Signal .TxCond, .Unlock .TxMtx, .Join (.Worker .Tx),
   .MutexDestroy .RxMtx, .CondDestroy .RxCond, .MutexDestroy .TxMtx, .CondDestroy .TxCond,
   .MutexDestroy .FreeMtx]

/-- From the `chl_err` label on: `ioc_ch_deinit` on the table `tbl`, `free_mtx`, and
`close (ioc->epfd)`. -/
def chlErr (initFd : Int) (tbl : List IocChInfo) (epfd : Int) : List Act :=
  (iocChDeinit initFd tbl).1.map .Close ++ [.MutexDestroy .FreeMtx, .Close epfd]

/-- From the `work_err` label on: the rx and tx objects, `ioc_kill_workers`, then `chl_err` with
the descriptor `ioc_kill_workers` left in `ioc->epfd`. -/
def workErr (initFd : Int) (tbl : List IocChInfo) (epfd : Int) : List Act :=
  [.MutexDestroy .RxMtx, .CondDestroy .RxCond, .MutexDestroy .TxMtx, .CondDestroy .TxCond] ++
    iocKillWorkers epfd ++ chlErr initFd tbl initFd

/-- `ioc_init` with the channel table starting at `IOC_INIT_FD = initFd`: the calls it makes on
resources, and whether it returns the device (`true`) or `NULL`. -/
def iocInit (initFd : Int) (e : InitEnv) : List Act × Bool :=
  if e.platform = false then ([], false)
  else if e.bootReason = 0 then ([], false)
  else if e.callocDev = false then ([], false)
  else if e.callocBufs = false then ([], false)
  else if e.epfd < 0 then ([], false)
  else
    let start : List Act := [.Open e.epfd, .MutexInit .FreeMtx] ++
      (iocChInitOpens e.chans (iocChTbl initFd)).map .Open
    let ch := iocChInit e.chans (iocChTbl initFd)
    if ch.1 ≠ 0 then (start ++ chlErr initFd ch.2 e.epfd, false)
    else
      let pre := start ++
        [.CondInit .RxCond, .MutexInit .RxMtx, .CondInit .TxCond, .MutexInit .TxMtx]
      if e.create (.Worker .Rx) = false then (pre ++ workErr initFd ch.2 e.epfd, false)
      else if e.create (.Worker .Tx) = false then
        (pre ++ .Create (.Worker .Rx) :: workErr initFd ch.2 e.epfd, false)
      else if e.create .Core = false then
        (pre ++ .Create (.Worker .Rx) :: .Create (.Worker .Tx) :: workErr initFd ch.2 e.epfd, false)
      else (pre ++ [.Create (.Worker .Rx), .Create (.Worker .Tx), .Create .Core], true)

/-! ## What POSIX allows -/

/-- The life of a mutex or condition variable. -/
inductive SyncStat where
  | Uninit
  | Live
  | Destroyed
  deriving DecidableEq, Repr

/-- The life of a thread. -/
inductive ThreadStat where
  | Absent
  | Running
  | Joined
  deriving DecidableEq, Repr

/-- The resources: each object's and thread's state, and the descriptors open. -/
structure Res where
  sync : SyncObj → SyncStat
  thread : Thread → ThreadStat
  fds : Multiset Int

/-- Nothing set up yet. -/
def Res.init : Res := ⟨fun _ => .Uninit, fun _ => .Absent, 0⟩

/-- One call from `r`; `none` when POSIX leaves it undefined: an object initialised twice, used or
destroyed when not initialised, a thread created twice or joined when not running, a
non-negative descriptor closed when not open.  `close` of a negative descriptor fails harmlessly. -/
def Res.step (r : Res) : Act → Option Res
  | .MutexInit o | .CondInit o =>
    if r.sync o = .Live then none else some { r with sync := Function.update r.sync o .Live }
  | .Lock o | .Unlock o | .Signal o => if r.sync o = .Live then some r else none
  | .MutexDestroy o | .CondDestroy o =>
    if r.sync o = .Live then some { r with sync := Function.update r.sync o .Destroyed } else none
  | .Create t =>
    if r.thread t = .Absent then some { r with thread := Function.update r.thread t .Running }
    else none
  | .Join t =>
    if r.thread t = .Running then some { r with thread := Function.update r.thread t .Joined }
    else none
  | .Open fd => some { r with fds := fd ::ₘ r.fds }
  | .Close fd =>
    if fd ∈ r.fds then some { r with fds := r.fds.erase fd } else if fd < 0 then some r else none

/-- Run calls from `r`: the calls POSIX leaves undefined, which change nothing, and the state
after the others. -/
def Res.check (r : Res) : List Act → List Act × Res
  | [] => ([], r)
  | a :: as =>
    match r.step a with
    | some r' => r'.check as
    | none => (a :: (r.check as).1, (r.check as).2)

/-- Everything released: no object left initialised, no thread left running, no descriptor open. -/
def Res.Clean (r : Res) : Prop :=
  (∀ o, r.sync o ≠ .Live) ∧ (∀ t, r.thread t ≠ .Running) ∧ r.fds = 0

/-- A list of calls that stays within POSIX and releases everything it set up. -/
def Unwinds (calls : List Act) : Prop :=
  (Res.init.check calls).1 = [] ∧ (Res.init.check calls).2.Clean

/-! ## Running calls -/

namespace Res

lemma check_append (r : Res) (l₁ l₂ : List Act) :
    r.check (l₁ ++ l₂) =
      ((r.check l₁).1 ++ ((r.check l₁).2.check l₂).1, ((r.check l₁).2.check l₂).2) := by
  induction l₁ generalizing r with
  | nil => rfl
  | cons a l₁ ih =>
    simp only [List.cons_append, check]
    cases r.step a with
    | some r' => exact ih r'
    | none => simp [ih]

/-- Opening descriptors adds them to the open ones. -/
lemma check_opens (r : Res) (l : List Int) :
    r.check (l.map .Open) = ([], ⟨r.sync, r.thread, ↑l + r.fds⟩) := by
  induction l generalizing r with
  | nil => simp [check]
  | cons x l ih =>
    simp only [List.map_cons, check, step, ih, ← Multiset.cons_coe, Multiset.cons_add,
      Multiset.add_cons]

/-- Closing open descriptors, each once, removes them. -/
lemma check_closes (sync : SyncObj → SyncStat) (thread : Thread → ThreadStat) (l : List Int)
    (F : Multiset Int) :
    (⟨sync, thread, ↑l + F⟩ : Res).check (l.map .Close) = ([], ⟨sync, thread, F⟩) := by
  induction l with
  | nil => simp [check]
  | cons x l ih =>
    simp only [List.map_cons, check, step, ← Multiset.cons_coe, Multiset.cons_add,
      Multiset.mem_cons_self, if_true, Multiset.erase_cons_head, ih]

end Res

/-! ## `ioc_ch_deinit` closes what `ioc_ch_init` opened -/

/-- **`ioc_ch_deinit` closes exactly what `ioc_ch_init` opened**, in order, whether
`ioc_ch_init` succeeded or stopped at a critical channel, on a table whose rows start closed. -/
lemma iocChDeinit_iocChInit {initFd : Int} (env : OpenEnv) {tbl : List IocChInfo}
    (h : ∀ chl ∈ tbl, chl.fd < 0) :
    (iocChDeinit initFd (iocChInit env tbl).2).1 = iocChInitOpens env tbl := by
  induction tbl with
  | nil => rfl
  | cons chl rest ih =>
    have ih := ih fun c hc => h c (List.mem_cons_of_mem _ hc)
    have hc : ¬ 0 ≤ chl.fd := Int.not_le.2 (h chl (List.mem_cons_self _ _))
    simp only [iocChDeinit] at ih
    by_cases hoff : chl.stat = .Off
    · simp [iocChInit, iocChInitOpens, iocChDeinit, hoff, hc, ih]
    · by_cases hcrit : iocChOpen env chl.id < 0 ∧ chl.id.critical
      · simp [iocChInit, iocChInitOpens, iocChDeinit, hoff, hcrit, hc]
        exact fun c hc' => h c (List.mem_cons_of_mem _ hc')
      · by_cases hge : 0 ≤ iocChOpen env chl.id
        · simp [iocChInit, iocChInitOpens, iocChDeinit, hoff, hcrit, hge, ih]
        · simp [iocChInit, iocChInitOpens, iocChDeinit, hoff, hcrit, hge, ih]

/-- Every row of `ioc_ch_tbl` starts closed when `IOC_INIT_FD` is negative. -/
lemma iocChTbl_closed {initFd : Int} (h : initFd < 0) : ∀ chl ∈ iocChTbl initFd, chl.fd < 0 := by
  simp only [iocChTbl, List.cons_append, List.forall_mem_cons, h, true_and]
  rintro chl hc
  rcases List.mem_append.1 hc with hc | hc
  · obtain ⟨k, -, rfl⟩ := List.mem_map.1 hc; exact h
  · rw [List.mem_singleton.1 hc]; exact h

/-! ## Failures before the threads -/

lemma unwinds_nil : Unwinds [] := ⟨rfl, fun _ => nofun, fun _ => nofun, rfl⟩

/-- The `chl_err` path: the epoll descriptor and `free_mtx` set up and the channels opened, then
`ioc_ch_deinit`, `free_mtx` and the epoll descriptor released. -/
lemma chlErr_unwinds {initFd : Int} (h : initFd < 0) (env : OpenEnv) (epfd : Int) :
    Unwinds ([.Open epfd, .MutexInit .FreeMtx] ++
      (iocChInitOpens env (iocChTbl initFd)).map .Open ++
      chlErr initFd (iocChInit env (iocChTbl initFd)).2 epfd) := by
  rw [chlErr, iocChDeinit_iocChInit env (iocChTbl_closed h)]
  generalize iocChInitOpens env (iocChTbl initFd) = l
  have h₁ : Res.init.check [.Open epfd, .MutexInit .FreeMtx] =
      ([], ⟨Function.update (fun _ => .Uninit) .FreeMtx .Live, fun _ => .Absent, epfd ::ₘ 0⟩) := rfl
  simp only [Unwinds, Res.check_append, h₁, Res.check_opens, Res.check_closes]
  simp only [Res.check, Res.step, Function.update_same, if_true, Multiset.mem_cons_self,
    Multiset.erase_cons_head, Function.update_idem, List.append_nil]
  refine ⟨trivial, fun o => ?_, fun _ => nofun, rfl⟩
  dsimp only
  rw [Function.update_apply]
  split <;> nofun

section IocInit

variable {initFd : Int} {e : InitEnv}

/-- The failures before `epoll_create1` has given a descriptor set nothing up. -/
lemma iocInit_early (h : e.platform = false ∨ e.bootReason = 0 ∨ e.callocDev = false ∨
    e.callocBufs = false ∨ e.epfd < 0) : iocInit initFd e = ([], false) := by
  rcases h with h | h | h | h | h <;> simp [iocInit, h]

/-- The setup that precedes `ioc_ch_init` succeeded. -/
structure SetupOk (e : InitEnv) : Prop where
  platform : e.platform = true
  bootReason : e.bootReason ≠ 0
  callocDev : e.callocDev = true
  callocBufs : e.callocBufs = true
  epfd : 0 ≤ e.epfd

lemma SetupOk.iocInit_eq (h : SetupOk e) : iocInit initFd e =
    let start : List Act := [.Open e.epfd, .MutexInit .FreeMtx] ++
      (iocChInitOpens e.chans (iocChTbl initFd)).map .Open
    let ch := iocChInit e.chans (iocChTbl initFd)
    if ch.1 ≠ 0 then (start ++ chlErr initFd ch.2 e.epfd, false)
    else
      let pre := start ++
        [.CondInit .RxCond, .MutexInit .RxMtx, .CondInit .TxCond, .MutexInit .TxMtx]
      if e.create (.Worker .Rx) = false then (pre ++ workErr initFd ch.2 e.epfd, false)
      else if e.create (.Worker .Tx) = false then
        (pre ++ .Create (.Worker .Rx) :: workErr initFd ch.2 e.epfd, false)
      else if e.create .Core = false then
        (pre ++ .Create (.Worker .Rx) :: .Create (.Worker .Tx) :: workErr initFd ch.2 e.epfd, false)
      else (pre ++ [.Create (.Worker .Rx), .Create (.Worker .Tx), .Create .Core], true) := by
  have hp : ¬ e.platform = false := by simp [h.platform]
  have hd : ¬ e.callocDev = false := by simp [h.callocDev]
  have hb : ¬ e.callocBufs = false := by simp [h.callocBufs]
  unfold iocInit
  rw [if_neg hp, if_neg h.bootReason, if_neg hd, if_neg hb, if_neg (Int.not_lt.2 h.epfd)]

/-- **A failure before the threads unwinds**: when `ioc_init` fails at the platform check, the boot
reason, an allocation, `epoll_create1` or `ioc_ch_init`, it returns `NULL` having released
everything it set up, once, whatever the channel opens returned. -/
theorem iocInit_chlErr_unwinds (h : initFd < 0)
    (hpre : e.platform = false ∨ e.bootReason = 0 ∨ e.callocDev = false ∨ e.callocBufs = false ∨
      e.epfd < 0 ∨ (iocChInit e.chans (iocChTbl initFd)).1 ≠ 0) :
    (iocInit initFd e).2 = false ∧ Unwinds (iocInit initFd e).1 := by
  by_cases hs : SetupOk e
  · have hch : (iocChInit e.chans (iocChTbl initFd)).1 ≠ 0 := by
      rcases hpre with h | h | h | h | h | h
      · simp [hs.platform] at h
      · exact absurd h hs.bootReason
      · simp [hs.callocDev] at h
      · simp [hs.callocBufs] at h
      · exact absurd hs.epfd (Int.not_le.2 h)
      · exact h
    rw [hs.iocInit_eq, if_pos hch]
    exact ⟨rfl, chlErr_unwinds h e.chans e.epfd⟩
  · rw [iocInit_early]
    · exact ⟨rfl, unwinds_nil⟩
    · by_contra hn
      simp only [not_or, Bool.not_eq_false, Int.not_lt] at hn
      exact hs ⟨hn.1, hn.2.1, hn.2.2.1, hn.2.2.2.1, hn.2.2.2.2⟩

/-- The lifecycle channel cannot be opened. -/
theorem iocInit_chlErr_unwinds_lfcc :
    let e : InitEnv := ⟨true, 1, true, true, 3, ⟨fun id => if id = .NativeLfcc then -1 else 5, 6⟩,
      fun _ => true⟩
    (-1 : Int) < 0 ∧ (e.platform = false ∨ e.bootReason = 0 ∨ e.callocDev = false ∨
      e.callocBufs = false ∨ e.epfd < 0 ∨ (iocChInit e.chans (iocChTbl (-1))).1 ≠ 0) ∧
    (iocInit (-1) e).2 = false ∧ Unwinds (iocInit (-1) e).1 :=
  ⟨by decide, by decide, iocInit_chlErr_unwinds (by decide) (by decide)⟩

end IocInit

/-- **`ioc_init` when the rx thread cannot be created**, every other call succeeding: `work_err`
destroys the rx and tx objects; `ioc_kill_workers` joins the core thread, never created, locks,
signals and unlocks the destroyed rx and tx objects, joins the two workers, never created, and
destroys the rx and tx objects again; `free_mtx`, destroyed there, is destroyed again at
`chl_err`.  These are all the calls outside POSIX, in order. -/
theorem iocInit_createRx_fails :
    let e : InitEnv := ⟨true, 1, true, true, 3, ⟨fun id => 4 + id.toNat, 30⟩,
      fun t => t != .Worker .Rx⟩
    (iocInit (-1) e).2 = false ∧ (Res.init.check (iocInit (-1) e).1).1 =
      [.Join .Core, .Lock .RxMtx, .Signal .RxCond, .Unlock .RxMtx, .Join (.Worker .Rx),
       .Lock .TxMtx, .Signal .TxCond, .Unlock .TxMtx, .Join (.Worker .Tx),
       .MutexDestroy .RxMtx, .CondDestroy .RxCond, .MutexDestroy .TxMtx, .CondDestroy .TxCond,
       .MutexDestroy .FreeMtx] := by
  decide

end Ioc
