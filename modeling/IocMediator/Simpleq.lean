import Mathlib.Logic.Function.Basic
import Mathlib.Data.List.Basic

/-!
# `SIMPLEQ`: the intrusive singly-linked tail queue

The mediator keeps its requests on three `SIMPLEQ` lists of `<sys/queue.h>`, threaded through the
single `me_queue` link of each `struct cbc_request`.  A queue head holds `sqh_first`, the first
element, and `sqh_last`, a pointer to the `sqe_next` field that the next tail insertion writes:
`&head->sqh_first` while the queue is empty.

The pool is the slots `Fin N`, and the links of all slots are one map `Fin N → Option (Fin N)`, so
that one queue's operation writes the same links every other queue reads, as in C.  `sqh_last` is
an `SqLink`: the head's own `sqh_first`, or the `sqe_next` of a slot.

`QueueShape next h l` says that the head `h` holds exactly the slots `l`: following `sqe_next` from
`sqh_first` visits `l` in order and then reaches `NULL`, and `sqh_last` points at the link of the
last element of `l`.  Such a chain is acyclic (`Path.nodup`).  The three macros the mediator uses
act on the shape as list operations, provided the inserted slot is not on the queue already
(`simpleqInsertHead_shape`, `simpleqInsertTail_shape`, `simpleqRemoveHead_shape`), and a write to a
link outside `l` leaves the shape alone (`QueueShape.update`): that is what lets three queues share
one link map.
-/

namespace Ioc

variable {N : Nat}

/-- The links of the pool: `me_queue.sqe_next` of every slot. -/
abbrev Links (N : Nat) := Fin N → Option (Fin N)

/-- What `sqh_last` points at: the head's own `sqh_first`, or the `sqe_next` link of a slot. -/
inductive SqLink (N : Nat) where
  | First
  | Next (i : Fin N)
  deriving DecidableEq, Repr

/-- `struct cbc_qhead`, declared with `SIMPLEQ_HEAD`. -/
structure CbcQhead (N : Nat) where
  sqhFirst : Option (Fin N)
  sqhLast : SqLink N
  deriving DecidableEq, Repr

/-- `SIMPLEQ_INIT`: no element, `sqh_last` pointing at `sqh_first`. -/
def simpleqInit : CbcQhead N := ⟨none, .First⟩

/-- `SIMPLEQ_INSERT_HEAD`: `elm->next = first`; if that is `NULL`, `sqh_last = &elm->next`;
then `sqh_first = elm`. -/
def simpleqInsertHead (next : Links N) (h : CbcQhead N) (e : Fin N) : Links N × CbcQhead N :=
  (Function.update next e h.sqhFirst, ⟨some e, if h.sqhFirst = none then .Next e else h.sqhLast⟩)

/-- `SIMPLEQ_INSERT_TAIL`: `elm->next = NULL; *sqh_last = elm; sqh_last = &elm->next`. -/
def simpleqInsertTail (next : Links N) (h : CbcQhead N) (e : Fin N) : Links N × CbcQhead N :=
  match h.sqhLast with
  | .First => (Function.update next e none, ⟨some e, .Next e⟩)
  | .Next j => (Function.update (Function.update next e none) j (some e), ⟨h.sqhFirst, .Next e⟩)

/-- `SIMPLEQ_REMOVE_HEAD`: `sqh_first = sqh_first->next`, and if that is `NULL`,
`sqh_last = &sqh_first`.  Callers test `SIMPLEQ_EMPTY` first; on an empty queue the macro would
dereference `NULL`, and the model leaves the head as it is. -/
def simpleqRemoveHead (next : Links N) (h : CbcQhead N) : CbcQhead N :=
  match h.sqhFirst with
  | none => h
  | some a =>
    match next a with
    | none => ⟨none, .First⟩
    | some b => ⟨some b, h.sqhLast⟩

/-! ## Link chains -/

/-- Following `sqe_next` from `e` visits exactly the slots `l`, in order, and then reaches
`NULL`. -/
inductive Path (next : Links N) : Option (Fin N) → List (Fin N) → Prop
  | nil : Path next none []
  | cons {a : Fin N} {l : List (Fin N)} : Path next (next a) l → Path next (some a) (a :: l)

/-- The link that a tail insertion writes through, for a queue holding `l`. -/
def lastLink (l : List (Fin N)) : SqLink N :=
  match l.getLast? with
  | none => .First
  | some a => .Next a

@[simp] lemma lastLink_nil : lastLink ([] : List (Fin N)) = .First := rfl

@[simp] lemma lastLink_append_singleton (l : List (Fin N)) (a : Fin N) :
    lastLink (l ++ [a]) = .Next a := by
  simp [lastLink]

lemma lastLink_cons_cons (a b : Fin N) (l : List (Fin N)) :
    lastLink (a :: b :: l) = lastLink (b :: l) := by
  simp [lastLink, List.getLast?_cons_cons]

/-- The queue head `h` holds exactly the slots `l`, in order. -/
structure QueueShape (next : Links N) (h : CbcQhead N) (l : List (Fin N)) : Prop where
  path : Path next h.sqhFirst l
  last : h.sqhLast = lastLink l

namespace Path

variable {next : Links N}

lemma eq_nil {l : List (Fin N)} (h : Path next none l) : l = [] := by
  cases h; rfl

lemma eq_some {e : Option (Fin N)} {a : Fin N} {l : List (Fin N)} (h : Path next e (a :: l)) :
    e = some a := by
  cases h; rfl

lemma exists_of_some {a : Fin N} {l : List (Fin N)} (h : Path next (some a) l) :
    ∃ l', l = a :: l' := by
  cases h; exact ⟨_, rfl⟩

/-- A chain is determined by where it starts. -/
lemma functional {e : Option (Fin N)} {l l' : List (Fin N)} (h : Path next e l)
    (h' : Path next e l') : l = l' := by
  induction h generalizing l' with
  | nil => exact h'.eq_nil.symm
  | @cons a l _ ih =>
    cases h' with
    | cons h' => rw [ih h']

lemma suffix {e : Option (Fin N)} {p q : List (Fin N)} {b : Fin N} (h : Path next e (p ++ b :: q)) :
    Path next (some b) (b :: q) := by
  induction p generalizing e with
  | nil => cases h; exact .cons ‹_›
  | cons a p ih => cases h with
    | cons h => exact ih h

/-- **A chain that reaches `NULL` is acyclic**: no slot is visited twice. -/
lemma nodup {e : Option (Fin N)} {l : List (Fin N)} (h : Path next e l) : l.Nodup := by
  induction h with
  | nil => exact List.nodup_nil
  | @cons a l hl ih =>
    refine List.nodup_cons.2 ⟨fun ha => ?_, ih⟩
    obtain ⟨p, q, rfl⟩ := List.append_of_mem ha
    have hlen := congrArg List.length ((Path.cons hl).functional (hl.suffix))
    simp at hlen
    omega

/-- A write to a link the chain does not visit leaves the chain alone. -/
lemma update {e : Option (Fin N)} {l : List (Fin N)} (h : Path next e l) {i : Fin N} (hi : i ∉ l)
    (v : Option (Fin N)) : Path (Function.update next i v) e l := by
  induction h with
  | nil => exact .nil
  | @cons a l _ ih =>
    have hai : a ≠ i := fun hai => hi (hai ▸ List.mem_cons_self a l)
    refine .cons ?_
    rw [Function.update_noteq hai]
    exact ih (fun h => hi (List.mem_cons_of_mem a h))

/-- Linking `r` after the last slot `z` of a chain extends it by `r`. -/
lemma snoc {e : Option (Fin N)} {l : List (Fin N)} (h : Path next e l) {z r : Fin N}
    (hz : l.getLast? = some z) (hr : r ∉ l) :
    Path (Function.update (Function.update next r none) z (some r)) e (l ++ [r]) := by
  induction h with
  | nil => simp at hz
  | @cons a l hl ih =>
    have hra : r ≠ a := fun h => hr (h ▸ List.mem_cons_self a l)
    rcases l with _ | ⟨b, l⟩
    · simp only [List.getLast?_singleton, Option.some.injEq] at hz
      subst hz
      refine .cons ?_
      rw [Function.update_same]
      refine .cons ?_
      rw [Function.update_noteq hra, Function.update_same]
      exact .nil
    · have hza : z ≠ a := by
        rintro rfl
        have := (Path.cons hl).nodup
        simp only [List.getLast?_cons_cons] at hz
        exact List.nodup_cons.1 this |>.1 (List.mem_of_getLast?_eq_some hz)
      refine .cons ?_
      rw [Function.update_noteq hza.symm, Function.update_noteq hra.symm]
      exact ih (by simpa using hz) (fun h => hr (List.mem_cons_of_mem a h))

end Path

/-! ## The macros on shapes -/

lemma QueueShape.update {next : Links N} {h : CbcQhead N} {l : List (Fin N)}
    (hs : QueueShape next h l)
    {i : Fin N} (hi : i ∉ l) (v : Option (Fin N)) : QueueShape (Function.update next i v) h l :=
  ⟨hs.path.update hi v, hs.last⟩

lemma QueueShape.eq_nil_iff {next : Links N} {h : CbcQhead N} {l : List (Fin N)}
    (hs : QueueShape next h l) : h.sqhFirst = none ↔ l = [] := by
  constructor
  · intro he; exact (he ▸ hs.path).eq_nil
  · rintro rfl; cases hq : h.sqhFirst
    · rfl
    · have := hs.path; rw [hq] at this; cases this

lemma simpleqInit_shape (next : Links N) : QueueShape next simpleqInit [] := ⟨.nil, rfl⟩

lemma simpleqInsertHead_shape {next : Links N} {h : CbcQhead N} {l : List (Fin N)}
    (hs : QueueShape next h l) {r : Fin N} (hr : r ∉ l) :
    QueueShape (simpleqInsertHead next h r).1 (simpleqInsertHead next h r).2 (r :: l) := by
  refine ⟨.cons ?_, ?_⟩
  · simpa [simpleqInsertHead] using hs.path.update hr h.sqhFirst
  · rcases l with _ | ⟨b, l⟩
    · simp [simpleqInsertHead, hs.eq_nil_iff.2 rfl, lastLink]
    · have : h.sqhFirst ≠ none := fun he => by simpa using hs.eq_nil_iff.1 he
      simp [simpleqInsertHead, this, hs.last, lastLink_cons_cons]

lemma simpleqInsertTail_shape {next : Links N} {h : CbcQhead N} {l : List (Fin N)}
    (hs : QueueShape next h l) {r : Fin N} (hr : r ∉ l) :
    QueueShape (simpleqInsertTail next h r).1 (simpleqInsertTail next h r).2 (l ++ [r]) := by
  rcases hz : l.getLast? with _ | z
  · obtain rfl : l = [] := List.getLast?_eq_none_iff.1 hz
    have hf : h.sqhFirst = none := hs.eq_nil_iff.2 rfl
    have hl : h.sqhLast = .First := hs.last
    simp only [simpleqInsertTail, hl]
    exact ⟨.cons (by rw [Function.update_same]; exact .nil), rfl⟩
  · have hl : h.sqhLast = .Next z := by rw [hs.last, lastLink, hz]
    simp only [simpleqInsertTail, hl]
    exact ⟨hs.path.snoc hz hr, by simp⟩

lemma simpleqRemoveHead_shape {next : Links N} {h : CbcQhead N} {a : Fin N} {l : List (Fin N)}
    (hs : QueueShape next h (a :: l)) : QueueShape next (simpleqRemoveHead next h) l := by
  obtain ⟨hp, hl⟩ := hs
  generalize hf : h.sqhFirst = f at hp
  cases hp with
  | cons hp =>
    rcases hn : next a with _ | b <;> rw [hn] at hp
    · obtain rfl := hp.eq_nil
      simp only [simpleqRemoveHead, hf, hn]
      exact ⟨.nil, rfl⟩
    · refine ⟨by simpa [simpleqRemoveHead, hf, hn] using hp, ?_⟩
      cases hp with
      | cons _ => simp [simpleqRemoveHead, hf, hn, hl, lastLink_cons_cons]

end Ioc
