/-
UbntSdk.Wrr.Sched — the weighted round-robin queueing discipline
(`target/linux/ubnt/files/net/sched/wrr.c`).

A WRR qdisc has four slots; the class in a slot has its own child qdisc
and a deficit counter. The child qdiscs are the kernel's, not part of the
file: `Child` is a bounded FIFO that counts its own packets, with or
without a `drop` method.

Requests that name a class go through `wrr_get` and `wrr_put`. Each takes
one reference and gives it back, so a class in the table has `refcnt` 1
between requests; the count is left out, and the pointer a request works
on is the slot that `wrr_find` found. Memory allocation may fail where the
code looks at the result. `nla_parse_nested` is the outcome it has on the
request; what it does to memory is left out, where it clears and fills
`TCA_WRR_MAX + 1` elements of a `tb` that has only `TCA_WRR_MAX`. Lengths are
below 2^31, so the `int` deficit does not overflow.

`wrr_dequeue` need not terminate (a class of quantum 0 is never served),
so it is a loop in the sense of `UbntSdk.Lib.Loop`.
-/
import UbntSdk.Lib.Loop
import Mathlib.Data.List.FinRange
import Mathlib.Logic.Function.Basic

namespace UbntSdk.Wrr

open UbntSdk.Lib

abbrev TOTALQUEUES : Nat := 4

scoped instance : NeZero TOTALQUEUES := ⟨by decide⟩

/-- A slot of the class table. -/
abbrev Slot := Fin TOTALQUEUES

def NET_XMIT_SUCCESS : Int := 0
def NET_XMIT_DROP : Int := 1
def ENOENT : Int := 2
def EINVAL : Int := 22
def ENOBUFS : Int := 105

/-- The fields of a `struct sk_buff` that the scheduler reads. -/
structure Packet where
  len : Nat
  mark : UInt32
  deriving DecidableEq

/-! ## Child queues -/

/-- A child qdisc: a FIFO with a limit, and whether it has a `drop`. -/
structure Child where
  packets : List Packet
  limit : Nat
  hasDrop : Bool
  deriving DecidableEq

namespace Child

/-- `q->q.qlen`. -/
def qlen (q : Child) : UInt32 := q.packets.length.toUInt32

/-- Accepts the packet unless the queue is full. -/
def enqueue (q : Child) (skb : Packet) : Option Child :=
  if q.packets.length < q.limit then some { q with packets := q.packets ++ [skb] } else none

def dequeue (q : Child) : Option (Packet × Child) :=
  match q.packets with
  | [] => none
  | skb :: rest => some (skb, { q with packets := rest })

/-- Drops the last packet and returns its length. -/
def drop (q : Child) : Nat × Child :=
  match q.packets.getLast? with
  | none => (0, q)
  | some skb => (skb.len, { q with packets := q.packets.dropLast })

def reset (q : Child) : Child := { q with packets := [] }

end Child

/-- `pfifo_qdisc_ops` on a device with this `tx_queue_len`. -/
def pfifo (txQueueLen : Nat) : Child where
  packets := []
  limit := if txQueueLen = 0 then 1 else txQueueLen
  hasDrop := true

/-- `noop_qdisc`: it accepts nothing. -/
def noopQdisc : Child where
  packets := []
  limit := 0
  hasDrop := false

/-! ## Scheduler state -/

/-- `struct tc_stats` as far as it is counted here. -/
structure Stats where
  packets : Nat
  bytes : Nat
  drops : Nat
  deriving DecidableEq

def Stats.zero : Stats := ⟨0, 0, 0⟩

/-- A packet went through. -/
def Stats.sent (st : Stats) (skb : Packet) : Stats :=
  { st with packets := st.packets + 1, bytes := st.bytes + skb.len }

def Stats.dropped (st : Stats) : Stats := { st with drops := st.drops + 1 }

/-- `struct wrr_class`. -/
structure WrrClass where
  classid : UInt32
  quantum : Int
  nfmark : UInt32
  q : Child
  stats : Stats
  deficit : Int
  deriving DecidableEq

/-- `struct wrr_sched_data` with the counters of its `struct Qdisc`. -/
structure Sched where
  key : Slot
  totalClasses : Int
  totalQueues : Int
  classes : Slot → Option WrrClass
  qlen : UInt32
  stats : Stats

namespace Sched

/-- Change the pointer in a slot. -/
def setClass (s : Sched) (i : Slot) (cl : Option WrrClass) : Sched :=
  { s with classes := Function.update s.classes i cl }

end Sched

/-! ## Queueing -/

/-- `wrr_find`. -/
def wrrFind (handle : UInt32) (s : Sched) : Option Slot :=
  (List.finRange TOTALQUEUES).find? fun i =>
    match s.classes i with
    | none => false
    | some cl => cl.classid = handle

/-- The slot of a mark. -/
def slotOf (mark : UInt32) : Slot := ⟨mark.toNat % TOTALQUEUES, Nat.mod_lt _ (by decide)⟩

/-- `wrr_clasify`: the slot and the class. -/
def wrrClasify (skb : Packet) (s : Sched) : Option (Slot × WrrClass) :=
  match s.classes (slotOf skb.mark) with
  | none => none
  | some cl => if cl.nfmark = skb.mark then some (slotOf skb.mark, cl) else none

/-- `wrr_enqueue`. -/
def wrrEnqueue (skb : Packet) (s : Sched) : Int × Sched :=
  match wrrClasify skb s with
  | none => (NET_XMIT_DROP, { s with stats := s.stats.dropped })
  | some (i, cl) =>
      match cl.q.enqueue skb with
      | none =>
          (NET_XMIT_DROP, { s.setClass i (some { cl with stats := cl.stats.dropped }) with
            stats := s.stats.dropped })
      | some q =>
          (NET_XMIT_SUCCESS, { s.setClass i (some { cl with q, stats := cl.stats.sent skb }) with
            qlen := s.qlen + 1
            stats := s.stats.sent skb })

/-- The variables of `wrr_dequeue`. -/
structure Deq where
  sched : Sched
  j : Slot
  i : Nat
  done : Bool

/-- One pass of the inner `for` of `wrr_dequeue`, or the test of the outer
`do`. -/
def dequeueBody (d : Deq) : Pass Deq (Option Packet × Sched) :=
  if d.i < TOTALQUEUES then
    match d.sched.classes d.j with
    | none => .next { d with j := d.j + 1, i := d.i + 1 }
    | some cl =>
        if cl.deficit ≤ 0 then
          .next {
            sched := d.sched.setClass d.j (some { cl with deficit := cl.deficit + cl.quantum })
            j := d.j + 1
            i := d.i + 1
            done := if cl.q.qlen ≠ 0 then false else d.done }
        else
          match cl.q.dequeue with
          | none => .next { d with j := d.j + 1, i := d.i + 1 }
          | some (skb, q) =>
              let deficit := cl.deficit - skb.len
              let j := if deficit ≤ 0 then d.j + 1 else d.j
              .stop (some skb, { d.sched.setClass d.j (some { cl with q, deficit }) with
                key := j
                qlen := d.sched.qlen - 1 })
  else if d.done then .stop (none, { d.sched with key := 0 })
  else .next { d with i := 0, done := true }

/-- At most `n` passes of `wrr_dequeue`. -/
def wrrDequeue (n : Nat) (s : Sched) : Outcome (Option Packet × Sched) :=
  run dequeueBody n { sched := s, j := s.key, i := 0, done := true }

/-- The loop of `wrr_drop` over the remaining slots. -/
def dropFrom : List Slot → Sched → Nat × Sched
  | [], s => (0, s)
  | i :: is, s =>
      match s.classes i with
      | none => dropFrom is s
      | some cl =>
          if cl.q.hasDrop then
            let (len, q) := cl.q.drop
            let s := s.setClass i (some { cl with q })
            if len ≠ 0 then (len, s) else dropFrom is s
          else dropFrom is s

/-- `wrr_drop`. -/
def wrrDrop (s : Sched) : Nat × Sched := dropFrom (List.finRange TOTALQUEUES) s

/-- `wrr_reset`. -/
def wrrReset (s : Sched) : Sched :=
  { s with
    classes := fun i => (s.classes i).map fun cl =>
      { cl with q := cl.q.reset, deficit := cl.quantum }
    qlen := 0 }

/-! ## Configuration -/

/-- `wrr_init`: the options are missing, do not parse, or give a number of
queues or none. -/
def wrrInit (opt : Option (Except Int (Option Int))) : Except Int Sched :=
  let start (totalQueues : Int) : Except Int Sched :=
    if totalQueues < 0 ∨ totalQueues > 8 then .error (-1)
    else .ok {
      key := 0, totalClasses := 0, totalQueues, classes := fun _ => none, qlen := 0,
      stats := Stats.zero }
  match opt with
  | none => start TOTALQUEUES
  | some (.error err) => .error err
  | some (.ok none) => start TOTALQUEUES
  | some (.ok (some totalQueues)) => start totalQueues

/-- What `qdisc_create_dflt` gives: a pfifo, or nothing. -/
def createDflt (txQueueLen : Option Nat) : Option Child := txQueueLen.map pfifo

/-- `wrr_graft` on the class that the request names; `new` is `NULL` for
the default queue, which `txQueueLen` says how to make. -/
def wrrGraft (classid : UInt32) (new : Option Child) (txQueueLen : Option Nat) (s : Sched) :
    Int × Sched :=
  match wrrFind classid s with
  | none => (-ENOENT, s)
  | some i =>
      match s.classes i with
      | none => (-ENOENT, s)
      | some cl =>
          match new.or (createDflt txQueueLen) with
          | none => (-ENOBUFS, s)
          | some q => (0, s.setClass i (some { cl with q }))

/-- `struct wrr_class_opt`. -/
structure ClassOpt where
  quantum : Int
  handle : Int
  deriving DecidableEq

/-- `wrr_change_class`. The options are missing, do not parse, or hold the
parameters or not; `kmallocFails` and `txQueueLen` are the outcomes of the
two allocations. -/
def wrrChangeClass (classid : UInt32) (opt : Option (Except Int (Option ClassOpt)))
    (kmallocFails : Bool) (txQueueLen : Option Nat) (s : Sched) : Int × Sched :=
  match opt with
  | none => (-EINVAL, s)
  | some (.error err) => (err, s)
  | some (.ok none) => (-EINVAL, s)
  | some (.ok (some copt)) =>
      let quantum := if copt.quantum < 0 then 1500 else copt.quantum
      if copt.handle > 0x10000 ∨ copt.handle < 0 then (-EINVAL, s)
      else if kmallocFails then (-ENOBUFS, s)
      else
        let nfmark := copt.handle.toNat.toUInt32
        let cl : WrrClass := {
          classid, quantum, nfmark, stats := Stats.zero, deficit := quantum
          q := (createDflt txQueueLen).getD noopQdisc }
        let no := slotOf nfmark
        -- the key and the count change before the slot is looked at
        let s := { s with key := 0, totalClasses := s.totalClasses + 1 }
        match s.classes no with
        | some _ => (-ENOBUFS, s)
        | none => (0, s.setClass no (some cl))

/-- `wrr_delete` on the class that the request names. -/
def wrrDelete (classid : UInt32) (s : Sched) : Int × Sched :=
  match wrrFind classid s with
  | none => (-ENOENT, s)
  | some i => (0, s.setClass i none)

/-- `wrr_destroy`. -/
def wrrDestroy (s : Sched) : Sched :=
  { s with
    classes := fun _ => none
    totalClasses := s.totalClasses -
      ((List.finRange TOTALQUEUES).filter fun i => (s.classes i).isSome).length
    qlen := 0
    key := 0 }

/-! ## Runs -/

/-- An operation on the qdisc. -/
inductive Op where
  | enqueue (skb : Packet)
  | dequeue
  | drop
  | reset
  | graft (classid : UInt32) (new : Option Child) (txQueueLen : Option Nat)
  | change (classid : UInt32) (opt : Option (Except Int (Option ClassOpt)))
      (kmallocFails : Bool) (txQueueLen : Option Nat)
  | delete (classid : UInt32)
  | destroy

/-- The operation returns and leaves the state `s'`. Only `wrr_dequeue` can
fail to return. -/
def Returns (s : Sched) (op : Op) (s' : Sched) : Prop :=
  match op with
  | .enqueue skb => s' = (wrrEnqueue skb s).2
  | .dequeue => ∃ n r, wrrDequeue n s = .done (r, s')
  | .drop => s' = (wrrDrop s).2
  | .reset => s' = wrrReset s
  | .graft classid new txQueueLen => s' = (wrrGraft classid new txQueueLen s).2
  | .change classid opt kmallocFails txQueueLen =>
      s' = (wrrChangeClass classid opt kmallocFails txQueueLen s).2
  | .delete classid => s' = (wrrDelete classid s).2
  | .destroy => s' = wrrDestroy s

/-- A run: each operation with the state it leaves. -/
def Trace : Sched → List (Op × Sched) → Prop
  | _, [] => True
  | s, (op, s') :: rest => Returns s op s' ∧ Trace s' rest

end UbntSdk.Wrr
