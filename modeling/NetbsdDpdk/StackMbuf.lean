import NetbsdDpdk.Mbuf
import Mathlib.Algebra.BigOperators.Group.List.Basic

/-! The stack's own `struct mbuf`, which carries a `struct rte_mbuf` in `m_paddr`, the socket
buffers made of them, and the counters of a socket buffer. -/

namespace NetbsdDpdk

inductive MbufType
  | data
  | header
  | soname
  | control
  | oobdata
  deriving DecidableEq

/-- `struct mbuf` in a memory of `k` of them. `mData` is the offset of `m_data` from `buf_addr` of
the `rte_mbuf` in `mPaddr`; `mEor` is the bit `M_EOR`, `mExtSize` the size of the external storage
where `M_EXT` is set, `mPkthdr` the bit `M_PKTHDR`, and `mPktLen` is `m_pkthdr.len`. -/
structure Mbuf (k n : Nat) where
  mNext : Option (Fin k) := none
  mNextpkt : Option (Fin k) := none
  mType : MbufType := .data
  mEor : Bool := false
  mExtSize : Option Nat := none
  mData : Int := 0
  mLen : Nat := 0
  mPaddr : Option (Fin n) := none
  mPkthdr : Bool := false
  mPktLen : Int := 0
  deriving DecidableEq

structure MbufMem (k n : Nat) where
  mbuf : Fin k → Mbuf k n
  mbCache : List (Fin k) := []
  rte : Memory n

namespace MbufMem

variable {k n : Nat}

def mNext (mem : MbufMem k n) (x : Fin k) : Option (Fin k) := (mem.mbuf x).mNext

def modify (mem : MbufMem k n) (x : Fin k) (f : Mbuf k n → Mbuf k n) : MbufMem k n :=
  { mem with mbuf := Function.update mem.mbuf x (f (mem.mbuf x)) }

/-- `MFREE`: the packet buffer goes first, then the mbuf. Returns the successor too. -/
def mFree (mem : MbufMem k n) (x : Fin k) : MbufMem k n × Option (Fin k) :=
  let succ := mem.mNext x
  let mem := match (mem.mbuf x).mPaddr with
    | some p => { mem with rte := mem.rte.freeSeg p }.modify x fun m => { m with mPaddr := none }
    | none => mem
  ({ mem with mbCache := x :: mem.mbCache }, succ)

@[simp] theorem modify_mbuf_self (mem : MbufMem k n) (x : Fin k) (f : Mbuf k n → Mbuf k n) :
    (mem.modify x f).mbuf x = f (mem.mbuf x) := by simp [modify]

theorem modify_mbuf_of_ne (mem : MbufMem k n) {x y : Fin k} (f : Mbuf k n → Mbuf k n)
    (h : y ≠ x) : (mem.modify x f).mbuf y = mem.mbuf y := by simp [modify, h]

@[simp] theorem modify_rte (mem : MbufMem k n) (x : Fin k) (f : Mbuf k n → Mbuf k n) :
    (mem.modify x f).rte = mem.rte := rfl

theorem mFree_rte {mem : MbufMem k n} {x : Fin k} {p : Fin n}
    (h : (mem.mbuf x).mPaddr = some p) : (mem.mFree x).1.rte = mem.rte.freeSeg p := by
  simp [mFree, h]

theorem mFree_rte_of_none {mem : MbufMem k n} {x : Fin k} (h : (mem.mbuf x).mPaddr = none) :
    (mem.mFree x).1.rte = mem.rte := by
  simp [mFree, h]

theorem mFree_mbuf_of_ne (mem : MbufMem k n) {x y : Fin k} (h : y ≠ x) :
    (mem.mFree x).1.mbuf y = mem.mbuf y := by
  cases hp : (mem.mbuf x).mPaddr <;> simp [mFree, hp, modify, h]

end MbufMem

def mSize : Nat := 2048

/-- `struct sockbuf`. The counters are `u_long` and only ever compared as signed differences. -/
structure Sockbuf (k : Nat) where
  sbCc : Int := 0
  sbHiwat : Int := 0
  sbMbcnt : Int := 0
  sbMbmax : Int := 0
  sbMb : Option (Fin k) := none
  sbMbtail : Option (Fin k) := none
  sbLastrecord : Option (Fin k) := none

namespace Sockbuf

variable {k n : Nat}

def sbspace (sb : Sockbuf k) : Int := min (sb.sbHiwat - sb.sbCc) (sb.sbMbmax - sb.sbMbcnt)

def mbufCharge (m : Mbuf k n) : Int := mSize + m.mExtSize.getD 0

def sballoc (sb : Sockbuf k) (m : Mbuf k n) : Sockbuf k :=
  { sb with sbCc := sb.sbCc + m.mLen, sbMbcnt := sb.sbMbcnt + mbufCharge m }

def sbfree (sb : Sockbuf k) (m : Mbuf k n) : Sockbuf k :=
  { sb with sbCc := sb.sbCc - m.mLen, sbMbcnt := sb.sbMbcnt - mbufCharge m }

def emptyFixup (sb : Sockbuf k) : Sockbuf k :=
  if sb.sbMb = none then { sb with sbMbtail := none, sbLastrecord := none } else sb

end Sockbuf

end NetbsdDpdk
