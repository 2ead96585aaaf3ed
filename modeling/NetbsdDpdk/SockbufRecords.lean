import NetbsdDpdk.LinkedRecords
import NetbsdDpdk.SockbufSpec
import NetbsdDpdk.SoReceive
import NetbsdDpdk.Transition

/-! Socket buffers with any number of records (`uipc_socket2.c`): a datagram and the address it
came from are appended as a record of their own, and records leave from the front. -/

namespace NetbsdDpdk

variable {k n : Nat}

def writeBytes (buf : Nat → UInt8) (off : Nat) (bs : List UInt8) : Nat → UInt8 :=
  fun i => if off ≤ i ∧ i < off + bs.length then bs.getD (i - off) 0 else buf i

theorem bytesAt_writeBytes (buf : Nat → UInt8) (off : Nat) (bs : List UInt8) :
    bytesAt (writeBytes buf off bs) off bs.length = bs := by
  apply List.ext_getElem
  · simp [bytesAt]
  · intro i hi hi'
    simp [bytesAt, writeBytes, hi']

namespace Memory

/-- `rte_pktmbuf_alloc`: the first free buffer of the pool, with the fields that
`rte_pktmbuf_reset` writes. -/
def pktmbufAlloc (mem : Memory n) (pool : Nat) : Option (Fin n × Memory n) :=
  match mem.mempool.find? fun e => e.1 == pool with
  | none => none
  | some e =>
    some (e.2, { mem with mempool := mem.mempool.erase e }.modify e.2 fun m =>
      { m with next := none, pktLen := 0, nbSegs := 1, dataOff := 128, dataLen := 0, refcnt := 1 })

end Memory

namespace MbufMem

def mNextpkt (mem : MbufMem k n) (x : Fin k) : Option (Fin k) := (mem.mbuf x).mNextpkt

/-- `m_get`, with a data buffer of the given pool; the whole is `none` where that pool is empty and
the process ends. -/
def mGet (mem : MbufMem k n) (pool : Nat) (type : MbufType) :
    Option (Option (Fin k) × MbufMem k n) :=
  match mem.mbCache with
  | [] => some (none, mem)
  | x :: mbCache =>
    match mem.rte.pktmbufAlloc pool with
    | none => none
    | some (p, rte) =>
      some (some x, { mem with mbCache, rte }.modify x fun m =>
        { m with
          mNext := none, mNextpkt := none, mType := type, mEor := false, mExtSize := none,
          mPkthdr := false, mPaddr := some p, mData := (rte.cell p).dataOff })

theorem mGet_eq_some {mem mem' : MbufMem k n} {pool : Nat} {type : MbufType} {o : Option (Fin k)}
    (h : mem.mGet pool type = some (o, mem')) :
    (mem.mbCache = [] ∧ o = none ∧ mem' = mem) ∨
      ∃ x mbCache p rte, mem.mbCache = x :: mbCache ∧ o = some x ∧
        mem' = { mem with mbCache, rte }.modify x fun m =>
          { m with
            mNext := none, mNextpkt := none, mType := type, mEor := false, mExtSize := none,
            mPkthdr := false, mPaddr := some p, mData := (rte.cell p).dataOff } := by
  unfold mGet at h
  split at h
  next hcache =>
    cases h
    exact .inl ⟨hcache, rfl, rfl⟩
  next x mbCache hcache =>
    split at h
    · cases h
    next p rte _ =>
      cases h
      exact .inr ⟨x, mbCache, p, rte, hcache, rfl, rfl⟩

def storeData (mem : MbufMem k n) (x : Fin k) (bs : List UInt8) : MbufMem k n :=
  let mem := mem.modify x fun m => { m with mLen := bs.length }
  match (mem.mbuf x).mPaddr with
  | none => mem
  | some p =>
    { mem with rte := mem.rte.modify p fun m =>
        { m with buf := writeBytes m.buf (mem.mbuf x).mData.toNat bs } }

def controlSpace (mem : MbufMem k n) : Nat → Option (Fin k) → Option (Nat × Option (Fin k))
  | _, none => some (0, none)
  | 0, some _ => none
  | fuel + 1, some x =>
    match mem.mNext x with
    | none => some ((mem.mbuf x).mLen, some x)
    | some y =>
      (mem.controlSpace fuel (some y)).map fun (len, last) => ((mem.mbuf x).mLen + len, last)

/-- The address mbuf `x`, the control mbufs up to `last` and the data `m0` become one chain. -/
def joinAddr (mem : MbufMem k n) (x : Fin k) (last m0 control : Option (Fin k)) : MbufMem k n :=
  let mem := match last with
    | some y => mem.modify y fun m => { m with mNext := m0 }
    | none => mem
  mem.modify x fun m => { m with mNext := if last = none then m0 else control }

end MbufMem

/-- Count every mbuf of the chain at `x`; returns the last one too. -/
def sballocChain (mem : MbufMem k n) : Nat → Sockbuf k → Fin k → Option (Sockbuf k × Fin k)
  | 0, _, _ => none
  | fuel + 1, sb, x =>
    let sb := sb.sballoc (mem.mbuf x)
    match mem.mNext x with
    | none => some (sb, x)
    | some y => sballocChain mem fuel sb y

def sblinkrecord (mem : MbufMem k n) (sb : Sockbuf k) (x : Fin k) : MbufMem k n × Sockbuf k :=
  match sb.sbLastrecord with
  | some y =>
    (mem.modify y fun m => { m with mNextpkt := some x }, { sb with sbLastrecord := some x })
  | none => (mem, { sb with sbMb := some x, sbLastrecord := some x })

def appendRecord (mem : MbufMem k n) (sb : Sockbuf k) (x : Fin k) :
    Option (MbufMem k n × Sockbuf k) :=
  (sballocChain mem k sb x).map fun (sb, nlast) =>
    let (mem, sb) := sblinkrecord mem sb x
    (mem, { sb with sbMbtail := some nlast })

/-- `sbappendaddr` of the address `asa`, the data `m0` with the length in its packet header, and
`control`. An address is shorter than `MLEN`. -/
def sbappendaddr (mem : MbufMem k n) (sb : Sockbuf k) (pool : Nat) (asa : List UInt8)
    (m0 : Option (Fin k)) (pktLen : Nat) (control : Option (Fin k)) :
    Option (Bool × MbufMem k n × Sockbuf k) :=
  match mem.controlSpace k control with
  | none => none
  | some (controlLen, last) =>
    let space := asa.length + (if m0 = none then 0 else pktLen) + controlLen
    if (space : Int) > sb.sbspace then some (false, mem, sb)
    else
      match mem.mGet pool .soname with
      | none => none
      | some (none, mem) => some (false, mem, sb)
      | some (some x, mem) =>
        let mem := (mem.storeData x asa).joinAddr x last m0 control
        (appendRecord mem sb x).map fun (mem, sb) => (true, mem, sb)

def freeRecord : Nat → MbufMem k n → Sockbuf k → Fin k → Option (MbufMem k n × Sockbuf k)
  | 0, _, _, _ => none
  | fuel + 1, mem, sb, x =>
    let sb := sb.sbfree (mem.mbuf x)
    match mem.mFree x with
    | (mem, none) => some (mem, sb)
    | (mem, some y) => freeRecord fuel mem sb y

def sbdroprecord (mem : MbufMem k n) (sb : Sockbuf k) : Option (MbufMem k n × Sockbuf k) :=
  match sb.sbMb with
  | none => some (mem, sb.emptyFixup)
  | some x =>
    (freeRecord k mem { sb with sbMb := mem.mNextpkt x } x).map fun (mem, sb) =>
      (mem, sb.emptyFixup)

structure SbState (k n : Nat) where
  sock : RcvSocket k n
  slot : Option TxSlot := none

namespace SbState

def queued (s : SbState k n) : List (Fin k) :=
  ((walkFrom s.sock.mem.mNextpkt k s.sock.soRcv.sbMb).getD []).flatMap fun x =>
    (walkFrom s.sock.mem.mNext k (some x)).getD []

def update (s : SbState k n) (mem : MbufMem k n) (sb : Sockbuf k) : SbState k n :=
  { s with sock := { s.sock with mem := mem, soRcv := sb } }

def Insertable (s : SbState k n) (ms : List (Fin k)) : Prop :=
  ms.Nodup ∧ ∀ x ∈ ms, s.sock.mem.Unused s.queued x

instance (s : SbState k n) (ms : List (Fin k)) : Decidable (s.Insertable ms) :=
  inferInstanceAs (Decidable (_ ∧ _))

structure Initial (s : SbState k n) : Prop where
  soRcv : s.sock.soRcv.Empty
  cache : s.sock.mem.mbCache.Nodup

end SbState

inductive SbAction (k n : Nat)
  | others (sock : RcvSocket k n) (slot : Option TxSlot)
  | appendstream (x : Fin k)
  | appendaddr (pool : Nat) (asa : List UInt8) (m0 : Option (Fin k)) (pktLen : Nat)
      (control : Option (Fin k))
  | drop (len : Nat)
  | droprecord
  | flush (fuel : Nat)
  | receive (wantAddr : Bool)

/-- One step. `sbappendstream` is for a buffer of at most one record, `sbdrop` for no more than the
buffer has; `sbflush` is any number of rounds that ends its loop. -/
def sbStep (s : SbState k n) : SbAction k n → Option (SbState k n)
  | .others sock slot => do
    guard (s.sock.mem.Leaves s.queued sock.mem)
    return ⟨{ sock with soRcv := s.sock.soRcv }, slot⟩
  | .appendstream x => do
    let ms ← walkFrom s.sock.mem.mNext k (some x)
    guard (s.Insertable ms ∧ s.sock.soRcv.sbMb.bind s.sock.mem.mNextpkt = none)
    let (mem, sb, slot) ← sbappendstream s.sock.mem s.sock.soRcv s.slot x
    return { s.update mem sb with slot }
  | .appendaddr pool asa m0 pktLen control => do
    let ws ← walkFrom s.sock.mem.mNext k control
    let ms ← walkFrom s.sock.mem.mNext k m0
    guard (s.Insertable (ws ++ ms))
    let (_, mem, sb) ← sbappendaddr s.sock.mem s.sock.soRcv pool asa m0 pktLen control
    return s.update mem sb
  | .drop len => do
    guard ((len : Int) ≤ s.sock.soRcv.sbCc)
    let (mem, sb, slot) ← sbdrop s.sock.mem s.sock.soRcv s.slot len
    return { s.update mem sb with slot }
  | .droprecord => do
    let (mem, sb) ← sbdroprecord s.sock.mem s.sock.soRcv
    return s.update mem sb
  | .flush fuel => do
    let (mem, sb, slot) ← sbflush fuel s.sock.mem s.sock.soRcv s.slot
    return { s.update mem sb with slot }
  | .receive wantAddr => do
    let r ← soreceive s.sock wantAddr
    return { s with sock := r.sock }

structure SbRecords (mem : MbufMem k n) (sb : Sockbuf k) (rs : List (List (Fin k))) : Prop where
  records : RecordsFrom mem.mNext mem.mNextpkt sb.sbMb rs
  nodup : rs.flatten.Nodup
  lastrecord : sb.sbLastrecord = rs.getLast?.bind List.head?
  mbtail : sb.sbMbtail = rs.getLast?.bind List.getLast?
  cc : sb.sbCc = (rs.flatten.map fun x => (mem.mbuf x).mLen).sum
  mbcnt : sb.sbMbcnt = mSize * rs.flatten.length

end NetbsdDpdk
