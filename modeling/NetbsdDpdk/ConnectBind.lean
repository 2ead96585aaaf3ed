import NetbsdDpdk.Rounds
import NetbsdDpdk.SockaddrPaths

/-! `app_glue_v4_connect` with the protocol control block of its socket. Before it connects it binds
the socket to a port of its own, again and again while `my_port`, which is not initialised, is 0 and
the bind fails; and the bind of a socket that has an address or a port already always fails. -/

namespace NetbsdDpdk

/-- What `in_pcbbind` and `in_pcblookup_port` read of a control block and of the options of its
socket; `inp_lport` is in network byte order. -/
structure Inpcb where
  af : Nat := afInet
  laddr : UInt32 := 0
  lport : UInt16 := 0
  faddr : UInt32 := 0
  reuseaddr : Bool := false
  reuseport : Bool := false

/-- The addresses and broadcast addresses of the interfaces, the other control blocks in the order
of the hash chain, what the search in `TIME_WAIT` finds with fewer wildcards than given, and the
port that `rfc6056_randport` finds. -/
structure PcbNet where
  ifaddrs : List UInt32
  broadcasts : List UInt32 := []
  pcbs : List Inpcb := []
  vestige : UInt32 → UInt16 → Bool → Nat → Option Bool := fun _ _ _ _ => none
  randport : Option UInt16

inductive BindError
  | einval | eaddrnotavail | eafnosupport | eaddrinuse | eagain
  deriving DecidableEq

def inMulticast (addr : UInt32) : Bool := addr &&& htonl 0xf0000000 == htonl 0xe0000000

namespace Inpcb

/-- The number of wildcards in the match of a control block; `none` where it does not match. -/
def wildcard (t : Inpcb) (laddr : UInt32) : Option Nat :=
  let w := if t.faddr ≠ 0 then 1 else 0
  if t.laddr = 0 then some (if laddr ≠ 0 then w + 1 else w)
  else if laddr = 0 then some (w + 1)
  else if t.laddr = laddr then some w
  else none

def lookupPort (laddr : UInt32) (lport : UInt16) (wild : Bool) :
    List Inpcb → Option (Inpcb × Nat) → Option (Inpcb × Nat)
  | [], found => found
  | t :: ts, found =>
    if t.af ≠ afInet ∨ t.lport ≠ lport then lookupPort laddr lport wild ts found
    else
      match t.wildcard laddr with
      | none => lookupPort laddr lport wild ts found
      | some w =>
        if w ≠ 0 ∧ wild = false then lookupPort laddr lport wild ts found
        else if w < (found.map Prod.snd).getD 3 then
          if w = 0 then some (t, 0) else lookupPort laddr lport wild ts (some (t, w))
        else lookupPort laddr lport wild ts found

def Bound (inp : Inpcb) : Prop := inp.lport ≠ 0 ∨ inp.laddr ≠ 0

instance (inp : Inpcb) : Decidable inp.Bound := inferInstanceAs (Decidable (_ ∨ _))

end Inpcb

namespace PcbNet

/-- The tests of `in_pcbbind_port` for a port that is given: whether `EADDRINUSE`. -/
def portInUse (net : PcbNet) (inp : Inpcb) (addr : UInt32) (port : UInt16) : Bool :=
  let both := inMulticast addr && inp.reuseaddr
  let reuseport := both || inp.reuseport
  let wild := !(inp.reuseaddr || inp.reuseport)
  let found := Inpcb.lookupPort addr port wild net.pcbs none
  let wildcards := (found.map Prod.snd).getD 3
  match (if wildcards = 0 then none else net.vestige addr port wild wildcards), found with
  | some reuse, _ => !(reuseport && reuse)
  | none, some t => !(reuseport && (t.1.reuseport || both && t.1.reuseaddr))
  | none, none => false

def inPcbbindAddr (net : PcbNet) (inp : Inpcb) (sin : PcbAddr) : Option BindError × Inpcb :=
  if sin.family ≠ .ofNat afInet then (some .eafnosupport, inp)
  else if inMulticast sin.addr = false ∧ sin.addr ≠ 0 ∧
      sin.addr ∉ net.ifaddrs ++ net.broadcasts then
    (some .eaddrnotavail, inp)
  else (none, { inp with laddr := sin.addr })

def inPcbbindPort (net : PcbNet) (inp : Inpcb) (sin : PcbAddr) : Option BindError × Inpcb :=
  if sin.port = 0 then
    match net.randport with
    | none => (some .eagain, inp)
    | some lport => (none, { inp with lport := htons lport })
  else if net.portInUse inp sin.addr sin.port = true then (some .eaddrinuse, inp)
  else (none, { inp with lport := sin.port })

def inPcbbind (net : PcbNet) (inp : Inpcb) (nam : SonameMbuf) : Option BindError × Inpcb :=
  if inp.af ≠ afInet then (some .einval, inp)
  else if net.ifaddrs = [] then (some .eaddrnotavail, inp)
  else if inp.lport ≠ 0 ∨ inp.laddr ≠ 0 then (some .einval, inp)
  else if nam.mLen ≠ sockaddrInSize then (some .einval, inp)
  else
    match net.inPcbbindAddr inp nam.pcbAddr with
    | (some e, inp) => (some e, inp)
    | (none, inp) =>
      match net.inPcbbindPort inp nam.pcbAddr with
      | (some e, inp) => (some e, { inp with laddr := 0 })
      | (none, inp) => (none, inp)

end PcbNet

def NetbsdSockaddrIn.soname (sin : NetbsdSockaddrIn) : SonameMbuf := ⟨sockaddrInSize, sin.bytes⟩

structure BindLoop where
  inp : Inpcb
  sin : NetbsdSockaddrIn
  turn : Nat := 0

/-- The address of a round; `rand i` are the 16 bits of the call `i`. -/
def BindLoop.offer (myPort : UInt16) (rand : Nat → UInt16) (c : BindLoop) : NetbsdSockaddrIn :=
  let port := if myPort ≠ 0 then myPort else rand c.turn
  { c.sin with sinAddr := 0, sinPort := htons port }

def BindLoop.round (net : PcbNet) (myPort : UInt16) (rand : Nat → UInt16) (c : BindLoop) :
    RoundResult BindLoop Empty :=
  let sin := c.offer myPort rand
  match net.inPcbbind c.inp sin.soname with
  | (some _, inp) => if myPort ≠ 0 then .done { c with inp, sin } else .again ⟨inp, sin, c.turn + 1⟩
  | (none, inp) => .done { c with inp, sin }

inductive SonameGet
  | null
  | exits
  | mbuf (sin : NetbsdSockaddrIn)

inductive ConnectResult
  | failed
  | connecting (inp : Inpcb) (nam : SonameMbuf)

/-- `app_glue_v4_connect`; `none` where the loop still goes on. -/
def appGlueV4ConnectPcb (net : PcbNet) (inp : Inpcb) (m : SonameGet) (myPort : UInt16)
    (rand : Nat → UInt16) (ipaddr : UInt32) (port : UInt16) (fuel : Nat) :
    Option (Except Unit ConnectResult) :=
  match m with
  | .null => some (.ok .failed)
  | .exits => some (.error ())
  | .mbuf sin =>
    match iterate (BindLoop.round net myPort rand) fuel
      { inp, sin := { sin with sinLen := .ofNat sockaddrInSize, sinFamily := .ofNat afInet } } with
    | some (.ok c) => some (.ok (.connecting c.inp
        { c.sin with sinFamily := .ofNat afInet, sinAddr := ipaddr, sinPort := htons port }.soname))
    | _ => none

/-- A socket that was bound is bound to the same address and port when `soconnect` gets it. -/
def ConnectResult.Respects (inp : Inpcb) : ConnectResult → Prop
  | .failed => True
  | .connecting inp' _ => inp.Bound → inp'.laddr = inp.laddr ∧ inp'.lport = inp.lport

def PcbNet.Free (net : PcbNet) (inp : Inpcb) (port : UInt16) : Prop :=
  if port = 0 then net.randport.isSome = true
  else net.portInUse { inp with laddr := 0 } 0 (htons port) = false

instance (net : PcbNet) (inp : Inpcb) (port : UInt16) : Decidable (net.Free inp port) :=
  inferInstanceAs (Decidable (if port = 0 then net.randport.isSome = true
    else net.portInUse { inp with laddr := 0 } 0 (htons port) = false))

variable {net : PcbNet} {inp : Inpcb} {sin : NetbsdSockaddrIn} {myPort port : UInt16}
  {rand : Nat → UInt16} {ipaddr : UInt32} {c : BindLoop}

theorem htons_eq_zero : htons port = 0 ↔ port = 0 := by
  constructor
  · intro h
    rw [← htons_htons port, h]
    rfl
  · rintro rfl
    rfl

@[simp] theorem pcbAddr_soname (sin : NetbsdSockaddrIn) :
    sin.soname.pcbAddr = ⟨sin.sinFamily, sin.sinAddr, sin.sinPort⟩ := by
  simp [NetbsdSockaddrIn.soname, SonameMbuf.pcbAddr]

namespace PcbNet

theorem inPcbbindAddr_cases (net : PcbNet) (inp : Inpcb) (a : PcbAddr) :
    (∃ e, net.inPcbbindAddr inp a = (some e, inp)) ∨
      net.inPcbbindAddr inp a = (none, { inp with laddr := a.addr }) := by
  rw [inPcbbindAddr]
  split
  · exact .inl ⟨_, rfl⟩
  · split
    · exact .inl ⟨_, rfl⟩
    · exact .inr rfl

theorem inPcbbindPort_cases (net : PcbNet) (inp : Inpcb) (a : PcbAddr) :
    (∃ e, net.inPcbbindPort inp a = (some e, inp)) ∨
      ∃ lport, net.inPcbbindPort inp a = (none, { inp with lport }) := by
  rw [inPcbbindPort]
  split
  · split
    · exact .inl ⟨_, rfl⟩
    · exact .inr ⟨_, rfl⟩
  · split
    · exact .inl ⟨_, rfl⟩
    · exact .inr ⟨_, rfl⟩

theorem inPcbbind_failed {nam : SonameMbuf} (h : (net.inPcbbind inp nam).1 ≠ none) :
    (net.inPcbbind inp nam).2 = inp := by
  rw [inPcbbind] at h ⊢
  split
  · rfl
  · split
    · rfl
    · split
      · rfl
      · rename_i hunbound
        have hany : inp.laddr = 0 := by
          by_contra hne
          exact hunbound (.inr hne)
        split
        · rfl
        · obtain ⟨e, haddr⟩ | haddr := inPcbbindAddr_cases net inp nam.pcbAddr
          · rw [haddr]
          · obtain ⟨e, hport⟩ | ⟨lport, hport⟩ :=
              inPcbbindPort_cases net { inp with laddr := nam.pcbAddr.addr } nam.pcbAddr
            · rw [haddr]
              dsimp only
              rw [hport, ← hany]
            · simp_all

theorem inPcbbind_bound {nam : SonameMbuf} (h : inp.Bound) : (net.inPcbbind inp nam).1 ≠ none := by
  rw [inPcbbind]
  split
  · simp
  · split
    · simp
    · rw [if_pos (show inp.lport ≠ 0 ∨ inp.laddr ≠ 0 from h)]
      simp

theorem inPcbbind_iff (hfamily : sin.sinFamily = .ofNat afInet) (haddr : sin.sinAddr = 0)
    (hport : sin.sinPort = htons port) : (net.inPcbbind inp sin.soname).1 = none ↔
      inp.af = afInet ∧ net.ifaddrs ≠ [] ∧ ¬ inp.Bound ∧ net.Free inp port := by
  by_cases haf : inp.af = afInet
  · by_cases hifs : net.ifaddrs = []
    · simp [inPcbbind, haf, hifs]
    · by_cases hbound : inp.Bound
      · simp [hbound, inPcbbind_bound hbound]
      · have hpass : (net.inPcbbind inp sin.soname).1 =
            (net.inPcbbindPort { inp with laddr := 0 } ⟨sin.sinFamily, 0, htons port⟩).1 := by
          have hpick : net.inPcbbindAddr inp ⟨sin.sinFamily, 0, htons port⟩ =
              (none, { inp with laddr := 0 }) := by
            simp [inPcbbindAddr, hfamily]
          rw [inPcbbind, if_neg (not_not.mpr haf), if_neg hifs,
            if_neg (show ¬ (inp.lport ≠ 0 ∨ inp.laddr ≠ 0) from hbound), pcbAddr_soname, haddr,
            hport, hpick]
          obtain ⟨e, hport⟩ | ⟨lport, hport⟩ := inPcbbindPort_cases net { inp with laddr := 0 }
            ⟨sin.sinFamily, 0, htons port⟩ <;> simp [hport, NetbsdSockaddrIn.soname]
        rw [hpass, inPcbbindPort, Free]
        by_cases hzero : port = 0
        · cases hrand : net.randport <;> simp [hzero, haf, hifs, hbound, htons_eq_zero]
        · cases hused : net.portInUse { inp with laddr := 0 } 0 (htons port) <;>
            simp [hzero, haf, hifs, hbound, htons_eq_zero]
  · simp [inPcbbind, haf]

end PcbNet

def PcbNet.Ready (net : PcbNet) (inp : Inpcb) : Prop :=
  inp.af = afInet ∧ net.ifaddrs ≠ [] ∧ ¬ inp.Bound

namespace BindLoop

theorem round_bound (h : (net.inPcbbind c.inp (c.offer myPort rand).soname).1 = none) :
    ∃ inp', c.round net myPort rand = .done { c with inp := inp', sin := c.offer myPort rand } := by
  rw [round]
  generalize net.inPcbbind c.inp (c.offer myPort rand).soname = r at h
  obtain ⟨_ | e, inp'⟩ := r
  · exact ⟨inp', rfl⟩
  · cases h

theorem round_failed (h : (net.inPcbbind c.inp (c.offer myPort rand).soname).1 ≠ none) :
    c.round net myPort rand = if myPort ≠ 0 then .done { c with sin := c.offer myPort rand }
      else .again ⟨c.inp, c.offer myPort rand, c.turn + 1⟩ := by
  have hsame := PcbNet.inPcbbind_failed h
  rw [round]
  generalize net.inPcbbind c.inp (c.offer myPort rand).soname = r at h hsame
  obtain ⟨_ | e, inp'⟩ := r
  · exact absurd rfl h
  · cases hsame
    rfl

theorem round_again (h : (net.inPcbbind c.inp (c.offer 0 rand).soname).1 ≠ none) :
    c.round net 0 rand = .again ⟨c.inp, c.offer 0 rand, c.turn + 1⟩ :=
  (round_failed h).trans (if_neg (not_not.mpr rfl))

theorem bind_iff (hfamily : c.sin.sinFamily = .ofNat afInet) :
    (net.inPcbbind c.inp (c.offer 0 rand).soname).1 = none ↔
      net.Ready c.inp ∧ net.Free c.inp (rand c.turn) := by
  refine (PcbNet.inPcbbind_iff (show (c.offer 0 rand).sinFamily = _ from hfamily) rfl
    (show (c.offer 0 rand).sinPort = htons (rand c.turn) from rfl)).trans ?_
  rw [PcbNet.Ready]
  tauto

theorem never_ends (hfamily : c.sin.sinFamily = .ofNat afInet)
    (hstuck : ¬ (net.Ready c.inp ∧ ∃ port, net.Free c.inp port)) (fuel : Nat) :
    iterate (round net 0 rand) fuel c = none := by
  refine iterate_eq_none
    (I := fun d => d.inp = c.inp ∧ d.sin.sinFamily = .ofNat afInet) (fun d hd => ?_)
    ⟨rfl, hfamily⟩ fuel
  obtain ⟨hinp, hfam⟩ := hd
  have hfail : (net.inPcbbind d.inp (d.offer 0 rand).soname).1 ≠ none := by
    intro hok
    obtain ⟨hready, hfree⟩ := (bind_iff hfam).mp hok
    rw [hinp] at hready hfree
    exact hstuck ⟨hready, _, hfree⟩
  exact ⟨_, round_again hfail, hinp, hfam⟩

theorem ends (hrand : ∀ p i, ∃ j, i ≤ j ∧ rand j = p) (hfamily : c.sin.sinFamily = .ofNat afInet)
    (hready : net.Ready c.inp) (hfree : net.Free c.inp port) :
    ∃ d, Halts (round net 0 rand) c (.ok d) := by
  obtain ⟨j, hj, hport⟩ := hrand port c.turn
  refine Halts.of_measure
    (I := fun d => d.inp = c.inp ∧ d.sin.sinFamily = .ofNat afInet ∧ d.turn ≤ j)
    (fun d => j - d.turn) (fun d hd => ?_) ⟨rfl, hfamily, hj⟩
  obtain ⟨hinp, hfam, hturn⟩ := hd
  by_cases hok : (net.inPcbbind d.inp (d.offer 0 rand).soname).1 = none
  · obtain ⟨inp', hdone⟩ := round_bound hok
    exact .inl ⟨_, hdone⟩
  · -- the port of the turn `j` is free
    have hne : d.turn ≠ j := by
      intro heq
      refine hok ((bind_iff hfam).mpr ?_)
      rw [hinp, heq, hport]
      exact ⟨hready, hfree⟩
    refine .inr ⟨_, round_again hok, ⟨hinp, hfam, ?_⟩, ?_⟩
    · dsimp only
      omega
    · dsimp only
      omega

theorem ends_of_myPort (h : myPort ≠ 0) : ∃ d, Halts (round net myPort rand) c (.ok d) := by
  by_cases hok : (net.inPcbbind c.inp (c.offer myPort rand).soname).1 = none
  · obtain ⟨inp', hdone⟩ := round_bound hok
    exact ⟨_, (Halts.done_iff hdone).mpr rfl⟩
  · exact ⟨_, (Halts.done_iff ((round_failed hok).trans (if_pos h))).mpr rfl⟩

theorem respects {d : BindLoop} (hbound : c.inp.Bound)
    (h : Halts (round net myPort rand) c (.ok d)) : d.inp = c.inp := by
  have hfail : ∀ d : BindLoop, d.inp = c.inp →
      (net.inPcbbind d.inp (d.offer myPort rand).soname).1 ≠ none := fun d hd =>
    PcbNet.inPcbbind_bound (hd ▸ hbound)
  refine Halts.rule (I := fun d => d.inp = c.inp) (J := fun d => d.inp = c.inp) ?_ ?_ rfl h
  · intro d d' hd hround
    rw [round_failed (hfail d hd)] at hround
    split at hround
    · cases hround
    · cases hround
      exact hd
  · intro d d' hd hround
    rw [round_failed (hfail d hd)] at hround
    split at hround
    · cases hround
      exact hd
    · cases hround

end BindLoop

theorem appGlueV4ConnectPcb_returns {r : ConnectResult} :
    Returns (appGlueV4ConnectPcb net inp (.mbuf sin) myPort rand ipaddr port) r ↔
      ∃ d, Halts (BindLoop.round net myPort rand)
        { inp, sin := { sin with sinLen := .ofNat sockaddrInSize, sinFamily := .ofNat afInet } }
          (.ok d) ∧
        r = .connecting d.inp { d.sin with
          sinFamily := .ofNat afInet, sinAddr := ipaddr, sinPort := htons port }.soname := by
  constructor
  · rintro ⟨fuel, hfuel⟩
    rw [appGlueV4ConnectPcb] at hfuel
    split at hfuel
    · rename_i d hd
      cases hfuel
      exact ⟨d, ⟨fuel, hd⟩, rfl⟩
    · cases hfuel
  · rintro ⟨d, ⟨fuel, hd⟩, rfl⟩
    refine ⟨fuel, ?_⟩
    rw [appGlueV4ConnectPcb, hd]

/-- For every socket, every value of `my_port` and every `rand` that gives each port again and
again: `app_glue_v4_connect` returns, with an earlier bind as it was, exactly if it gets no mbuf, or
`my_port` is not 0, or the socket is not bound and there is a free port. -/
theorem appGlueV4ConnectPcb_iff (net : PcbNet) (inp : Inpcb) (m : SonameGet) (myPort : UInt16)
    (ipaddr : UInt32) (port : UInt16) (hrand : ∀ p i, ∃ j, i ≤ j ∧ rand j = p) :
    (∃ r, Returns (appGlueV4ConnectPcb net inp m myPort rand ipaddr port) r ∧ r.Respects inp) ↔
      m = .null ∨ ∃ sin, m = .mbuf sin ∧
        (myPort ≠ 0 ∨ net.Ready inp ∧ ∃ p, net.Free inp p) := by
  cases m with
  | null => exact ⟨fun _ => .inl rfl, fun _ => ⟨.failed, ⟨0, rfl⟩, trivial⟩⟩
  | exits =>
    constructor
    · rintro ⟨r, ⟨fuel, hfuel⟩, -⟩
      cases hfuel
    · rintro (hnull | ⟨sin, hmbuf, -⟩)
      · cases hnull
      · cases hmbuf
  | mbuf sin =>
    constructor
    · rintro ⟨r, hreturns, -⟩
      refine .inr ⟨sin, rfl, or_iff_not_imp_left.mpr fun hport => ?_⟩
      obtain rfl : myPort = 0 := not_not.mp hport
      obtain ⟨d, ⟨fuel, hfuel⟩, -⟩ := appGlueV4ConnectPcb_returns.mp hreturns
      by_contra hstuck
      rw [BindLoop.never_ends rfl hstuck] at hfuel
      cases hfuel
    · rintro (hnull | ⟨sin', hmbuf, hcond⟩)
      · cases hnull
      · cases hmbuf
        have hends : ∃ d, Halts (BindLoop.round net myPort rand) { inp, sin := { sin with
            sinLen := .ofNat sockaddrInSize, sinFamily := .ofNat afInet } } (.ok d) := by
          by_cases hport : myPort = 0
          · obtain ⟨hready, p, hfree⟩ := hcond.resolve_left (not_not.mpr hport)
            rw [hport]
            exact BindLoop.ends hrand rfl hready hfree
          · exact BindLoop.ends_of_myPort hport
        obtain ⟨d, hd⟩ := hends
        refine ⟨_, appGlueV4ConnectPcb_returns.mpr ⟨d, hd, rfl⟩, fun hbound => ?_⟩
        rw [BindLoop.respects hbound hd]
        exact ⟨rfl, rfl⟩

theorem ofNat_recurs : ∀ (p : UInt16) (i : Nat), ∃ j, i ≤ j ∧ UInt16.ofNat j = p := by
  intro p i
  refine ⟨p.toNat + 65536 * i, by omega, ?_⟩
  apply UInt16.toNat_inj.mp
  have hp := p.toNat_lt
  rw [UInt16.toNat_ofNat']
  omega

def zeroSin : NetbsdSockaddrIn where
  sinLen := 0
  sinFamily := 0
  sinPort := 0
  sinAddr := 0
  sinZero := fun _ => 0

def oneInterface : PcbNet where
  ifaddrs := [0x0a00a8c0]
  randport := some 49152

theorem appGlueV4ConnectPcb_iff_unbound : ∃ r,
    Returns (appGlueV4ConnectPcb oneInterface {} (.mbuf zeroSin) 0 UInt16.ofNat 0x0100a8c0 80) r ∧
      r.Respects {} :=
  (appGlueV4ConnectPcb_iff oneInterface {} (.mbuf zeroSin) 0 0x0100a8c0 80 ofNat_recurs).mpr
    (.inr ⟨_, rfl, .inr ⟨⟨rfl, by decide, by decide⟩, 8080, by decide⟩⟩)

theorem connect_after_bind_spins :
    (oneInterface.inPcbbind {} (appGlueV4Bind 0 8080)).1 = none ∧
      ∀ fuel, appGlueV4ConnectPcb oneInterface (oneInterface.inPcbbind {} (appGlueV4Bind 0 8080)).2
        (.mbuf zeroSin) 0 UInt16.ofNat 0x0100a8c0 80 fuel = none := by
  refine ⟨by decide, fun fuel => ?_⟩
  rw [appGlueV4ConnectPcb, BindLoop.never_ends rfl fun hready => hready.1.2.2 (by decide)]

/-! The address that `soconnect` gets is the one of the loop without the control block. -/

def BindLoop.turns (net : PcbNet) (inp : Inpcb) (rand : Nat → UInt16) (turn : Nat) :
    Nat → List BindTry
  | 0 => []
  | fuel + 1 =>
    { rand := rand turn
      sobind := fun sin => ((net.inPcbbind inp sin.soname).1.isSome, sin) } ::
      BindLoop.turns net inp rand (turn + 1) fuel

theorem BindLoop.bindLoop_eq {d : BindLoop} {fuel : Nat}
    (h : iterate (BindLoop.round net myPort rand) fuel c = some (.ok d)) :
    bindLoop myPort (BindLoop.turns net c.inp rand c.turn fuel) c.sin = some d.sin := by
  induction fuel generalizing c with
  | zero => cases h
  | succ fuel ih =>
    rw [iterate] at h
    change (if (net.inPcbbind c.inp (c.offer myPort rand).soname).1.isSome = true ∧ myPort = 0 then
      bindLoop myPort (turns net c.inp rand (c.turn + 1) fuel) (c.offer myPort rand)
      else some (c.offer myPort rand)) = some d.sin
    by_cases hok : (net.inPcbbind c.inp (c.offer myPort rand).soname).1 = none
    · obtain ⟨inp', hdone⟩ := round_bound hok
      rw [hdone] at h
      cases h
      rw [hok]
      exact if_neg (by simp)
    · rw [round_failed hok] at h
      by_cases hport : myPort = 0
      · rw [if_neg (not_not.mpr hport)] at h
        rw [if_pos ⟨Option.isSome_iff_ne_none.mpr hok, hport⟩]
        exact ih h
      · rw [if_pos hport] at h
        cases h
        exact if_neg fun hboth => hport hboth.2

theorem appGlueV4Connect_eq {inp' : Inpcb} {nam : SonameMbuf} {fuel : Nat}
    (h : appGlueV4ConnectPcb net inp (.mbuf sin) myPort rand ipaddr port fuel =
      some (.ok (.connecting inp' nam))) :
    appGlueV4Connect sin myPort (BindLoop.turns net inp rand 0 fuel) ipaddr port = some nam := by
  rw [appGlueV4ConnectPcb] at h
  split at h
  · rename_i d hd
    cases h
    rw [appGlueV4Connect, BindLoop.bindLoop_eq hd]
    rfl
  · cases h

end NetbsdDpdk
