import NetbsdDpdk.SlotOwnership

/-! The link between a slot and its socket while the socket is open: a socket is handed to one
slot only, and the slot is not taken again before the socket is closed. -/

namespace NetbsdDpdk

open CommandChannel

def StackSocket.isFresh (t : StackSocket) : Bool := t.conn = none && !t.closed

namespace ServiceState

def fresh (s : ServiceState) (so : SocketPtr) : Nat :=
  if (s.sock so).any StackSocket.isFresh then 1 else 0

structure LinkInv (s : ServiceState) : Prop where
  live : ∀ i so, (s.sat i).socket = some so →
    ∃ t, s.sock so = some t ∧ t.closed = false ∧ t.conn = some (i, s.gen i)
  back : ∀ so t i g, s.sock so = some t → t.closed = false → t.conn = some (i, g) →
    (s.sat i).socket = some so
  conn : ∀ so t, s.sock so = some t → t.glueingBlock = t.conn.map Prod.fst ∧
    ∀ i g, t.conn = some (i, g) → g ≤ s.gen i
  waiting : ∀ so, s.waiting so ≤ s.fresh so

variable {s t : ServiceState} {so : SocketPtr} {i : Slot}

theorem LinkInv.of_le (h : LinkInv s) (hsat : ∀ i, (t.sat i).socket = (s.sat i).socket)
    (hsock : t.sock = s.sock) (hgen : t.gen = s.gen)
    (hwait : ∀ so, t.waiting so ≤ s.waiting so) : LinkInv t where
  live := by simpa only [hsat, hsock, hgen] using h.live
  back := by simpa only [hsat, hsock] using h.back
  conn := by simpa only [hsock, hgen] using h.conn
  waiting := by
    intro so
    have := h.waiting so
    simp only [fresh, hsock] at this ⊢
    exact (hwait so).trans this

theorem Quiet.linkInv (hq : Quiet s t) (h : LinkInv s) : LinkInv t :=
  h.of_le hq.sat hq.sock hq.gen hq.waiting

theorem LinkInv.of_sock (h : LinkInv s) (so : SocketPtr) (hgen : t.gen = s.gen)
    (hwaiting : t.waiting = s.waiting) (hsock : ∀ so', so' ≠ so → t.sock so' = s.sock so')
    (hsat : ∀ i so', so' ≠ so → ((t.sat i).socket = some so' ↔ (s.sat i).socket = some so'))
    (hlive : ∀ i, (t.sat i).socket = some so →
      ∃ st, t.sock so = some st ∧ st.closed = false ∧ st.conn = some (i, s.gen i))
    (hself : ∀ st, t.sock so = some st → st.glueingBlock = st.conn.map Prod.fst ∧
      ∀ i g, st.conn = some (i, g) → g ≤ s.gen i ∧ (st.closed = false → (t.sat i).socket = some so))
    (hwait : s.waiting so ≤ t.fresh so) : LinkInv t where
  live := by
    intro i so' hso'
    rw [hgen]
    by_cases he : so' = so
    · subst he
      exact hlive i hso'
    · rw [hsock so' he]
      exact h.live i so' ((hsat i so' he).mp hso')
  back := by
    intro so' st i g hst hclosed hconn
    by_cases he : so' = so
    · subst he
      exact ((hself st hst).2 i g hconn).2 hclosed
    · rw [hsock so' he] at hst
      exact (hsat i so' he).mpr (h.back so' st i g hst hclosed hconn)
  conn := by
    intro so' st hst
    rw [hgen]
    by_cases he : so' = so
    · subst he
      obtain ⟨hglue, hle⟩ := hself st hst
      exact ⟨hglue, fun i g hconn => (hle i g hconn).1⟩
    · rw [hsock so' he] at hst
      exact h.conn so' st hst
  waiting := by
    intro so'
    rw [hwaiting]
    by_cases he : so' = so
    · subst he
      exact hwait
    · simpa only [fresh, hsock so' he] using h.waiting so'

theorem LinkInv.exists_of_waiting (h : LinkInv s) (hwait : 0 < s.waiting so) :
    s.waiting so = 1 ∧ ∃ t, s.sock so = some t ∧ t.conn = none ∧ t.closed = false := by
  have hle := h.waiting so
  unfold fresh at hle
  split at hle
  · next hfresh =>
    obtain ⟨t, ht, hfr⟩ := Option.any_eq_true _ _ |>.mp hfresh
    exact ⟨by omega, t, ht, by simpa [StackSocket.isFresh] using hfr⟩
  · omega

theorem LinkInv.waiting_eq_zero (h : LinkInv s)
    (hso : ∀ t, s.sock so = some t → t.conn = none → t.closed = true) : s.waiting so = 0 := by
  by_contra hne
  obtain ⟨-, t, ht, hconn, hclosed⟩ := h.exists_of_waiting (Nat.pos_of_ne_zero hne)
  simp [hso t ht hconn] at hclosed

theorem LinkInv.create (h : LinkInv s) (hnone : s.sock so = none) (type : SoType) :
    LinkInv (s.setSock so (some { type })) := by
  refine h.of_sock so rfl rfl ?_ ?_ ?_ ?_ ?_
  · intro so' he
    simp [setSock, he]
  · exact fun _ _ _ => Iff.rfl
  · intro i hso
    obtain ⟨st, hst, -⟩ := h.live i so hso
    simp [hnone] at hst
  · intro st hst
    obtain rfl : _ = st := by simpa [setSock] using hst
    exact ⟨rfl, by simp⟩
  · rw [h.waiting_eq_zero (by simp [hnone])]
    exact Nat.zero_le _

theorem LinkInv.take (h : LinkInv s) {a : Nat} (hsat : (s.sat i).socket = none)
    (ht : TookSlot s a i t) : LinkInv t where
  live := by
    intro j so hso
    rw [ht.sat] at hso
    have hne : j ≠ i := by
      intro he
      rw [he, hsat] at hso
      cases hso
    simpa [ht.sock, ht.gen, hne] using h.live j so hso
  back := by simpa only [ht.sat, ht.sock] using h.back
  conn := by
    intro so st hst
    rw [ht.sock] at hst
    obtain ⟨hglue, hle⟩ := h.conn so st hst
    refine ⟨hglue, fun j g hconn => (hle j g hconn).trans ?_⟩
    by_cases he : j = i
    · simp [ht.gen, he]
    · simp [ht.gen, he]
  waiting := by
    intro so
    have hle := h.waiting so
    simp only [fresh, ht.sock] at hle ⊢
    exact (ht.waiting so).trans hle

section Link

variable (i j : Slot) (parent : Option Selector) (pid : Nat) (so so' : SocketPtr) (t : StackSocket)

theorem link_sock (s : ServiceState) : (s.link i parent pid so t).sock so' = if so' = so then
    some { t with glueingBlock := some i, conn := some (i, s.gen i) } else s.sock so' := by
  simp [ServiceState.link, setSock, setSat, Function.update_apply]

theorem link_socket (s : ServiceState) :
    ((s.link i parent pid so t).sat j).socket = if j = i then some so else (s.sat j).socket := by
  by_cases h : j = i
  · simp [ServiceState.link, setSock, setSat, h]
  · simp [ServiceState.link, setSock, setSat, h]

end Link

theorem LinkInv.link (h : LinkInv s) {t : StackSocket} (hsat : (s.sat i).socket = none)
    (hwait : s.waiting so = 0) (hclosed : t.closed = false)
    (hconn : ∀ t', s.sock so = some t' → t'.conn = none) (parent : Option Selector) (pid : Nat) :
    LinkInv (s.link i parent pid so t) := by
  have hself := link_sock i parent pid so so t s
  rw [if_pos rfl] at hself
  refine h.of_sock so rfl rfl ?_ ?_ ?_ ?_ ?_
  · intro so' he
    rw [link_sock, if_neg he]
  · intro j so' he
    rw [link_socket]
    by_cases hj : j = i
    · simp [hj, hsat, Ne.symm he]
    · simp [hj]
  · intro j hj
    rw [link_socket] at hj
    by_cases hji : j = i
    · subst hji
      exact ⟨_, hself, hclosed, rfl⟩
    · rw [if_neg hji] at hj
      obtain ⟨t', ht', -, hcn⟩ := h.live j so hj
      simp [hconn t' ht'] at hcn
  · intro st hst
    obtain rfl : _ = st := by simpa [hself] using hst
    refine ⟨rfl, ?_⟩
    rintro j g hcn
    obtain ⟨rfl, rfl⟩ : i = j ∧ _ = g := by simpa using hcn
    exact ⟨le_rfl, fun _ => by rw [link_socket, if_pos rfl]⟩
  · rw [hwait]
    exact Nat.zero_le _

theorem LinkInv.closeSocket (h : LinkInv s) (hwait : s.waiting so = 0) {u : ServiceState}
    (hsock : u.sock = (s.closeSocket so).sock) (hgen : u.gen = s.gen)
    (hwaiting : u.waiting = s.waiting)
    (hsat : ∀ i so', (u.sat i).socket = some so' ↔ (s.sat i).socket = some so' ∧ so' ≠ so) :
    LinkInv u := by
  apply h.of_sock so hgen hwaiting
  · intro so' he
    simp [hsock, ServiceState.closeSocket, setSock, he]
  · intro i so' he
    simp [hsat, he]
  · intro i hso
    exact absurd rfl ((hsat i so).mp hso).2
  · intro st hst
    have hst' : (s.sock so).map (fun t => { t with closed := true }) = some st := by
      simpa [hsock, ServiceState.closeSocket, setSock] using hst
    obtain ⟨t', ht', rfl⟩ := Option.map_eq_some_iff.mp hst'
    obtain ⟨hglue, hle⟩ := h.conn so t' ht'
    exact ⟨hglue, fun i g hconn => ⟨hle i g hconn, by simp⟩⟩
  · rw [hwait]
    exact Nat.zero_le _

theorem LinkInv.gone (h : LinkInv s) {t : StackSocket} (ht : s.sock so = some t)
    (hclosed : t.closed = true) : LinkInv (s.setSock so none) := by
  refine h.of_sock so rfl rfl ?_ ?_ ?_ ?_ ?_
  · intro so' he
    simp [setSock, he]
  · exact fun _ _ _ => Iff.rfl
  · intro i hso
    obtain ⟨st, hst, hopen, -⟩ := h.live i so hso
    simp_all
  · intro st hst
    simp [setSock] at hst
  · rw [h.waiting_eq_zero (by simp_all)]
    exact Nat.zero_le _

theorem sat_of_free (hown : s.ownership.Sound) (hi : i ∈ s.freeConnections.items) :
    (s.sat i).socket = none := by
  have := (hown.free i hi).2.1
  simpa [ownership] using this

theorem closeCommand_linkInv (h : LinkInv s) (a : Nat) (i : Slot) :
    LinkInv (s.closeCommand a i) := by
  cases hget : s.chan.getFreeCommandBuf with
  | none =>
    simp only [closeCommand, hget]
    exact h.of_le (fun _ => rfl) rfl rfl fun _ => le_rfl
  | some bc =>
    obtain ⟨b, chan⟩ := bc
    simp only [closeCommand, hget]
    exact h.of_le (fun _ => rfl) rfl rfl fun so => Nat.add_le_add_left
      (send_waiting hget (show ∀ so, (ServiceCmd.close i).carries so = false from fun _ => rfl)
        (chan.freeCommandBuf b) rfl so).le _

theorem notifyAccepted_linkInv (h : LinkInv s) (hnone : s.sock so = none) (l : Slot)
    (ipaddr port : Nat) : LinkInv (s.notifyAccepted l so ipaddr port) := by
  obtain ⟨u, hu⟩ : ∃ u, s.setSock so (some { type := .stream }) = u := ⟨_, rfl⟩
  have h1 : LinkInv u := hu ▸ h.create hnone .stream
  have hzero : u.waiting so = 0 := by
    rw [← hu]
    exact h.waiting_eq_zero (by simp [hnone])
  cases hget : u.chan.getFreeCommandBuf with
  | none => simpa only [notifyAccepted, hu, hget] using h1
  | some bc =>
    obtain ⟨b, chan⟩ := bc
    have hring := (getFreeCommandBuf_eq_some hget).2
    have hquiet (chan' : CommandChannel) (hr : chan'.ring = u.chan.ring) :
        Quiet u { u with chan := chan' } :=
      .chan (pend_of_ring hr) fun so => (congrFun (waiting_of_ring hr) so).le
    cases henq : (u.rings l).rxRing.enqueue (.accepted b so ipaddr port) with
    | none =>
      simp only [notifyAccepted, hu, hget, henq]
      exact (hquiet (chan.freeCommandBuf b) hring).linkInv h1
    | some rxRing =>
      simp only [notifyAccepted, hu, hget, henq]
      obtain ⟨w, hw⟩ : ∃ w, { u with chan } = w := ⟨_, rfl⟩
      obtain ⟨r, hr⟩ : ∃ r : SlotRings, { u.rings l with rxRing } = r := ⟨_, rfl⟩
      have h2 : LinkInv w := hw ▸ (hquiet chan hring).linkInv h1
      have hrings : w.rings = u.rings := by rw [← hw]
      have hitems := (Fifo.enqueue_eq_some_iff.mp henq).2
      rw [hw, hr]
      refine ⟨h2.live, h2.back, h2.conn, ?_⟩
      intro so'
      have hsum := setRings_waiting w l r so'
      have hnew : r.waiting so' = (w.rings l).waiting so' + if so = so' then 1 else 0 := by
        rw [hrings]
        simp [← hr, SlotRings.waiting, hitems, List.countP_append, List.countP_cons, RxItem.carries]
      have hold := h2.waiting so'
      show _ ≤ w.fresh so'
      by_cases he : so = so'
      · subst he
        have hzero' : w.waiting so ≤ u.waiting so := hw ▸ (hquiet chan hring).waiting so
        have hfresh : w.fresh so = 1 := by
          simp [fresh, ← hw, ← hu, setSock, StackSocket.isFresh]
        simp only [if_true] at hnew
        omega
      · simp only [he, if_false] at hnew
        omega

section Process

variable {chan : CommandChannel} {b : Nat} {cmd : ServiceCmd}

theorem processClose_linkInv (h : LinkInv s) (hsat : (s.sat i).socket = some so)
    (free : Fifo (connectionPoolSize - 1) Slot) :
    LinkInv { (s.closeSocket so).setSat i { (s.closeSocket so).sat i with
      socket := none, ringsetIdx := none, parentIdx := none } with freeConnections := free } := by
  obtain ⟨t, ht, hclosed, hconn⟩ := h.live i so hsat
  refine h.closeSocket (h.waiting_eq_zero (by simp_all)) rfl rfl rfl ?_
  intro j so'
  by_cases hj : j = i
  · subst hj
    simp [setSat, hsat]
    exact fun h => h.symm
  · simp only [setSat, Function.update_of_ne hj]
    refine ⟨fun hso' => ⟨hso', ?_⟩, fun hso' => hso'.1⟩
    -- two slots of one socket would be one
    rintro rfl
    obtain ⟨t', ht', -, hconn'⟩ := h.live j so' hso'
    simp_all

theorem processCommand_linkInv (h : LinkInv s) (hown : s.ownership.Sound)
    (hdeq : s.chan.dequeueCommandBuf = some (b, cmd, chan)) {created : Option SocketPtr}
    (hcreated : ∀ so ∈ created, s.sock so = none) (refused : Option Nat) :
    LinkInv ({ s with chan }.processCommand created refused cmd) := by
  obtain ⟨u, hu⟩ : ∃ u, { s with chan } = u := ⟨_, rfl⟩
  have hwait : ∀ so, s.waiting so = u.waiting so + if cmd.carries so then 1 else 0 := by
    intro so
    have := dequeueCommandBuf_waiting hdeq so
    simp only [waiting, ← hu]
    omega
  have hsock : u.sock = s.sock := by rw [← hu]
  have hsat : u.sat = s.sat := by rw [← hu]
  have h1 : LinkInv u := by
    apply h.of_le (fun _ => by rw [hsat]) hsock (by rw [← hu])
    intro so
    have := hwait so
    omega
  -- the slot of a command that attaches has no socket yet
  have hattach (i : Slot) (hc : cmd.onSlot i = some .attach) : (u.sat i).socket = none := by
    have hmem : .attach ∈ s.ownership.pend i := by
      show _ ∈ s.chan.pend i
      rw [dequeueCommandBuf_pend hdeq, hc]
      exact List.mem_cons_self
    rw [hsat]
    simpa [ownership] using hown.attach i hmem
  -- a socket that the command carries is on its way no more, and has no slot
  have hcarried (so : SocketPtr) (hc : cmd.carries so = true) :
      u.waiting so = 0 ∧ ∃ t, u.sock so = some t ∧ t.conn = none ∧ t.closed = false := by
    have hone := hwait so
    rw [if_pos hc] at hone
    obtain ⟨hw, t, ht⟩ := h.exists_of_waiting (show 0 < s.waiting so by omega)
    exact ⟨by omega, t, by rwa [hsock]⟩
  rw [hu]
  cases cmd with
  | openSocket i parent type pid =>
    cases created with
    | none => exact h1
    | some so =>
      have hnone : u.sock so = none := by simpa [hsock] using hcreated
      exact h1.link (hattach i (if_pos rfl)) (h1.waiting_eq_zero (by simp [hnone])) rfl
        (by simp [hnone]) parent pid
  | setSocketRing i parent so pid =>
    obtain ⟨hw, t, ht, hconn, hclosed⟩ := hcarried so (decide_eq_true rfl)
    simp only [processCommand, ht]
    exact h1.link (hattach i (if_pos rfl)) hw hclosed (by simp_all) _ pid
  | close i =>
    simp only [processCommand]
    split
    · next so hso => exact processClose_linkInv h1 hso _
    · exact h1
  | txKick i =>
    simp only [processCommand]
    split
    · exact (onTransmissionOpportunity_quiet _ refused).linkInv h1
    · exact h1
  | setSocketSelect i parent pid =>
    exact (Quiet.setSat i { u.sat i with parentIdx := parent, apppid := pid } rfl).linkInv h1
  | decline so =>
    obtain ⟨hw, t, ht, hconn, -⟩ := hcarried so (decide_eq_true rfl)
    refine h1.closeSocket hw rfl rfl rfl ?_
    intro j so'
    refine ⟨fun hso' => ⟨hso', ?_⟩, fun hso' => hso'.1⟩
    rintro rfl
    obtain ⟨t', ht', -, hconn'⟩ := h1.live j so' hso'
    simp_all
  | _ => exact h1

end Process

end ServiceState

theorem start_linkInv (pool : List Nat) : (ServiceState.start pool).LinkInv where
  live _ _ h := by cases h
  back _ _ _ _ h := by cases h
  conn _ _ h := by cases h
  waiting _ := by
    simp [ServiceState.waiting, ServiceState.start, SlotRings.waiting, waiting]

end NetbsdDpdk
