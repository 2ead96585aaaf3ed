import NetbsdDpdk.ListenRuns

/-! The queues of listening sockets stay consistent with their counters and back pointers through
every run, and no listening socket goes away while a connection waits on it. -/

namespace NetbsdDpdk

open List Function SocketQueues

/-- `3 * somaxconn / 2`, and the one more that the check of `sonewconn` lets in. -/
abbrev maxWaiting : Nat := 193

/-- What `user_on_accept` has taken and what waits, in this order, are completed connections in the
order of completion. -/
structure InOrderOf (s : ListenState) (h : SocketPtr) : Prop where
  sublist : (s.accepted h ++ (s.queues.soq (h, .soQ)).map s.stamp).Sublist (s.completed h)
  increasing : (s.completed h).Pairwise (· < ·)
  past : ∀ n ∈ s.completed h, n < s.clock

structure ListenInv (s : ListenState) : Prop where
  queues : s.queues.Consistent
  room : ∀ h, s.queues.waiting h ≤ maxWaiting
  waits : ∀ x, s.queues.soOnq x ≠ none → (s.sock x).live = true ∧ (s.sock x).noFdRef = true
  listener : ∀ h q, s.queues.soq (h, q) ≠ [] →
    (s.sock h).live = true ∧ (s.sock h).acceptConn = true ∧ (s.sock h).noFdRef = false
  opened : ∀ h, (s.sock h).acceptConn = true → (s.sock h).pcb = true → (s.sock h).noFdRef = false
  filter : ∀ x, (s.sock x).acceptFilter = false
  limit : ∀ x, (s.sock x).qlimit ≤ somaxconn
  order : ∀ h, InOrderOf s h

namespace SocketQueues

variable {Q : SocketQueues} {head so : SocketPtr} {q : Soq}

theorem waiting_soqinsque (h : SocketPtr) :
    (Q.soqinsque head so q).waiting h = Q.waiting h + if h = head then 1 else 0 := by
  by_cases hh : h = head
  · subst hh
    cases q <;> simp [waiting, soqinsque] <;> omega
  · have hne (q' : Soq) : (h, q') ≠ (head, q) := fun heq => hh (congrArg Prod.fst heq)
    simp [waiting, soqinsque, hne, hh]

theorem waiting_soqremque_le (hQ : Q.Consistent) (h : SocketPtr) :
    (Q.soqremque so q).1.waiting h ≤ Q.waiting h := by
  rcases soqremque_cases hQ so q with ⟨head, hmem, -⟩ | hsame
  · have hle (a : SoqHead) : ((Q.soqremque so q).1.soq a).length ≤ (Q.soq a).length := by
      rw [soqremque_soq hQ hmem]
      by_cases ha : a = (head, q)
      · subst ha
        simpa using length_erase_le
      · simp [ha]
    exact Nat.add_le_add (hle _) (hle _)
  · rw [hsame]

theorem waiting_soqremque (hQ : Q.Consistent) (hmem : so ∈ Q.soq (head, q)) :
    (Q.soqremque so q).1.waiting head + 1 = Q.waiting head := by
  have hpos := length_pos_of_mem hmem
  have hlen := length_erase_of_mem hmem
  unfold waiting
  rw [soqremque_soq hQ hmem]
  cases q <;> simp [hlen] <;> omega

theorem toInt_soqlen (hQ : Q.Consistent) (hroom : Q.waiting head ≤ maxWaiting) (q : Soq) :
    (Q.soqlen (head, q)).toInt = (Q.soq (head, q)).length := by
  have hlen : (Q.soq (head, q)).length ≤ 193 := by
    unfold waiting maxWaiting at hroom
    cases q <;> omega
  rw [hQ.len, BitVec.toInt_eq_toNat_of_lt]
  · rw [BitVec.toNat_ofNat, Nat.mod_eq_of_lt (by omega)]
  · rw [BitVec.toNat_ofNat, Nat.mod_eq_of_lt (by omega)]
    omega

theorem soqlen_eq_zero_iff (hQ : Q.Consistent) (hroom : Q.waiting head ≤ maxWaiting) (q : Soq) :
    Q.soqlen (head, q) = 0#16 ↔ Q.soq (head, q) = [] := by
  have hint := toInt_soqlen hQ hroom q
  constructor
  · intro hzero
    rw [hzero] at hint
    exact length_eq_zero_iff.mp (by simpa using hint.symm)
  · intro hnil
    rw [hQ.len, hnil]
    rfl

end SocketQueues

namespace InOrderOf

variable {s t : ListenState} {h : SocketPtr}

theorem leave (hs : InOrderOf s h) (haccepted : t.accepted h = s.accepted h)
    (hstamp : t.stamp = s.stamp) (hcompleted : t.completed h = s.completed h)
    (hclock : t.clock = s.clock)
    (hsub : (t.queues.soq (h, .soQ)).Sublist (s.queues.soq (h, .soQ))) : InOrderOf t h := by
  refine ⟨?_, ?_, ?_⟩
  · rw [haccepted, hstamp, hcompleted]
    exact ((hsub.map s.stamp).append_left _).trans hs.sublist
  · rw [hcompleted]
    exact hs.increasing
  · rw [hcompleted, hclock]
    exact hs.past

end InOrderOf

namespace ListenInv

open ListenState

variable {s t : ListenState} {head so x : SocketPtr} {q : Soq}
  {f : ListenSocket → ListenSocket}

theorem notQueued_of_referenced (h : ListenInv s) (href : (s.sock x).noFdRef = false) :
    s.queues.soOnq x = none := by
  by_contra hon
  rw [(h.waits x hon).2] at href
  cases href

theorem notQueued_of_dead (h : ListenInv s) (hdead : (s.sock x).live = false) :
    s.queues.soOnq x = none := by
  by_contra hon
  rw [(h.waits x hon).1] at hdead
  cases hdead

theorem queue_nil_of_dead (h : ListenInv s) (hdead : (s.sock x).live = false) (q : Soq) :
    s.queues.soq (x, q) = [] := by
  by_contra hne
  rw [(h.listener x q hne).1] at hdead
  cases hdead

theorem queue_nil_of_noFdRef (h : ListenInv s) (hno : (s.sock x).noFdRef = true) (q : Soq) :
    s.queues.soq (x, q) = [] := by
  by_contra hne
  rw [(h.listener x q hne).2.2] at hno
  cases hno

theorem modify (h : ListenInv s) (hwaits : s.queues.soOnq x ≠ none →
      (f (s.sock x)).live = true ∧ (f (s.sock x)).noFdRef = true)
    (hlistener : ∀ q, s.queues.soq (x, q) ≠ [] → (f (s.sock x)).live = true ∧
      (f (s.sock x)).acceptConn = true ∧ (f (s.sock x)).noFdRef = false)
    (hopened : (f (s.sock x)).acceptConn = true → (f (s.sock x)).pcb = true →
      (f (s.sock x)).noFdRef = false) (hfilter : (f (s.sock x)).acceptFilter = false)
    (hlimit : (f (s.sock x)).qlimit ≤ somaxconn) : ListenInv (s.modify x f) := by
  have hsock (P : SocketPtr → ListenSocket → Prop) (hx : P x (f (s.sock x)))
      (hother : ∀ y, P y (s.sock y)) (y : SocketPtr) : P y ((s.modify x f).sock y) := by
    by_cases hy : y = x
    · subst hy
      simpa [ListenState.modify] using hx
    · simpa [ListenState.modify, hy] using hother y
  refine ⟨h.queues, h.room, ?_, ?_, ?_, ?_, ?_, fun l => ⟨(h.order l).sublist,
    (h.order l).increasing, (h.order l).past⟩⟩
  · exact hsock (fun y t => s.queues.soOnq y ≠ none → t.live = true ∧ t.noFdRef = true) hwaits
      h.waits
  · exact hsock (fun y t => ∀ q, s.queues.soq (y, q) ≠ [] →
      t.live = true ∧ t.acceptConn = true ∧ t.noFdRef = false) hlistener h.listener
  · exact hsock (fun _ t => t.acceptConn = true → t.pcb = true → t.noFdRef = false) hopened h.opened
  · exact hsock (fun _ t => t.acceptFilter = false) hfilter h.filter
  · exact hsock (fun _ t => t.qlimit ≤ somaxconn) hlimit h.limit

theorem frame (h : ListenInv s) (hlive : (f (s.sock x)).live = (s.sock x).live)
    (hno : (f (s.sock x)).noFdRef = (s.sock x).noFdRef)
    (hacc : (f (s.sock x)).acceptConn = (s.sock x).acceptConn)
    (hpcb : (f (s.sock x)).pcb = true → (s.sock x).acceptConn = true → (s.sock x).pcb = true)
    (hfilter : (f (s.sock x)).acceptFilter = (s.sock x).acceptFilter)
    (hlimit : (f (s.sock x)).qlimit = (s.sock x).qlimit) : ListenInv (s.modify x f) := by
  apply h.modify
  · rw [hlive, hno]
    exact h.waits x
  · rw [hlive, hacc, hno]
    exact h.listener x
  · rw [hacc, hno]
    exact fun hx hp => h.opened x hx (hpcb hp hx)
  · rw [hfilter]
    exact h.filter x
  · rw [hlimit]
    exact h.limit x

theorem soqremque (h : ListenInv s) (so : SocketPtr) (q : Soq) : ListenInv (s.soqremque so q) := by
  rcases soqremque_cases h.queues so q with ⟨head, hmem, -⟩ | hsame
  · have hsub (a : SoqHead) : ((s.soqremque so q).queues.soq a).Sublist (s.queues.soq a) := by
      simp only [ListenState.soqremque, soqremque_soq h.queues hmem]
      by_cases ha : a = (head, q)
      · subst ha
        simpa using erase_sublist
      · simp [ha]
    refine ⟨h.queues.soqremque so q,
      fun l => (waiting_soqremque_le h.queues l).trans (h.room l), ?_, ?_, h.opened,
      h.filter, h.limit, fun l => (h.order l).leave rfl rfl rfl rfl (hsub _)⟩
    · intro x hx
      refine h.waits x fun hnone => hx ?_
      simp only [ListenState.soqremque, soqremque_soOnq h.queues hmem]
      by_cases heq : x = so
      · simp [heq]
      · simpa [heq] using hnone
    · intro l q' hne
      refine h.listener l q' fun hnil => hne ?_
      have hl := hsub (l, q')
      rw [hnil] at hl
      exact sublist_nil.mp hl
  · have heq : s.soqremque so q = s := by
      simp only [ListenState.soqremque, hsame]
    rw [heq]
    exact h

theorem soqinsque (h : ListenInv s) (hout : s.queues.soOnq so = none)
    (hso : (s.sock so).live = true ∧ (s.sock so).noFdRef = true)
    (hhead : (s.sock head).live = true ∧ (s.sock head).acceptConn = true ∧
      (s.sock head).noFdRef = false)
    (hroom : s.queues.waiting head < maxWaiting) : ListenInv (s.soqinsque head so q) := by
  have hqueues : (s.soqinsque head so q).queues = s.queues.soqinsque head so q := by
    cases q <;> rfl
  have hsock : (s.soqinsque head so q).sock = s.sock := by
    cases q <;> rfl
  refine ⟨?_, ?_, ?_, ?_, ?_, ?_, ?_, ?_⟩
  · rw [hqueues]
    exact h.queues.soqinsque hout
  · intro l
    rw [hqueues, waiting_soqinsque]
    have hl := h.room l
    by_cases heq : l = head
    · subst heq
      rw [if_pos rfl]
      omega
    · rw [if_neg heq]
      omega
  · intro x hx
    rw [hsock]
    by_cases heq : x = so
    · rw [heq]
      exact hso
    · rw [hqueues] at hx
      exact h.waits x (by simpa [SocketQueues.soqinsque, heq] using hx)
  · intro l q' hne
    rw [hsock]
    by_cases heq : l = head
    · rw [heq]
      exact hhead
    · have hother : (l, q') ≠ (head, q) := fun ha => heq (congrArg Prod.fst ha)
      rw [hqueues] at hne
      exact h.listener l q' (by simpa [SocketQueues.soqinsque, hother] using hne)
  · rw [hsock]
    exact h.opened
  · rw [hsock]
    exact h.filter
  · rw [hsock]
    exact h.limit
  · intro l
    cases q with
    | soQ0 => exact (h.order l).leave rfl rfl rfl rfl (by simp [ListenState.soqinsque,
        SocketQueues.soqinsque])
    | soQ =>
      -- no stamp but that of the new connection changes, and it is the latest
      have hmap (a : SoqHead) : (s.queues.soq a).map (update s.stamp so s.clock) =
          (s.queues.soq a).map s.stamp := by
        refine map_congr_left fun y hy => update_of_ne ?_ _ _
        intro heq
        exact h.queues.notMem hout a (heq ▸ hy)
      obtain ⟨hsub, hincr, hpast⟩ := h.order l
      by_cases heq : l = head
      · subst heq
        refine ⟨?_, ?_, ?_⟩
        · simp only [ListenState.soqinsque, SocketQueues.soqinsque, update_self,
            map_append, map_cons, map_nil, hmap, ← append_assoc]
          exact hsub.append (List.Sublist.refl _)
        · simp only [ListenState.soqinsque, update_self]
          refine pairwise_append.mpr ⟨hincr, pairwise_singleton _ _, ?_⟩
          intro n hn m hm
          rw [mem_singleton.mp hm]
          exact hpast n hn
        · simp only [ListenState.soqinsque, update_self]
          intro n hn
          rcases mem_append.mp hn with hold | hnew
          · exact (hpast n hold).trans (Nat.lt_succ_self _)
          · rw [mem_singleton.mp hnew]
            exact Nat.lt_succ_self _
      · have hother : (l, Soq.soQ) ≠ (head, .soQ) := fun ha => heq (congrArg Prod.fst ha)
        refine ⟨?_, ?_, ?_⟩
        · simp only [ListenState.soqinsque, SocketQueues.soqinsque, update_of_ne hother,
            update_of_ne heq, hmap]
          exact hsub
        · simpa only [ListenState.soqinsque, update_of_ne heq] using hincr
        · simp only [ListenState.soqinsque, update_of_ne heq]
          exact fun n hn => (hpast n hn).trans (Nat.lt_succ_self _)

theorem sorwakeup (h : ListenInv s) (so : SocketPtr) : ListenInv (s.sorwakeup so) := by
  unfold ListenState.sorwakeup
  split
  · exact h.frame rfl rfl rfl (fun hp _ => hp) rfl rfl
  · exact h

theorem soget (h : ListenInv s) (hdead : (s.sock so).live = false) {t : ListenSocket}
    (hacc : t.acceptConn = false) (hfilter : t.acceptFilter = false)
    (hlimit : t.qlimit ≤ somaxconn) : ListenInv (s.soget so t) := by
  have hout := h.notQueued_of_dead hdead
  have hnil := h.queue_nil_of_dead hdead
  have hsoq : (s.queues.soget so).soq = s.queues.soq := by
    funext a
    obtain ⟨l, q⟩ := a
    by_cases hl : l = so
    · subst hl
      simp [SocketQueues.soget, hnil]
    · simp [SocketQueues.soget, hl]
  have honq : (s.queues.soget so).soOnq = s.queues.soOnq := by
    simp [SocketQueues.soget, ← hout]
  -- the fields change as in a socket that is on no queue and has none
  have hmod : ListenInv (s.modify so fun _ => t) := by
    refine h.modify (fun hne => absurd hout hne) (fun q hne => absurd (hnil q) hne) ?_ hfilter
      hlimit
    intro htrue
    rw [hacc] at htrue
    cases htrue
  refine ⟨h.queues.soget hout hnil, ?_, ?_, ?_, hmod.opened, hmod.filter, hmod.limit, ?_⟩
  · intro l
    simp only [ListenState.soget, waiting, hsoq]
    exact h.room l
  · simp only [ListenState.soget, honq]
    exact hmod.waits
  · simp only [ListenState.soget, hsoq]
    exact hmod.listener
  · intro l
    refine (h.order l).leave rfl rfl rfl rfl ?_
    simp only [ListenState.soget, hsoq]
    exact List.Sublist.refl _

theorem soput (h : ListenInv s) (hout : s.queues.soOnq so = none)
    (hnil : ∀ q, s.queues.soq (so, q) = []) : ListenInv (s.soput so) :=
  h.modify (fun hne => absurd hout hne) (fun q hne => absurd (hnil q) hne) (h.opened so)
    (h.filter so) (h.limit so)

theorem release (h : ListenInv s) (hout : s.queues.soOnq so = none)
    (hnil : ∀ q, s.queues.soq (so, q) = []) : ListenInv (s.release so) := by
  unfold ListenState.release
  split
  · exact h.soput hout hnil
  · exact h

theorem sofree (h : ListenInv s) (hnil : (s.sock so).pcb = false → (s.sock so).noFdRef = true →
      ∀ q, s.queues.soq (so, q) = []) : ListenInv (s.sofree so) := by
  unfold ListenState.sofree
  split
  · exact h
  · next hfree =>
    rw [not_or, Bool.not_eq_true, Bool.not_eq_false] at hfree
    have hempty := hnil hfree.1 hfree.2
    split
    · next hhead =>
      rcases soqremque_cases h.queues so .soQ0 with ⟨l, hmem, hok⟩ | hsame
      · rw [if_pos hok]
        refine (h.soqremque so .soQ0).release ?_ ?_
        · simp [ListenState.soqremque, soqremque_soOnq h.queues hmem]
        · intro q
          have hne : l ≠ so := by
            intro heq
            rw [heq, hempty .soQ0] at hmem
            cases hmem
          have ha : (so, q) ≠ (l, Soq.soQ0) := fun ha => hne (congrArg Prod.fst ha).symm
          simp [ListenState.soqremque, soqremque_soq h.queues hmem, ha, hempty]
      · rw [hsame]
        exact h
    · next hhead =>
      refine h.release ?_ hempty
      rw [← h.queues.soHead_none_iff]
      simpa using hhead

theorem tcpClose (h : ListenInv s) (so : SocketPtr) : ListenInv (s.tcpClose so) := by
  have hmod : ListenInv (s.modify so fun t =>
      { t with disconnected := true, connected := false, pcb := false }) :=
    h.frame rfl rfl rfl (fun hp _ => Bool.noConfusion hp) rfl rfl
  refine hmod.sofree fun _ hno => ?_
  exact hmod.queue_nil_of_noFdRef hno

theorem pruAbort (h : ListenInv s) (so : SocketPtr) : ListenInv (s.pruAbort so) := by
  let up := s.modify so fun t => { t with aborting := t.aborting + 1 }
  have hup : ListenInv up := h.frame rfl rfl rfl (fun hp _ => hp) rfl rfl
  have hclose : ListenInv (if (up.sock so).pcb then up.tcpClose so else up) := by
    split
    · exact hup.tcpClose so
    · exact hup
  exact frame (x := so) (f := fun t => { t with aborting := t.aborting - 1 }) hclose rfl rfl rfl
    (fun hp _ => hp) rfl rfl

theorem soabort (h : ListenInv s) (ht : s.soabort so = .ok t) : ListenInv t := by
  have habort := h.pruAbort so
  unfold ListenState.soabort at ht
  split at ht
  · cases ht
  · split at ht
    · cases ht
      exact habort.sofree fun _ hno => habort.queue_nil_of_noFdRef hno
    · cases ht
      exact habort

theorem soaccept (h : ListenInv s) (hout : s.queues.soOnq so = none) {addr : Bool}
    (ht : s.soaccept so addr = .ok t) : ListenInv t := by
  unfold ListenState.soaccept at ht
  split at ht
  · cases ht
  · split at ht
    · cases ht
    · cases ht
      refine h.modify (fun hne => absurd hout hne) ?_ (fun _ _ => rfl) (h.filter so) (h.limit so)
      exact fun q hne => ⟨(h.listener so q hne).1, (h.listener so q hne).2.1, rfl⟩

theorem referenced (h : ListenInv s) (hhead : s.Listens head) :
    (s.sock head).live = true ∧ (s.sock head).acceptConn = true ∧ (s.sock head).noFdRef = false :=
  ⟨hhead.1, hhead.2.1, h.opened head hhead.2.1 hhead.2.2⟩

theorem waiting_lt (h : ListenInv s) (hfull : ¬ s.Full head) :
    s.queues.waiting head < maxWaiting := by
  have hlimit := h.limit head
  unfold Full at hfull
  rw [toInt_soqlen h.queues (h.room head), toInt_soqlen h.queues (h.room head)] at hfull
  have hbound : (3 * (s.sock head).qlimit).tdiv 2 ≤ 192 := by
    have htriple : 3 * (s.sock head).qlimit ≤ 384 := by
      simp only [somaxconn] at hlimit
      omega
    exact Int.tdiv_le_tdiv (by decide : (0 : Int) < 2) htriple
  unfold waiting maxWaiting
  omega

/-! What `sonewconn` makes of a free socket `so` for the listening socket `head`. -/

theorem created (h : ListenInv s) (head : SocketPtr) (hdead : (s.sock so).live = false) :
    ListenInv (s.soget so (child (s.sock head))) :=
  h.soget hdead rfl (h.filter head) (show (0 : Int) ≤ 128 by decide)

theorem created_self : (s.soget so (child (s.sock head))).sock so = child (s.sock head) := by
  simp [ListenState.soget]

theorem created_notQueued : (s.soget so (child (s.sock head))).queues.soOnq so = none := by
  simp [ListenState.soget, SocketQueues.soget]

theorem enqueued_self (q : Soq) :
    ((s.soget so (child (s.sock head))).soqinsque head so q).sock so = child (s.sock head) := by
  have hself : (s.soget so (child (s.sock head))).sock so = child (s.sock head) := created_self
  refine Eq.trans ?_ hself
  cases q <;> rfl

theorem enqueued (h : ListenInv s) (hhead : s.Listens head) (hdead : (s.sock so).live = false)
    (hfull : ¬ s.Full head) (q : Soq) :
    ListenInv ((s.soget so (child (s.sock head))).soqinsque head so q) := by
  have hne : head ≠ so := by
    intro heq
    rw [← heq, hhead.1] at hdead
    cases hdead
  have hheadSock : (s.soget so (child (s.sock head))).sock head = s.sock head := by
    simp [ListenState.soget, hne]
  have hwait : (s.soget so (child (s.sock head))).queues.waiting head < maxWaiting := by
    have hlt := h.waiting_lt hfull
    simpa [ListenState.soget, SocketQueues.soget, waiting, hne] using hlt
  refine (h.created head hdead).soqinsque created_notQueued ?_ ?_ hwait
  · rw [created_self]
    exact ⟨rfl, rfl⟩
  · rw [hheadSock]
    exact h.referenced hhead

theorem removed {q : Soq}
    (hins : ListenInv ((s.soget so (child (s.sock head))).soqinsque head so q)) : ListenInv
      ((((s.soget so (child (s.sock head))).soqinsque head so q).soqremque so q).soput so) := by
  have hmem : so ∈
      ((s.soget so (child (s.sock head))).soqinsque head so q).queues.soq (head, q) := by
    cases q <;> simp [ListenState.soqinsque, SocketQueues.soqinsque]
  refine (hins.soqremque so q).soput ?_ ?_
  · simp [ListenState.soqremque, soqremque_soOnq hins.queues hmem]
  · refine (hins.soqremque so q).queue_nil_of_noFdRef ?_
    exact congrArg ListenSocket.noFdRef (enqueued_self q)

theorem attached {q : Soq}
    (hins : ListenInv ((s.soget so (child (s.sock head))).soqinsque head so q)) :
    ListenInv (((s.soget so (child (s.sock head))).soqinsque head so q).modify so
      fun t => { t with pcb := true }) := by
  refine hins.frame rfl rfl rfl (fun _ hacc => ?_) rfl rfl
  rw [enqueued_self] at hacc
  cases hacc

theorem sonewconn (h : ListenInv s) (hhead : s.Listens head) {got : Option SocketPtr}
    (hgot : ∀ so ∈ got, (s.sock so).live = false) (connstatus : ConnStatus)
    (reserved attached : Bool) :
    ListenInv (s.sonewconn head connstatus got reserved attached) := by
  unfold ListenState.sonewconn
  by_cases hfull : s.Full head
  · simpa only [if_pos hfull] using h
  · cases got with
    | none => simpa only [if_neg hfull] using h
    | some so =>
      have hget := h.created head (hgot so rfl)
      have hins := h.enqueued hhead (hgot so rfl) hfull (connQueue connstatus)
      simp only [if_neg hfull, h.filter head, Bool.false_eq_true, if_false]
      split
      · refine hget.soput created_notQueued (hget.queue_nil_of_noFdRef ?_)
        rw [created_self]
        rfl
      · split
        · exact hins.removed
        · split
          · exact hins.attached
          · exact (hins.attached.sorwakeup head).frame rfl rfl rfl (fun hp _ => hp) rfl rfl

theorem soisconnected (h : ListenInv s) (ht : s.soisconnected so = .ok t) : ListenInv t := by
  have hmod : ListenInv (s.modify so fun t => { t with connected := true }) :=
    h.frame rfl rfl rfl (fun hp _ => hp) rfl rfl
  simp only [ListenState.soisconnected] at ht
  split at ht
  · cases ht
    exact hmod.sorwakeup so
  · next head hhead =>
    split at ht
    · next honq =>
      split at ht
      · cases ht
      · cases ht
        -- the connection is on neither queue between its removal and its insertion
        have hmem := (hmod.queues.onq so (head, .soQ0)).mp honq
        have hrem := hmod.soqremque so .soQ0
        have hlistener := hmod.listener head .soQ0 (ne_nil_of_mem hmem)
        have hwaits := hmod.waits so (by rw [honq]; exact Option.some_ne_none _)
        refine (hrem.soqinsque ?_ hwaits hlistener ?_).sorwakeup head
        · simp only [ListenState.soqremque, soqremque_soOnq hmod.queues hmem, update_self]
        · have hless := waiting_soqremque hmod.queues hmem
          have hroom := hmod.room head
          simp only [ListenState.soqremque]
          omega
    · cases ht
      exact hmod.sorwakeup so

theorem solisten (h : ListenInv s) (href : (s.sock so).noFdRef = false)
    (hlive : (s.sock so).live = true) (backlog : Int) : ListenInv (s.solisten so backlog) := by
  unfold ListenState.solisten
  split
  · exact h
  · refine h.modify ?_ ?_ (fun _ _ => href) (h.filter so) (min_le_right _ _)
    · exact fun hne => absurd (h.notQueued_of_referenced href) hne
    · intro q hne
      refine ⟨hlive, ?_, href⟩
      simp [(h.listener so q hne).2.1]

theorem discard (h : ListenInv s) (hnil : (s.sock so).acceptConn = true →
      ∀ q, s.queues.soq (so, q) = []) {pcbLeft : Bool} (ht : s.discard so pcbLeft = .ok t) :
    ListenInv t := by
  unfold ListenState.discard at ht
  split at ht
  · cases ht
  · next hno =>
    rw [Bool.not_eq_true] at hno
    cases ht
    have hempty q : s.queues.soq (so, q) = [] := by
      by_contra hne
      exact hne (hnil (h.listener so q hne).2.1 q)
    have hmod : ListenInv (s.modify so fun t => { t with
        pcb := t.pcb && pcbLeft && !t.acceptConn
        noFdRef := true }) := by
      refine h.modify ?_ (fun q hne => absurd (hempty q) hne) ?_ (h.filter so) (h.limit so)
      · exact fun hne => absurd (h.notQueued_of_referenced hno) hne
      · intro hacc hpcb
        change (s.sock so).acceptConn = true at hacc
        simp only [hacc, Bool.not_true, Bool.and_false, Bool.false_eq_true] at hpcb
    exact hmod.sofree fun _ _ => hempty

end ListenInv

namespace ListenState

variable {s t : ListenState} {so so2 : SocketPtr} {rest : List SocketPtr} {env : PassEnv}

/-! The loop of `soclose`. -/

theorem sofree_queues (hhead : s.queues.soHead so = none) :
    (s.sofree so).queues = s.queues := by
  unfold sofree
  split
  · rfl
  · rw [hhead]
    simp only [Option.isSome_none, Bool.false_eq_true, if_false]
    unfold release
    split <;> rfl

theorem soabort_queues (ht : s.soabort so = .ok t) : t.queues = s.queues := by
  unfold soabort at ht
  split at ht
  · cases ht
  · next hhead =>
    have hnone : s.queues.soHead so = none := by simpa using hhead
    have habort : (s.pruAbort so).queues = s.queues := by
      let up := s.modify so fun t => { t with aborting := t.aborting + 1 }
      have hclose : (if (up.sock so).pcb then up.tcpClose so else up).queues = s.queues := by
        split
        · exact sofree_queues hnone
        · rfl
      exact hclose
    split at ht
    · cases ht
      rw [sofree_queues (habort ▸ hnone), habort]
    · cases ht
      exact habort

theorem abortFirst_spec (h : ListenInv s) {q : Soq} (hmem : so2 ∈ s.queues.soq (so, q)) :
    ∃ t, s.abortFirst so2 q = .again t ∧ ListenInv t ∧
      t.queues.waiting so < s.queues.waiting so := by
  have hhead : (s.soqremque so2 q).queues.soHead so2 = none :=
    soqremque_soHead h.queues hmem
  have hok : ∃ t, (s.soqremque so2 q).soabort so2 = .ok t := by
    unfold soabort
    rw [hhead]
    simp only [Option.isSome_none, Bool.false_eq_true, if_false]
    split <;> exact ⟨_, rfl⟩
  obtain ⟨t, ht⟩ := hok
  refine ⟨t, by simp [abortFirst, ht], (h.soqremque so2 q).soabort ht, ?_⟩
  have hless := waiting_soqremque h.queues hmem
  rw [soabort_queues ht]
  simp only [soqremque]
  omega

theorem abortRound_spec (h : ListenInv s) (so : SocketPtr) :
    (abortRound so s = .done s ∧ ∀ q, s.queues.soq (so, q) = []) ∨
      ∃ t, abortRound so s = .again t ∧ ListenInv t ∧
        t.queues.waiting so < s.queues.waiting so := by
  cases h0 : s.queues.soq (so, .soQ0) with
  | cons so2 rest =>
    have hround : abortRound so s = s.abortFirst so2 .soQ0 := by
      unfold abortRound
      rw [h0]
    rw [hround]
    exact .inr (abortFirst_spec h (by rw [h0]; exact mem_cons_self))
  | nil =>
    cases hq : s.queues.soq (so, .soQ) with
    | cons so2 rest =>
      have hround : abortRound so s = s.abortFirst so2 .soQ := by
        unfold abortRound
        rw [h0, hq]
      rw [hround]
      exact .inr (abortFirst_spec h (by rw [hq]; exact mem_cons_self))
    | nil =>
      refine .inl ⟨by unfold abortRound; rw [h0, hq], fun q => ?_⟩
      cases q
      · exact h0
      · exact hq

theorem abortRound_again (h : ListenInv s) (ht : abortRound so s = .again t) :
    ListenInv t ∧ t.queues.waiting so < s.queues.waiting so := by
  rcases abortRound_spec h so with ⟨hdone, -⟩ | ⟨u, hu, hinv⟩
  · rw [hdone] at ht
    cases ht
  · rw [hu] at ht
    cases ht
    exact hinv

theorem abortRound_done (h : ListenInv s) (ht : abortRound so s = .done t) :
    ListenInv t ∧ ∀ q, t.queues.soq (so, q) = [] := by
  rcases abortRound_spec h so with ⟨hdone, hnil⟩ | ⟨u, hu, -⟩
  · rw [hdone] at ht
    cases ht
    exact ⟨h, hnil⟩
  · rw [hu] at ht
    cases ht

theorem soclose_inv (h : ListenInv s) {pcbLeft : Bool} (ht : s.soclose so pcbLeft = some (.ok t)) :
    ListenInv t := by
  obtain ⟨u, hu, hdiscard⟩ := andThen_eq_ok.mp ht
  have hinv : ListenInv u ∧ ((u.sock so).acceptConn = true → ∀ q, u.queues.soq (so, q) = []) := by
    split at hu
    · have hempty : ListenInv u ∧ ∀ q, u.queues.soq (so, q) = [] :=
        Halts.rule (J := fun u => ListenInv u ∧ ∀ q, u.queues.soq (so, q) = [])
          (fun _ _ ha hb => (abortRound_again ha hb).1) (fun _ _ ha hb => abortRound_done ha hb) h
          ⟨_, hu⟩
      exact ⟨hempty.1, fun _ => hempty.2⟩
    · next hacc =>
      cases hu
      exact ⟨h, fun htrue => absurd htrue hacc⟩
  exact hinv.1.discard hinv.2 (Option.some.inj hdiscard)

end ListenState

end NetbsdDpdk
