import NetbsdDpdk.Service
import Mathlib.Data.List.Nodup

/-! The two queues of a listening socket, `so_q0` and `so_q`, with their 16-bit counters and the
back pointers `so_head` and `so_onq` of the connections (`uipc_socket2.c`). -/

namespace NetbsdDpdk

open List Function

inductive Soq
  | soQ0
  | soQ
  deriving DecidableEq, Repr

abbrev SoqHead := SocketPtr × Soq

structure SocketQueues where
  soHead : SocketPtr → Option SocketPtr
  soOnq : SocketPtr → Option SoqHead
  soq : SoqHead → List SocketPtr
  soqlen : SoqHead → BitVec 16

namespace SocketQueues

def empty : SocketQueues := ⟨fun _ => none, fun _ => none, fun _ => [], fun _ => 0⟩

/-- The check that the socket is on no queue is compiled under `DIAGNOSTIC` only. -/
def soqinsque (Q : SocketQueues) (head so : SocketPtr) (q : Soq) : SocketQueues where
  soHead := Function.update Q.soHead so (some head)
  soOnq := Function.update Q.soOnq so (some (head, q))
  soq := Function.update Q.soq (head, q) (Q.soq (head, q) ++ [so])
  soqlen := Function.update Q.soqlen (head, q) (Q.soqlen (head, q) + 1#16)

/-- `soqremque` with its result. If `so_head` is NULL, the queue that it compares with is none. -/
def soqremque (Q : SocketQueues) (so : SocketPtr) (q : Soq) : SocketQueues × Bool :=
  match Q.soHead so with
  | none => (Q, false)
  | some head =>
    if Q.soOnq so ≠ some (head, q) then (Q, false)
    else
      ({ soHead := Function.update Q.soHead so none
         soOnq := Function.update Q.soOnq so none
         soq := Function.update Q.soq (head, q) ((Q.soq (head, q)).erase so)
         soqlen := Function.update Q.soqlen (head, q) (Q.soqlen (head, q) - 1#16) }, true)

/-- `memset` and `TAILQ_INIT` of `soget`. -/
def soget (Q : SocketQueues) (so : SocketPtr) : SocketQueues where
  soHead := Function.update Q.soHead so none
  soOnq := Function.update Q.soOnq so none
  soq a := if a.1 = so then [] else Q.soq a
  soqlen a := if a.1 = so then 0 else Q.soqlen a

/-- A socket is on the queue that its `so_onq` names and on no other, `so_head` is the socket of
that queue, and the counters count. -/
structure Consistent (Q : SocketQueues) : Prop where
  onq : ∀ x a, Q.soOnq x = some a ↔ x ∈ Q.soq a
  head : ∀ x, Q.soHead x = (Q.soOnq x).map Prod.fst
  nodup : ∀ a, (Q.soq a).Nodup
  len : ∀ a, Q.soqlen a = BitVec.ofNat 16 (Q.soq a).length

def waiting (Q : SocketQueues) (h : SocketPtr) : Nat :=
  (Q.soq (h, .soQ0)).length + (Q.soq (h, .soQ)).length

variable {Q : SocketQueues} {head so x : SocketPtr} {q : Soq} {a : SoqHead}

theorem consistent_empty : empty.Consistent := by
  refine ⟨fun x a => ?_, fun x => rfl, fun a => nodup_nil, fun a => rfl⟩
  simp [empty]

theorem soqremque_eq (h : Q.Consistent) (hmem : so ∈ Q.soq (head, q)) :
    Q.soqremque so q =
      ({ soHead := update Q.soHead so none
         soOnq := update Q.soOnq so none
         soq := update Q.soq (head, q) ((Q.soq (head, q)).erase so)
         soqlen := update Q.soqlen (head, q) (Q.soqlen (head, q) - 1#16) }, true) := by
  have honq := (h.onq so (head, q)).mpr hmem
  have hhead : Q.soHead so = some head := by rw [h.head, honq]; rfl
  simp [soqremque, hhead, honq]

theorem soqremque_of_notMem (h : Q.Consistent) (hout : ∀ head, so ∉ Q.soq (head, q)) :
    Q.soqremque so q = (Q, false) := by
  unfold soqremque
  cases hhead : Q.soHead so with
  | none => rfl
  | some head =>
    have hne : Q.soOnq so ≠ some (head, q) := fun honq => hout head ((h.onq so _).mp honq)
    exact if_pos hne

theorem soqremque_cases (h : Q.Consistent) (so : SocketPtr) (q : Soq) :
    (∃ head, so ∈ Q.soq (head, q) ∧ (Q.soqremque so q).2 = true) ∨
      Q.soqremque so q = (Q, false) := by
  by_cases hin : ∃ head, so ∈ Q.soq (head, q)
  · obtain ⟨head, hmem⟩ := hin
    exact .inl ⟨head, hmem, by rw [soqremque_eq h hmem]⟩
  · exact .inr (soqremque_of_notMem h fun head hmem => hin ⟨head, hmem⟩)

theorem soqremque_soOnq (h : Q.Consistent) (hmem : so ∈ Q.soq (head, q)) :
    (Q.soqremque so q).1.soOnq = update Q.soOnq so none := by
  rw [soqremque_eq h hmem]

theorem soqremque_soq (h : Q.Consistent) (hmem : so ∈ Q.soq (head, q)) :
    (Q.soqremque so q).1.soq = update Q.soq (head, q) ((Q.soq (head, q)).erase so) := by
  rw [soqremque_eq h hmem]

theorem soqremque_soHead (h : Q.Consistent) (hmem : so ∈ Q.soq (head, q)) :
    (Q.soqremque so q).1.soHead so = none := by
  rw [soqremque_eq h hmem]
  exact update_self _ _ _

namespace Consistent

theorem notMem (h : Q.Consistent) (hout : Q.soOnq x = none) (a : SoqHead) : x ∉ Q.soq a := by
  intro hmem
  rw [(h.onq x a).mpr hmem] at hout
  cases hout

theorem unique (h : Q.Consistent) {b : SoqHead} (ha : x ∈ Q.soq a) (hb : x ∈ Q.soq b) : a = b := by
  have honq := (h.onq x a).mpr ha
  rw [(h.onq x b).mpr hb] at honq
  exact (Option.some.inj honq).symm

theorem soHead_none_iff (h : Q.Consistent) : Q.soHead x = none ↔ Q.soOnq x = none := by
  rw [h.head, Option.map_eq_none_iff]

theorem soqinsque (h : Q.Consistent) (hout : Q.soOnq so = none) :
    (Q.soqinsque head so q).Consistent := by
  refine ⟨fun x a => ?_, fun x => ?_, fun a => ?_, fun a => ?_⟩
  · by_cases ha : a = (head, q)
    · subst ha
      by_cases hx : x = so
      · simp [SocketQueues.soqinsque, hx]
      · simp [SocketQueues.soqinsque, hx, h.onq]
    · by_cases hx : x = so
      · subst hx
        simp [SocketQueues.soqinsque, ha, h.notMem hout, Ne.symm ha]
      · simp [SocketQueues.soqinsque, hx, ha, h.onq]
  · by_cases hx : x = so
    · simp [SocketQueues.soqinsque, hx]
    · simpa [SocketQueues.soqinsque, hx] using h.head x
  · by_cases ha : a = (head, q)
    · subst ha
      simp only [SocketQueues.soqinsque, update_self]
      exact nodup_append.mpr ⟨h.nodup _, nodup_singleton so, fun y hy z hz heq =>
        h.notMem hout _ (by rwa [heq, mem_singleton.mp hz] at hy)⟩
    · simpa [SocketQueues.soqinsque, ha] using h.nodup a
  · by_cases ha : a = (head, q)
    · subst ha
      simp only [SocketQueues.soqinsque, update_self, h.len, length_append,
        length_singleton, BitVec.ofNat_add]
    · simpa [SocketQueues.soqinsque, ha] using h.len a

theorem soqremque (h : Q.Consistent) (so : SocketPtr) (q : Soq) :
    (Q.soqremque so q).1.Consistent := by
  rcases soqremque_cases h so q with ⟨head, hmem, -⟩ | hsame
  · rw [soqremque_eq h hmem]
    refine ⟨fun x a => ?_, fun x => ?_, fun a => ?_, fun a => ?_⟩
    · by_cases ha : a = (head, q)
      · subst ha
        by_cases hx : x = so
        · subst hx
          simp [(h.nodup _).mem_erase_iff]
        · simp [hx, h.onq, mem_erase_of_ne hx]
      · by_cases hx : x = so
        · subst hx
          have hnot : x ∉ Q.soq a := fun hin => ha (h.unique hin hmem)
          simp [ha, hnot]
        · simp [hx, ha, h.onq]
    · by_cases hx : x = so
      · simp [hx]
      · simpa [hx] using h.head x
    · by_cases ha : a = (head, q)
      · subst ha
        simpa using (h.nodup _).erase so
      · simpa [ha] using h.nodup a
    · by_cases ha : a = (head, q)
      · subst ha
        have hpos := length_pos_of_mem hmem
        obtain ⟨n, hn⟩ : ∃ n, (Q.soq (head, q)).length = n + 1 :=
          ⟨_, (Nat.succ_pred_eq_of_pos hpos).symm⟩
        simp only [update_self, h.len, length_erase_of_mem hmem, hn,
          Nat.add_sub_cancel, BitVec.ofNat_add]
        exact BitVec.add_sub_cancel _ _
      · simpa [ha] using h.len a
  · rw [hsame]
    exact h

theorem soget (h : Q.Consistent) (hout : Q.soOnq so = none) (hnil : ∀ q, Q.soq (so, q) = []) :
    (Q.soget so).Consistent := by
  have hsame : (Q.soget so).soq = Q.soq := by
    funext a
    obtain ⟨h, q⟩ := a
    by_cases ha : h = so
    · subst ha
      simp [SocketQueues.soget, hnil]
    · simp [SocketQueues.soget, ha]
  have honq : (Q.soget so).soOnq = Q.soOnq := by
    simp [SocketQueues.soget, ← hout]
  refine ⟨fun x a => ?_, fun x => ?_, fun a => ?_, fun a => ?_⟩
  · rw [hsame, honq]
    exact h.onq x a
  · rw [honq]
    by_cases hx : x = so
    · simp [SocketQueues.soget, hx, hout]
    · simpa [SocketQueues.soget, hx] using h.head x
  · rw [hsame]
    exact h.nodup a
  · rw [hsame]
    by_cases ha : a.1 = so
    · obtain ⟨b, q⟩ := a
      simp only at ha
      subst ha
      simp [SocketQueues.soget, hnil]
    · simpa [SocketQueues.soget, ha] using h.len a

end Consistent

end SocketQueues

end NetbsdDpdk
