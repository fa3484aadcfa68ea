/-
The two ways of telling the device.

The direct path is taken on a flag that outlives the request that set it, the
number of requests accepted, and the distance of the indices.  Together with the
ring's contents these leave one case only: a single request of one block on an
otherwise empty queue.
-/

import Libcdma.SendRing

namespace Libcdma

open WrapCounter ByteImage BlockRing Transition

/-- The producer index that an announcement carries, sixteen bits of it in a block. -/
def SqAnnounce.index : SqAnnounce → Nat
  | .dsqe block => ofLe (block.take 2)
  | .db pi => pi.toNat

/-- The requests of a call are announced by the index they end at, or the only
outstanding one by its block. -/
def PostResult.Announces (result : PostResult) (older posted : List SqRequest) : Prop :=
  match result.announce with
  | none => posted = []
  | some (.db pi) => posted ≠ [] ∧ pi = result.sq.pi
  | some (.dsqe block) => ∃ request, posted = [request] ∧ older = [] ∧ request.blocks = 1 ∧
      block = leBytes 2 result.sq.pi.toNat ++ request.encoding.drop 2 ∧
      ofLe (block.take 2) = result.sq.pi.toNat % 2 ^ 16

theorem ofLe_take_stamp (pi : Nat) (rest : List UInt8) :
    ofLe ((leBytes 2 pi ++ rest).take 2) = pi % 2 ^ 16 := by
  have front : (leBytes 2 pi ++ rest).take 2 = leBytes 2 pi := by
    rw [List.take_append_of_le_length (by rw [leBytes_length]), List.take_of_length_le]
    rw [leBytes_length]
  rw [front, ofLe_leBytes]
  rfl

theorem SendRing.announces {shift ci pi start : Nat} {sq : CdmaUJettyQueue} {memory : Bytes}
    {requests : List SqRequest} (inv : SendRing shift sq memory ci pi start requests)
    (ctx : CdmaUContext) (wrs : List DmaJfsWr) :
    (cdmaPostSqWr ctx memory sq wrs).Announces requests
      (postedRequests ctx wrs pi ⟨memory, sq, none, false⟩) := by
  have done := inv.posting ctx wrs
  unfold PostResult.Announces cdmaPostSqWr
  generalize postSqWrLoop ctx wrs 0 ⟨memory, sq, none, false⟩ = loop at done ⊢
  generalize postedRequests ctx wrs pi ⟨memory, sq, none, false⟩ = posted at done ⊢
  obtain ⟨after, count, error⟩ := loop
  have counted := done.count_eq
  rw [List.length_append] at counted
  simp only at counted done ⊢
  by_cases none : count = 0
  · simp only [none, if_true]
    exact List.eq_nil_of_length_eq_zero (by omega)
  obtain ⟨_, _, _, address⟩ := done.last none
  have some : posted ≠ [] := by
    rintro rfl
    rw [List.length_nil] at counted
    omega
  rw [if_neg none]
  cases direct : count == 1 && after.dwqeEnable && after.sq.pi - after.sq.ci == 1 with
  | false =>
      rw [address]
      exact ⟨some, rfl⟩
  | true =>
      simp only [Bool.and_eq_true, beq_iff_eq] at direct
      obtain ⟨⟨rfl, _⟩, single⟩ := direct
      obtain ⟨request, rfl, unstamped, place⟩ := done.single
      rw [place]
      obtain ⟨alone, starts, block, level, apart⟩ := done.inv.alone (beq_iff_eq.mpr single)
      subst alone
      have stamped := (done.inv.stamp unstamped (beq_iff_eq.mpr single)).bytes
      have width : pi + blockSum [request] - start = 1 := by omega
      rw [width, done.qbuf_eq, starts] at stamped
      simp only [ringRead, List.nil_append, List.flatMap_singleton, List.range_one,
        Nat.add_zero] at stamped
      refine ⟨request, rfl, rfl, block, ?_, ?_⟩
      · rw [starts]
        exact stamped
      · rw [starts]
        exact (congrArg (fun block => ofLe (block.take 2)) stamped).trans (ofLe_take_stamp _ _)

/-- In every reachable state the direct path is taken for a single request of one
block on an empty queue, and pushes that block with the producer index in it; the
doorbell gets the whole index in every other case in which a request is accepted. -/
theorem cdmaPostSqWr_announces_run {start final : SqWorld} {shift : Nat}
    (initial : start.Initial shift) {actions : List SqAction}
    (ran : run SqWorld.step start actions = some final) (wrs : List DmaJfsWr) :
    (cdmaPostSqWr final.ctx final.memory final.sq wrs).Announces final.requests
      (postedRequests final.ctx wrs final.pi ⟨final.memory, final.sq, none, false⟩) :=
  SendRing.announces (initial.holds.run ran) final.ctx wrs

/-- After one request has come and gone, the next one takes the direct path. -/
theorem cdmaPostSqWr_announces_fourBlocks :
    ∃ final, run SqWorld.step .fourBlocks [.post [writeOne], .complete, .advance 1] =
        some final ∧
      (cdmaPostSqWr final.ctx final.memory final.sq [writeOne]).Announces final.requests
        (postedRequests final.ctx [writeOne] final.pi ⟨final.memory, final.sq, none, false⟩) := by
  have runs : (run SqWorld.step .fourBlocks
      [.post [writeOne], .complete, .advance 1]).isSome := by rfl
  obtain ⟨final, ran⟩ := Option.isSome_iff_exists.mp runs
  exact ⟨final, ran, cdmaPostSqWr_announces_run SqWorld.fourBlocks_initial ran [writeOne]⟩

end Libcdma
