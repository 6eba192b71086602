import Pharos.Gossip.Soundness
import Pharos.Sample

/-
  This file determines for which messages the validators advance a state past the clock.

  The validators of the sync committee check the slot first. The validators of attestations and
  aggregates advance the state of the head to the slot of the message, and look at the clock after
  that.

  Main theorems:
  * `states_within_clock_iff`
-/

----
-- Clock
----

namespace Pharos.Gossip

open Sample

section

open Word

namespace Host

variable {S : Type}

def slotTimeMs (host : Host S) (slot : Slot) : Nat :=
  host.forkChoice.genesisTime * 1000 + slot * host.runtimeCfg.secondsPerSlot * 1000

/- A slot has started, give or take the disparity. -/
def WithinClock (host : Host S) (slot : Slot) : Prop :=
  host.slotTimeMs slot ≤ host.nowMs + maximumGossipClockDisparityMs

instance (host : Host S) (slot : Slot) : Decidable (host.WithinClock slot) :=
  inferInstanceAs (Decidable (_ ≤ _))

theorem slotStartMs_eq (host : Host S) (slot : Slot) :
    host.slotStartMs slot = clamp (host.slotTimeMs slot) := by
  have hProduct : satMul (satMul slot host.runtimeCfg.secondsPerSlot) 1000 =
      clamp (slot * host.runtimeCfg.secondsPerSlot * 1000) := satMul_clamp _ _
  unfold slotStartMs slotTimeMs
  rw [hProduct]
  exact satAdd_clamp _ _

/-
  A slot that passes the check of the sync committee has started. If its start saturates, so does
  its end, and the comparison with the clock wraps around.
-/
theorem withinClock_of_current {host : Host S} {slot : Slot}
    (hCur : host.isNotCurrentSlot slot = false) : host.WithinClock slot := by
  unfold isNotCurrentSlot at hCur
  rw [Bool.or_eq_false_iff] at hCur
  rcases hCur with ⟨hStart, hEnd⟩
  unfold isFutureSlot at hStart
  rw [decide_eq_false_iff_not, not_lt] at hStart hEnd
  rw [slotStartMs_eq] at hStart hEnd
  rcases clamp_eq_or (host.slotTimeMs slot) with hExact | hSaturated
  · rw [hExact] at hStart
    exact le_trans hStart (wrapAdd_le _ _)
  · rw [hSaturated] at hStart hEnd
    have hLast : satAdd maxValue (satMul host.runtimeCfg.secondsPerSlot 1000) = maxValue :=
        min_eq_right (Nat.le_add_right _ _)
    rw [hLast] at hEnd
    unfold wrapAdd maxValue maximumGossipClockDisparityMs at hStart hEnd
    omega

end Host

end

----
-- Advanced States
----

section

open BeaconSpec Checks

variable {S : Type} [BeaconSpec S] {host : Host S}

theorem mem_log_headStateAtSlot {slot : Slot} (hAdvances : host.Advances slot) :
    slot ∈ (headStateAtSlot slot host).log := by
  rcases hAdvances with ⟨s, hHead, hPre⟩
  unfold headStateAtSlot
  rw [asks_bind, hHead]
  dsimp only
  unfold advanceTo
  rw [if_pos hPre]
  apply mem_log_bind
  exact List.mem_singleton_self slot

variable [CommitteeSpec S] [SigningSpec S] {vote : Vote}

theorem mem_log_validateVote (hVote : vote.forSyncCommittee = false)
    (hAdvances : host.Advances vote.slot) : vote.slot ∈ (validateVote vote host).log := by
  have hLogged := mem_log_headStateAtSlot hAdvances
  cases vote with
  | attestation subnet att | singleAttestation subnet att => exact mem_log_bind hLogged
  | aggregate saap | aggregateElectra saap => exact mem_log_bind hLogged
  | syncMessage subnet msg | contribution signed => exact Bool.noConfusion hVote

theorem of_mem_log_validateVote {tgt : Slot} (hLogged : tgt ∈ (validateVote vote host).log) :
    tgt = vote.slot ∧ host.Advances vote.slot ∧
      (vote.forSyncCommittee = true → host.isNotCurrentSlot vote.slot = false) := by
  have hSim : Similar (fun _ _ => True) host host host := ⟨rfl, trivial, rfl, rfl, rfl⟩
  have hSound : Sound (Similar (fun _ _ => True) host) (fun tgt =>
          tgt = vote.slot ∧ host.Advances vote.slot ∧
            (vote.forSyncCommittee = true → host.isNotCurrentSlot vote.slot = false))
        (validateVote vote : Validation S Unit) := by
    apply sound_validateVote
    intro hCur hAdvances
    exact ⟨rfl, hAdvances, hCur⟩
  exact (hSound host host hSim).2.2 tgt hLogged

theorem validateVote_of_not_current (hVote : vote.forSyncCommittee = true)
    (hx : host.isNotCurrentSlot vote.slot = true) :
    ∃ reason, validateVote vote host = ⟨.error (.ignore reason), host, []⟩ := by
  cases vote with
  | syncMessage subnet msg =>
    refine ⟨"sync_msg: slot not current", ?_⟩
    exact stopIf_bind_of_true hx _ _ _
  | contribution signed =>
    refine ⟨"sync_contrib: slot not current", ?_⟩
    exact stopIf_bind_of_true hx _ _ _
  | attestation subnet att | singleAttestation subnet att => exact Bool.noConfusion hVote
  | aggregate saap | aggregateElectra saap => exact Bool.noConfusion hVote

/-
  No state is advanced past the clock exactly if the message is for the sync committee, or the state
  of the head is missing or not before the slot, or the slot has started. A message for the sync
  committee whose slot has not started is ignored without advancing a state.
-/
theorem states_within_clock_iff (host : Host S) (vote : Vote) :
    ((∀ target ∈ (validateVote vote host).log, host.WithinClock target) ↔
      vote.forSyncCommittee = true ∨ ¬ host.Advances vote.slot ∨ host.WithinClock vote.slot) ∧
    (vote.forSyncCommittee = true → ¬ host.WithinClock vote.slot →
      (∃ reason, (validateVote vote host).outcome = .error (.ignore reason)) ∧
      (validateVote vote host).log = []) := by
  constructor
  · constructor
    · intro hWithin
      by_cases hVote : vote.forSyncCommittee = true
      · exact .inl hVote
      · right
        by_cases hAdvances : host.Advances vote.slot
        · right
          apply hWithin
          apply mem_log_validateVote _ hAdvances
          simpa using hVote
        · exact .inl hAdvances
    · intro hCond target hTgt
      rcases of_mem_log_validateVote hTgt with ⟨rfl, hAdvances, hCur⟩
      rcases hCond with hVote | hStay | hWithin
      · exact Host.withinClock_of_current (hCur hVote)
      · exact absurd hAdvances hStay
      · exact hWithin
  · intro hVote hFuture
    have hx : host.isNotCurrentSlot vote.slot = true := by
      by_contra hCur
      rw [Bool.not_eq_true] at hCur
      exact hFuture (Host.withinClock_of_current hCur)
    rcases validateVote_of_not_current hVote hx with ⟨reason, hAnswer⟩
    rw [hAnswer]
    exact ⟨⟨reason, rfl⟩, rfl⟩

end

----
-- Sample
----

/- A node with the first block of the chain, and its clock. -/
def hostAt (nowMs : Nat) : Host ChainState :=
  Host.new (ForkChoice.getForkchoiceStore anchorState anchorBlock)
    ⟨0, 100⟩ ⟨12, 6, 9⟩ nowMs

def voteAt (slot : Slot) : Vote :=
  .attestation 0 ⟨[], ⟨slot, 0, 0, ⟨0, 0⟩, ⟨0, 0⟩⟩, 0⟩

theorem advances_hostAt (nowMs : Nat) {slot : Slot} (hSlot : 0 < slot) :
    (hostAt nowMs).Advances (voteAt slot).slot :=
  ⟨anchorState, rfl, hSlot⟩

/- A vote that comes a little before its slot. -/
theorem states_within_clock_iff_early : (hostAt 11600).Advances (voteAt 1).slot ∧
      ∀ target ∈ (validateVote (voteAt 1) (hostAt 11600)).log,
        (hostAt 11600).WithinClock target := by
  refine ⟨advances_hostAt 11600 one_pos, ?_⟩
  apply (states_within_clock_iff (hostAt 11600) (voteAt 1)).1.mpr
  right
  right
  decide

/-
  At genesis, a vote in the last slot that can be written makes the node process all the slots there
  are.
-/
theorem vote_drives_state_past_clock :
    (voteAt Word.maxValue).slot ∈ (validateVote (voteAt Word.maxValue) (hostAt 0)).log ∧
      ¬ (hostAt 0).WithinClock (voteAt Word.maxValue).slot := by
  refine ⟨mem_log_validateVote rfl ?_, ?_⟩
  · apply advances_hostAt
    decide
  · decide

end Pharos.Gossip
