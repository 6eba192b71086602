import Pharos.ForkChoice.Runs

/-
  This file proves that the latest message of a validator only gives way to one of a later epoch,
  and that a validator that was seen to equivocate has no say from then on.

  Main theorems:
  * `latest_messages_move_forward`
-/

----
-- One Vote
----

namespace Pharos.ForkChoice

open List

section

variable {S : Type}

/- What no call takes back from an earlier store. -/
structure MovesForward (store after : Store S) : Prop where
  messages : ∀ index message, store.latestMessages.lookup index = some message →
    ∃ later, after.latestMessages.lookup index = some later ∧ message.epoch ≤ later.epoch
  equivocating : store.equivocatingIndices ⊆ after.equivocatingIndices
  frozen : ∀ index ∈ store.equivocatingIndices,
    after.latestMessages.lookup index = store.latestMessages.lookup index

namespace MovesForward

variable {st mid s' : Store S}

/- Only the two fields matter. -/
theorem of_eq (hMessages : s'.latestMessages = st.latestMessages)
    (hIndices : st.equivocatingIndices ⊆ s'.equivocatingIndices) :
    MovesForward st s' := by
  refine ⟨?_, hIndices, ?_⟩
  · intro i msg hMsg
    rw [hMessages]
    exact ⟨msg, hMsg, le_rfl⟩
  · intro i _
    rw [hMessages]

theorem refl (st : Store S) : MovesForward st st :=
  of_eq rfl (Finset.Subset.refl _)

theorem trans (hFst : MovesForward st mid) (hSnd : MovesForward mid s') : MovesForward st s' := by
  refine ⟨?_, hFst.equivocating.trans hSnd.equivocating, ?_⟩
  · intro i msg hMsg
    rcases hFst.messages i msg hMsg with ⟨between, hBetween, hEarlier⟩
    rcases hSnd.messages i between hBetween with ⟨later, hLater, hLate⟩
    exact ⟨later, hLater, hEarlier.trans hLate⟩
  · intro i hIdx
    rw [hSnd.frozen i (hFst.equivocating hIdx), hFst.frozen i hIdx]

end MovesForward

theorem movesForward_insert {st : Store S} {i : ValidatorIndex}
    {msg : LatestMessage} (hHonest : i ∉ st.equivocatingIndices)
    (hLater : ∀ old, st.latestMessages.lookup i = some old → old.epoch ≤ msg.epoch) :
    MovesForward st
      { st with latestMessages := st.latestMessages.insert i msg } := by
  refine ⟨?_, Finset.Subset.refl _, ?_⟩
  · intro x old hOld
    by_cases hEq : x = i
    · subst hEq
      exact ⟨msg, AList.lookup_insert _, hLater old hOld⟩
    · exact ⟨old, (AList.lookup_insert_ne hEq).trans hOld, le_rfl⟩
  · intro x hx
    apply AList.lookup_insert_ne
    rintro rfl
    exact hHonest hx

theorem movesForward_updateLatestMessage (data : AttestationData) (st : Store S)
    (i : ValidatorIndex) : MovesForward st (updateLatestMessage data st i) := by
  unfold updateLatestMessage
  by_cases hIdx : i ∈ st.equivocatingIndices
  · rw [if_pos hIdx]
    exact MovesForward.refl st
  · rw [if_neg hIdx]
    cases hMsg : st.latestMessages.lookup i with
    | none =>
      apply movesForward_insert hIdx
      intro old hOld
      rw [hMsg] at hOld
      cases hOld
    | some msg =>
      dsimp only
      split
      · rename_i hLater
        apply movesForward_insert hIdx
        intro old hOld
        rw [hMsg] at hOld
        cases hOld
        exact le_of_lt (of_decide_eq_true hLater)
      · exact MovesForward.refl st

theorem movesForward_updateLatestMessages (st : Store S)
    (indices : List ValidatorIndex) (data : AttestationData) :
    MovesForward st (updateLatestMessages st indices data) := by
  induction indices generalizing st with
  | nil => exact MovesForward.refl st
  | cons i xs ih => exact (movesForward_updateLatestMessage data st i).trans (ih _)

variable [BeaconSpec S]

theorem Counted.movesForward {st s' : Store S} {data : AttestationData}
    (hCounted : Counted st s' data) : MovesForward st s' := by
  rcases hCounted with ⟨states, indices, _, rfl⟩
  have hPrep : MovesForward st { st with checkpointStates := states } :=
    .of_eq rfl (Finset.Subset.refl _)
  exact hPrep.trans (movesForward_updateLatestMessages _ indices data)

end

----
-- Sequences of Calls
----

variable {S : Type} [BeaconSpec S] [SigningSpec S] [CommitteeSpec S]

/- Ticks and blocks touch neither the messages nor the indices. -/
theorem movesForward_storeEffect (st : Store S) (act : StoreAction S) :
    MovesForward st (storeEffect st act) := by
  cases act with
  | tick t =>
    have hEq : (onTick st t).knowledge = st.knowledge := knowledge_onTick t
    exact .of_eq (congrArg Knowledge.latestMessages hEq)
      (congrArg Knowledge.equivocatingIndices hEq).ge
  | block signed post now pow =>
    rcases onBlock_cases st signed post now pow with hEq | ⟨_, hAdd⟩
    · unfold storeEffect
      dsimp only
      rw [hEq]
      exact MovesForward.refl st
    · exact .of_eq (congrArg Knowledge.latestMessages hAdd)
        (congrArg Knowledge.equivocatingIndices hAdd).ge
  | attestation att isFromBlock =>
    exact (counted_onAttestation st att isFromBlock).movesForward
  | electraAttestation att isFromBlock =>
    exact (counted_onAttestationElectra st att isFromBlock).movesForward
  | attesterSlashing attesterSlashing =>
    unfold storeEffect
    dsimp only
    cases hResult : onAttesterSlashing st attesterSlashing with
    | error e => exact MovesForward.refl st
    | ok s' =>
      rcases onAttesterSlashing_ok hResult with ⟨added, rfl⟩
      exact .of_eq rfl Finset.subset_union_left

theorem movesForward_foldl (st : Store S) (acts : List (StoreAction S)) :
    MovesForward st (acts.foldl storeEffect st) := by
  induction acts generalizing st with
  | nil => exact MovesForward.refl st
  | cons act xs ih => exact (movesForward_storeEffect st act).trans (ih _)

omit [SigningSpec S] [CommitteeSpec S] in
theorem getAttestationScore_of_equivocating {st : Store S} {i : ValidatorIndex}
    (hEquiv : i ∈ st.equivocatingIndices) (r : Root) (s : S)
    (activeIndices : List ValidatorIndex) :
    getAttestationScore st r s activeIndices =
      getAttestationScore st r s (activeIndices.filter (· ≠ i)) := by
  unfold getAttestationScore attestingBalances
  dsimp only
  congr 2
  rw [filter_filter, filter_filter, filter_filter]
  apply filter_congr
  intro x _
  by_cases hEq : x = i
  · subst hEq
    rw [not_votesFor_of_equivocating hEquiv]
    rfl
  · simp [hEq]

/-
  Between any two points of a sequence of calls, refused ones included, the epoch of a message does
  not decrease, and no validator is taken off the equivocating ones. Its message stays as it was,
  and it adds to no score.
-/
theorem latest_messages_move_forward (store : Store S)
    (earlier later : List (StoreAction S)) :
    let before := earlier.foldl storeEffect store
    let s' := (earlier ++ later).foldl storeEffect store
    MovesForward before s' ∧ ∀ i ∈ before.equivocatingIndices,
      ∀ (r : Root) (s : S) (activeIndices : List ValidatorIndex),
      getAttestationScore s' r s activeIndices = getAttestationScore s' r s
      (activeIndices.filter (· ≠ i)) := by
  rw [foldl_append]
  have hForward :=
    movesForward_foldl (earlier.foldl storeEffect store) later
  refine ⟨hForward, ?_⟩
  intro i hIdx
  exact getAttestationScore_of_equivocating (hForward.equivocating hIdx)

end Pharos.ForkChoice
