import Pharos.Lib.Run
import Pharos.Pools.Slasher
import Pharos.Sample

/-
  This file proves when the slashings that the slasher puts in the pool are slashings to the state
  transition.

  A slashing names the recorded attestation first. The state transition accepts a surround vote only
  with the surrounding attestation first, so that a vote around a recorded one is reported in the
  wrong order.

  Main theorems:
  * `detections_valid_iff`
  * `pools_final`
-/

----
-- Conflicts
----

namespace Pharos.Pools

open SigningSpec

variable (S : Type) [SigningSpec S]

def conflicts (indexed : IndexedAttestation) (record : AttestRecord) : Bool :=
  isSlashablePair record indexed.data.source.epoch indexed.data.target.epoch
    (attestationDataRoot S indexed.data) ≠ .none

def surroundsRecord (indexed : IndexedAttestation) (record : AttestRecord) : Prop :=
  indexed.data.source.epoch < record.sourceEpoch ∧ record.targetEpoch < indexed.data.target.epoch

variable {S} {indexed : IndexedAttestation}

theorem conflicts_of_surroundsRecord (S : Type) [SigningSpec S] {record : AttestRecord}
    (hSur : surroundsRecord indexed record) : conflicts S indexed record = true := by
  rcases hSur with ⟨hSrc, hTgt⟩
  rw [conflicts, decide_eq_true_eq, isSlashablePair, if_neg fun hDouble =>
    ne_of_lt hTgt hDouble.1, if_neg fun hInner => lt_asymm hInner.1 hSrc,
    if_pos ⟨hSrc, hTgt⟩]
  simp

theorem isSlashable_iff_not_surroundsRecord {prior : IndexedAttestation}
    (hConflicts : conflicts S indexed (AttestationSlasher.recordOf S prior) = true) :
    ForkChoice.isSlashableAttestationData prior.data indexed.data = true ↔
      ¬surroundsRecord indexed (AttestationSlasher.recordOf S prior) := by
  rw [ForkChoice.isSlashableAttestationData, decide_eq_true_eq]
  constructor
  · rintro (⟨_, hTgt⟩ | ⟨hSrc, _⟩) hSur
    · exact absurd hTgt (ne_of_lt hSur.2)
    · exact lt_asymm hSrc hSur.1
  · intro hNot
    rw [conflicts, decide_eq_true_eq, isSlashablePair] at hConflicts
    split at hConflicts
    · rename_i hDouble
      refine .inl ⟨?_, hDouble.1⟩
      intro hEq
      exact hDouble.2 (congrArg (attestationDataRoot S) hEq)
    · split at hConflicts
      · rename_i hInner
        exact .inr hInner
      · split at hConflicts
        · rename_i hOuter
          exact absurd hOuter hNot
        · exact absurd rfl hConflicts

end Pharos.Pools

----
-- What One Call Finds
----

namespace Pharos.Pools.AttestationSlasher

open List

section

variable (S : Type) [SigningSpec S]

variable (slasher : AttestationSlasher)

def window (currentEpoch : Epoch) (validator : ValidatorIndex) : List AttestRecord :=
  ((slasher.records.lookup validator).getD []).filter
    fun record =>
      currentEpoch - historyEpochs ≤ record.targetEpoch

def firstConflict (indexed : IndexedAttestation)
    (currentEpoch : Epoch) (validator : ValidatorIndex) : Option AttestRecord :=
  (slasher.window currentEpoch validator).find? (conflicts S indexed)

def detections (indexed : IndexedAttestation) (currentEpoch : Epoch) : List AttesterSlashing :=
  indexed.attestingIndices.filterMap fun validator =>
    (slasher.firstConflict S indexed currentEpoch
      validator).map fun record => ⟨record.indexed, indexed⟩

variable {S} {slasher : AttestationSlasher} {indexed : IndexedAttestation}
variable {now : Epoch}

theorem lookup_observeValidator_of_ne {val x : ValidatorIndex}
    (hx : x ≠ val) :
    (observeValidator S indexed now slasher val).2.records.lookup x = slasher.records.lookup x := by
  unfold observeValidator
  rw [AList.lookup_insert_ne hx]

theorem lookup_observeValidator_self (S : Type) [SigningSpec S]
    (indexed : IndexedAttestation) (now : Epoch) (slasher : AttestationSlasher)
    (val : ValidatorIndex) :
    ∃ added,
      (observeValidator S indexed now slasher val).2.records.lookup val =
        some (slasher.window now val ++ added) ∧
      ∀ record ∈ added, record = recordOf S indexed := by
  unfold observeValidator
  rw [AList.lookup_insert]
  split
  · refine ⟨[], ?_, by simp⟩
    rw [append_nil]
    rfl
  · exact ⟨[recordOf S indexed], rfl, by simp⟩

theorem firstConflict_observeValidator (val x : ValidatorIndex) :
    (observeValidator S indexed now slasher val).2.firstConflict S indexed now x =
      slasher.firstConflict S indexed now x := by
  by_cases hx : x = val
  · rcases lookup_observeValidator_self S indexed now slasher val with ⟨added, hLookup, hAdd⟩
    have hWin : (slasher.window now val).filter (fun record =>
              now - historyEpochs ≤ record.targetEpoch) =
          slasher.window now val := by
      simp [window]
    have hNone : (added.filter fun record =>
            now - historyEpochs ≤ record.targetEpoch).find?
          (conflicts S indexed) = none := by
      rw [find?_eq_none]
      intro record hRec
      rw [hAdd record (mem_of_mem_filter hRec)]
      simp [conflicts, isSlashablePair, recordOf]
    rw [hx, firstConflict, window, hLookup, Option.getD_some, filter_append,
      find?_append, hWin, hNone, Option.or_none]
    rfl
  · unfold firstConflict window
    rw [lookup_observeValidator_of_ne hx]

theorem foldl_observeValidator (vals : List ValidatorIndex)
    (y : List IndexedAttestation) :
    (vals.foldl (fun (seen : List IndexedAttestation × AttestationSlasher) val =>
          let ans := observeValidator S indexed now seen.2 val
          (seen.1 ++ ans.1.toList, ans.2))
        (y, slasher)).1 =
      y ++ vals.filterMap fun val =>
        (slasher.firstConflict S indexed now val).map AttestRecord.indexed := by
  induction vals generalizing y slasher with
  | nil => simp
  | cons a xs ih =>
    have hHere : (observeValidator S indexed now slasher a).1 =
        (slasher.firstConflict S indexed now a).map AttestRecord.indexed := rfl
    rw [foldl_cons, ih, filterMap_cons, hHere, append_assoc]
    simp only [firstConflict_observeValidator]
    cases slasher.firstConflict S indexed now a with
    | none | some record => rfl

theorem observe_eq (pools : OperationPools) : (slasher.observe S pools indexed now).2 =
      (slasher.detections S indexed now).foldl OperationPools.insertAttesterSlashing pools := by
  have hPriors : slasher.detections S indexed now =
      (indexed.attestingIndices.filterMap fun val =>
          (slasher.firstConflict S indexed now val).map AttestRecord.indexed).map
            fun prior => ⟨prior, indexed⟩ := by
    rw [map_filterMap]
    simp only [Option.map_map]
    rfl
  unfold observe
  dsimp only
  rw [foldl_observeValidator, nil_append, hPriors, foldl_map]

end

----
-- Records
----

variable {S : Type} [SigningSpec S] {slasher : AttestationSlasher}
variable {indexed : IndexedAttestation} {now : Epoch}
variable (S) in
def Recorded (slasher : AttestationSlasher) : Prop :=
  ∀ validator, ∀ record ∈ (slasher.records.lookup validator).getD [],
    record = recordOf S record.indexed ∧ validator ∈ record.indexed.attestingIndices

theorem recorded_new : Recorded S new := by
  intro val record hRec
  exact absurd hRec (by simp [new])

variable {val : ValidatorIndex}

theorem recorded_observeValidator (hRecorded : Recorded S slasher)
    (hMem : val ∈ indexed.attestingIndices) :
    Recorded S (observeValidator S indexed now slasher val).2 := by
  intro x record hRec
  by_cases hx : x = val
  · rcases lookup_observeValidator_self S indexed now slasher val with ⟨added, hLookup, hAdd⟩
    rw [hx] at hRec ⊢
    rw [hLookup, Option.getD_some, mem_append] at hRec
    rcases hRec with hOld | hNew
    · exact hRecorded val record (mem_of_mem_filter hOld)
    · rw [hAdd record hNew]
      exact ⟨rfl, hMem⟩
  · rw [lookup_observeValidator_of_ne hx] at hRec
    exact hRecorded x record hRec

theorem recorded_observe (hRecorded : Recorded S slasher) (pools : OperationPools) :
    Recorded S (slasher.observe S pools indexed now).1 := by
  refine List.foldlRecOn (motive := fun seen : List IndexedAttestation × AttestationSlasher =>
        Recorded S seen.2)
    indexed.attestingIndices _ hRecorded ?_
  intro seen hSeen val hMem
  exact recorded_observeValidator hSeen hMem

theorem mem_detections {slashing : AttesterSlashing}
    (hGot : slashing ∈ slasher.detections S indexed now) :
    ∃ val ∈ indexed.attestingIndices, ∃ record,
      slasher.firstConflict S indexed now val = some record ∧
        slashing = ⟨record.indexed, indexed⟩ := by
  rcases mem_filterMap.mp hGot with ⟨val, hMem, hSome⟩
  rcases Option.map_eq_some_iff.mp hSome with ⟨record, hRec, hSlashing⟩
  exact ⟨val, hMem, record, hRec, hSlashing.symm⟩

theorem firstConflict_some_iff {record : AttestRecord} :
    slasher.firstConflict S indexed now val = some record ↔
      conflicts S indexed record = true ∧ ∃ earlier later,
      slasher.window now val = earlier ++ record :: later ∧
      ∀ x ∈ earlier, conflicts S indexed x = false := by
  rw [firstConflict, find?_eq_some_iff_append]
  simp

theorem Recorded.of_window (hRecorded : Recorded S slasher) {record : AttestRecord}
    {earlier later : List AttestRecord}
    (hWin : slasher.window now val = earlier ++ record :: later) :
    record = recordOf S record.indexed ∧ val ∈ record.indexed.attestingIndices := by
  have hMem : record ∈ slasher.window now val := by
    rw [hWin]
    exact mem_append_right _ mem_cons_self
  exact hRecorded val record (mem_of_mem_filter hMem)

end Pharos.Pools.AttestationSlasher

----
-- Runs
----

namespace Pharos.Pools

section

open AttestationSlasher

variable (S : Type) [SigningSpec S]

/- An attestation, and the epoch in which it was observed. -/
structure Observation where
  indexed : IndexedAttestation
  currentEpoch : Epoch

/- The slasher, the pool, and what was put into the pool. -/
structure SlasherRun where
  slasher : AttestationSlasher
  pools : OperationPools
  inserted : List AttesterSlashing

def maxValidatorsPerCommittee : Nat := 2048

/- Repacking panics if there are too many indices. -/
def repackIndexed (src : IndexedAttestation) : Except String IndexedAttestation :=
  if src.attestingIndices.length ≤ maxValidatorsPerCommittee then
    .ok src
  else
    .error ("attesting_indices length <= " ++ "MAX_VALIDATORS_PER_COMMITTEE = 2048")

def observeStep (run : SlasherRun) (observation : Observation) : Except String SlasherRun := do
  let indexed ← repackIndexed observation.indexed
  let observed := run.slasher.observe S run.pools indexed observation.currentEpoch
  .ok
    { slasher := observed.1
      pools := observed.2
      inserted := run.inserted ++ run.slasher.detections S indexed observation.currentEpoch }

def watch (pools : OperationPools) : SlasherRun where
  slasher := new
  pools
  inserted := []

/- A slashing that is not refused for its data, and that names somebody on both sides. -/
structure Slashes (slashing : AttesterSlashing) : Prop where
  slashable : ForkChoice.isSlashableAttestationData slashing.attestation1.data
    slashing.attestation2.data = true
  shared : ∃ validator ∈ slashing.attestation1.attestingIndices,
    validator ∈ slashing.attestation2.attestingIndices

/- Before every record that the attestation surrounds there is another that it conflicts with. -/
def InOrder (run : SlasherRun) (observation : Observation) : Prop :=
  observation.indexed.attestingIndices.length ≤ maxValidatorsPerCommittee →
    ∀ validator ∈ observation.indexed.attestingIndices,
    ∀ earlier record later,
      run.slasher.window observation.currentEpoch validator = earlier ++ record :: later →
      surroundsRecord observation.indexed record →
        ∃ other ∈ earlier, conflicts S observation.indexed other = true

variable {S} {run : SlasherRun} {obs : Observation}

theorem slashes_detections_iff {indexed : IndexedAttestation} {slasher : AttestationSlasher}
    {now : Epoch} (hRecorded : Recorded S slasher) :
    (∀ slashing ∈ slasher.detections S indexed now, Slashes slashing) ↔
      ∀ val ∈ indexed.attestingIndices,
      ∀ earlier record later, slasher.window now val = earlier ++ record :: later →
        surroundsRecord indexed record → ∃ x ∈ earlier, conflicts S indexed x = true := by
  constructor
  · intro hSlashes val hMem earlier record later hWin hSur
    by_contra hFst
    have hConflicts := conflicts_of_surroundsRecord S hSur
    have hGot : slasher.firstConflict S indexed now val = some record := by
      refine firstConflict_some_iff.mpr ⟨hConflicts, earlier, later, hWin, ?_⟩
      intro x hx
      by_contra hConflict
      exact hFst ⟨x, hx, by simpa using hConflict⟩
    have hHere := hSlashes ⟨record.indexed, indexed⟩
      (List.mem_filterMap.mpr ⟨val, hMem, by rw [hGot]; rfl⟩)
    have hSelf := (hRecorded.of_window hWin).1
    rw [hSelf] at hConflicts hSur
    exact (isSlashable_iff_not_surroundsRecord hConflicts).mp hHere.slashable hSur
  · intro hOrder slashing hGot
    rcases mem_detections hGot with ⟨val, hMem, record, hFst, hSlashing⟩
    rcases firstConflict_some_iff.mp hFst with ⟨hConflicts, earlier, later, hWin, hNone⟩
    rcases hRecorded.of_window hWin with ⟨hSelf, hVal⟩
    have hNot : ¬surroundsRecord indexed record := by
      intro hSur
      rcases hOrder val hMem earlier record later hWin hSur with ⟨x, hx, hConflict⟩
      rw [hNone x hx] at hConflict
      cases hConflict
    rw [hSelf] at hConflicts hNot
    rw [hSlashing]
    exact ⟨(isSlashable_iff_not_surroundsRecord hConflicts).mpr hNot, val, hVal, hMem⟩

theorem next_observeStep_of_le
    (hFits : obs.indexed.attestingIndices.length ≤ maxValidatorsPerCommittee) :
    Run.next (observeStep S) run obs =
      { slasher :=
          (run.slasher.observe S run.pools obs.indexed obs.currentEpoch).1
        pools :=
          (run.slasher.observe S run.pools obs.indexed obs.currentEpoch).2
        inserted := run.inserted ++ run.slasher.detections S obs.indexed obs.currentEpoch } := by
  simp [Run.next, observeStep, repackIndexed, hFits, bind, Except.bind]

theorem next_observeStep_of_not_le
    (hOver : ¬obs.indexed.attestingIndices.length ≤ maxValidatorsPerCommittee) :
    Run.next (observeStep S) run obs = run := by
  simp [Run.next, observeStep, repackIndexed, hOver, bind, Except.bind]

section

variable (hRecorded : Recorded S run.slasher)
include hRecorded

theorem recorded_next (obs : Observation) :
    Recorded S (Run.next (observeStep S) run obs).slasher := by
  by_cases hFits : obs.indexed.attestingIndices.length ≤ maxValidatorsPerCommittee
  · rw [next_observeStep_of_le hFits]
    exact recorded_observe hRecorded run.pools
  · rw [next_observeStep_of_not_le hFits]
    exact hRecorded

theorem slashes_next_iff (obs : Observation) :
    (∀ slashing ∈ (Run.next (observeStep S) run obs).inserted, Slashes slashing) ↔
      (∀ slashing ∈ run.inserted, Slashes slashing) ∧ InOrder S run obs := by
  unfold InOrder
  by_cases hFits : obs.indexed.attestingIndices.length ≤ maxValidatorsPerCommittee
  · rw [next_observeStep_of_le hFits, imp_iff_right hFits, ← slashes_detections_iff hRecorded,
      List.forall_mem_append]
  · rw [next_observeStep_of_not_le hFits]
    exact (and_iff_left fun hLe => absurd hLe hFits).symm

theorem slashes_final_iff
    (observations : List Observation) :
    (∀ slashing ∈ (Run.final (observeStep S) run observations).inserted, Slashes slashing) ↔
      (∀ slashing ∈ run.inserted, Slashes slashing) ∧
        Run.StepsMeet (observeStep S) (InOrder S) run observations := by
  induction observations generalizing run with
  | nil => exact (and_iff_left trivial).symm
  | cons a xs ih =>
    rw [Run.final_cons, ih (recorded_next hRecorded a), slashes_next_iff hRecorded a, and_assoc]
    rfl

end

/- The pool holds what was put into it, call after call. -/
theorem pools_final (pools : OperationPools) (observations : List Observation) :
    let s := Run.final (observeStep S) (watch pools) observations
    s.pools = s.inserted.foldl OperationPools.insertAttesterSlashing pools := by
  refine List.foldlRecOn
    (motive := fun s : SlasherRun =>
      s.pools = s.inserted.foldl OperationPools.insertAttesterSlashing pools)
    observations _ rfl ?_
  intro s hAt obs _
  by_cases hFits : obs.indexed.attestingIndices.length ≤ maxValidatorsPerCommittee
  · rw [next_observeStep_of_le hFits, observe_eq, hAt, List.foldl_append]
  · rw [next_observeStep_of_not_le hFits]
    exact hAt

/-
  The slashings of a run are slashings to the state transition exactly if no observed attestation
  surrounds a record before it conflicts with another.
-/
theorem detections_valid_iff (pools : OperationPools) (observations : List Observation) :
    (∀ slashing ∈ (Run.final (observeStep S) (watch pools) observations).inserted,
        Slashes slashing) ↔
      Run.StepsMeet (observeStep S) (InOrder S) (watch pools) observations := by
  rw [slashes_final_iff recorded_new]
  exact and_iff_right fun _ hNone =>
    absurd hNone List.not_mem_nil

end

----
-- Two Surround Votes
----

open AttestationSlasher

def surroundVote (source target : Epoch) : Observation where
  indexed :=
    { attestingIndices := [7]
      data :=
        { slot := 0
          index := 0
          beaconBlockRoot := defaultRoot
          source := ⟨source, defaultRoot⟩
          target := ⟨target, defaultRoot⟩ }
      signature := 0 }
  currentEpoch := 10

def outerVote : Observation :=
  surroundVote 1 10

def innerVote : Observation :=
  surroundVote 3 7

/- With the outer vote first, what is detected is a slashing. -/
theorem detections_valid_iff_outerFirst :
    let reached := Run.final (observeStep Sample.ChainState) (watch .new) [outerVote, innerVote]
    reached.inserted.length = 1 ∧ ∀ slashing ∈ reached.inserted, Slashes slashing := by
  refine ⟨by decide, ?_⟩
  apply (detections_valid_iff .new [outerVote, innerVote]).mpr
  refine ⟨?_, ?_, trivial⟩
  · intro _ val _ earlier record later hWin _
    exact absurd hWin (by simp [window, watch, new])
  · intro _ val hMem earlier record later hWin hSur
    have hOnly : (Run.next (observeStep Sample.ChainState) (watch .new)
          outerVote).slasher.window 10 7 =
        [recordOf Sample.ChainState outerVote.indexed] := by
      decide
    have hRec : record ∈ [recordOf Sample.ChainState outerVote.indexed] := by
      rw [← hOnly, ← List.mem_singleton.mp hMem]
      rw [show innerVote.currentEpoch = 10 from rfl] at hWin
      rw [hWin]
      exact List.mem_append_right _ List.mem_cons_self
    rw [List.mem_singleton.mp hRec] at hSur
    exact absurd hSur.1 (by decide)

/- With the inner vote first, the slashing in the pool is refused by the state transition. -/
theorem reverse_surround_not_slashable :
    let reached := Run.final (observeStep Sample.ChainState) (watch .new) [innerVote, outerVote]
    let slashing : AttesterSlashing := ⟨innerVote.indexed, outerVote.indexed⟩
    slashing ∈ reached.inserted ∧ slashing ∈ reached.pools.attesterSlashings.values ∧
      ForkChoice.isSlashableAttestationData slashing.attestation1.data
        slashing.attestation2.data = false ∧
      ForkChoice.isSlashableAttestationData slashing.attestation2.data
        slashing.attestation1.data = true := by
  decide

end Pharos.Pools
