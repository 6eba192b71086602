import Pharos.Pools.Detections

/-
  This file proves when the pool covers every offence that the slasher observes within its window.

  The slasher misses none of them: it reports each validator together with the first attestation in
  conflict. The pool loses some: it keeps one slashing per key, and the key is made of the two
  lowest indices that the sides share.

  Main theorems:
  * `offences_covered_iff`
-/

----
-- Offences
----

namespace Pharos.Pools

open SigningSpec AttestationSlasher List

/- The validator is on both sides of the slashing. -/
def Accuses (slashing : AttesterSlashing) (validator : ValidatorIndex) : Prop :=
  validator ∈ slashing.attestation1.attestingIndices ∧
    validator ∈ slashing.attestation2.attestingIndices
deriving Decidable

def Covers (pools : OperationPools) (validator : ValidatorIndex) : Prop :=
  ∃ slashing ∈ pools.attesterSlashings.values, Accuses slashing validator
deriving Decidable

/- Slashable in one order or the other, while the first is still in the window of the second. -/
def InConflict (a b : Observation) : Prop :=
  (ForkChoice.isSlashableAttestationData a.indexed.data b.indexed.data ∨
    ForkChoice.isSlashableAttestationData b.indexed.data a.indexed.data) ∧
    b.currentEpoch - historyEpochs ≤ a.indexed.data.target.epoch
deriving Decidable

variable (past : List Observation)

/- Two attestations in conflict, observed one after the other. -/
structure Offence (a b : Observation) : Prop where
  order : [a, b].Sublist past
  conflict : InConflict a b

/- The first attestation of a validator in conflict with a new one. -/
def firstOffence (obs : Observation) (validator : ValidatorIndex) : Option Observation :=
  past.find? fun prior => validator ∈ prior.indexed.attestingIndices ∧ InConflict prior obs

/- A slashing for each validator of the new attestation that has one in conflict. -/
def offencesOf (obs : Observation) : List AttesterSlashing :=
  obs.indexed.attestingIndices.filterMap fun validator =>
    (firstOffence past obs validator).map fun prior => ⟨prior.indexed, obs.indexed⟩

/- The slashings of all observations, in turn. -/
def offencesAfter : List Observation → List Observation → List AttesterSlashing
| _, [] => []
| past, obs :: rest => offencesOf past obs ++ offencesAfter (past ++ [obs]) rest

def offences (observations : List Observation) : List AttesterSlashing :=
  offencesAfter [] observations

variable {obs : Observation} {past : List Observation}

theorem offences_concat (obs : Observation) :
    offences (past ++ [obs]) = offences past ++ offencesOf past obs := by
  have hAfter (front : List Observation) : offencesAfter front (past ++ [obs]) =
      offencesAfter front past ++ offencesOf (front ++ past) obs := by
    induction past generalizing front with
    | nil => simp [offencesAfter]
    | cons x xs ih => simp [offencesAfter, ih]
  exact hAfter []

theorem pair_sublist_concat {Item : Type} {past : List Item} {a b last : Item} :
    [a, b].Sublist (past ++ [last]) ↔ [a, b].Sublist past ∨ a ∈ past ∧ b = last := by
  rw [← reverse_sublist, reverse_concat, sublist_cons_iff, reverse_sublist]
  simp [eq_comm, and_comm]

theorem offence_of_mem_offences {slashing : AttesterSlashing} (hGot : slashing ∈ offences past) :
    ∃ a b, Offence past a b ∧ slashing = ⟨a.indexed, b.indexed⟩ ∧ ∃ val, Accuses slashing val := by
  induction past using List.reverseRecOn with
  | nil => simp [offences, offencesAfter] at hGot
  | append_singleton past obs ih =>
    rw [offences_concat, mem_append] at hGot
    rcases hGot with hOld | hNew
    · rcases ih hOld with ⟨a, b, hOffence, hEq⟩
      exact ⟨a, b, { hOffence with order := pair_sublist_concat.mpr (.inl hOffence.order) }, hEq⟩
    · rcases mem_filterMap.mp hNew with ⟨val, hMem, hMap⟩
      rcases Option.map_eq_some_iff.mp hMap with ⟨a, hFst, rfl⟩
      have hTest := find?_some hFst
      rw [decide_eq_true_eq] at hTest
      refine ⟨a, obs, ⟨?_, hTest.2⟩, rfl, val, hTest.1, hMem⟩
      exact pair_sublist_concat.mpr (.inr ⟨mem_of_find?_eq_some hFst, rfl⟩)

/- Everybody who commits an offence is accused by one of the slashings. -/
theorem exists_mem_offences {a b : Observation} (hOffence : Offence past a b)
    {val : ValidatorIndex} (hAccused : Accuses ⟨a.indexed, b.indexed⟩ val) :
    ∃ slashing ∈ offences past, Accuses slashing val := by
  induction past using List.reverseRecOn with
  | nil => cases hOffence.order
  | append_singleton past obs ih =>
    simp only [offences_concat, mem_append]
    rcases pair_sublist_concat.mp hOffence.order with hOld | ⟨ha, rfl⟩
    · rcases ih { hOffence with order := hOld } with ⟨slashing, hGot, hAccuses⟩
      exact ⟨slashing, .inl hGot, hAccuses⟩
    · have hSome : (firstOffence past b val).isSome := by
        refine find?_isSome.mpr ⟨a, ha, decide_eq_true ⟨hAccused.1, hOffence.conflict⟩⟩
      rcases Option.isSome_iff_exists.mp hSome with ⟨x, hFst⟩
      have hTest := find?_some hFst
      rw [decide_eq_true_eq] at hTest
      refine ⟨⟨x.indexed, b.indexed⟩, .inr ?_, hTest.1, hAccused.2⟩
      exact mem_filterMap.mpr ⟨val, hAccused.2, by rw [hFst]; rfl⟩

----
-- What One Call Records
----

def AttestationSlasher.recordsOf (slasher : AttestationSlasher) (validator : ValidatorIndex) :
    List AttestRecord :=
  (slasher.records.lookup validator).getD []

variable {S : Type} [SigningSpec S]

theorem mem_recordsOf_observeValidator {slasher : AttestationSlasher} {val x : ValidatorIndex}
    {record : AttestRecord} (hRec : record ∈
      (observeValidator S obs.indexed obs.currentEpoch slasher val).2.recordsOf x) :
    record ∈ slasher.recordsOf x ∨ record = recordOf S obs.indexed ∧ x = val := by
  by_cases hx : x = val
  · rcases lookup_observeValidator_self S obs.indexed obs.currentEpoch slasher val with
      ⟨added, hLookup, hAdd⟩
    rw [hx, recordsOf, hLookup, Option.getD_some, mem_append] at hRec
    rcases hRec with hOld | hNew
    · exact .inl (hx ▸ mem_of_mem_filter hOld)
    · exact .inr ⟨hAdd record hNew, hx⟩
  · rw [recordsOf, lookup_observeValidator_of_ne hx] at hRec
    exact .inl hRec

section

variable {test : AttestRecord → Bool}
  (hFresh : ∀ record, test record = true → obs.currentEpoch - historyEpochs ≤ record.targetEpoch)
include hFresh

/- The record comes last, and an equal one that is there already passes the same test. -/
theorem find?_observeValidator {slasher : AttestationSlasher} {val : ValidatorIndex}
    (hAlike : ∀ record ∈ slasher.recordsOf val,
      record.dataRoot = (recordOf S obs.indexed).dataRoot →
        test record = test (recordOf S obs.indexed)) :
    ((observeValidator S obs.indexed obs.currentEpoch slasher val).2.recordsOf val).find? test =
      ((slasher.recordsOf val).find? test).or ([recordOf S obs.indexed].find? test) := by
  have hWindow : ((slasher.recordsOf val).filter fun record =>
      obs.currentEpoch - historyEpochs ≤ record.targetEpoch).find? test =
        (slasher.recordsOf val).find? test := by
    rw [find?_filter]
    congr 1
    funext record
    simpa using hFresh record
  rw [observeValidator, recordsOf, AList.lookup_insert, Option.getD_some]
  split
  · rename_i hStored
    rcases any_eq_true.mp hStored with ⟨record, hRec, hEq⟩
    rw [decide_eq_true_eq] at hEq
    have hSame := hAlike record (mem_of_mem_filter hRec) hEq.2
    refine hWindow.trans ?_
    cases hNew : test (recordOf S obs.indexed) with
    | false => simp [hNew]
    | true =>
      rw [Option.or_of_isSome]
      exact find?_isSome.mpr ⟨record, mem_of_mem_filter hRec, hSame.trans hNew⟩
  · rw [find?_append]
    exact congrArg (Option.or · _) hWindow

theorem find?_observe {slasher : AttestationSlasher} (pools : OperationPools)
    (hAlike : ∀ val, ∀ record ∈ slasher.recordsOf val,
      record.dataRoot = (recordOf S obs.indexed).dataRoot →
        test record = test (recordOf S obs.indexed)) (val : ValidatorIndex) :
    ((slasher.observe S pools obs.indexed obs.currentEpoch).1.recordsOf val).find? test =
      ((slasher.recordsOf val).find? test).or
        (if val ∈ obs.indexed.attestingIndices then [recordOf S obs.indexed].find? test
        else none) := by
  unfold observe
  generalize obs.indexed.attestingIndices = vals, ([] : List IndexedAttestation) = y
  induction vals generalizing slasher y with
  | nil => simp
  | cons x xs ih =>
    rw [foldl_cons]
    refine (ih ?_ _).trans ?_
    · intro v record hRec hRoot
      rcases mem_recordsOf_observeValidator hRec with hOld | ⟨rfl, -⟩
      · exact hAlike v record hOld hRoot
      · rfl
    · by_cases hx : val = x
      · subst hx
        rw [find?_observeValidator hFresh (hAlike val), if_pos mem_cons_self, Option.or_assoc]
        split <;> simp
      · have hOther : (observeValidator S obs.indexed obs.currentEpoch slasher
            x).2.recordsOf val = slasher.recordsOf val :=
          congrArg (·.getD []) (lookup_observeValidator_of_ne hx)
        rw [hOther]
        simp [hx]

end

theorem mem_recordsOf_observe {slasher : AttestationSlasher} (pools : OperationPools)
    {val : ValidatorIndex} {record : AttestRecord} (hRec : record ∈
      (slasher.observe S pools obs.indexed obs.currentEpoch).1.recordsOf val) :
    record ∈ slasher.recordsOf val ∨
      record = recordOf S obs.indexed ∧ val ∈ obs.indexed.attestingIndices := by
  unfold observe at hRec
  generalize obs.indexed.attestingIndices = vals, ([] : List IndexedAttestation) = y at hRec
  induction vals generalizing slasher y with
  | nil => exact .inl hRec
  | cons x xs ih =>
    rw [foldl_cons] at hRec
    rcases ih _ hRec with hMid | ⟨hNew, hMem⟩
    · rcases mem_recordsOf_observeValidator hMid with hOld | ⟨hNew, hx⟩
      · exact .inl hOld
      · exact .inr ⟨hNew, hx ▸ mem_cons_self⟩
    · exact .inr ⟨hNew, mem_cons_of_mem x hMem⟩

----
-- What a Run Reports
----

section

variable (S)

/- Epochs do not decrease, roots tell the data apart, and indices are machine words. -/
structure InTurn (past : List Observation) : Prop where
  epochs : past.Pairwise (·.currentEpoch ≤ ·.currentEpoch)
  roots : ∀ a ∈ past, ∀ b ∈ past, attestationDataRoot S a.indexed.data =
    attestationDataRoot S b.indexed.data → a.indexed.data = b.indexed.data
  words : ∀ obs ∈ past, ∀ validator ∈ obs.indexed.attestingIndices, validator < 2 ^ 64

/- A test of the data that old records fail finds the first attestation with such data. -/
structure Remembers (run : SlasherRun) (past : List Observation) : Prop where
  recorded : ∀ validator, ∀ record ∈ run.slasher.recordsOf validator, ∃ obs ∈ past,
    record = recordOf S obs.indexed ∧ validator ∈ obs.indexed.attestingIndices
  found : InTurn S past → ∀ epoch, (∀ x ∈ past, x.currentEpoch ≤ epoch) →
    ∀ test : AttestRecord → Bool,
      (∀ record, test record = true → epoch - historyEpochs ≤ record.targetEpoch) →
      (∀ a b, a.data = b.data → test (recordOf S a) = test (recordOf S b)) →
        ∀ validator, (run.slasher.recordsOf validator).find? test =
          (past.find? fun x => validator ∈ x.indexed.attestingIndices ∧
            test (recordOf S x.indexed)).map (recordOf S ·.indexed)
  reported : InTurn S past → run.inserted = offences past

end

theorem InTurn.of_concat (hTurn : InTurn S (past ++ [obs])) : InTurn S past where
  epochs := (pairwise_append.mp hTurn.epochs).1
  roots a ha b hb := hTurn.roots a (mem_append_left _ ha) b (mem_append_left _ hb)
  words x hx := hTurn.words x (mem_append_left _ hx)

theorem conflicts_recordOf_iff (hTurn : InTurn S (past ++ [obs])) {a : Observation}
    (ha : a ∈ past) : conflicts S obs.indexed (recordOf S a.indexed) = true ↔
      ForkChoice.isSlashableAttestationData a.indexed.data obs.indexed.data ∨
        ForkChoice.isSlashableAttestationData obs.indexed.data a.indexed.data := by
  have hRoots := hTurn.roots a (mem_append_left _ ha) obs (by simp)
  simp only [conflicts, isSlashablePair, recordOf, ForkChoice.isSlashableAttestationData]
  grind

variable {run next : SlasherRun}

theorem observeStep_ok (hStep : observeStep S run obs = .ok next) :
    next.slasher = (run.slasher.observe S run.pools obs.indexed obs.currentEpoch).1 ∧
      next.inserted = run.inserted ++ run.slasher.detections S obs.indexed obs.currentEpoch := by
  unfold observeStep repackIndexed at hStep
  split at hStep
  · cases hStep
    exact ⟨rfl, rfl⟩
  · cases hStep

theorem Remembers.detections_eq (hPast : Remembers S run past)
    (hTurn : InTurn S (past ++ [obs])) :
    run.slasher.detections S obs.indexed obs.currentEpoch = offencesOf past obs := by
  have hEpochs : ∀ x ∈ past, x.currentEpoch ≤ obs.currentEpoch := fun x hx =>
    (pairwise_append.mp hTurn.epochs).2.2 x hx obs mem_cons_self
  have hFst (val : ValidatorIndex) :
      run.slasher.firstConflict S obs.indexed obs.currentEpoch val =
        (firstOffence past obs val).map (recordOf S ·.indexed) := by
    rw [firstConflict, window, find?_filter]
    refine (hPast.found hTurn.of_concat obs.currentEpoch hEpochs _ (by grind) ?_ val).trans ?_
    · rintro ⟨_, a, _⟩ ⟨_, b, _⟩ hData
      obtain rfl : a = b := hData
      rfl
    · unfold firstOffence
      congr 1
      rw [← head?_filter, ← head?_filter]
      congr 1
      apply filter_congr
      intro x hx
      have hConflicts := conflicts_recordOf_iff hTurn hx
      simp only [InConflict, ← hConflicts, Bool.decide_and, Bool.decide_eq_true,
        Bool.and_eq_true, decide_eq_true_eq, and_comm]
      rfl
  unfold detections offencesOf
  simp only [hFst, Option.map_map]
  rfl

theorem remembers_observe (hPast : Remembers S run past)
    (hStep : observeStep S run obs = .ok next) : Remembers S next (past ++ [obs]) := by
  rcases observeStep_ok hStep with ⟨hSlasher, hInserted⟩
  constructor
  · intro val record hRec
    rw [hSlasher] at hRec
    rcases mem_recordsOf_observe run.pools hRec with hOld | ⟨hNew, hMem⟩
    · rcases hPast.recorded val record hOld with ⟨x, hx, hSound⟩
      exact ⟨x, mem_append_left _ hx, hSound⟩
    · exact ⟨obs, by simp, hNew, hMem⟩
  · intro hTurn epoch hEpoch test hFresh hData val
    rw [forall_mem_append] at hEpoch
    have hNow := hEpoch.2 obs mem_cons_self
    have hCut (record : AttestRecord) (hTest : test record = true) :
        obs.currentEpoch - historyEpochs ≤ record.targetEpoch :=
      (Nat.sub_le_sub_right hNow _).trans (hFresh record hTest)
    rw [hSlasher, find?_observe hCut run.pools, find?_append,
      hPast.found hTurn.of_concat epoch hEpoch.1 test hFresh hData]
    · by_cases hMem : val ∈ obs.indexed.attestingIndices
      · cases hTest : test (recordOf S obs.indexed) <;> simp [hMem, hTest]
      · simp [hMem]
    · intro v record hRec hRoot
      rcases hPast.recorded v record hRec with ⟨x, hx, rfl, -⟩
      exact hData _ _ (hTurn.roots x (mem_append_left _ hx) obs (by simp) hRoot)
  · intro hTurn
    rw [hInserted, offences_concat, hPast.reported hTurn.of_concat, hPast.detections_eq hTurn]

theorem remembers_final (pools : OperationPools) (observations : List Observation) :
    Remembers S (Run.final (observeStep S) (watch pools) observations)
      (Run.accepted (observeStep S) (watch pools) observations) := by
  have hStart : Remembers S (watch pools) [] :=
    ⟨by simp [watch, recordsOf, new], by simp [watch, recordsOf, new], fun _ => rfl⟩
  refine Run.history_of_step _ ?_ hStart
  intro run past obs next _ hPast hStep
  exact remembers_observe hPast hStep

----
-- What the Pool Keeps
----

def twoLowest (slashing : AttesterSlashing) : List ValidatorIndex :=
  (sharedIndices slashing).take 2

theorem mem_sharedIndices_iff {slashing : AttesterSlashing} {val : ValidatorIndex} :
    val ∈ sharedIndices slashing ↔ Accuses slashing val := by
  simp [sharedIndices, indexSet, Accuses]

theorem pairwise_sharedIndices (slashing : AttesterSlashing) :
    (sharedIndices slashing).Pairwise (· < ·) := by
  apply Pairwise.filter
  have hNodup : (indexSet slashing.attestation1).Nodup :=
    (perm_insertionSort _ _).nodup_iff.mpr (nodup_dedup _)
  exact (pairwise_insertionSort (· ≤ ·) _).imp₂ (fun _ _ hLe hNe => lt_of_le_of_ne hLe hNe) hNodup

/- The key of a slashing that accuses somebody consists of its two lowest indices. -/
theorem exists_parts_of_key {slashing : AttesterSlashing} (hSome : sharedIndices slashing ≠ [])
    (hWords : ∀ val, Accuses slashing val → val < 2 ^ 64) : ∃ low high, low < 2 ^ 64 ∧
      attesterSlashingKey slashing = low + high * 2 ^ 64 ∧
      twoLowest slashing = if high = 0 then [low] else [low, high] := by
  have hPairs := pairwise_sharedIndices slashing
  simp only [← mem_sharedIndices_iff] at hWords
  unfold attesterSlashingKey twoLowest
  match hList : sharedIndices slashing with
  | [] => exact absurd hList hSome
  | [low] => exact ⟨low, 0, hWords low (by simp [hList]), by simp, by simp⟩
  | low :: high :: rest =>
    have hLess : low < high := by simp_all
    refine ⟨low, high, hWords low (by simp [hList]), ?_, by simp [Nat.ne_zero_of_lt hLess]⟩
    dsimp only
    rw [Nat.or_comm, ← Nat.shiftLeft_add_eq_or_of_lt (hWords low (by simp [hList])),
      Nat.shiftLeft_eq, Nat.add_comm]

theorem attesterSlashings_foldl (slashings : List AttesterSlashing) (pools : OperationPools) :
    (slashings.foldl OperationPools.insertAttesterSlashing pools).attesterSlashings =
      slashings.foldl (fun kept slashing => kept.putIfAbsent (attesterSlashingKey slashing) slashing)
        pools.attesterSlashings := by
  induction slashings generalizing pools with
  | nil => rfl
  | cons slashing xs ih => exact ih _

section

variable {slashings : List AttesterSlashing}
  (hShared : ∀ slashing ∈ slashings, sharedIndices slashing ≠ [])
  (hWords : ∀ slashing ∈ slashings, ∀ val, Accuses slashing val → val < 2 ^ 64)
include hShared hWords

theorem attesterSlashingKey_eq_iff {a b : AttesterSlashing} (hFst : a ∈ slashings)
    (hSnd : b ∈ slashings) :
    attesterSlashingKey a = attesterSlashingKey b ↔ twoLowest a = twoLowest b := by
  rcases exists_parts_of_key (hShared a hFst) (hWords a hFst) with ⟨low, high, hLess, hKey, hTwo⟩
  rcases exists_parts_of_key (hShared b hSnd) (hWords b hSnd) with
    ⟨low', high', hLess', hKey', hTwo'⟩
  rw [hKey, hKey', hTwo, hTwo']
  constructor
  · intro hEq
    have hParts : low = low' ∧ high = high' := by omega
    rw [hParts.1, hParts.2]
  · intro hEq
    split at hEq <;> split at hEq <;> simp_all

theorem find?_key_eq {first : AttesterSlashing} (hFst : first ∈ slashings) :
    slashings.find? (fun other => attesterSlashingKey other = attesterSlashingKey first) =
      slashings.find? (fun other => twoLowest other = twoLowest first) := by
  rw [← head?_filter, ← head?_filter]
  congr 1
  apply filter_congr
  intro other hOther
  rw [decide_eq_decide]
  exact attesterSlashingKey_eq_iff hShared hWords hOther hFst

/- While there is room, the pool adds the first slashing with each new key. -/
theorem covers_foldl_iff {pools : OperationPools}
    (hRoom : pools.attesterSlashings.table.entries.length + slashings.dedup.length ≤ maxPoolEntries)
    (val : ValidatorIndex) :
    Covers (slashings.foldl OperationPools.insertAttesterSlashing pools) val ↔
      Covers pools val ∨
        ∃ first ∈ slashings, Accuses first val ∧
          pools.attesterSlashings.peek (attesterSlashingKey first) = none ∧
          slashings.find? (fun other => twoLowest other = twoLowest first) = some first := by
  have hImage : (slashings.map attesterSlashingKey).toFinset =
      slashings.toFinset.image attesterSlashingKey := by
    ext key
    simp
  have hKeys : (slashings.map attesterSlashingKey).toFinset.card ≤ slashings.dedup.length := by
    rw [hImage, ← card_toFinset]
    exact Finset.card_image_le
  have hValues := (LruCache.mem_values_foldl_putIfAbsent attesterSlashingKey
    ((Nat.add_le_add_left hKeys _).trans hRoom)).2.2
  unfold Covers
  rw [attesterSlashings_foldl]
  simp only [hValues]
  constructor
  · rintro ⟨slashing, hOld | ⟨hNone, hFst⟩, hAccuses⟩
    · exact .inl ⟨slashing, hOld, hAccuses⟩
    · have hMem := mem_of_find?_eq_some hFst
      exact .inr ⟨slashing, hMem, hAccuses, hNone, find?_key_eq hShared hWords hMem ▸ hFst⟩
  · rintro (⟨slashing, hOld, hAccuses⟩ | ⟨first, hMem, hAccuses, hNone, hFst⟩)
    · exact ⟨slashing, .inl hOld, hAccuses⟩
    · exact ⟨first, .inr ⟨hNone, (find?_key_eq hShared hWords hMem).trans hFst⟩, hAccuses⟩

end

/-
  The pool covers every offence exactly if everybody whom a slashing accuses is accused by one that
  was there before, or by one whose key was free: it is the first slashing with its two lowest
  indices.
-/
theorem offences_covered_iff (pools : OperationPools) (observations : List Observation)
    (hTurn : InTurn S (Run.accepted (observeStep S) (watch pools) observations))
    (hRoom : pools.attesterSlashings.table.entries.length +
      (offences (Run.accepted (observeStep S) (watch pools) observations)).dedup.length ≤
        maxPoolEntries) :
    let past := Run.accepted (observeStep S) (watch pools) observations
    (∀ a b, Offence past a b → ∀ validator, Accuses ⟨a.indexed, b.indexed⟩ validator →
        Covers (Run.final (observeStep S) (watch pools) observations).pools validator) ↔
      ∀ slashing ∈ offences past, ∀ validator, Accuses slashing validator →
        Covers pools validator ∨
          ∃ first ∈ offences past, Accuses first validator ∧
            pools.attesterSlashings.peek (attesterSlashingKey first) = none ∧
            (offences past).find? (fun other => twoLowest other = twoLowest first) =
              some first := by
  intro past
  change _ + (offences past).dedup.length ≤ _ at hRoom
  have hRun : Remembers S _ past := remembers_final pools observations
  have hPools : (Run.final (observeStep S) (watch pools) observations).pools =
      (offences past).foldl OperationPools.insertAttesterSlashing pools := by
    rw [← hRun.reported hTurn]
    exact pools_final pools observations
  have hShared : ∀ slashing ∈ offences past, sharedIndices slashing ≠ [] := by
    intro slashing hGot hNone
    rcases offence_of_mem_offences hGot with ⟨_, _, _, _, val, hAccused⟩
    rw [← mem_sharedIndices_iff, hNone] at hAccused
    cases hAccused
  have hWords : ∀ slashing ∈ offences past, ∀ val, Accuses slashing val → val < 2 ^ 64 := by
    intro slashing hGot val hAccused
    rcases offence_of_mem_offences hGot with ⟨a, b, hOffence, rfl, _⟩
    exact hTurn.words b (hOffence.order.subset (by simp)) val hAccused.2
  rw [hPools]
  simp only [covers_foldl_iff hShared hWords hRoom]
  constructor
  · intro hAll slashing hGot val hAccuses
    rcases offence_of_mem_offences hGot with ⟨a, b, hOffence, rfl, _⟩
    exact hAll a b hOffence val hAccuses
  · intro hAll a b hOffence val hAccuses
    rcases exists_mem_offences hOffence hAccuses with ⟨slashing, hGot, hAccused⟩
    exact hAll slashing hGot val hAccused

/- A vote for a block. They all have one target. -/
def ballot (validators : List ValidatorIndex) (beaconBlockRoot : Root) : Observation where
  indexed := ⟨validators, ⟨0, 0, beaconBlockRoot, ⟨0, 0⟩, ⟨1, 0⟩⟩, 0⟩
  currentEpoch := 1

theorem offences_covered_iff_twoBallots :
    Covers (Run.final (observeStep Sample.ChainState) (watch .new)
      [ballot [7] 1, ballot [7] 2]).pools 7 := by
  have hTurn : InTurn Sample.ChainState (Run.accepted (observeStep Sample.ChainState) (watch .new)
      [ballot [7] 1, ballot [7] 2]) := ⟨by decide, by decide, by decide⟩
  refine (offences_covered_iff .new _ hTurn (by decide)).mpr ?_ (ballot [7] 1) (ballot [7] 2)
    ⟨.refl _, by decide⟩ 7 (by decide)
  intro slashing hGot val hAccuses
  exact .inr ⟨slashing, hGot, hAccuses, rfl, by rw [mem_singleton.mp hGot]; decide⟩

/- The slashings of validators 1, 2, 3 and of 1, 2, 4 have one key, and the second is lost. -/
theorem fourth_offender_lost :
    let ballots := [ballot [1, 2, 3, 4] 1, ballot [1, 2, 3] 2, ballot [1, 2, 4] 3]
    Offence ballots (ballot [1, 2, 3, 4] 1) (ballot [1, 2, 4] 3) ∧
      ¬Covers (Run.final (observeStep Sample.ChainState) (watch .new) ballots).pools 4 :=
  ⟨⟨.cons_cons _ (.cons _ (.refl _)), by decide⟩, by decide⟩

end Pharos.Pools
