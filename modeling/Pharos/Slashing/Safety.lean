import Pharos.Lib.Run
import Pharos.Slashing.Protection

/-
  This file proves that the slashing-protection database never lets a validator sign two messages
  that together are slashable, whatever the order of the requests.

  Main theorems:
  * `accepted_not_slashable`
-/

----
-- Messages and Slashable Pairs
----

namespace Pharos.Slashing

open List KeyedTable

/- A request to sign, as the database sees it. -/
inductive Message where
  | blockProposal (pubkeyHex : String) (slot : UInt64) (signingRoot : Option String)
  | attestation (pubkeyHex : String) (sourceEpoch targetEpoch : UInt64)
      (signingRoot : Option String)
deriving DecidableEq

namespace Message

/- Answer a request. -/
def perform (db : SqliteSlashingProtection) :
    Message → Except SlashingError SqliteSlashingProtection
| .blockProposal pubkeyHex slot signingRoot =>
  db.checkAndRecordBlockProposal pubkeyHex slot signingRoot
| .attestation pubkeyHex sourceEpoch targetEpoch root =>
  db.checkAndRecordAttestation pubkeyHex sourceEpoch targetEpoch root

/- The numbers of a message fit the signed columns. -/
def Small : Message → Prop
| .blockProposal _ slot _ => slot.toNat < 2 ^ 63
| .attestation _ sourceEpoch targetEpoch _ =>
  sourceEpoch.toNat < 2 ^ 63 ∧ targetEpoch.toNat < 2 ^ 63

def Surrounds : Message → Message → Prop
| .attestation pubkey source target _,
    .attestation other innerSource innerTarget _ =>
    pubkey = other ∧ source < innerSource ∧ innerTarget < target
| _, _ => False

end Message

/-
  Two messages of one validator that may not both be signed. Signing roots that are not known to be
  equal count as different.
-/
inductive Slashable : Message → Message → Prop where
  | doubleProposal {pubkey : String} {slot : UInt64} {first second : Option String}
      (hRoots : first ≠ second) :
      Slashable (.blockProposal pubkey slot first) (.blockProposal pubkey slot second)
  | doubleVote {pubkey : String} {firstSource secondSource target : UInt64}
      {first second : Option String}
      (hRoots : first ≠ second) :
      Slashable (.attestation pubkey firstSource target first)
        (.attestation pubkey secondSource target second)
  | surrounding {first second : Message} (hSurrounds : first.Surrounds second) :
      Slashable first second
  | surrounded {first second : Message} (hSurrounds : second.Surrounds first) :
      Slashable first second

/-
  How a validator client names what it signs: the signing root of a block or of a vote identifies
  it.
-/
structure SigningScheme (Block Vote : Type) where
  slot : Block → UInt64
  sourceEpoch : Vote → UInt64
  targetEpoch : Vote → UInt64
  blockRoot : Block → String
  voteRoot : Vote → String
  blockRoot_injective : Function.Injective blockRoot
  voteRoot_injective : Function.Injective voteRoot

def SigningScheme.Signs {Block Vote : Type} (scheme : SigningScheme Block Vote) : Message → Prop
| .blockProposal _ slot signingRoot =>
  ∃ block, scheme.slot block = slot ∧ some (scheme.blockRoot block) = signingRoot
| .attestation _ sourceEpoch targetEpoch signingRoot =>
  ∃ vote, scheme.sourceEpoch vote = sourceEpoch ∧ scheme.targetEpoch vote = targetEpoch ∧
    some (scheme.voteRoot vote) = signingRoot

----
-- Stored Rows of Messages
----

def Stored (db : SqliteSlashingProtection) : Message → Prop
| .blockProposal pubkeyHex slot signingRoot =>
  (⟨pubkeyHex, slot.toInt64, signingRoot⟩ : SignedBlock) ∈ db.signedBlock
| .attestation pubkeyHex sourceEpoch targetEpoch root =>
  (⟨pubkeyHex, sourceEpoch.toInt64, targetEpoch.toInt64, root⟩ : SignedAttestation) ∈
    db.signedAttestation

variable {db : SqliteSlashingProtection} {message : Message}

open SqliteSlashingProtection

/- No answer deletes a row. -/
theorem stored_of_perform {s' : SqliteSlashingProtection} {call : Message}
    (hOk : call.perform db = .ok s') (hStored : Stored db message) : Stored s' message := by
  cases call with
  | blockProposal pk slot signing =>
    rcases checkAndRecordBlockProposal_ok hOk with ⟨_, hVotes, hBlks⟩
    cases message with
    | blockProposal _ _ _ => exact (hBlks _).mpr (.inl hStored)
    | attestation _ _ _ _ => simpa only [Stored, hVotes] using hStored
  | attestation pk src tgt signing =>
    rcases checkAndRecordAttestation_ok hOk with ⟨_, hBlks, ⟨hUnchanged, _⟩ | ⟨_, hVotes⟩⟩
    · rw [hUnchanged]
      exact hStored
    · cases message with
      | blockProposal _ _ _ => simpa only [Stored, hBlks] using hStored
      | attestation _ _ _ _ => exact (hVotes _).mpr (.inl hStored)

/- The surround query compares small epochs as numbers. -/
theorem surroundsEitherWay_iff {src tgt rowSource rowTarget : UInt64} {pk : String}
    {r : Option String} (hSrc : src.toNat < 2 ^ 63) (hTgt : tgt.toNat < 2 ^ 63)
    (hRowSource : rowSource.toNat < 2 ^ 63) (hRowTarget : rowTarget.toNat < 2 ^ 63) :
    surroundsEitherWay src.toInt64 tgt.toInt64 ⟨pk, rowSource.toInt64, rowTarget.toInt64, r⟩ ↔
      (src < rowSource ∧ rowTarget < tgt) ∨ (rowSource < src ∧ tgt < rowTarget) := by
  simp only [surroundsEitherWay, Bool.or_eq_true, Bool.and_eq_true, decide_eq_true_eq, gt_iff_lt]
  rw [toInt64_lt_iff hSrc hRowSource, toInt64_lt_iff hRowTarget hTgt,
    toInt64_lt_iff hRowSource hSrc, toInt64_lt_iff hTgt hRowTarget]

theorem toUInt64_minimum_le {Row Key : Type} {k : Row → Key} {t : KeyedTable k}
    {filter : Row → Bool} {col : Row → Int64} {min : Int64} {row : Row}
    (hMin : t.minimum filter col = some min) (hNonneg : ∀ x ∈ t, 0 ≤ col x)
    (hRow : row ∈ t) (hFilter : filter row) : min.toUInt64 ≤ (col row).toUInt64 := by
  rcases minimum_some_iff.mp hMin with ⟨⟨least, hLeast, _, hValue⟩, hBd⟩
  have hMinNonneg : 0 ≤ min := hValue ▸ hNonneg least hLeast
  exact Int64.toUInt64_le hMinNonneg (hBd row hRow hFilter)

theorem perform_stored (hStored : Stored db message) (hSlots : ∀ row ∈ db.signedBlock, 0 ≤ row.slot)
    (hSources : ∀ row ∈ db.signedAttestation, 0 ≤ row.sourceEpoch) :
    ∃ s', message.perform db = .ok s' := by
  cases hAnswer : message.perform db with
  | ok s' => exact ⟨s', rfl⟩
  | error e =>
    exfalso
    cases message with
    | blockProposal pk slot signing =>
      rcases checkAndRecordBlockProposal_error hAnswer with
        ⟨min, hMin, hBelow, _⟩ | ⟨row, hRow, hKey, hr, _⟩
      · have hLe := toUInt64_minimum_le hMin hSlots hStored (by simp)
        exact absurd hBelow (UInt64.not_lt.mpr hLe)
      · have hEq := eq_of_key_eq hRow hStored hKey
        exact hr (by rw [hEq])
    | attestation pk src tgt signing =>
      have hFind : db.signedAttestation.find? (pk, tgt.toInt64) = some _ :=
          find?_key_of_mem hStored
      rcases checkAndRecordAttestation_error hAnswer with
        ⟨min, hMin, hBelow, _⟩ | ⟨_, _, _, hNone, _⟩ | ⟨row, hRow, hKey, hr, _⟩ |
        ⟨_, _, _, _, hNone, _⟩
      · have hLe := toUInt64_minimum_le hMin hSources hStored (by simp)
        exact absurd hBelow (UInt64.not_lt.mpr hLe)
      · exact absurd (hFind.symm.trans hNone) (by simp)
      · have hEq := eq_of_key_eq hRow hStored hKey
        exact hr (by rw [hEq])
      · exact absurd (hFind.symm.trans hNone) (by simp)

----
-- The Database Records the History
----

variable {Block Vote : Type} {scheme : SigningScheme Block Vote}

/-
  The abstract view of a database that was created empty: its rows are the messages signed so far,
  and no signed vote surrounds another.
-/
structure RecordsHistory (scheme : SigningScheme Block Vote) (db : SqliteSlashingProtection)
    (past : List Message) : Prop where
  signs : ∀ message ∈ past, scheme.Signs message
  small : ∀ message ∈ past, message.Small
  stored : ∀ message ∈ past, Stored db message
  blocks : ∀ row ∈ db.signedBlock, ∃ slot : UInt64, row.slot = slot.toInt64 ∧
    .blockProposal row.pubkey slot row.signingRoot ∈ past
  votes : ∀ row ∈ db.signedAttestation,
    ∃ source target : UInt64, row.sourceEpoch = source.toInt64 ∧ row.targetEpoch = target.toInt64 ∧
      .attestation row.pubkey source target row.signingRoot ∈ past
  apart : ∀ first ∈ past, ∀ second ∈ past, ¬first.Surrounds second

theorem recordsHistory_fresh : RecordsHistory scheme .fresh [] where
  signs := by simp
  small := by simp
  stored := by simp
  blocks := by simp [fresh]
  votes := by simp [fresh]
  apart := by simp

namespace RecordsHistory

variable {db s' : SqliteSlashingProtection} {past : List Message}

variable (hRecs : RecordsHistory scheme db past)
include hRecs

theorem slot_nonneg {row : SignedBlock} (hRow : row ∈ db.signedBlock) : 0 ≤ row.slot := by
  rcases hRecs.blocks row hRow with ⟨slot, hSlot, hPast⟩
  rw [hSlot]
  exact toInt64_nonneg (hRecs.small _ hPast)

theorem sourceEpoch_nonneg {row : SignedAttestation}
    (hRow : row ∈ db.signedAttestation) : 0 ≤ row.sourceEpoch := by
  rcases hRecs.votes row hRow with ⟨src, tgt, hSrc, _, hPast⟩
  rw [hSrc]
  exact toInt64_nonneg (hRecs.small _ hPast).1

/- Signing a message again changes nothing. -/
theorem snoc_of_mem {message : Message}
    (hPast : message ∈ past) : RecordsHistory scheme db (past ++ [message]) := by
  have hEq : ∀ x, x ∈ past ++ [message] ↔ x ∈ past := by
    intro x
    simp only [mem_append, mem_singleton]
    exact ⟨fun hx => hx.elim id (· ▸ hPast), .inl⟩
  constructor
  all_goals simp only [hEq]
  · exact hRecs.signs
  · exact hRecs.small
  · exact hRecs.stored
  · exact hRecs.blocks
  · exact hRecs.votes
  · exact hRecs.apart

variable {pk : String} {signing : Option String}

theorem mem_past_of_repeats {src tgt : UInt64}
    (hSigns : scheme.Signs (.attestation pk src tgt signing))
    (hRepeats : db.RepeatsStoredVote pk tgt signing) :
    .attestation pk src tgt signing ∈ past := by
  rcases hRepeats with ⟨row, hRow, hKey, hr⟩
  rcases hRecs.votes row hRow with ⟨rowSource, rowTarget, _, hRowTarget, hPast⟩
  rcases hSigns with ⟨vote, rfl, rfl, hVote⟩
  rcases hRecs.signs _ hPast with ⟨x, rfl, rfl, hx⟩
  have hEq : x = vote := by
    apply scheme.voteRoot_injective
    have hRoots := hx.trans (hr.trans hVote.symm)
    exact Option.some.inj hRoots
  have hPubkey : row.pubkey = pk := congrArg Prod.fst hKey
  rw [← hEq, ← hPubkey, ← hr]
  exact hPast

omit hRecs

theorem not_surrounds_self (message : Message) : ¬message.Surrounds message := by
  cases message with
  | blockProposal _ _ _ => exact id
  | attestation _ _ _ _ => exact fun hSur => UInt64.lt_irrefl _ hSur.2.1

/- What a database has to record of one more message. -/
theorem snoc (hRecs : RecordsHistory scheme db past) {message : Message}
    (hReq : scheme.Signs message ∧ message.Small) (hPerform : message.perform db = .ok s')
    (hStored : Stored s' message)
    (hBlks : ∀ row ∈ s'.signedBlock, row ∈ db.signedBlock ∨ ∃ slot : UInt64,
      row.slot = slot.toInt64 ∧ .blockProposal row.pubkey slot row.signingRoot = message)
    (hVotes : ∀ row ∈ s'.signedAttestation, row ∈ db.signedAttestation ∨ ∃ src tgt : UInt64,
      row.sourceEpoch = src.toInt64 ∧ row.targetEpoch = tgt.toInt64 ∧
        .attestation row.pubkey src tgt row.signingRoot = message)
    (hApart : ∀ x ∈ past, ¬x.Surrounds message ∧ ¬message.Surrounds x) :
    RecordsHistory scheme s' (past ++ [message]) := by
  constructor
  · exact forall_mem_append.mpr ⟨hRecs.signs, forall_mem_singleton.mpr hReq.1⟩
  · exact forall_mem_append.mpr ⟨hRecs.small, forall_mem_singleton.mpr hReq.2⟩
  · refine forall_mem_append.mpr ⟨?_, forall_mem_singleton.mpr hStored⟩
    exact fun x hx => stored_of_perform hPerform (hRecs.stored x hx)
  · intro row hRow
    rcases hBlks row hRow with hOld | ⟨slot, hSlot, rfl⟩
    · rcases hRecs.blocks row hOld with ⟨slot, hSlot, hPast⟩
      exact ⟨slot, hSlot, mem_append_left _ hPast⟩
    · exact ⟨slot, hSlot, by simp⟩
  · intro row hRow
    rcases hVotes row hRow with hOld | ⟨src, tgt, hSrc, hTgt, rfl⟩
    · rcases hRecs.votes row hOld with ⟨src, tgt, hSrc, hTgt, hPast⟩
      exact ⟨src, tgt, hSrc, hTgt, mem_append_left _ hPast⟩
    · exact ⟨src, tgt, hSrc, hTgt, by simp⟩
  · simp only [forall_mem_append, forall_mem_singleton]
    refine ⟨fun a hFst => ⟨hRecs.apart a hFst, (hApart a hFst).1⟩, ?_, not_surrounds_self message⟩
    exact fun b hSnd => (hApart b hSnd).2

theorem not_surrounds_fresh (hRecs : RecordsHistory scheme db past) {src tgt : UInt64}
    (hSmall : src.toNat < 2 ^ 63 ∧ tgt.toNat < 2 ^ 63)
    (hFresh : db.FreshVote pk src tgt) {x : Message} (hx : x ∈ past) :
    ¬x.Surrounds (.attestation pk src tgt signing) ∧
      ¬(Message.attestation pk src tgt signing).Surrounds x := by
  cases x with
  | blockProposal _ _ _ => exact ⟨id, id⟩
  | attestation otherKey otherSource otherTarget otherRoot =>
    have hOtherSmall := hRecs.small _ hx
    have hStored := hRecs.stored _ hx
    have hApart : otherKey = pk → ¬((src < otherSource ∧ otherTarget < tgt) ∨
        (otherSource < src ∧ tgt < otherTarget)) := by
      intro hKey
      have hClear := hFresh.noSurround _ hStored hKey
      rw [← surroundsEitherWay_iff hSmall.1 hSmall.2 hOtherSmall.1 hOtherSmall.2, hClear]
      simp
    constructor
    · rintro ⟨hKey, hNested⟩
      exact hApart hKey (.inr hNested)
    · rintro ⟨hKey, hNested⟩
      exact hApart hKey.symm (.inl hNested)

end RecordsHistory

----
-- No Slashable Pair Is Signed
----

theorem recordsHistory_step {s' : SqliteSlashingProtection} {past : List Message}
    (hRecs : RecordsHistory scheme db past) (hReq : scheme.Signs message ∧ message.Small)
    (hOk : message.perform db = .ok s') : RecordsHistory scheme s' (past ++ [message]) := by
  cases message with
  | blockProposal pk slot signing =>
    rcases checkAndRecordBlockProposal_ok hOk with ⟨_, hVotes, hBlks⟩
    refine hRecs.snoc hReq hOk ((hBlks _).mpr (.inr rfl)) ?_ ?_ ?_
    · intro row hRow
      exact ((hBlks row).mp hRow).imp_right fun hNew => ⟨slot, by simp [hNew]⟩
    · intro row hRow
      exact .inl (hVotes ▸ hRow)
    · -- A proposal is on neither side of a surround.
      intro x _
      cases x with
      | blockProposal _ _ _ | attestation _ _ _ _ => exact ⟨id, id⟩
  | attestation pk src tgt signing =>
    rcases checkAndRecordAttestation_ok hOk with
      ⟨_, hBlks, ⟨rfl, hRepeats⟩ | ⟨hFresh, hVotes⟩⟩
    · exact hRecs.snoc_of_mem (hRecs.mem_past_of_repeats hReq.1 hRepeats)
    · refine hRecs.snoc hReq hOk ((hVotes _).mpr (.inr rfl)) ?_ ?_ ?_
      · intro row hRow
        exact .inl (hBlks ▸ hRow)
      · intro row hRow
        exact ((hVotes row).mp hRow).imp_right fun hNew => ⟨src, tgt, by simp [hNew]⟩
      · exact fun x hx => hRecs.not_surrounds_fresh hReq.2 hFresh hx

theorem recordsHistory_final {calls : List Message} (hSigns : ∀ call ∈ calls, scheme.Signs call)
    (hSmall : ∀ call ∈ calls, call.Small) :
    RecordsHistory scheme (Run.final Message.perform .fresh calls)
      (Run.accepted Message.perform .fresh calls) := by
  refine Run.history_of_step _ ?_ recordsHistory_fresh
  intro s past call s' hCall hRecs
  exact recordsHistory_step hRecs ⟨hSigns call hCall, hSmall call hCall⟩

theorem RecordsHistory.not_slashable {past : List Message}
    (hRecs : RecordsHistory scheme db past) {a b : Message} (hFst : a ∈ past)
    (hSnd : b ∈ past) : ¬Slashable a b := by
  intro hSlashable
  have hFstStored := hRecs.stored a hFst
  have hSndStored := hRecs.stored b hSnd
  cases hSlashable with
  | doubleProposal hRoots =>
    have hEq := eq_of_key_eq hFstStored hSndStored rfl
    exact hRoots (congrArg SignedBlock.signingRoot hEq)
  | doubleVote hRoots =>
    have hEq := eq_of_key_eq hFstStored hSndStored rfl
    exact hRoots (congrArg SignedAttestation.signingRoot hEq)
  | surrounding hSur => exact hRecs.apart a hFst b hSnd hSur
  | surrounded hSur => exact hRecs.apart b hSnd a hFst hSur

/-
  With a database created empty, no two requests that are ever granted form a slashable pair, and a
  granted request is granted again whenever it is repeated.
-/
theorem accepted_not_slashable (scheme : SigningScheme Block Vote) (calls : List Message)
    (hSigns : ∀ call ∈ calls, scheme.Signs call) (hSmall : ∀ call ∈ calls, call.Small) :
    (∀ first ∈ Run.accepted Message.perform .fresh calls,
      ∀ second ∈ Run.accepted Message.perform .fresh calls, ¬Slashable first second) ∧
    (∀ before call later, calls = before ++ call :: later →
      call ∈ Run.accepted Message.perform .fresh before →
        ∃ after, call.perform (Run.final Message.perform .fresh before) = .ok after) := by
  constructor
  · intro first hFst second hSnd
    exact (recordsHistory_final hSigns hSmall).not_slashable hFst hSnd
  · intro before call later hSplit hAccepted
    have hPre : ∀ x ∈ before, x ∈ calls := by
      intro x hx
      rw [hSplit]
      exact mem_append_left _ hx
    have hRecs : RecordsHistory scheme (Run.final Message.perform .fresh before)
        (Run.accepted Message.perform .fresh before) := recordsHistory_final (fun x hx =>
          hSigns x (hPre x hx))
        (fun x hx =>
          hSmall x (hPre x hx))
    exact perform_stored (hRecs.stored call hAccepted) (fun _ => hRecs.slot_nonneg) (fun _ =>
      hRecs.sourceEpoch_nonneg)

/- Two votes of which the first surrounds the second. -/
def nestedVotes : SigningScheme Unit Bool where
  slot _ := 5
  sourceEpoch outer := if outer then 1 else 2
  targetEpoch outer := if outer then 4 else 3
  blockRoot _ := "0xb0"
  voteRoot outer := if outer then "0xa1" else "0xa2"
  blockRoot_injective := Function.injective_of_subsingleton _
  voteRoot_injective := by
    intro first second hRoots
    cases first <;> cases second <;> simp_all

/- Requests for the two votes and for a block. -/
def nestedCalls : List Message :=
  [.attestation "0x01" 1 4 (some "0xa1"), .attestation "0x01" 2 3 (some "0xa2"),
    .blockProposal "0x01" 5 (some "0xb0")]

theorem accepted_not_slashable_nestedVotes : Run.accepted Message.perform .fresh nestedCalls =
        [.attestation "0x01" 1 4 (some "0xa1"), .blockProposal "0x01" 5 (some "0xb0")] ∧
      ∀ first ∈ Run.accepted Message.perform .fresh nestedCalls,
        ∀ second ∈ Run.accepted Message.perform .fresh nestedCalls, ¬Slashable first second := by
  refine ⟨rfl, ?_⟩
  refine (accepted_not_slashable nestedVotes nestedCalls ?_ ?_).1
  · intro call hCall
    simp only [nestedCalls, mem_cons, not_mem_nil, or_false] at hCall
    rcases hCall with rfl | rfl | rfl
    · exact ⟨true, rfl, rfl, rfl⟩
    · exact ⟨false, rfl, rfl, rfl⟩
    · exact ⟨(), rfl, rfl⟩
  · intro call hCall
    simp only [nestedCalls, mem_cons, not_mem_nil, or_false] at hCall
    rcases hCall with rfl | rfl | rfl
    · exact ⟨by decide, by decide⟩
    · exact ⟨by decide, by decide⟩
    · exact (by decide : (5 : UInt64).toNat < 2 ^ 63)

end Pharos.Slashing
