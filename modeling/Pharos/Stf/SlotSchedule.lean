import Pharos.Stf.ForkedSlots

/-
  This file compares the advance of a state with the schedule of the forks: which fork a slot
  belongs to, and what has to run on the way to a later slot.

  The first slot of a fork is computed with saturation. A fork whose first slot is no word of 64
  bits is thereby taken to start at the largest slot there is.

  Main theorems:
  * `ForkedSlots.runsAsScheduled_iff`
-/

----
-- The Schedule
----

namespace Pharos.Stf.ForkedSlots

open Word List

section

variable (E : SlotPreset) (epochs : ForkEpochs)

def Started (fork : ForkVariant) (slot : Slot) : Prop :=
  epochs.epochOf fork ≠ maxValue ∧ epochs.epochOf fork ≤ slot / E.slotsPerEpoch
deriving Decidable

def forkVariantAtSlot (slot : Slot) : ForkVariant :=
  if Started E epochs .fulu slot then .fulu
  else if Started E epochs .electra slot then .electra
  else if Started E epochs .deneb slot then .deneb
  else if Started E epochs .capella slot then .capella
  else if Started E epochs .bellatrix slot then .bellatrix
  else if Started E epochs .altair slot then .altair
  else .phase0

/- A word, after another one or the one for never. -/
def Later (first second : Epoch) : Prop :=
  (first < second ∨ second = maxValue) ∧ second ≤ maxValue

/- The epochs increase strictly, up to those that never come. -/
structure ForkEpochs.Increasing (epochs : ForkEpochs) : Prop where
  bellatrix : Later epochs.altair epochs.bellatrix
  capella : Later epochs.bellatrix epochs.capella
  deneb : Later epochs.capella epochs.deneb
  electra : Later epochs.deneb epochs.electra
  fulu : Later epochs.electra epochs.fulu

abbrev upgradeForks : List ForkVariant :=
  laterForks .phase0

variable {E epochs} {fork : ForkVariant} {slot : Slot}

theorem started_iff : Started E epochs fork slot ↔
      epochs.epochOf fork ≠ maxValue ∧ epochs.epochOf fork * E.slotsPerEpoch ≤ slot := by
  unfold Started
  rw [Nat.le_div_iff_mul_le E.pos]

theorem Started.mono {later : Slot} (hStarted : Started E epochs fork slot)
    (hLe : slot ≤ later) : Started E epochs fork later :=
  ⟨hStarted.1, hStarted.2.trans (Nat.div_le_div_right hLe)⟩

theorem Started.of_later {a b : ForkVariant}
    (hLater : Later (epochs.epochOf a) (epochs.epochOf b))
    (hStarted : Started E epochs b slot) : Started E epochs a slot := by
  rcases hLater with ⟨hLess | hNever, hWord⟩
  · refine ⟨?_, hLess.le.trans hStarted.2⟩
    exact (hLess.trans_le hWord).ne
  · exact absurd hNever hStarted.1

instance : Trans Later Later Later where
  trans := by
    intro first second third hFirst hSecond
    unfold Later at *
    grind

theorem ForkEpochs.Increasing.pairwise (hInc : epochs.Increasing) :
    (upgradeForks.map epochs.epochOf).Pairwise Later := by
  apply isChain_iff_pairwise.mp
  rcases hInc with ⟨hBellatrix, hCapella, hDeneb, hElectra, hFulu⟩
  simp [laterForks, ForkEpochs.epochOf, hBellatrix, hCapella, hDeneb, hElectra, hFulu]

variable (E)

section

variable (hInc : epochs.Increasing)
include hInc

theorem laterForks_forkVariantAtSlot (slot : Slot) :
    laterForks (forkVariantAtSlot E epochs slot) =
      upgradeForks.filter fun fork => ¬Started E epochs fork slot := by
  have hElectra := @Started.of_later E epochs slot .electra .fulu hInc.fulu
  have hDeneb := @Started.of_later E epochs slot .deneb .electra hInc.electra
  have hCapella := @Started.of_later E epochs slot .capella .deneb hInc.deneb
  have hBellatrix := @Started.of_later E epochs slot .bellatrix .capella hInc.capella
  have hAltair := @Started.of_later E epochs slot .altair .bellatrix hInc.bellatrix
  unfold forkVariantAtSlot upgradeForks
  split_ifs <;> simp_all [laterForks]

theorem pairwise_later_laterForks (slot : Slot) :
    ((laterForks (forkVariantAtSlot E epochs slot)).map epochs.epochOf).Pairwise Later := by
  rw [laterForks_forkVariantAtSlot E hInc]
  exact List.Pairwise.sublist (filter_sublist.map epochs.epochOf) hInc.pairwise

theorem not_started_of_mem_laterForks
    (hMem : fork ∈ laterForks (forkVariantAtSlot E epochs slot)) :
    ¬Started E epochs fork slot := by
  rw [laterForks_forkVariantAtSlot E hInc] at hMem
  exact of_decide_eq_true (mem_filter.mp hMem).2

end

variable {E} in
theorem not_started_of_later {next : ForkVariant}
    (hLater : Later (epochs.epochOf next) (epochs.epochOf fork))
    (hNext : ¬Started E epochs next slot) : ¬Started E epochs fork (slot + 1) := by
  intro hFork
  apply hNext
  rw [started_iff] at hFork ⊢
  rcases hLater with ⟨hLess | hNever, hWord⟩
  · have hEpochs : (epochs.epochOf next + 1) * E.slotsPerEpoch ≤
        epochs.epochOf fork * E.slotsPerEpoch := Nat.mul_le_mul_right _ hLess
    have hPos := E.pos
    exact ⟨(hLess.trans_le hWord).ne, by grind⟩
  · exact absurd hNever hFork.1

def startingAfter (epochs : ForkEpochs) (slot : Slot) : List ForkVariant :=
  upgradeForks.filter fun fork =>
    ¬Started E epochs fork slot ∧ Started E epochs fork (slot + 1)

def forksCrossed (epochs : ForkEpochs) (start target : Slot) : List ForkVariant :=
  upgradeForks.filter fun fork =>
    ¬Started E epochs fork start ∧ Started E epochs fork target

theorem filter_not_eq_append {Item : Type} {early late : Item → Prop} [DecidablePred early]
    [DecidablePred late] (hMono : ∀ item, early item → late item) {ys : List Item}
    (hOrder : ys.Pairwise fun a b => late b → late a) :
    ys.filter (¬early ·) = ys.filter (fun item => ¬early item ∧ late item) ++
      ys.filter (¬late ·) := by
  induction hOrder with
  | nil => rfl
  | @cons item xs hFst _ ih =>
    by_cases hLate : late item
    · by_cases hEarly : early item
      all_goals simpa [hLate, hEarly] using ih
    · have hNone : xs.filter (fun item => !early item && late item) = [] := by
        simpa using fun x hx _ hThere => hLate (hFst x hx hThere)
      have hEarly : ¬early item := fun hEarly => hLate (hMono item hEarly)
      simpa [hLate, hEarly, hNone] using ih

/- Of the forks that are still to come, the oldest start first. -/
theorem laterForks_eq_append (hInc : epochs.Increasing) {later : Slot} (hLe : slot ≤ later) :
    laterForks (forkVariantAtSlot E epochs slot) = forksCrossed E epochs slot later ++
      laterForks (forkVariantAtSlot E epochs later) := by
  rw [laterForks_forkVariantAtSlot E hInc, laterForks_forkVariantAtSlot E hInc]
  apply filter_not_eq_append
  · exact fun fork hStarted => hStarted.mono hLe
  · exact (pairwise_map.mp hInc.pairwise).imp Started.of_later

theorem laterForks_injective : Function.Injective laterForks := by
  intro a b hEq
  cases a <;> cases b <;> trivial

theorem next_slot (hInc : epochs.Increasing) (slot : Slot) :
    ((∀ next ∈ nextFork (forkVariantAtSlot E epochs slot), ¬Started E epochs next (slot + 1)) ∧
      forkVariantAtSlot E epochs (slot + 1) = forkVariantAtSlot E epochs slot ∧
      startingAfter E epochs slot = []) ∨
    ∃ next, nextFork (forkVariantAtSlot E epochs slot) = some next ∧
      Started E epochs next (slot + 1) ∧
      forkVariantAtSlot E epochs (slot + 1) = next ∧
      startingAfter E epochs slot = [next] := by
  have hSplit : _ = startingAfter E epochs slot ++ _ :=
    laterForks_eq_append E hInc (Nat.le_succ slot)
  cases hStarting : startingAfter E epochs slot with
  | nil =>
    left
    rw [hStarting, nil_append] at hSplit
    refine ⟨?_, (laterForks_injective hSplit).symm, rfl⟩
    intro next hNext
    apply not_started_of_mem_laterForks E hInc
    rw [← hSplit]
    exact mem_of_head? hNext
  | cons next more =>
    right
    have hStarts : ∀ fork ∈ next :: more,
        ¬Started E epochs fork slot ∧ Started E epochs fork (slot + 1) := by
      intro fork hFork
      rw [← hStarting] at hFork
      exact of_decide_eq_true (mem_filter.mp hFork).2
    have hPairwise := pairwise_later_laterForks E hInc slot
    rw [hStarting, cons_append] at hSplit
    rw [hSplit, map_cons, pairwise_cons, forall_mem_map] at hPairwise
    have hOne : more = [] := by
      apply eq_nil_iff_forall_not_mem.mpr
      intro fork hFork
      apply not_started_of_later (hPairwise.1 fork (mem_append_left _ hFork))
        (hStarts next mem_cons_self).1
      exact (hStarts fork (mem_cons_of_mem next hFork)).2
    rw [hOne, nil_append] at hSplit
    refine ⟨next, ?_, (hStarts next mem_cons_self).2, ?_, by rw [hOne]⟩
    · rw [nextFork, hSplit, head?_cons]
    · exact (laterForks_injective (laterForks_next hSplit)).symm

end

----
-- What Has Run
----

section

open Outcome

/- A function of a fork, and the slot of its state. -/
inductive Event where
  | processSlot (variant : ForkVariant) (slot : Slot)
  | processEpoch (variant : ForkVariant) (slot : Slot)
  | upgrade (fork : ForkVariant) (slot : Slot)
deriving DecidableEq, Repr

def epochsRun (log : List Event) : List (ForkVariant × Slot) :=
  log.filterMap fun event =>
    match event with
    | .processEpoch variant slot => some (variant, slot)
    | _ => none

def upgradesRun (log : List Event) : List (ForkVariant × Slot) :=
  log.filterMap fun event =>
    match event with
    | .upgrade fork slot => some (fork, slot)
    | _ => none

variable {S Error : Type}

/- The functions of the forks, with a log of their calls. -/
def logged (rules : SlotRules S Error) : SlotRules (S × List Event) Error where
  slot entry := rules.slot entry.1
  setSlot target entry := (rules.setSlot target entry.1, entry.2)
  forkVariant entry := rules.forkVariant entry.1
  processSlot variant entry :=
    (rules.processSlot variant entry.1).map fun after =>
      (after, entry.2 ++ [.processSlot variant (rules.slot entry.1)])
  processEpoch variant entry :=
    (rules.processEpoch variant entry.1).map fun after =>
      (after, entry.2 ++ [.processEpoch variant (rules.slot entry.1)])
  upgradeTo variant entry :=
    (rules.upgradeTo variant entry.1).map fun after =>
      (after, entry.2 ++ [.upgrade variant (rules.slot entry.1)])
  targetSlotNotAfterCurrent := rules.targetSlotNotAfterCurrent
  setSlot_keeps target entry := rules.setSlot_keeps target entry.1
  processSlot_keeps := by
    intro variant entry after hOk
    rcases map_ok_iff.mp hOk with ⟨value, hValue, rfl⟩
    exact rules.processSlot_keeps hValue
  processEpoch_keeps := by
    intro variant entry after hOk
    rcases map_ok_iff.mp hOk with ⟨value, hValue, rfl⟩
    exact rules.processEpoch_keeps hValue
  upgradeTo_sets := by
    intro variant entry after hOk
    rcases map_ok_iff.mp hOk with ⟨value, hValue, rfl⟩
    exact rules.upgradeTo_sets hValue

variable (rules : SlotRules S Error) (E : SlotPreset) (epochs : ForkEpochs)

/- What one round of the loop of a fork adds to the log. -/
def advanceEvents (variant : ForkVariant) (slot : Slot) : List Event :=
  .processSlot variant slot ::
    if (slot + 1) % E.slotsPerEpoch = 0 then [.processEpoch variant slot] else []

theorem advanceSlot_logged (variant : ForkVariant) (s : S) (log : List Event) :
    advanceSlot (logged rules) E variant (s, log) =
      (advanceSlot rules E variant s).map fun s' =>
        (s', log ++ advanceEvents E variant (rules.slot s)) := by
  cases hFst : rules.processSlot variant s with
  | error error => simp [advanceSlot, logged, hFst, Except.map, bind, Except.bind]
  | ok a =>
    have hSlot := (rules.processSlot_keeps hFst).1
    cases hSnd : rules.processEpoch variant a <;>
      by_cases hEnd : (rules.slot s + 1) % E.slotsPerEpoch = 0 <;>
        simp [advanceSlot, logged, hFst, Except.map, bind, Except.bind, processEpochAtEnd,
          hSlot, hSnd, hEnd, advanceEvents]

def scheduledEvents (slot : Slot) : List Event :=
  advanceEvents E (forkVariantAtSlot E epochs slot) slot ++
    (startingAfter E epochs slot).map fun fork =>
      .upgrade fork (slot + 1)

/- No fork is taken to start at a slot only by saturation. -/
def Unsaturated (slot : Slot) : Prop :=
  slot < maxValue ∨ ∀ fork, epochs.epochOf fork = maxValue ∨
    epochs.epochOf fork * E.slotsPerEpoch ≤ maxValue

variable {E epochs} {slot : Slot}

/- Where nothing saturates, a fork is due when it starts. -/
theorem boundaryOf_eq_iff {fork : ForkVariant} (hWord : slot + 1 ≤ maxValue)
    (hUnsat : Unsaturated E epochs (slot + 1))
    (hNot : ¬Started E epochs fork slot) :
    boundaryOf E (epochs.epochOf fork) = some (slot + 1) ↔ Started E epochs fork (slot + 1) := by
  rw [started_iff] at hNot ⊢
  unfold boundaryOf
  by_cases hNever : epochs.epochOf fork = maxValue
  · simp [hNever]
  · unfold satMul clamp
    have hFits : slot + 1 < maxValue ∨ epochs.epochOf fork * E.slotsPerEpoch ≤ maxValue := by
      rcases hUnsat with hSmall | hAll
      · exact .inl hSmall
      · exact .inr ((hAll fork).resolve_left hNever)
    constructor
    · intro hDue
      exact ⟨hNever, by grind⟩
    · grind

variable (E) in
theorem upgrade_cases (hInc : epochs.Increasing) (hWord : slot + 1 ≤ maxValue)
    (hUnsat : Unsaturated E epochs (slot + 1)) :
    (startingAfter E epochs slot = [] ∧
      forkVariantAtSlot E epochs (slot + 1) = forkVariantAtSlot E epochs slot ∧
      ∀ {S : Type} (rules : SlotRules S Error) {s},
        rules.forkVariant s = forkVariantAtSlot E epochs slot → rules.slot s = slot + 1 →
          upgradeIfDue rules E epochs s = .ok s) ∨
    ∃ next, startingAfter E epochs slot = [next] ∧ forkVariantAtSlot E epochs (slot + 1) = next ∧
      ∀ {S : Type} (rules : SlotRules S Error) {s},
        rules.forkVariant s = forkVariantAtSlot E epochs slot → rules.slot s = slot + 1 →
          upgradeIfDue rules E epochs s = rules.upgradeTo next s := by
  have hDue : ∀ next ∈ nextFork (forkVariantAtSlot E epochs slot),
      (boundaryOf E (epochs.epochOf next) = some (slot + 1) ↔
        Started E epochs next (slot + 1)) := by
    intro next hNext
    apply boundaryOf_eq_iff hWord hUnsat
    apply not_started_of_mem_laterForks E hInc
    exact mem_of_head? hNext
  rcases next_slot E hInc slot with ⟨hNot, hEq, hNone⟩ | ⟨next, hNext, hStarts, hThen, hOne⟩
  · left
    refine ⟨hNone, hEq, ?_⟩
    intro S rules s hFork hSlot
    apply upgradeIfDue_of_ne
    rw [hFork, hSlot]
    intro next hNext hBoundary
    exact hNot next hNext ((hDue next hNext).mp hBoundary)
  · right
    refine ⟨next, hOne, hThen, ?_⟩
    intro S rules s hFork hSlot
    apply upgradeIfDue_of_eq
    · rw [hFork, hNext]
    · rw [hSlot, (hDue next hNext).mpr hStarts]

def OnSchedule (rules : SlotRules S Error) (E : SlotPreset) (epochs : ForkEpochs)
    (state : S) : Prop :=
  rules.forkVariant state = forkVariantAtSlot E epochs (rules.slot state)

variable {rules}

theorem onSchedule_stepSlot (hInc : epochs.Increasing) {s s' : S}
    (hWord : rules.slot s + 1 ≤ maxValue)
    (hUnsat : Unsaturated E epochs (rules.slot s + 1))
    (hSched : OnSchedule rules E epochs s)
    (hOk : stepSlot rules E epochs s = .ok s') :
    rules.slot s' = rules.slot s + 1 ∧ OnSchedule rules E epochs s' := by
  unfold OnSchedule at hSched ⊢
  rcases bind_ok_iff.mp hOk with ⟨a, hFst, hxs⟩
  rcases advanceSlot_ok hFst with ⟨hSlot, hVariant⟩
  rw [hSched] at hVariant
  rcases upgrade_cases E hInc hWord hUnsat with ⟨-, hEq, hKeep⟩ | ⟨next, -, hThen, hUpgrade⟩
  · rw [hKeep rules hVariant hSlot] at hxs
    rw [← Except.ok.inj hxs, hVariant, hSlot, hEq]
    exact ⟨rfl, rfl⟩
  · rw [hUpgrade rules hVariant hSlot] at hxs
    rcases rules.upgradeTo_sets hxs with ⟨hKept, hSet⟩
    rw [hSet, hKept, hSlot, hThen]
    exact ⟨rfl, rfl⟩

theorem stepSlot_logged (hInc : epochs.Increasing) {s : S} (log : List Event)
    (hWord : rules.slot s + 1 ≤ maxValue)
    (hUnsat : Unsaturated E epochs (rules.slot s + 1))
    (hSched : OnSchedule rules E epochs s) :
    stepSlot (logged rules) E epochs (s, log) =
      (stepSlot rules E epochs s).map fun s' =>
        (s', log ++ scheduledEvents E epochs (rules.slot s)) := by
  have hLogged : (logged rules).forkVariant (s, log) =
      forkVariantAtSlot E epochs (rules.slot s) := hSched
  unfold stepSlot
  rw [hLogged, hSched, advanceSlot_logged]
  cases hFst : advanceSlot rules E (forkVariantAtSlot E epochs (rules.slot s)) s with
  | error error => rfl
  | ok a =>
    rcases advanceSlot_ok hFst with ⟨hSlot, hVariant⟩
    rw [hSched] at hVariant
    rw [scheduledEvents, ← append_assoc]
    change upgradeIfDue (logged rules) E epochs (a, _) = (upgradeIfDue rules E epochs a).map _
    rcases upgrade_cases E hInc hWord hUnsat with ⟨hNone, -, hKeep⟩ | ⟨next, hOne, -, hUpgrade⟩
    · rw [hKeep rules hVariant hSlot, hNone]
      refine (hKeep (logged rules) (s := (a, _)) hVariant hSlot).trans ?_
      simp [Except.map]
    · rw [hUpgrade rules hVariant hSlot, hOne, ← hSlot]
      exact hUpgrade (logged rules) hVariant hSlot

theorem Unsaturated.mono {later : Slot} (hLater : Unsaturated E epochs later)
    (hLe : slot ≤ later) : Unsaturated E epochs slot := by
  rcases hLater with hSmall | hAll
  · exact .inl (hLe.trans_lt hSmall)
  · exact .inr hAll

theorem repeated_stepSlot (hInc : epochs.Increasing) {n : Nat} {s : S}
    (log : List Event) (hWord : rules.slot s + n ≤ maxValue)
    (hUnsat : Unsaturated E epochs (rules.slot s + n))
    (hSched : OnSchedule rules E epochs s) :
    (∀ s', repeated (stepSlot rules E epochs) n s = .ok s' →
      rules.slot s' = rules.slot s + n ∧ OnSchedule rules E epochs s') ∧
    repeated (stepSlot (logged rules) E epochs) n (s, log) =
      (repeated (stepSlot rules E epochs) n
        s).map fun s' =>
          (s', log ++ (List.range' (rules.slot s) n).flatMap (scheduledEvents E epochs)) := by
  induction n generalizing s log with
  | zero =>
    refine ⟨?_, ?_⟩
    · intro s' hOk
      cases hOk
      exact ⟨rfl, hSched⟩
    · simp [repeated, Except.map]
  | succ n ih =>
    have hLe : rules.slot s + 1 ≤ rules.slot s + (n + 1) := by
      grind
    have hHere := hUnsat.mono hLe
    have hNextWord := hLe.trans hWord
    rw [repeated, repeated, stepSlot_logged hInc log hNextWord hHere hSched]
    cases hNext : stepSlot rules E epochs s with
    | error error =>
      refine ⟨?_, rfl⟩
      intro s' hOk
      simp [bind, Except.bind] at hOk
    | ok next =>
      rcases onSchedule_stepSlot hInc hNextWord hHere hSched hNext with ⟨hSlot, hKept⟩
      have hSum : rules.slot next + n = rules.slot s + (n + 1) := by
        grind
      rw [← hSum] at hWord hUnsat ⊢
      rcases ih (log ++ scheduledEvents E epochs (rules.slot s)) hWord hUnsat hKept with
        ⟨hRun, hLog⟩
      refine ⟨hRun, hLog.trans ?_⟩
      rw [range'_succ, flatMap_cons, ← hSlot, append_assoc]
      rfl

variable (E epochs)

def epochEnds (start count : Nat) : List Slot :=
  (List.range' start count).filter fun slot =>
    (slot + 1) % E.slotsPerEpoch = 0

theorem epochsRun_scheduledEvents (slot : Slot) : epochsRun (scheduledEvents E epochs slot) =
      if (slot + 1) % E.slotsPerEpoch = 0 then [(forkVariantAtSlot E epochs slot, slot)]
      else [] := by
  unfold epochsRun scheduledEvents advanceEvents
  by_cases hEnd : (slot + 1) % E.slotsPerEpoch = 0
  · simp [hEnd]
  · simp [hEnd]

theorem epochsRun_schedule (s₀ n : Nat) :
    epochsRun ((List.range' s₀ n).flatMap (scheduledEvents E epochs)) =
      (epochEnds E s₀ n).map fun slot =>
        (forkVariantAtSlot E epochs slot, slot) := by
  unfold epochEnds
  induction List.range' s₀ n with
  | nil => rfl
  | cons slot xs ih =>
    rw [flatMap_cons, epochsRun, filterMap_append, ← epochsRun, ← epochsRun, ih,
      epochsRun_scheduledEvents, filter_cons]
    by_cases hEnd : (slot + 1) % E.slotsPerEpoch = 0
    · simp [hEnd]
    · simp [hEnd]

theorem upgradesRun_scheduledEvents (slot : Slot) :
    upgradesRun (scheduledEvents E epochs slot) =
      (startingAfter E epochs slot).map fun fork => (fork, slot + 1) := by
  unfold upgradesRun scheduledEvents advanceEvents
  by_cases hEnd : (slot + 1) % E.slotsPerEpoch = 0
  · simp [hEnd, filterMap_map]
  · simp [hEnd, filterMap_map]

variable {epochs}

theorem forksCrossed_succ (hInc : epochs.Increasing) {s₀ : Slot} (hLe : s₀ ≤ slot) :
    forksCrossed E epochs s₀ (slot + 1) =
      forksCrossed E epochs s₀ slot ++ startingAfter E epochs slot := by
  apply append_cancel_right
  rw [← laterForks_eq_append E hInc (hLe.trans (Nat.le_succ slot)),
    laterForks_eq_append E hInc hLe, append_assoc]
  congr 1
  exact laterForks_eq_append E hInc (Nat.le_succ slot)

theorem upgradesRun_schedule (hInc : epochs.Increasing) (s₀ n : Nat) :
    upgradesRun ((List.range' s₀ n).flatMap (scheduledEvents E epochs)) =
      (forksCrossed E epochs s₀
        (s₀ + n)).map fun fork => (fork, epochs.epochOf fork * E.slotsPerEpoch) := by
  induction n with
  | zero =>
    have hNone : forksCrossed E epochs s₀ (s₀ + 0) = [] := by
      unfold forksCrossed
      simp
    rw [hNone]
    rfl
  | succ n ih =>
    rw [range'_1_concat, flatMap_append, upgradesRun, filterMap_append, ←
      upgradesRun, ih, ← Nat.add_assoc, forksCrossed_succ E hInc
      (Nat.le_add_right s₀ n), map_append, flatMap_singleton, ← upgradesRun,
      upgradesRun_scheduledEvents]
    congr 1
    apply map_congr_left
    intro fork hFork
    have hStarts := of_decide_eq_true (mem_filter.mp hFork).2
    rw [started_iff, started_iff] at hStarts
    rw [Prod.mk.injEq]
    exact ⟨rfl, by grind⟩

end

----
-- The Advance and the Schedule
----

open Outcome

/- No function of a fork fails. -/
structure NeverFails {S Error : Type} (rules : SlotRules S Error) : Prop where
  processSlot : ∀ variant state, ∃ after, rules.processSlot variant state = .ok after
  processEpoch : ∀ variant state, ∃ after, rules.processEpoch variant state = .ok after
  upgradeTo : ∀ variant state, ∃ after, rules.upgradeTo variant state = .ok after

def RunsAsScheduled (E : SlotPreset) (epochs : ForkEpochs) (start target : Slot) : Prop :=
  ∀ (S Error : Type) (rules : SlotRules S Error) (state : S), rules.slot state = start →
    OnSchedule rules E epochs state →
      (NeverFails rules → ∃ after, processSlotsFork rules E epochs state target = .ok after) ∧
      (∀ after, processSlotsFork rules E epochs state target = .ok after →
        rules.slot after = target ∧
        rules.forkVariant after = forkVariantAtSlot E epochs target) ∧
      (∃ log,
        processSlotsFork (logged rules) E epochs (state, []) target =
          (processSlotsFork rules E epochs state target).map (·, log) ∧
        epochsRun log = (epochEnds E start (target - start)).map (fun slot =>
              (forkVariantAtSlot E epochs slot, slot)) ∧
        upgradesRun log = (forksCrossed E epochs start target).map fun fork =>
              (fork, epochs.epochOf fork * E.slotsPerEpoch)) ∧
      ∀ middle, start ≤ middle → middle ≤ target →
        (processSlotsFork rules E epochs state middle >>=
          fun halfway =>
            processSlotsFork rules E epochs halfway target) =
          processSlotsFork rules E epochs state target

variable {S Error : Type} {rules : SlotRules S Error}
variable {E : SlotPreset} {epochs : ForkEpochs}
variable (E) in
theorem NeverFails.advanceSlot (hRules : NeverFails rules) (variant : ForkVariant) (s : S) :
    ∃ s', advanceSlot rules E variant s = .ok s' := by
  rcases hRules.processSlot variant s with ⟨a, hFst⟩
  have hEp : ∃ b, processEpochAtEnd rules E variant a = .ok b := by
    unfold processEpochAtEnd
    split
    · exact hRules.processEpoch variant a
    · exact ⟨a, rfl⟩
  rcases hEp with ⟨b, hSnd⟩
  exact ⟨_, bind_ok_iff.mpr ⟨a, hFst, bind_ok_iff.mpr ⟨b, hSnd, rfl⟩⟩⟩

variable (E epochs) in
theorem NeverFails.stepSlot (hRules : NeverFails rules) (s : S) :
    ∃ s', stepSlot rules E epochs s = .ok s' := by
  rcases hRules.advanceSlot E (rules.forkVariant s) s with ⟨a, hFst⟩
  have hUpgrade : ∃ b, upgradeIfDue rules E epochs a = .ok b := by
    unfold upgradeIfDue
    split
    · exact ⟨a, rfl⟩
    · split
      · exact hRules.upgradeTo _ a
      · exact ⟨a, rfl⟩
  rcases hUpgrade with ⟨b, hSnd⟩
  exact ⟨b, bind_ok_iff.mpr ⟨a, hFst, hSnd⟩⟩

theorem runsAsScheduled_of_unsaturated (hInc : epochs.Increasing) {s₀ tgt : Slot}
    (hLess : s₀ < tgt) (hWord : tgt ≤ maxValue)
    (hUnsat : Unsaturated E epochs tgt) :
    RunsAsScheduled E epochs s₀ tgt := by
  intro S Error rules s hStart hSched
  have hLe : rules.slot s ≤ tgt := by
    rw [hStart]
    exact hLess.le
  have hSum : rules.slot s + (tgt - s₀) = tgt := by
    grind
  rcases repeated_stepSlot hInc [] (hSum.le.trans hWord) (hSum.symm ▸ hUnsat) hSched
    with ⟨hRun, hLog⟩
  have hSteps := processSlotsFork_eq rules E epochs hLe
  have hLoggedSteps : processSlotsFork (logged rules) E epochs (s, []) tgt =
      repeated (stepSlot (logged rules) E epochs) (tgt - rules.slot s) (s, []) :=
      processSlotsFork_eq (logged rules) E epochs hLe
  rw [hStart] at hRun hLog hSteps hLoggedSteps
  refine ⟨?_, ?_, ?_, ?_⟩
  · intro hRules
    rw [hSteps]
    exact repeated_succeeds (hRules.stepSlot E epochs) _ s
  · intro s' hPost
    rw [hSteps] at hPost
    rcases hRun s' hPost with ⟨hSlot, hFork⟩
    have hThere : rules.slot s' = tgt := by
      grind
    refine ⟨hThere, ?_⟩
    rw [← hThere]
    exact hFork
  · refine ⟨(List.range' s₀ (tgt - s₀)).flatMap (scheduledEvents E epochs), ?_, ?_, ?_⟩
    · rw [hLoggedSteps, hSteps, hLog, nil_append]
    · exact epochsRun_schedule E epochs s₀ _
    · rw [upgradesRun_schedule E hInc, Nat.add_sub_cancel' hLess.le]
  · intro mid hFrom hTo
    exact processSlotsFork_bind (hStart.trans_le hFrom) hTo

def slotCounter : SlotRules (Slot × ForkVariant) Unit where
  slot state := state.1
  setSlot target state := (target, state.2)
  forkVariant state := state.2
  processSlot _ state := .ok state
  processEpoch _ state := .ok state
  upgradeTo variant state := .ok (state.1, variant)
  targetSlotNotAfterCurrent _ _ := ()
  setSlot_keeps _ _ := ⟨rfl, rfl⟩
  processSlot_keeps := by
    rintro _ state _ ⟨⟩
    exact ⟨rfl, rfl⟩
  processEpoch_keeps := by
    rintro _ state _ ⟨⟩
    exact ⟨rfl, rfl⟩
  upgradeTo_sets := by
    rintro _ state _ ⟨⟩
    exact ⟨rfl, rfl⟩

theorem neverFails_slotCounter : NeverFails slotCounter where
  processSlot _ s := ⟨s, rfl⟩
  processEpoch _ s := ⟨s, rfl⟩
  upgradeTo variant s := ⟨(s.1, variant), rfl⟩

theorem saturated_next (hInc : epochs.Increasing) {last : Slot} {fork : ForkVariant}
    (hLast : last + 1 = maxValue) (hFork : epochs.epochOf fork ≠ maxValue)
    (hBeyond : last + 1 < epochs.epochOf fork * E.slotsPerEpoch) :
    ∃ next, nextFork (forkVariantAtSlot E epochs last) = some next ∧
      boundaryOf E (epochs.epochOf next) = some (last + 1) ∧
      ¬Started E epochs next (last + 1) := by
  have hTable : fork ∈ upgradeForks := by
    cases fork with
    | phase0 =>
      rw [ForkEpochs.epochOf, genesisEpoch, Nat.zero_mul] at hBeyond
      exact absurd hBeyond (Nat.not_lt_zero _)
    | _ => decide
  have hLater : fork ∈ laterForks (forkVariantAtSlot E epochs last) := by
    rw [laterForks_forkVariantAtSlot E hInc, mem_filter]
    refine ⟨hTable, decide_eq_true ?_⟩
    rw [started_iff]
    grind
  have hPairwise := pairwise_later_laterForks E hInc last
  unfold nextFork
  cases hForks : laterForks (forkVariantAtSlot E epochs last) with
  | nil =>
    rw [hForks] at hLater
    exact nomatch hLater
  | cons next later =>
    have hFst : ¬Started E epochs next last := by
      apply not_started_of_mem_laterForks E hInc
      rw [hForks]
      exact mem_cons_self
    rw [hForks] at hLater hPairwise
    have hScheduled : epochs.epochOf next ≠ maxValue := by
      rw [map_cons, pairwise_cons, forall_mem_map] at hPairwise
      rcases mem_cons.mp hLater with hEq | hMem
      · rw [← hEq]
        exact hFork
      · have hPost := hPairwise.1 fork hMem
        unfold Later at hPost
        grind
    -- The largest slot is odd, and no epoch starts there.
    have hPast : last + 1 < epochs.epochOf next * E.slotsPerEpoch := by
      have hEven : epochs.epochOf next * E.slotsPerEpoch % 2 = 0 := by
        rw [Nat.mul_mod, E.even]
        rfl
      have hOdd : maxValue % 2 = 1 := rfl
      rw [started_iff] at hFst
      grind
    refine ⟨next, rfl, ?_, ?_⟩
    · rw [boundaryOf, if_neg hScheduled, satMul, clamp, ← hLast, min_eq_right hPast.le]
    · rw [started_iff]
      grind

theorem not_runsAsScheduled_of_saturated (hInc : epochs.Increasing) {s₀ : Slot}
    (fork : ForkVariant) (hLess : s₀ < maxValue)
    (hFork : epochs.epochOf fork ≠ maxValue)
    (hBeyond : maxValue < epochs.epochOf fork * E.slotsPerEpoch) :
    ¬RunsAsScheduled E epochs s₀ maxValue := by
  intro hRuns
  rcases Nat.exists_eq_add_of_lt hLess with ⟨n, hCount⟩
  have hLast : s₀ + n + 1 = maxValue := hCount.symm
  rw [← hLast] at hBeyond
  rcases saturated_next hInc hLast hFork hBeyond with ⟨next, hNext, hDue, hNot⟩
  have hSched : OnSchedule slotCounter E epochs (s₀, forkVariantAtSlot E epochs s₀) := rfl
  have hSmall : s₀ + n < maxValue := by
    grind
  have hSteps := neverFails_slotCounter.stepSlot E epochs
  -- Up to the last slot but one, the state is on schedule.
  rcases repeated_succeeds hSteps n (s₀, forkVariantAtSlot E epochs s₀) with ⟨s, hPre⟩
  rcases (repeated_stepSlot hInc [] hSmall.le (.inl hSmall) hSched).1 s hPre with
    ⟨hSlot, hFork⟩
  rcases neverFails_slotCounter.advanceSlot E (slotCounter.forkVariant s) s with ⟨a, hFst⟩
  rcases advanceSlot_ok hFst with ⟨hThere, hVariant⟩
  unfold OnSchedule at hFork
  rw [hSlot] at hFork hThere
  -- There it is upgraded, though the fork has not started.
  have hUpgrade : upgradeIfDue slotCounter E epochs a = .ok (a.1, next) := by
    refine (upgradeIfDue_of_eq ?_ ?_).trans rfl
    · rw [hVariant, hFork]
      exact hNext
    · rw [hDue, hThere]
      rfl
  have hRun : processSlotsFork slotCounter E epochs (s₀,
      forkVariantAtSlot E epochs s₀) maxValue = .ok (a.1, next) := by
    have hCountSteps : maxValue - s₀ = n + 1 := by
      grind
    have hLe : s₀ ≤ maxValue := hLess.le
    refine (processSlotsFork_eq slotCounter E epochs hLe).trans ?_
    change repeated _ (maxValue - s₀) _ = _
    rw [hCountSteps, repeated_add, hPre]
    exact (repeated_one s).trans (bind_ok_iff.mpr ⟨a, hFst, hUpgrade⟩)
  have hPost : next = forkVariantAtSlot E epochs (s₀ + n + 1) := by
    rw [hLast]
    exact ((hRuns _ _ slotCounter _ rfl hSched).2.1 _ hRun).2
  rcases next_slot E hInc (s₀ + n) with ⟨_, hEq, _⟩ | ⟨x, hx, hStarts, _⟩
  · have hFewer := nextFork_eq_some hNext
    rw [hPost, hEq] at hFewer
    exact absurd hFewer (ne_of_lt (Nat.lt_succ_self _))
  · rw [hNext] at hx
    rw [← Option.some.inj hx] at hStarts
    exact hNot hStarts

/-
  The advance keeps to the schedule exactly when no fork is taken to start at the target only by
  saturation.
-/
theorem runsAsScheduled_iff (hIncreasing : epochs.Increasing) {start target : Slot}
    (hLess : start < target) (hWord : target ≤ maxValue) :
    RunsAsScheduled E epochs start target ↔ target < maxValue ∨ ∀ fork,
      epochs.epochOf fork = maxValue ∨
      epochs.epochOf fork * E.slotsPerEpoch ≤ maxValue := by
  constructor
  · intro hRuns
    by_contra hSaturated
    push Not at hSaturated
    rcases hSaturated with ⟨hLarge, fork, hFork, hBeyond⟩
    have hLast : target = maxValue := le_antisymm hWord hLarge
    rw [hLast] at hLess hRuns
    exact not_runsAsScheduled_of_saturated hIncreasing fork hLess hFork hBeyond hRuns
  · exact runsAsScheduled_of_unsaturated hIncreasing hLess hWord

def mainnetSlots : SlotPreset where
  slotsPerEpoch := 32
  pos := by omega
  even := rfl

def earlyForks : ForkEpochs where
  altair := 1
  bellatrix := 2
  capella := 3
  deneb := 4
  electra := 5
  fulu := 2 ^ 64 - 1

theorem increasing_earlyForks : earlyForks.Increasing := by
  constructor <;> simp [Later, earlyForks, maxValue]

theorem earlyForks_run_as_scheduled :
    earlyForks.Increasing ∧ RunsAsScheduled mainnetSlots earlyForks 30 200 := by
  refine ⟨increasing_earlyForks, ?_⟩
  apply (runsAsScheduled_iff increasing_earlyForks _ _).mpr
  · left
    simp [maxValue]
  · simp
  · simp [maxValue]

def unreachableFork : ForkEpochs where
  altair := 1
  bellatrix := 2
  capella := 3
  deneb := 4
  electra := 5
  fulu := 2 ^ 64 - 2

theorem unreachableFork_upgrades : unreachableFork.Increasing ∧
      ¬RunsAsScheduled mainnetSlots unreachableFork (2 ^ 64 - 2) (2 ^ 64 - 1) := by
  have hInc : unreachableFork.Increasing := by
    constructor <;> simp [Later, unreachableFork, maxValue]
  refine ⟨hInc, ?_⟩
  apply not_runsAsScheduled_of_saturated hInc .fulu
  · simp [maxValue]
  · simp [unreachableFork, ForkEpochs.epochOf, maxValue]
  · simp [unreachableFork, ForkEpochs.epochOf, maxValue, mainnetSlots]

end Pharos.Stf.ForkedSlots
