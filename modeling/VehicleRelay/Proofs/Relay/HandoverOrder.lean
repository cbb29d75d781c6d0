import VehicleRelay.Proofs.Relay.Handover

/-!
# The order of handovers

Values of one key are admitted in order, so no value is older than the ones before
it when it is handed over in the turn of its admission.  The only values that can
be handed over out of order are the ones that a get call holds back while newer
ones are handed over.
-/

namespace VehicleRelay

/-- How a handover comes about: a value is handed over by the step that admits it,
or kept by a round of a get call until an outcome of the get call is shown. -/
inductive Handover.Traced (steps : List RelayStep) : Handover → Prop
  | change {step : RelayStep} {values : List PropertyValue} {admitted : AdmittedValue}
      {number : Nat} :
      steps[number]? = some step → step.turn = .batchReceived values →
      admitted ∈ step.admitted → Traced steps ⟨admitted, none, number, number⟩
  | kept {source step : RelayStep} {round : GetRound} {admitted : AdmittedValue}
      {call admittedAt handedAt : Nat} :
      steps[admittedAt]? = some source → source.round? call = some round →
      admitted ∈ source.admitted → steps[handedAt]? = some step →
      step.shown.filterMap (RelayOutput.outcome? call) ≠ [] →
      Traced steps ⟨admitted, some call, admittedAt, handedAt⟩

namespace Handover.Traced

variable {steps : List RelayStep} {handover : Handover}

theorem admitted (traced : handover.Traced steps) :
    ∃ source, steps[handover.admittedAt]? = some source ∧
      handover.toAdmittedValue ∈ source.admitted := by
  cases traced with
  | change found turn member => exact ⟨_, found, member⟩
  | kept found round member => exact ⟨_, found, member⟩

end Handover.Traced

namespace Relay

variable {relay : Relay} {turns : List (RelayTurn × ClockReadings)}

theorem traced_of_mem_handovers {handover : Handover}
    (member : handover ∈ relay.handovers turns) : handover.Traced (relay.steps turns) := by
  obtain ⟨⟨step, number⟩, numbered, handed⟩ := List.mem_flatMap.mp member
  have found := List.mem_zipIdx_iff_getElem?.mp numbered
  have effect := (possible_of_mem_steps (List.mem_of_getElem? found)).effect
  obtain ⟨output, shows, handed⟩ := List.mem_flatMap.mp handed
  rcases RelayStep.cases_of_mem_handoversOf handed with
    ⟨event, admitted, rfl, admittedMember, rfl⟩ |
      ⟨call, outcome, source, admittedAt, round, admitted, rfl, sourceFound, answers,
        admittedMember, rfl⟩
  · obtain ⟨values, received, _⟩ := effect.received_of_changed shows
    exact .change found received admittedMember
  · have ended := List.ne_nil_of_mem (mem_outcomes shows)
    exact .kept sourceFound answers admittedMember found ended

theorem spares_of_lt {earlier later : RelayStep} {first second call : Nat}
    (firstFound : (relay.steps turns)[first]? = some earlier)
    (secondFound : (relay.steps turns)[second]? = some later) (before : first < second)
    (shows : earlier.shown.filterMap (RelayOutput.outcome? call) ≠ []) :
    later.Spares call := by
  obtain ⟨firstBound, rfl⟩ := List.getElem?_eq_some_iff.mp firstFound
  obtain ⟨secondBound, rfl⟩ := List.getElem?_eq_some_iff.mp secondFound
  exact List.pairwise_iff_getElem.mp (spares_steps relay turns call).2 first second
    firstBound secondBound before shows

/-- The outcome of a get call is shown by one step at most. -/
theorem number_eq_of_shows {earlier later : RelayStep} {first second call : Nat}
    (firstFound : (relay.steps turns)[first]? = some earlier)
    (secondFound : (relay.steps turns)[second]? = some later)
    (firstShows : earlier.shown.filterMap (RelayOutput.outcome? call) ≠ [])
    (secondShows : later.shown.filterMap (RelayOutput.outcome? call) ≠ []) :
    first = second := by
  rcases Nat.lt_trichotomy first second with before | same | after
  · exact absurd (spares_of_lt firstFound secondFound before firstShows).silent secondShows
  · exact same
  · exact absurd (spares_of_lt secondFound firstFound after secondShows).silent firstShows

theorem admittedAt_le_handedAt {handover : Handover}
    (traced : handover.Traced (relay.steps turns)) :
    handover.admittedAt ≤ handover.handedAt := by
  cases traced with
  | change => exact Nat.le_refl _
  | kept found round member handed shows =>
      apply Nat.le_of_not_lt
      intro after
      have spared := (spares_of_lt handed found after shows).round
      rw [round] at spared
      simp at spared

/-- What a step admits is handed over by one step at most. -/
theorem handedAt_eq_of_admittedAt_eq {first second : Handover}
    (firstTraced : first.Traced (relay.steps turns))
    (secondTraced : second.Traced (relay.steps turns))
    (same : first.admittedAt = second.admittedAt) : first.handedAt = second.handedAt := by
  cases firstTraced with
  | change found received =>
      cases secondTraced with
      | change => exact same
      | kept sourceFound round =>
          obtain rfl : _ = _ := same
          obtain rfl := Option.some.inj (found.symm.trans sourceFound)
          obtain ⟨_, _, answered, _⟩ := RelayStep.answered_of_round? round
          simp [answered] at received
  | kept sourceFound round member handed shows =>
      cases secondTraced with
      | change found received =>
          obtain rfl : _ = _ := same
          obtain rfl := Option.some.inj (found.symm.trans sourceFound)
          obtain ⟨_, _, answered, _⟩ := RelayStep.answered_of_round? round
          simp [answered] at received
      | kept otherFound otherRound otherMember otherHanded otherShows =>
          obtain rfl : _ = _ := same
          obtain rfl := Option.some.inj (sourceFound.symm.trans otherFound)
          obtain ⟨_, _, turn, _⟩ := RelayStep.answered_of_round? round
          obtain ⟨_, _, otherTurn, _⟩ := RelayStep.answered_of_round? otherRound
          obtain ⟨rfl, _⟩ := RelayTurn.getAnswered.inj (turn.symm.trans otherTurn)
          exact number_eq_of_shows handed otherHanded shows otherShows

/-- Values of one key that are admitted by different steps are admitted in order. -/
theorem precedes_of_admittedAt_lt {first second : Handover}
    (firstTraced : first.Traced (relay.steps turns))
    (secondTraced : second.Traced (relay.steps turns))
    (before : first.admittedAt < second.admittedAt) :
    first.toAdmittedValue.Precedes second.toAdmittedValue := by
  obtain ⟨earlier, earlierFound, firstMember⟩ := firstTraced.admitted
  obtain ⟨later, laterFound, secondMember⟩ := secondTraced.admitted
  obtain ⟨earlierBound, rfl⟩ := List.getElem?_eq_some_iff.mp earlierFound
  obtain ⟨laterBound, rfl⟩ := List.getElem?_eq_some_iff.mp laterFound
  exact List.pairwise_iff_getElem.mp (pairwise_admitted relay turns).2 _ _
    earlierBound laterBound before _ firstMember _ secondMember

end Relay

namespace Handover

/-- Neither the time of the source nor the local time goes back from the one
handover to the other. -/
def InOrder (earlier later : Handover) : Prop :=
  earlier.key = later.key →
    earlier.external ≤ later.external ∧ earlier.value.timestamp ≤ later.value.timestamp

/-- A get call held the later of two handovers back: the other value was admitted
after it, and handed over before it. -/
structure HeldBack (earlier later : Handover) : Prop where
  byCall : later.call.isSome
  admittedBefore : later.admittedAt < earlier.admittedAt
  admitted_le_handed : earlier.admittedAt ≤ earlier.handedAt
  handedAfter : earlier.handedAt < later.handedAt

/-- A value was held back while a newer one of its key was handed over. -/
structure Overtakes (earlier later : Handover) : Prop extends HeldBack earlier later where
  sameKey : earlier.key = later.key
  newer : later.external < earlier.external

instance (earlier later : Handover) : Decidable (earlier.InOrder later) :=
  inferInstanceAs (Decidable (_ → _))

instance (earlier later : Handover) : Decidable (earlier.Overtakes later) :=
  decidable_of_iff
    ((later.call.isSome ∧ later.admittedAt < earlier.admittedAt ∧
      earlier.admittedAt ≤ earlier.handedAt ∧ earlier.handedAt < later.handedAt) ∧
        earlier.key = later.key ∧ later.external < earlier.external)
    ⟨fun ⟨⟨byCall, before, handed, after⟩, sameKey, newer⟩ =>
      ⟨⟨byCall, before, handed, after⟩, sameKey, newer⟩,
    fun ⟨⟨byCall, before, handed, after⟩, sameKey, newer⟩ =>
      ⟨⟨byCall, before, handed, after⟩, sameKey, newer⟩⟩

end Handover

namespace Relay

variable {relay final : Relay} {turns : List (RelayTurn × ClockReadings)}
  {shown : List RelayOutput}

theorem shown_of_effect {step : RelayStep} (effect : step.Effect) :
    step.shown = [] ∨ ∃ output, step.shown = [output] := by
  cases effect with
  | @called _ progress turn start shown | @answered _ _ _ progress turn waiting resumed shown =>
      rw [shown]
      cases progress with
      | waiting getCall => exact .inl rfl
      | finished outcome => exact .inr ⟨_, rfl⟩
  | received turn restamped shown =>
      rw [shown, Callbacks.dispatch]
      split
      · exact .inl rfl
      · cases step.before.callbacks.change with
        | none => exact .inl rfl
        | some handler => exact .inr ⟨_, rfl⟩
  | quiet _ _ _ shown => exact .inl shown

/-- Each callback is given the values of one key in order. -/
theorem pairwise_handoversOf {step : RelayStep} (member : step ∈ relay.steps turns)
    (number : Nat) (output : RelayOutput) :
    (step.handoversOf (relay.steps turns) number output).Pairwise fun earlier later =>
      earlier.toAdmittedValue.Precedes later.toAdmittedValue := by
  obtain ⟨within, across⟩ := pairwise_admitted relay turns
  cases output with
  | changed event =>
      rw [RelayStep.handoversOf, RelayStep.handovers, List.pairwise_map]
      exact within step member
  | got call outcome =>
      rw [RelayStep.handoversOf]
      split
      · rw [List.pairwise_flatMap]
        constructor
        · rintro ⟨source, admittedAt⟩ numbered
          simp only
          split
          · rw [RelayStep.handovers, List.pairwise_map]
            exact within source (List.mem_of_getElem? (List.mem_zipIdx_iff_getElem?.mp numbered))
          · exact List.Pairwise.nil
        · rw [← List.zipIdx_map_fst 0 (relay.steps turns), List.pairwise_map] at across
          apply across.imp
          rintro ⟨source, _⟩ ⟨next, _⟩ order first firstKept second secondKept
          simp only at firstKept secondKept
          split at firstKept
          · split at secondKept
            · obtain ⟨_, firstMember, rfl⟩ := List.mem_map.mp firstKept
              obtain ⟨_, secondMember, rfl⟩ := List.mem_map.mp secondKept
              exact order _ firstMember _ secondMember
            · simp at secondKept
          · simp at firstKept
      · exact List.Pairwise.nil

theorem handedAt_of_mem_handoversOf {steps : List RelayStep} {step : RelayStep} {number : Nat}
    {output : RelayOutput} {handover : Handover}
    (member : handover ∈ step.handoversOf steps number output) :
    handover.handedAt = number := by
  rcases RelayStep.cases_of_mem_handoversOf member with
    ⟨_, _, _, _, rfl⟩ | ⟨_, _, _, _, _, _, _, _, _, _, rfl⟩
  · rfl
  · rfl

/-- Only a get call hands values over in a later turn than the one of their
admission. -/
theorem call_isSome_of_lt {steps : List RelayStep} {handover : Handover}
    (traced : handover.Traced steps) (held : handover.admittedAt < handover.handedAt) :
    handover.call.isSome := by
  cases traced with
  | change => exact absurd held (Nat.lt_irrefl _)
  | kept => rfl

/-- Of two handovers the later one follows the other as it was admitted, unless a
get call held it back. -/
theorem pairwise_handovers (relay : Relay) (turns : List (RelayTurn × ClockReadings)) :
    (relay.handovers turns).Pairwise fun earlier later =>
      earlier.toAdmittedValue.Precedes later.toAdmittedValue ∨
        earlier.HeldBack later ∧
          later.toAdmittedValue.Precedes earlier.toAdmittedValue := by
  rw [handovers, List.pairwise_flatMap]
  constructor
  · rintro ⟨step, number⟩ numbered
    have member : step ∈ relay.steps turns :=
      List.mem_of_getElem? (List.mem_zipIdx_iff_getElem?.mp numbered)
    have ordered := pairwise_handoversOf member number
    simp only
    rcases shown_of_effect (possible_of_mem_steps member).effect with none | ⟨output, one⟩
    · rw [none]
      exact List.Pairwise.nil
    · rw [one, List.flatMap_singleton]
      exact (ordered output).imp Or.inl
  · have ascending : ((relay.steps turns).zipIdx.map Prod.snd).Pairwise (· < ·) := by
      rw [List.zipIdx_map_snd]
      exact List.pairwise_lt_range'
    rw [List.pairwise_map] at ascending
    apply ascending.imp_of_mem
    rintro ⟨step, number⟩ ⟨next, nextNumber⟩ stepMember nextMember before first firstHanded
      second secondHanded
    have firstTraced := traced_of_mem_handovers
      (List.mem_flatMap.mpr ⟨_, stepMember, firstHanded⟩)
    have secondTraced := traced_of_mem_handovers
      (List.mem_flatMap.mpr ⟨_, nextMember, secondHanded⟩)
    obtain ⟨_, _, firstOutput⟩ := List.mem_flatMap.mp firstHanded
    obtain ⟨_, _, secondOutput⟩ := List.mem_flatMap.mp secondHanded
    have handedAfter : first.handedAt < second.handedAt := by
      rw [handedAt_of_mem_handoversOf firstOutput, handedAt_of_mem_handoversOf secondOutput]
      exact before
    rcases Nat.lt_trichotomy first.admittedAt second.admittedAt with inOrder | same | held
    · exact .inl (precedes_of_admittedAt_lt firstTraced secondTraced inOrder)
    · have together := handedAt_eq_of_admittedAt_eq firstTraced secondTraced same
      exact absurd together (Nat.ne_of_lt handedAfter)
    · have bounded := admittedAt_le_handedAt firstTraced
      have byCall := call_isSome_of_lt secondTraced (by omega)
      exact .inr ⟨⟨byCall, held, bounded, handedAfter⟩,
        precedes_of_admittedAt_lt secondTraced firstTraced held⟩

/-- Changes alone are handed over in order. -/
theorem pairwise_changes (relay : Relay) (turns : List (RelayTurn × ClockReadings)) :
    ((relay.handovers turns).filter fun handover => handover.call.isNone).Pairwise
      Handover.InOrder := by
  rw [List.pairwise_filter]
  apply (pairwise_handovers relay turns).imp
  intro earlier later order _ change sameKey
  rcases order with precedes | ⟨heldBack, _⟩
  · have order := precedes sameKey
    exact ⟨order.external_le, order.localTime_le⟩
  · have byCall := heldBack.byCall
    rw [Option.isNone_iff_eq_none.mp change] at byCall
    simp at byCall

/-- Values are handed over in order exactly when none is overtaken. -/
theorem handovers_inOrder_iff {options : RelayOptions}
    (run : (Relay.start options).run? turns = some (shown, final)) :
    let handed := (Relay.start options).handovers turns
    handed.map (fun handover => handover.value) = shown.flatMap RelayOutput.values ∧
      (handed.Pairwise Handover.InOrder ↔
        handed.Pairwise fun earlier later => ¬earlier.Overtakes later) := by
  refine ⟨handovers_values run rfl, ?_⟩
  constructor
  · intro inOrder
    apply inOrder.imp
    intro earlier later order overtakes
    exact absurd (order overtakes.sameKey).1 (Std.not_le.mpr overtakes.newer)
  · intro notOvertaken
    apply ((pairwise_handovers _ turns).and notOvertaken).imp
    rintro earlier later ⟨precedes | ⟨heldBack, precedes⟩, notOvertakes⟩ sameKey
    · have order := precedes sameKey
      exact ⟨order.external_le, order.localTime_le⟩
    · have order := precedes sameKey.symm
      rcases Int64.lt_or_eq_of_le order.external_le with newer | same
      · exact absurd ⟨heldBack, sameKey, newer⟩ notOvertakes
      · have sameLocal := order.replayed same
        exact ⟨Std.le_of_eq same.symm, Std.le_of_eq sameLocal.symm⟩

/-- A get call of two rounds hands over what no batch has overtaken in between. -/
theorem handovers_inOrder_of_no_batch :
    let speed (time : Int64) : PropertyValue := ⟨time, 0, 1, .available, {}⟩
    let gear (time : Int64) : PropertyValue := ⟨time, 0, 2, .available, {}⟩
    let clock := ClockReadings.still 100
    let turns : List (RelayTurn × ClockReadings) :=
      [(.registerChange 1, clock), (.streamOpened, clock), (.batchReceived [gear 20], clock),
        (.getCalled [⟨7, speed 0⟩, ⟨8, gear 0⟩], clock),
        (.getAnswered 0 (.ok [⟨7, .ok, some (speed 10)⟩, ⟨8, .ok, some (gear 10)⟩]), clock),
        (.getAnswered 0 (.ok [⟨8, .ok, some (gear 30)⟩]), clock),
        (.batchReceived [speed 20], clock)]
    ∃ shown final, (Relay.start {}).run? turns = some (shown, final) ∧
      shown.flatMap RelayOutput.values = [gear 100, speed 100, gear 101, speed 101] ∧
        ((Relay.start {}).handovers turns).Pairwise Handover.InOrder := by
  intro speed gear clock turns
  have outputs : ((Relay.start {}).run? turns).map Prod.fst =
      some [.changed ⟨1, [gear 100]⟩,
        .got 0 ⟨.ok, some [⟨7, .ok, some (speed 100)⟩, ⟨8, .ok, some (gear 101)⟩]⟩,
        .changed ⟨1, [speed 101]⟩] := by rfl
  have handed : (Relay.start {}).handovers turns =
      [⟨⟨gear 100, 20⟩, none, 2, 2⟩, ⟨⟨speed 100, 10⟩, some 0, 4, 5⟩,
        ⟨⟨gear 101, 30⟩, some 0, 5, 5⟩, ⟨⟨speed 101, 20⟩, none, 6, 6⟩] := by decide +kernel
  obtain ⟨⟨shown, final⟩, run, rfl⟩ := Option.map_eq_some_iff.mp outputs
  refine ⟨_, final, run, rfl, ?_⟩
  rw [(handovers_inOrder_iff run).2, handed]
  decide

/-- A batch that comes between two rounds of a get call is handed over before an
older value which the first round has kept. -/
theorem handovers_out_of_order :
    let speed (time : Int64) : PropertyValue := ⟨time, 0, 1, .available, {}⟩
    let gear (time : Int64) : PropertyValue := ⟨time, 0, 2, .available, {}⟩
    let clock := ClockReadings.still 100
    let turns : List (RelayTurn × ClockReadings) :=
      [(.registerChange 1, clock), (.streamOpened, clock), (.batchReceived [gear 20], clock),
        (.getCalled [⟨7, speed 0⟩, ⟨8, gear 0⟩], clock),
        (.getAnswered 0 (.ok [⟨7, .ok, some (speed 10)⟩, ⟨8, .ok, some (gear 10)⟩]), clock),
        (.batchReceived [speed 20], clock),
        (.getAnswered 0 (.ok [⟨8, .ok, some (gear 30)⟩]), clock)]
    ((Relay.start {}).run? turns).map (fun (shown, _) => shown.flatMap RelayOutput.values) =
        some [gear 100, speed 101, speed 100, gear 101] ∧
      ¬((Relay.start {}).handovers turns).Pairwise Handover.InOrder := by
  intro speed gear clock turns
  have handed : (Relay.start {}).handovers turns =
      [⟨⟨gear 100, 20⟩, none, 2, 2⟩, ⟨⟨speed 101, 20⟩, none, 5, 5⟩,
        ⟨⟨speed 100, 10⟩, some 0, 4, 6⟩, ⟨⟨gear 101, 30⟩, some 0, 6, 6⟩] := by decide +kernel
  refine ⟨rfl, ?_⟩
  rw [handed]
  decide

end Relay

end VehicleRelay
