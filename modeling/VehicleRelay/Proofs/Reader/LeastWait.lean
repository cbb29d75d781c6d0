import VehicleRelay.Proofs.Reader.Sessions

/-!
# The least wait

Doubling never shortens a wait, so no wait is shorter than the first one and the longest
one, in whatever order these two are set.  The first wait is never none at all, but the
longest wait may be set to none: then the reader waits only after the first session and
after those that gave a batch.
-/

namespace VehicleRelay

/-- What the reader waits now, and what it waits next, lies between two durations. -/
structure Reader.WaitsWithin (least most : Nat) (reader : Reader) : Prop where
  standsBy : least ≤ reader.backoff ∧ reader.backoff ≤ most
  underWay : ∀ duration, reader.phase = .waiting duration → least ≤ duration ∧ duration ≤ most

namespace StreamSettings

def leastWait (settings : StreamSettings) : Nat :=
  min settings.firstWait settings.longestWait

def mostWait (settings : StreamSettings) : Nat :=
  max settings.firstWait settings.longestWait

theorem leastWait_pos {settings : StreamSettings} (waits : 0 < settings.longestWait) :
    0 < settings.leastWait :=
  Nat.lt_min.mpr ⟨Nat.le_max_left 1 _, waits⟩

/-- Any wait can be doubled, for settings that nobody has checked too. -/
theorem mostWait_doubles (settings : StreamSettings) :
    settings.mostWait * 2 < durationLimit := by
  have initial : settings.initialBackoff.toNat < UInt64.size :=
    settings.initialBackoff.toNat_lt_size
  have longest : settings.maxBackoff.toNat < UInt64.size := settings.maxBackoff.toNat_lt_size
  rw [mostWait, firstWait, longestWait, durationLimit]
  omega

theorem firstWait_within (settings : StreamSettings) :
    settings.leastWait ≤ settings.firstWait ∧ settings.firstWait ≤ settings.mostWait :=
  ⟨Nat.min_le_left _ _, Nat.le_max_left _ _⟩

/-- The double of a wait, cut down to the longest one, is not shorter than the least one. -/
theorem doubled_within {settings : StreamSettings} {duration : Nat}
    (least : settings.leastWait ≤ duration) :
    settings.leastWait ≤ min (duration * 2) settings.longestWait ∧
      min (duration * 2) settings.longestWait ≤ settings.mostWait := by
  constructor
  · apply Nat.le_min.mpr
    exact ⟨by omega, Nat.min_le_right _ _⟩
  · exact Nat.le_trans (Nat.min_le_right _ _) (Nat.le_max_right _ _)

/-- With no longest wait, the wait that stands by is used up by the first session. -/
theorem waitsFrom_of_no_longestWait {settings : StreamSettings}
    (none : settings.longestWait = 0) (backoff : Nat) {batches : List Nat}
    {session count wait : Nat} (counted : batches[session]? = some count)
    (waits : (settings.waitsFrom backoff batches)[session]? = some wait) :
    wait = if 0 < count then settings.firstWait else if session = 0 then backoff else 0 := by
  induction batches generalizing backoff session with
  | nil => simp at counted
  | cons first others induction =>
      rw [waitsFrom, none, Nat.min_zero] at waits
      cases session with
      | zero =>
          obtain rfl : first = count := by simpa using counted
          simpa [eq_comm] using waits
      | succ session =>
          rw [List.getElem?_cons_succ] at counted waits
          rw [induction 0 counted waits]
          simp

end StreamSettings

/-- A session that ends puts a wait within the bounds under way. -/
theorem Reader.WaitsWithin.streamEnded {settings : StreamSettings} {reader : Reader}
    (within : reader.WaitsWithin settings.leastWait settings.mostWait) (batches : Nat) :
    (reader.streamEnded settings batches).WaitsWithin settings.leastWait settings.mostWait := by
  have bounds : settings.leastWait ≤ (if 0 < batches then settings.firstWait else reader.backoff) ∧
      (if 0 < batches then settings.firstWait else reader.backoff) ≤ settings.mostWait := by
    split
    · exact settings.firstWait_within
    · exact within.standsBy
  rw [Reader.streamEnded]
  split
  · refine ⟨bounds, fun duration waiting => ?_⟩
    obtain rfl := ReaderPhase.waiting.inj waiting
    exact bounds
  · exact ⟨within.standsBy, fun duration waiting => by simp at waiting⟩

namespace RelayStep

variable {step : RelayStep}

/-- A step keeps the waits of the reader within the bounds of the settings. -/
theorem Possible.waitsWithin (possible : step.Possible)
    (within : step.before.reader.WaitsWithin step.before.settings.leastWait
      step.before.settings.mostWait) :
    step.after.reader.WaitsWithin step.before.settings.leastWait
      step.before.settings.mostWait := by
  cases possible.readerEffect with
  | opened turn opening after | received turn reading after =>
      rw [after]
      exact ⟨within.standsBy, fun duration waiting => by simp at waiting⟩
  | refused turn opening after | ended turn reading after =>
      rw [after]
      exact within.streamEnded _
  | elapsed turn waiting after =>
      rw [after]
      exact ⟨StreamSettings.doubled_within (within.underWay _ waiting).1,
        fun duration waiting => by simp [Reader.waitEnded] at waiting⟩
  | stopped stop after =>
      rw [after]
      exact ⟨within.standsBy, fun duration waiting => by simp [Reader.finish] at waiting⟩
  | same other after => rwa [after]

theorem phase_of_wait? {wait : Nat} (begins : step.wait? = some wait) :
    step.after.reader.phase = .waiting wait := by
  rw [wait?] at begins
  split at begins
  · simp at begins
  · next waiting _ =>
      obtain rfl := Option.some.inj begins
      exact waiting
  · simp at begins

end RelayStep

namespace Relay

/-- No wait leaves the bounds of the settings, whatever the sessions are and whoever stops
the relay. -/
theorem waits_within (options : RelayOptions) (turns : List (RelayTurn × ClockReadings)) :
    ∀ wait ∈ (start options).waits turns,
      options.stream.leastWait ≤ wait ∧ wait ≤ options.stream.mostWait := by
  have kept : (start options).settings = options.stream →
      (start options).reader.WaitsWithin options.stream.leastWait options.stream.mostWait →
      ∀ wait ∈ (start options).waits turns,
        options.stream.leastWait ≤ wait ∧ wait ≤ options.stream.mostWait := by
    apply steps_induction (motive := fun relay steps => relay.settings = options.stream →
      relay.reader.WaitsWithin options.stream.leastWait options.stream.mostWait →
        ∀ wait ∈ steps.filterMap RelayStep.wait?,
          options.stream.leastWait ≤ wait ∧ wait ≤ options.stream.mostWait)
    · intro _ _ _ wait member
      simp at member
    · intro step steps possible induction settings within wait member
      rw [← settings] at within
      have after := possible.waitsWithin within
      rw [settings] at after
      have later := induction (possible.keeps.1.trans settings) after
      obtain ⟨other, taken, begins⟩ := List.mem_filterMap.mp member
      rcases List.mem_cons.mp taken with rfl | behind
      · exact after.underWay wait (RelayStep.phase_of_wait? begins)
      · exact later wait (List.mem_filterMap.mpr ⟨other, behind, begins⟩)
  exact kept rfl ⟨options.stream.firstWait_within, fun duration waiting => by
    simp [start, Reader.start] at waiting⟩

/-- Any sessions may come one after the other before anybody stops the relay. -/
theorem run?_of_sessions {options : RelayOptions} (reconnects : options.stream.reconnect = true)
    (given : List StreamSession) :
    ∃ turns shown final, (start options).run? turns = some (shown, final) ∧
      (∀ turn ∈ turns.map Prod.fst, turn.isStop = false) ∧
        RelayTurn.sessions [] (turns.map Prod.fst) = given := by
  have opens : (start options).Opens options.stream := ⟨rfl, rfl⟩
  obtain ⟨shown, final, run⟩ := opens.run?_sessions reconnects given (.still 0)
  have taken : ((given.flatMap StreamSession.turns).map (·, ClockReadings.still 0)).map Prod.fst =
      given.flatMap StreamSession.turns := by
    rw [List.map_map]
    exact List.map_id _
  refine ⟨_, shown, final, run, ?_, ?_⟩
  · rw [taken]
    intro turn member
    obtain ⟨session, _, belongs⟩ := List.mem_flatMap.mp member
    exact StreamSession.not_isStop belongs
  · rw [taken, RelayTurn.sessions_flatMap_turns]

/-- With a longest wait that is not none, every wait takes a millisecond or more.  Without
one, this holds of the waits after the first session and after a batch, and of no other. -/
theorem waits_positive_iff {options : RelayOptions}
    (reconnects : options.stream.reconnect = true) :
    (∀ turns, ∀ wait ∈ (start options).waits turns,
      (0 < options.stream.maxBackoff.toNat → 1 ≤ wait) ∧ wait * 2 < durationLimit) ∧
    (∀ given : List StreamSession, ∃ turns shown final,
      (start options).run? turns = some (shown, final) ∧
      (∀ turn ∈ turns.map Prod.fst, turn.isStop = false) ∧
      RelayTurn.sessions [] (turns.map Prod.fst) = given) ∧
    ∀ turns shown final, (start options).run? turns = some (shown, final) →
      (∀ turn ∈ turns.map Prod.fst, turn.isStop = false) →
        let batches := (RelayTurn.sessions [] (turns.map Prod.fst)).map StreamSession.batchCount
        ((start options).waits turns).length = batches.length ∧
          ∀ session wait count, ((start options).waits turns)[session]? = some wait →
            batches[session]? = some count →
              (1 ≤ wait ↔ 0 < options.stream.maxBackoff.toNat ∨ session = 0 ∨ 0 < count) := by
  have within (turns : List (RelayTurn × ClockReadings)) (wait : Nat)
      (member : wait ∈ (start options).waits turns) :
      (0 < options.stream.maxBackoff.toNat → 1 ≤ wait) ∧ wait * 2 < durationLimit := by
    obtain ⟨least, most⟩ := waits_within options turns wait member
    have doubles := options.stream.mostWait_doubles
    exact ⟨fun longest => Nat.le_trans (StreamSettings.leastWait_pos longest) least, by omega⟩
  refine ⟨within, run?_of_sessions reconnects, fun turns shown final run noStop => ?_⟩
  intro batches
  have waits := (reads_start options).waits_eq reconnects run noStop
  refine ⟨by rw [waits, StreamSettings.length_waitsFrom], ?_⟩
  intro session wait count waited counted
  by_cases longest : 0 < options.stream.maxBackoff.toNat
  · have positive := (within turns wait (List.mem_of_getElem? waited)).1 longest
    exact iff_of_true positive (.inl longest)
  · have none : options.stream.longestWait = 0 := Nat.eq_zero_of_not_pos longest
    have first : 1 ≤ options.stream.firstWait := Nat.le_max_left 1 _
    have standby : (start options).reader.standby options.stream =
        options.stream.firstWait := rfl
    rw [waits, standby] at waited
    rw [StreamSettings.waitsFrom_of_no_longestWait none _ counted waited]
    by_cases fed : 0 < count
    · simp [fed, first]
    · by_cases start : session = 0
      · simp [fed, start, first]
      · simp [fed, start, longest]

/-- Settings in the wrong order: only the first wait and the one after a batch are longer
than the longest wait, and none is shorter than a millisecond. -/
theorem waits_positive_iff_of_inverted :
    let options : RelayOptions := { stream := { initialBackoff := 500, maxBackoff := 3 } }
    let clock := ClockReadings.still 100
    let turns : List (RelayTurn × ClockReadings) :=
      [(.streamRefused, clock), (.waitElapsed, clock), (.streamOpened, clock),
        (.streamClosed, clock), (.waitElapsed, clock), (.streamOpened, clock),
        (.batchReceived [], clock), (.streamFailed, clock), (.shutdownCalled, clock)]
    options.stream.reconnect = true ∧ (start options).waits turns = [500, 3, 500] ∧
      ∀ wait ∈ (start options).waits turns, 1 ≤ wait := by
  intro options clock turns
  refine ⟨rfl, by decide +kernel, fun wait member => ?_⟩
  exact ((waits_positive_iff rfl).1 turns wait member).1 (by decide)

/-- With a longest wait of none the reader opens a stream again at once: after the second
refusal nothing is waited for. -/
theorem waits_none_of_no_longestWait :
    let options : RelayOptions := { stream := { initialBackoff := 0, maxBackoff := 0 } }
    let clock := ClockReadings.still 100
    let turns : List (RelayTurn × ClockReadings) :=
      [(.streamRefused, clock), (.waitElapsed, clock), (.streamRefused, clock),
        (.waitElapsed, clock)]
    options.stream.reconnect = true ∧ ((start options).run? turns).isSome ∧
      (start options).streamStarts turns = 3 ∧ (start options).waits turns = [1, 0] ∧
      ¬∀ wait ∈ (start options).waits turns, 1 ≤ wait := by
  decide +kernel

end Relay

end VehicleRelay
