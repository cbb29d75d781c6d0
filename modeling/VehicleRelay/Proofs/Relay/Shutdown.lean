import VehicleRelay.Proofs.Relay.Changes

/-!
# The end of a relay

A shutdown that has returned retires a relay, and so does a drop, but for one that comes
while a shutdown that was given up has left the reader unfinished: the reader of a retired
relay takes no turn any more, its callbacks are closed, and stopping it again changes
nothing.  Until then the reader may still take any turn, also after it was asked to stop.
-/

namespace VehicleRelay

namespace RelayTurn

/-- The turns that the reader of the stream takes. -/
def isReaders : RelayTurn → Bool
  | .streamOpened | .streamRefused | .batchReceived _ | .streamFailed | .streamClosed
  | .waitElapsed | .stopNoticed => true
  | _ => false

/-- The turns by which a stream or a batch reaches a relay. -/
def feeds : RelayTurn → Bool
  | .streamOpened | .batchReceived _ => true
  | _ => false

/-- The shutdown that waits for the reader has returned, if there was one.  A relay is
dropped when no call of it is under way, so a shutdown that has not returned by then
was given up by its caller. -/
def ShutdownReturned (turns : List RelayTurn) : Prop :=
  .shutdownCalled ∈ turns → .shutdownReturned ∈ turns

end RelayTurn

/-- The reader has finished, and no handler runs any more. -/
structure Relay.Retired (relay : Relay) : Prop where
  finished : relay.reader.phase = .finished
  closed : relay.callbacks.closed = true
  stopping : relay.stopping = true
  awaited : relay.unawaited = false

/-- A relay runs, is being shut down, or has retired. -/
inductive Relay.Stage (turns : List RelayTurn) (relay : Relay) : Prop
  | running : relay.unawaited = true → .shutdownCalled ∉ turns → .shutdownReturned ∉ turns →
      Stage turns relay
  | stopping : relay.unawaited = false → .shutdownCalled ∈ turns → .shutdownReturned ∉ turns →
      Stage turns relay
  | retired : relay.Retired → Stage turns relay

namespace Relay

namespace Retired

variable {relay : Relay} {turn : RelayTurn}

/-- The reader of a retired relay takes no turn, whatever the server does. -/
theorem reader_idle (retired : relay.Retired) (readers : turn.isReaders = true)
    (readings : ClockReadings) : relay.turn? readings turn = none := by
  have finished := retired.finished
  have noStop : relay.reader.isFinished = true := by rw [Reader.isFinished, finished]; rfl
  cases turn with
  | streamOpened | streamRefused | batchReceived _ | waitElapsed => simp only [turn?, finished]
  | streamFailed | streamClosed => simp only [turn?, endStream?, finished]
  | stopNoticed => simp [turn?, noStop]
  | registerChange _ | registerSetFailure _ | getCalled _ | getAnswered _ _ | shutdownCalled
  | shutdownReturned | dropped => simp [RelayTurn.isReaders] at readers

/-- A retired relay can be stopped again, and stays as it is. -/
theorem stop_again (retired : relay.Retired) (stop : turn.isStop = true)
    (readings : ClockReadings) : relay.turn? readings turn = some ([], relay) := by
  have close := Callbacks.close_of_closed retired.closed
  obtain ⟨finished, closed, stopping, awaited⟩ := retired
  have noWait : relay.reader.isFinished = true := by rw [Reader.isFinished, finished]; rfl
  obtain ⟨settings, maxAttempts, attempts, table, callbacks, reader, asked, unawaited, calls⟩ :=
    relay
  simp only at close stopping awaited noWait
  subst stopping awaited
  cases turn with
  | shutdownCalled | dropped => simp [turn?, close]
  | shutdownReturned => simp [turn?, close, noWait]
  | registerChange _ | registerSetFailure _ | streamOpened | streamRefused | batchReceived _
  | streamFailed | streamClosed | waitElapsed | stopNoticed | getCalled _
  | getAnswered _ _ => simp [RelayTurn.isStop] at stop

/-- A retired relay stays retired, and only the answers to get calls change its table. -/
theorem step {step : RelayStep} (possible : step.Possible) (retired : step.before.Retired) :
    step.after.Retired ∧ step.turn.isReaders = false ∧
      ((∀ call answer, step.turn ≠ .getAnswered call answer) →
        step.after.table = step.before.table) := by
  have notReaders : step.turn.isReaders = false := by
    rw [← Bool.not_eq_true]
    intro readers
    have impossible := retired.reader_idle readers step.readings
    rw [possible] at impossible
    simp at impossible
  obtain ⟨relay, turn, readings, shown, next⟩ := step
  rw [RelayStep.Possible] at possible
  simp only at possible retired notReaders ⊢
  have again (stop : turn.isStop = true) : relay.turn? readings turn = some ([], relay) :=
    retired.stop_again stop readings
  obtain ⟨finished, closed, stopping, awaited⟩ := retired
  cases turn with
  | registerChange handler | registerSetFailure handler =>
      obtain ⟨rfl, rfl⟩ := Prod.mk.inj (Option.some.inj possible)
      exact ⟨⟨finished, closed, stopping, awaited⟩, notReaders, fun _ => rfl⟩
  | getCalled requests =>
      rw [turn?_getCalled] at possible
      obtain ⟨rfl, rfl⟩ := Prod.mk.inj (Option.some.inj possible)
      exact ⟨⟨finished, closed, stopping, awaited⟩, notReaders, fun _ => rfl⟩
  | getAnswered call answer =>
      obtain ⟨getCall, waiting⟩ := waiting_of_getAnswered possible
      rw [turn?_getAnswered waiting] at possible
      obtain ⟨rfl, rfl⟩ := Prod.mk.inj (Option.some.inj possible)
      exact ⟨⟨finished, closed, stopping, awaited⟩, notReaders,
        fun other => absurd rfl (other call answer)⟩
  | shutdownCalled | shutdownReturned | dropped =>
      obtain ⟨rfl, rfl⟩ := Prod.mk.inj (Option.some.inj (possible.symm.trans (again rfl)))
      exact ⟨⟨finished, closed, stopping, awaited⟩, notReaders, fun _ => rfl⟩
  | streamOpened | streamRefused | batchReceived _ | streamFailed | streamClosed | waitElapsed
  | stopNoticed => simp [RelayTurn.isReaders] at notReaders

end Retired

/-! ## Until the relay has retired -/

/-- The shutdown that waits for the reader returns once the reader has finished. -/
theorem retired_of_returned {step : RelayStep} (possible : step.Possible)
    (returned : step.turn = .shutdownReturned) : step.after.Retired := by
  rw [RelayStep.Possible, returned] at possible
  simp only [turn?] at possible
  split at possible
  · next ended =>
      obtain ⟨stopping, awaited, finished⟩ := ended
      obtain ⟨_, after⟩ := Prod.mk.inj (Option.some.inj possible)
      rw [← after]
      refine ⟨?_, rfl, stopping, by simpa using awaited⟩
      simpa [Reader.isFinished] using finished
  · simp at possible

/-- A drop finishes the reader, unless a shutdown waits for it. -/
theorem reader_of_dropped {step : RelayStep} (possible : step.Possible)
    (dropped : step.turn = .dropped) :
    step.after.reader =
      if step.before.unawaited then step.before.reader.finish else step.before.reader := by
  rw [RelayStep.Possible, dropped] at possible
  simp only [turn?] at possible
  obtain ⟨_, after⟩ := Prod.mk.inj (Option.some.inj possible)
  rw [← after]

theorem retired_of_dropped {step : RelayStep} (possible : step.Possible)
    (dropped : step.turn = .dropped) (finished : step.after.reader.phase = .finished) :
    step.after.Retired := by
  rw [RelayStep.Possible, dropped] at possible
  simp only [turn?] at possible
  obtain ⟨_, after⟩ := Prod.mk.inj (Option.some.inj possible)
  rw [← after] at finished ⊢
  exact ⟨finished, rfl, rfl, rfl⟩

theorem awaited_of_returned {step : RelayStep} (possible : step.Possible)
    (returned : step.turn = .shutdownReturned) : step.before.unawaited = false := by
  rw [RelayStep.Possible, returned] at possible
  simp only [turn?] at possible
  split at possible
  · next ended => simpa using ended.2.1
  · simp at possible

theorem Stage.step {turns : List RelayTurn} {step : RelayStep} (possible : step.Possible)
    (stage : step.before.Stage turns) : step.after.Stage (turns ++ [step.turn]) := by
  obtain ⟨_, _, stays⟩ := possible.registry
  cases stage with
  | running unawaited notCalled notReturned =>
      by_cases dropped : step.turn = .dropped
      · have finished : step.after.reader.phase = .finished := by
          rw [reader_of_dropped possible dropped, if_pos unawaited]
          rfl
        exact .retired (retired_of_dropped possible dropped finished)
      · have returnsNow : step.turn ≠ .shutdownReturned := by
          intro returned
          have awaited := awaited_of_returned possible returned
          simp [unawaited] at awaited
        have notReturned : .shutdownReturned ∉ turns ++ [step.turn] := by
          simp [notReturned, returnsNow.symm]
        by_cases called : step.turn = .shutdownCalled
        · have awaited : step.after.unawaited = false := by
            rw [← Bool.not_eq_true, stays]
            simp [called]
          exact .stopping awaited (by simp [called]) notReturned
        · exact .running (stays.mpr ⟨unawaited, called, dropped⟩)
            (by simp [notCalled, Ne.symm called]) notReturned
  | stopping awaited called notReturned =>
      by_cases returned : step.turn = .shutdownReturned
      · exact .retired (retired_of_returned possible returned)
      · have awaitedStill : step.after.unawaited = false := by
          rw [← Bool.not_eq_true, stays]
          simp [awaited]
        refine .stopping awaitedStill (List.mem_append_left _ called) ?_
        simp [notReturned, Ne.symm returned]
  | retired retired => exact .retired (retired.step possible).1

/-- A stop retires the relay, unless a shutdown was given up before a drop and has left the
reader unfinished. -/
theorem Stage.retired_of_stop {turns : List RelayTurn} {step : RelayStep}
    (possible : step.Possible) (stage : step.before.Stage turns)
    (stops : step.turn = .shutdownReturned ∨ step.turn = .dropped ∧
      (RelayTurn.ShutdownReturned turns ∨ step.before.reader.phase = .finished)) :
    step.after.Retired := by
  rcases stops with returned | ⟨dropped, ended⟩
  · exact retired_of_returned possible returned
  · have reader := reader_of_dropped possible dropped
    cases stage with
    | running unawaited =>
        rw [if_pos unawaited] at reader
        exact retired_of_dropped possible dropped (by rw [reader]; rfl)
    | stopping awaited called notReturned =>
        rcases ended with settled | finished
        · exact absurd (settled called) notReturned
        · rw [awaited, if_neg Bool.false_ne_true] at reader
          exact retired_of_dropped possible dropped (by rw [reader, finished])
    | retired retired => exact (retired.step possible).1

/-- A drop leaves the reader as it is after a shutdown that was given up. -/
theorem Stage.reader_of_givenUp {turns : List RelayTurn} {step : RelayStep}
    (possible : step.Possible) (stage : step.before.Stage turns)
    (dropped : step.turn = .dropped) (givenUp : ¬RelayTurn.ShutdownReturned turns) :
    step.after.reader = step.before.reader := by
  have called : .shutdownCalled ∈ turns := by
    by_contra absent
    exact givenUp fun called => absurd called absent
  rw [reader_of_dropped possible dropped]
  cases stage with
  | running _ notCalled => exact absurd called notCalled
  | stopping awaited => rw [awaited, if_neg Bool.false_ne_true]
  | retired retired => rw [retired.awaited, if_neg Bool.false_ne_true]

/-- A retired relay stays retired. -/
theorem Retired.run {relay final : Relay} {turns : List (RelayTurn × ClockReadings)}
    {shown : List RelayOutput} (retired : relay.Retired)
    (run : relay.run? turns = some (shown, final)) :
    final.Retired ∧ ∀ step ∈ relay.steps turns, step.before.Retired := by
  let Invariant (_ : List RelayStep) (relay : Relay) : Prop := relay.Retired
  have kept : ∀ (history : List RelayStep) (step : RelayStep), step.Possible →
      Invariant history step.before → Invariant (history ++ [step]) step.after :=
    fun _ _ possible retired => (Retired.step possible retired).1
  have started : Invariant [] relay := retired
  refine ⟨holds_after kept started run, ?_⟩
  intro step member
  obtain ⟨before, after, split⟩ := List.append_of_mem member
  exact holds_before kept started split

/-- How far the turns of a run have brought a relay. -/
theorem stage_after {options : RelayOptions} {turns : List (RelayTurn × ClockReadings)}
    {shown : List RelayOutput} {final : Relay}
    (run : (start options).run? turns = some (shown, final)) :
    final.Stage (turns.map Prod.fst) := by
  let Invariant (history : List RelayStep) (relay : Relay) : Prop :=
    relay.Stage (history.map RelayStep.turn)
  have kept : ∀ (history : List RelayStep) (step : RelayStep), step.Possible →
      Invariant history step.before → Invariant (history ++ [step]) step.after := by
    intro history step possible stage
    have stepped := stage.step possible
    rw [← List.map_singleton, ← List.map_append] at stepped
    exact stepped
  have started : Invariant [] (start options) :=
    .running rfl List.not_mem_nil List.not_mem_nil
  rw [← map_turn_steps run]
  exact holds_after kept started run

/-- Closed callbacks stay closed, and no change is shown any more. -/
theorem silent_of_closed {relay final : Relay} {turns : List (RelayTurn × ClockReadings)}
    {shown : List RelayOutput} (closed : relay.callbacks.closed = true)
    (run : relay.run? turns = some (shown, final)) (event : ChangeEvent) :
    .changed event ∉ shown := by
  have silent : relay.callbacks.closed = true →
      ∀ step ∈ relay.steps turns, step.changes = [] := by
    apply steps_induction (motive := fun relay steps =>
      relay.callbacks.closed = true → ∀ step ∈ steps, step.changes = [])
    · intro _ _
      exact List.forall_mem_nil _
    · intro step steps possible induction closed
      obtain ⟨_, staysClosed, _⟩ := possible.registry
      refine List.forall_mem_cons.mpr ⟨?_, induction (staysClosed.mpr (.inl closed))⟩
      by_cases received : ∃ values, step.turn = .batchReceived values
      · obtain ⟨values, received⟩ := received
        rw [possible.effect.changes_of_batch received, Callbacks.dispatch_of_closed closed]
      · exact possible.effect.changes_eq_nil (not_exists.mp received)
  intro shows
  have surfaced : event ∈ shown.filterMap RelayOutput.change? :=
    List.mem_filterMap.mpr ⟨.changed event, shows, rfl⟩
  rw [changes_eq_flatMap run] at surfaced
  obtain ⟨step, member, shows⟩ := List.mem_flatMap.mp surfaced
  rw [silent closed step member] at shows
  exact absurd shows List.not_mem_nil

/-- Nothing of a stream reaches a relay any more, whatever turns it takes: its reader has
finished and takes no turn, so that no stream is opened and no batch received, and only
answers to get calls change the table.  Stopping the relay again changes nothing. -/
def Quiet (relay : Relay) : Prop :=
  ∀ later shown final, relay.run? later = some (shown, final) →
    final.reader.phase = .finished ∧ (∀ timed ∈ later, timed.1.isReaders = false) ∧
    (∀ step ∈ relay.steps later, (∀ call answer, step.turn ≠ .getAnswered call answer) →
      step.after.table = step.before.table) ∧
    ∀ turn clock, (turn.isReaders → final.turn? clock turn = none) ∧
      (turn.isStop → final.turn? clock turn = some ([], final))

theorem Retired.quiet {relay : Relay} (retired : relay.Retired) : relay.Quiet := by
  intro later shown final run
  obtain ⟨retiredAtLast, retiredBefore⟩ := retired.run run
  refine ⟨retiredAtLast.finished, ?_, ?_, ?_⟩
  · intro timed member
    rw [← turns_of_run? run] at member
    obtain ⟨taken, takenMember, rfl⟩ := List.mem_map.mp member
    exact ((retiredBefore taken takenMember).step (possible_of_mem_steps takenMember)).2.1
  · intro taken takenMember
    exact ((retiredBefore taken takenMember).step (possible_of_mem_steps takenMember)).2.2
  · intro turn clock
    exact ⟨fun readers => retiredAtLast.reader_idle readers clock,
      fun stops => retiredAtLast.stop_again stops clock⟩

/-- A reader that has not finished may still open a stream or take a batch. -/
theorem feeds_of_unfinished {relay : Relay} (unfinished : relay.reader.phase ≠ .finished)
    (clock : ClockReadings) :
    ∃ later shown final, relay.run? later = some (shown, final) ∧
      ∃ timed ∈ later, timed.1.feeds = true := by
  cases phase : relay.reader.phase with
  | opening =>
      obtain ⟨⟨shown, next⟩, opens⟩ : ∃ result, relay.turn? clock .streamOpened = some result := by
        simp only [turn?, phase]
        exact ⟨_, rfl⟩
      exact ⟨[(.streamOpened, clock)], _, next, run?_cons.mpr ⟨shown, next, [], opens, rfl, rfl⟩,
        _, List.mem_singleton_self _, rfl⟩
  | reading batches =>
      obtain ⟨⟨shown, next⟩, takes⟩ :
          ∃ result, relay.turn? clock (.batchReceived []) = some result := by
        simp only [turn?, phase]
        exact ⟨_, rfl⟩
      exact ⟨[(.batchReceived [], clock)], _, next,
        run?_cons.mpr ⟨shown, next, [], takes, rfl, rfl⟩, _, List.mem_singleton_self _, rfl⟩
  | waiting duration =>
      let waited : Relay := { relay with reader := .waitEnded relay.settings duration }
      have ends : relay.turn? clock .waitElapsed = some ([], waited) := by
        simp only [turn?, phase]
        rfl
      obtain ⟨⟨shown, next⟩, opens⟩ : ∃ result, waited.turn? clock .streamOpened = some result :=
        ⟨_, rfl⟩
      have reopens : waited.run? [(.streamOpened, clock)] = some (shown ++ [], next) :=
        run?_cons.mpr ⟨shown, next, [], opens, rfl, rfl⟩
      exact ⟨[(.waitElapsed, clock), (.streamOpened, clock)], _, next,
        run?_cons.mpr ⟨[], waited, _, ends, reopens, rfl⟩, (.streamOpened, clock),
        List.mem_cons_of_mem _ (List.mem_singleton_self _), rfl⟩
  | finished => exact absurd phase unfinished

/-- After a shutdown has returned, or the relay was dropped, no change is shown.  Nothing of
a stream reaches the relay any more exactly if no shutdown was given up before the drop while
the reader had not finished; else a stream may still be opened or a batch taken. -/
theorem quiet_after_stop {options : RelayOptions} {earlier : List (RelayTurn × ClockReadings)}
    {stop : RelayTurn} {readings : ClockReadings} {before now : List RelayOutput}
    {relay stopped : Relay} (stops : stop = .shutdownReturned ∨ stop = .dropped)
    (run : (start options).run? earlier = some (before, relay))
    (taken : relay.turn? readings stop = some (now, stopped)) :
    let settled := stop = .dropped →
      RelayTurn.ShutdownReturned (earlier.map Prod.fst) ∨ relay.reader.phase = .finished
    (∀ later shown final, stopped.run? later = some (shown, final) →
      ∀ event, .changed event ∉ now ++ shown) ∧
    (stopped.Quiet ↔ settled) ∧
    (¬settled → ∃ later shown final, stopped.run? later = some (shown, final) ∧
      ∃ timed ∈ later, timed.1.feeds = true) := by
  intro settled
  let step : RelayStep := ⟨relay, stop, readings, now, stopped⟩
  have possible : step.Possible := taken
  have stage := stage_after run
  have fed : ¬settled → ∃ later shown final, stopped.run? later = some (shown, final) ∧
      ∃ timed ∈ later, timed.1.feeds = true := by
    intro unsettled
    obtain ⟨dropped, ended⟩ := Classical.not_imp.mp unsettled
    obtain ⟨givenUp, unfinished⟩ := not_or.mp ended
    have reader := Stage.reader_of_givenUp possible stage dropped givenUp
    apply feeds_of_unfinished _ readings
    rw [reader]
    exact unfinished
  refine ⟨?_, ⟨?_, ?_⟩, fed⟩
  · intro later shown final run event
    obtain ⟨_, closes, _⟩ := possible.registry
    have closed : stopped.callbacks.closed = true := by
      rcases stops with returned | dropped
      · exact closes.mpr (.inr (.inl returned))
      · exact closes.mpr (.inr (.inr (.inl dropped)))
    have noneNow : now = [] := by
      rcases stops with rfl | rfl
      · simp only [turn?] at taken
        split at taken
        · exact (Prod.mk.inj (Option.some.inj taken)).1.symm
        · contradiction
      · exact (Prod.mk.inj (Option.some.inj taken)).1.symm
    rw [noneNow, List.nil_append]
    exact silent_of_closed closed run event
  · intro quiet
    by_contra unsettled
    obtain ⟨later, shown, final, run, timed, member, feeds⟩ := fed unsettled
    obtain ⟨_, idle, _⟩ := quiet later shown final run
    have readers := idle timed member
    obtain ⟨turn, clock⟩ := timed
    cases turn with
    | streamOpened | batchReceived _ => simp [RelayTurn.isReaders] at readers
    | _ => cases feeds
  · intro settled
    have stopsNow : step.turn = .shutdownReturned ∨ step.turn = .dropped ∧
        (RelayTurn.ShutdownReturned (earlier.map Prod.fst) ∨
          step.before.reader.phase = .finished) :=
      stops.imp id fun dropped => ⟨dropped, settled dropped⟩
    exact (stage.retired_of_stop possible stopsNow).quiet

/-- The reader still takes a batch and opens the stream once more after it was asked to
stop.  Once the shutdown has returned, a new handler, a get call and a drop follow, and
no batch can be received; neither can it be after a drop without a shutdown. -/
theorem quiet_after_stop_of_late_reader :
    let speed (time : Int64) : PropertyValue := ⟨time, 0, 1, .available, {}⟩
    let clock := ClockReadings.still 100
    let earlier : List (RelayTurn × ClockReadings) :=
      [(.registerChange 1, clock), (.streamOpened, clock), (.shutdownCalled, clock),
        (.batchReceived [speed 10], clock), (.streamClosed, clock), (.waitElapsed, clock),
        (.streamOpened, clock), (.stopNoticed, clock)]
    let later : List (RelayTurn × ClockReadings) :=
      [(.registerChange 2, clock), (.getCalled [⟨7, speed 0⟩], clock),
        (.getAnswered 0 (.ok [⟨7, .ok, some (speed 20)⟩]), clock), (.dropped, clock)]
    let running : List (RelayTurn × ClockReadings) :=
      [(.registerChange 1, clock), (.streamOpened, clock)]
    ∃ stopped dropped shown final otherShown otherFinal,
      (start {}).run? (earlier ++ [(.shutdownReturned, clock)]) =
        some ([.changed ⟨1, [speed 100]⟩], stopped) ∧
      stopped.Quiet ∧ stopped.run? later = some (shown, final) ∧
      final.turn? clock (.batchReceived [speed 30]) = none ∧
      final.turn? clock .shutdownCalled = some ([], final) ∧
      (start {}).run? (running ++ [(.dropped, clock)]) = some ([], dropped) ∧
      dropped.Quiet ∧ dropped.run? later = some (otherShown, otherFinal) ∧
      otherFinal.turn? clock (.batchReceived [speed 30]) = none ∧
      otherFinal.turn? clock .dropped = some ([], otherFinal) := by
  intro speed clock earlier later running
  have neverCalled : RelayTurn.ShutdownReturned (running.map Prod.fst) := by
    intro called
    simp [running] at called
  obtain ⟨_, quiet, _⟩ := @quiet_after_stop {} earlier .shutdownReturned clock
    [.changed ⟨1, [speed 100]⟩] [] _ _ (.inl rfl) rfl rfl
  obtain ⟨_, otherQuiet, _⟩ := @quiet_after_stop {} running .dropped clock
    [] [] _ _ (.inr rfl) rfl rfl
  have ended := quiet.mpr nofun
  have otherEnded := otherQuiet.mpr fun _ => .inl neverCalled
  obtain ⟨_, _, _, idle⟩ := ended later _ _ rfl
  obtain ⟨_, _, _, otherIdle⟩ := otherEnded later _ _ rfl
  exact ⟨_, _, _, _, _, _, rfl, ended, rfl, (idle _ clock).1 rfl, (idle _ clock).2 rfl, rfl,
    otherEnded, rfl, (otherIdle _ clock).1 rfl, (otherIdle _ clock).2 rfl⟩

/-- A shutdown is given up before it returns, and the relay is dropped.  Its reader still
takes a batch, which reaches the table, and opens one more stream. -/
theorem stream_opened_after_drop :
    let speed (time : Int64) : PropertyValue := ⟨time, 0, 1, .available, {}⟩
    let clock := ClockReadings.still 100
    let earlier : List (RelayTurn × ClockReadings) :=
      [(.registerChange 1, clock), (.streamOpened, clock), (.shutdownCalled, clock)]
    let later : List (RelayTurn × ClockReadings) :=
      [(.batchReceived [speed 10], clock), (.streamClosed, clock), (.waitElapsed, clock),
        (.streamOpened, clock)]
    ∃ dropped final, (start {}).run? (earlier ++ [(.dropped, clock)]) = some ([], dropped) ∧
      dropped.run? later = some ([], final) ∧ dropped.table.stamp? ⟨1, 0⟩ = none ∧
      final.table.stamp? ⟨1, 0⟩ = some ⟨10, 100⟩ ∧ final.reader.phase = .reading 0 := by
  intro speed clock earlier later
  exact ⟨_, _, rfl, rfl, rfl, rfl, rfl⟩

end Relay

end VehicleRelay
