import VehicleRelay.Proofs.Reader.Backoff
import VehicleRelay.Proofs.Relay.Shutdown
import VehicleRelay.Proofs.Settings.Requirements

/-!
# Sessions of a run

The turns of a run tell which sessions the reader went through, and its steps tell how long
it waited after each.  As long as nobody stops the relay, the waits are those of the
sessions, whatever else the relay does meanwhile.  A relay that does not reconnect starts
one stream.
-/

namespace VehicleRelay

/-- One stream, or one attempt to open it. -/
inductive StreamSession
  | refused
  | failed (batches : List (List PropertyValue))
  | closed (batches : List (List PropertyValue))
deriving DecidableEq, Repr

namespace StreamSession

/-- The number of batches that the session gave, the empty and the stale ones included. -/
def batchCount : StreamSession → Nat
  | .refused => 0
  | .failed batches => batches.length
  | .closed batches => batches.length

/-- The turns of a session and of the end of the wait after it. -/
def turns : StreamSession → List RelayTurn
  | .refused => [.streamRefused, .waitElapsed]
  | .failed batches =>
      .streamOpened :: batches.map .batchReceived ++ [.streamFailed, .waitElapsed]
  | .closed batches =>
      .streamOpened :: batches.map .batchReceived ++ [.streamClosed, .waitElapsed]

end StreamSession

namespace RelayTurn

/-- The sessions that end in some turns, the first one with batches that came before. -/
def sessions (batches : List (List PropertyValue)) : List RelayTurn → List StreamSession
  | [] => []
  | .batchReceived values :: turns => sessions (batches ++ [values]) turns
  | .streamRefused :: turns => .refused :: sessions [] turns
  | .streamFailed :: turns => .failed batches :: sessions [] turns
  | .streamClosed :: turns => .closed batches :: sessions [] turns
  | _ :: turns => sessions batches turns

theorem sessions_of_others {turn : RelayTurn} (other : turn.isReaders = false)
    (batches : List (List PropertyValue)) (turns : List RelayTurn) :
    sessions batches (turn :: turns) = sessions batches turns := by
  cases turn with
  | streamOpened | streamRefused | batchReceived _ | streamFailed | streamClosed | waitElapsed
  | stopNoticed => simp [isReaders] at other
  | registerChange _ | registerSetFailure _ | getCalled _ | getAnswered _ _ | shutdownCalled
  | shutdownReturned | dropped => rfl

end RelayTurn

namespace Reader

/-- The batches of the stream that is being read. -/
def batchCount (reader : Reader) : Nat :=
  match reader.phase with
  | .reading batches => batches
  | _ => 0

/-- The wait that stands by for the next session. -/
def standby (settings : StreamSettings) (reader : Reader) : Nat :=
  match reader.phase with
  | .waiting duration => min (duration * 2) settings.longestWait
  | _ => reader.backoff

end Reader

namespace RelayStep

/-- The wait that begins with a step. -/
def wait? (step : RelayStep) : Option Nat :=
  match step.before.reader.phase, step.after.reader.phase with
  | .waiting _, _ => none
  | _, .waiting duration => some duration
  | _, _ => none

/-- A step after which a stream is being opened, and was not before. -/
def startsStream (step : RelayStep) : Bool :=
  step.before.reader.phase ≠ .opening ∧ step.after.reader.phase = .opening

/-- What a step does to the reader. -/
inductive ReaderEffect (step : RelayStep) : Prop
  | opened :
      step.turn = .streamOpened → step.before.reader.phase = .opening →
      step.after.reader = { step.before.reader with phase := .reading 0 } → step.ReaderEffect
  | received {values : List PropertyValue} {batches : Nat} :
      step.turn = .batchReceived values → step.before.reader.phase = .reading batches →
      step.after.reader = { step.before.reader with phase := .reading (batches + 1) } →
      step.ReaderEffect
  | refused :
      step.turn = .streamRefused → step.before.reader.phase = .opening →
      step.after.reader = step.before.reader.streamEnded step.before.settings 0 →
      step.ReaderEffect
  | ended {batches : Nat} :
      step.turn = .streamFailed ∨ step.turn = .streamClosed →
      step.before.reader.phase = .reading batches →
      step.after.reader = step.before.reader.streamEnded step.before.settings batches →
      step.ReaderEffect
  | elapsed {duration : Nat} :
      step.turn = .waitElapsed → step.before.reader.phase = .waiting duration →
      step.after.reader = .waitEnded step.before.settings duration → step.ReaderEffect
  | stopped :
      step.turn = .stopNoticed ∧ step.before.stopping = true ∨ step.turn = .dropped →
      step.after.reader = step.before.reader.finish → step.ReaderEffect
  | same :
      step.turn.isReaders = false → step.after.reader = step.before.reader →
      step.ReaderEffect

theorem Possible.readerEffect {step : RelayStep} (possible : step.Possible) :
    step.ReaderEffect := by
  obtain ⟨relay, turn, readings, shown, next⟩ := step
  rw [Possible] at possible
  simp only at possible
  cases turn with
  | getCalled requests =>
      rw [Relay.turn?_getCalled] at possible
      obtain ⟨_, rfl⟩ := Prod.mk.inj (Option.some.inj possible)
      exact .same rfl rfl
  | getAnswered call answer =>
      obtain ⟨getCall, waiting⟩ := Relay.waiting_of_getAnswered possible
      rw [Relay.turn?_getAnswered waiting] at possible
      obtain ⟨_, rfl⟩ := Prod.mk.inj (Option.some.inj possible)
      exact .same rfl rfl
  | registerChange _ | registerSetFailure _ =>
      obtain ⟨_, rfl⟩ := Prod.mk.inj (Option.some.inj possible)
      exact .same rfl rfl
  | streamOpened =>
      simp only [Relay.turn?] at possible
      split at possible
      · next opening =>
          obtain ⟨_, rfl⟩ := Prod.mk.inj (Option.some.inj possible)
          exact .opened rfl opening rfl
      · simp at possible
  | streamRefused =>
      simp only [Relay.turn?] at possible
      split at possible
      · next opening =>
          obtain ⟨_, rfl⟩ := Prod.mk.inj (Option.some.inj possible)
          exact .refused rfl opening rfl
      · simp at possible
  | batchReceived values =>
      simp only [Relay.turn?] at possible
      split at possible
      · next reading =>
          obtain ⟨_, rfl⟩ := Prod.mk.inj (Option.some.inj possible)
          exact .received rfl reading rfl
      · simp at possible
  | streamFailed | streamClosed =>
      simp only [Relay.turn?, Relay.endStream?] at possible
      split at possible
      · next reading =>
          obtain ⟨_, rfl⟩ := Prod.mk.inj (Option.some.inj possible)
          exact .ended (by simp) reading rfl
      · simp at possible
  | waitElapsed =>
      simp only [Relay.turn?] at possible
      split at possible
      · next waiting =>
          obtain ⟨_, rfl⟩ := Prod.mk.inj (Option.some.inj possible)
          exact .elapsed rfl waiting rfl
      · simp at possible
  | stopNoticed =>
      simp only [Relay.turn?] at possible
      split at possible
      · next stopping =>
          obtain ⟨_, rfl⟩ := Prod.mk.inj (Option.some.inj possible)
          exact .stopped (.inl ⟨rfl, stopping.1⟩) rfl
      · simp at possible
  | shutdownCalled | shutdownReturned =>
      simp only [Relay.turn?] at possible
      split at possible
      all_goals
        simp only [Option.some.injEq, Prod.mk.injEq, reduceCtorEq] at possible
      all_goals
        obtain ⟨_, rfl⟩ := possible
        exact .same rfl rfl
  | dropped =>
      obtain ⟨_, rfl⟩ := Prod.mk.inj (Option.some.inj possible)
      cases unawaited : relay.unawaited with
      | true => exact .stopped (.inr rfl) (by simp only [if_true])
      | false => exact .same rfl (by simp)

end RelayStep

/-- A relay goes on reading, with some batches of the stream at hand. -/
structure Relay.Reads (settings : StreamSettings) (received : List (List PropertyValue))
    (relay : Relay) : Prop where
  settings_eq : relay.settings = settings
  awake : relay.stopping = false
  unfinished : relay.reader.phase ≠ .finished
  received_length : received.length = relay.reader.batchCount

/-- How a step goes on with the sessions: it ends one, after which a wait begins, or it is
a part of the one that is under way. -/
inductive RelayStep.SessionEffect (settings : StreamSettings)
    (received : List (List PropertyValue)) (step : RelayStep) : Prop
  | ends {session : StreamSession} {wait : Nat} :
      step.after.Reads settings [] →
      (∀ turns, RelayTurn.sessions received (step.turn :: turns) =
        session :: RelayTurn.sessions [] turns) →
      wait = (if 0 < session.batchCount then settings.firstWait
        else step.before.reader.standby settings) →
      step.wait? = some wait →
      step.after.reader.standby settings = min (wait * 2) settings.longestWait →
      step.SessionEffect settings received
  | goesOn {later : List (List PropertyValue)} :
      step.after.Reads settings later →
      (∀ turns, RelayTurn.sessions received (step.turn :: turns) =
        RelayTurn.sessions later turns) →
      step.wait? = none →
      step.after.reader.standby settings = step.before.reader.standby settings →
      step.SessionEffect settings received

namespace RelayStep

variable {settings : StreamSettings} {received : List (List PropertyValue)} {step : RelayStep}

/-- Whatever ended a session, a wait begins: the first one after a batch, and the one that
stood by otherwise. -/
theorem SessionEffect.of_streamEnded (reconnects : step.before.settings.reconnect = true)
    (kept : step.after.settings = step.before.settings) (awake : step.after.stopping = false)
    (busy : ∀ duration, step.before.reader.phase ≠ .waiting duration)
    {session : StreamSession}
    (ends : ∀ turns, RelayTurn.sessions received (step.turn :: turns) =
      session :: RelayTurn.sessions [] turns)
    (after : step.after.reader =
      step.before.reader.streamEnded step.before.settings session.batchCount) :
    step.SessionEffect step.before.settings received := by
  simp only [Reader.streamEnded, reconnects, if_true] at after
  have reads : step.after.Reads step.before.settings [] :=
    ⟨kept, awake, by simp [after], by simp [after, Reader.batchCount]⟩
  have standby : step.before.reader.standby step.before.settings =
      step.before.reader.backoff := by
    rw [Reader.standby]
    split
    · next duration waiting => exact absurd waiting (busy duration)
    · rfl
  refine .ends reads ends rfl ?_ ?_
  · cases phase : step.before.reader.phase with
    | waiting duration => exact absurd phase (busy duration)
    | opening | reading _ | finished => simp [wait?, phase, after, standby]
  · rw [standby, after]
    rfl

theorem Possible.sessionEffect (possible : step.Possible)
    (reconnects : settings.reconnect = true) (reads : step.before.Reads settings received)
    (noStop : step.turn.isStop = false) : step.SessionEffect settings received := by
  obtain ⟨rfl, awake, unfinished, length⟩ := reads
  obtain ⟨kept, _, stays⟩ := possible.keeps
  have stillAwake := (stays noStop).trans awake
  cases possible.readerEffect with
  | opened turn opening after =>
      have none : received = [] := by simpa [Reader.batchCount, opening] using length
      have reads : step.after.Reads step.before.settings [] :=
        ⟨kept, stillAwake, by simp [after], by simp [after, Reader.batchCount]⟩
      refine .goesOn reads ?_ ?_ ?_
      · simp [turn, RelayTurn.sessions, none]
      · simp [wait?, opening, after]
      · simp [Reader.standby, opening, after]
  | @received values batches turn reading after =>
      have count : received.length = batches := by
        simpa [Reader.batchCount, reading] using length
      have reads : step.after.Reads step.before.settings (received ++ [values]) :=
        ⟨kept, stillAwake, by simp [after], by simp [after, Reader.batchCount, count]⟩
      refine .goesOn reads ?_ ?_ ?_
      · simp [turn, RelayTurn.sessions]
      · simp [wait?, reading, after]
      · simp [Reader.standby, reading, after]
  | refused turn opening after =>
      have ends (turns : List RelayTurn) : RelayTurn.sessions received (step.turn :: turns) =
          .refused :: RelayTurn.sessions [] turns := by rw [turn, RelayTurn.sessions]
      exact .of_streamEnded reconnects kept stillAwake (by simp [opening]) ends after
  | @ended batches turn reading after =>
      have count : received.length = batches := by
        simpa [Reader.batchCount, reading] using length
      rw [← count] at after
      have ends : ∃ session : StreamSession, session.batchCount = received.length ∧
          ∀ turns, RelayTurn.sessions received (step.turn :: turns) =
            session :: RelayTurn.sessions [] turns := by
        rcases turn with failed | closed
        · exact ⟨.failed received, rfl, fun turns => by rw [failed, RelayTurn.sessions]⟩
        · exact ⟨.closed received, rfl, fun turns => by rw [closed, RelayTurn.sessions]⟩
      obtain ⟨session, batchCount, ends⟩ := ends
      rw [← batchCount] at after
      exact .of_streamEnded reconnects kept stillAwake (by simp [reading]) ends after
  | elapsed turn waiting after =>
      have none : received = [] := by simpa [Reader.batchCount, waiting] using length
      have reads : step.after.Reads step.before.settings [] :=
        ⟨kept, stillAwake, by simp [after, Reader.waitEnded],
          by simp [after, Reader.waitEnded, Reader.batchCount]⟩
      refine .goesOn reads ?_ ?_ ?_
      · simp [turn, RelayTurn.sessions, none]
      · simp [wait?, waiting]
      · simp [Reader.standby, waiting, after, Reader.waitEnded]
  | stopped stop after =>
      rcases stop with ⟨_, stopping⟩ | dropped
      · simp [awake] at stopping
      · simp [dropped, RelayTurn.isStop] at noStop
  | same other after =>
      have reads : step.after.Reads step.before.settings received :=
        ⟨kept, stillAwake, by rwa [after], by rwa [after]⟩
      refine .goesOn reads (RelayTurn.sessions_of_others other received) ?_ (by rw [after])
      rw [wait?, after]
      cases step.before.reader.phase <;> rfl

end RelayStep

namespace Relay

/-- The waits that begin in a run, in milliseconds. -/
def waits (relay : Relay) (turns : List (RelayTurn × ClockReadings)) : List Nat :=
  (relay.steps turns).filterMap RelayStep.wait?

variable {settings : StreamSettings} {relay final : Relay}
  {turns : List (RelayTurn × ClockReadings)} {shown : List RelayOutput}

/-- The waits of a run are those of its sessions. -/
theorem Reads.waits_eq {received : List (List PropertyValue)}
    (reads : relay.Reads settings received) (reconnects : settings.reconnect = true)
    (run : relay.run? turns = some (shown, final))
    (noStop : ∀ turn ∈ turns.map Prod.fst, turn.isStop = false) :
    relay.waits turns = settings.waitsFrom (relay.reader.standby settings)
      ((RelayTurn.sessions received (turns.map Prod.fst)).map StreamSession.batchCount) := by
  rw [← map_turn_steps run] at noStop ⊢
  rw [waits]
  clear run
  revert received
  revert noStop
  apply steps_induction (motive := fun relay steps =>
    (∀ turn ∈ steps.map RelayStep.turn, turn.isStop = false) →
    ∀ {received : List (List PropertyValue)}, relay.Reads settings received →
      steps.filterMap RelayStep.wait? = settings.waitsFrom (relay.reader.standby settings)
        ((RelayTurn.sessions received (steps.map RelayStep.turn)).map StreamSession.batchCount))
  · intro _ _ _ _
    rfl
  · intro step steps possible induction noStop received reads
    obtain ⟨first, others⟩ := List.forall_mem_cons.mp noStop
    cases possible.sessionEffect reconnects reads first with
    | ends readsNext ends wait begins standby =>
        have later := induction others readsNext
        rw [List.filterMap_cons_some begins, later, List.map_cons, ends, List.map_cons,
          StreamSettings.waitsFrom, standby, wait]
    | goesOn readsNext goesOn none standby =>
        have later := induction others readsNext
        rw [List.filterMap_cons_none none, later, List.map_cons, goesOn, standby]

theorem reads_start (options : RelayOptions) : (start options).Reads options.stream [] :=
  ⟨rfl, rfl, nofun, rfl⟩

end Relay

/-! ## Runs with given sessions -/

namespace RelayTurn

theorem sessions_batches (received batches : List (List PropertyValue)) (turns : List RelayTurn) :
    sessions received (batches.map .batchReceived ++ turns) =
      sessions (received ++ batches) turns := by
  induction batches generalizing received with
  | nil => rw [List.append_nil]; rfl
  | cons values batches induction =>
      rw [List.map_cons, List.cons_append, sessions, induction, List.append_assoc]
      rfl

theorem sessions_flatMap_turns (given : List StreamSession) :
    sessions [] (given.flatMap StreamSession.turns) = given := by
  induction given with
  | nil => rfl
  | cons session given induction =>
      rw [List.flatMap_cons]
      cases session with
      | refused => simp [StreamSession.turns, sessions, induction]
      | failed batches | closed batches =>
          simp [StreamSession.turns, sessions, sessions_batches, induction]

end RelayTurn

theorem StreamSession.not_isStop {session : StreamSession} {turn : RelayTurn}
    (member : turn ∈ session.turns) : turn.isStop = false := by
  cases session with
  | refused =>
      simp only [turns, List.mem_cons, List.not_mem_nil, or_false] at member
      rcases member with rfl | rfl <;> rfl
  | failed batches | closed batches =>
      simp only [turns, List.cons_append, List.mem_cons, List.mem_append, List.mem_map,
        List.not_mem_nil, or_false] at member
      rcases member with rfl | ⟨_, _, rfl⟩ | rfl | rfl <;> rfl

namespace Relay

variable {relay : Relay}

/-- A relay with the settings is about to open a stream. -/
structure Opens (settings : StreamSettings) (relay : Relay) : Prop where
  settings_eq : relay.settings = settings
  opening : relay.reader.phase = .opening

theorem run?_batches {settings : StreamSettings} (same : relay.settings = settings) {count : Nat}
    (reading : relay.reader.phase = .reading count) (batches : List (List PropertyValue))
    (clock : ClockReadings) :
    ∃ shown next total,
      relay.run? ((batches.map RelayTurn.batchReceived).map (·, clock)) = some (shown, next) ∧
        next.settings = settings ∧ next.reader.phase = .reading total := by
  induction batches generalizing relay count with
  | nil => exact ⟨[], relay, count, rfl, same, reading⟩
  | cons values batches induction =>
      obtain ⟨first, next, taken, sameNext, readingNext⟩ : ∃ first next,
          relay.turn? clock (.batchReceived values) = some (first, next) ∧
            next.settings = settings ∧ next.reader.phase = .reading (count + 1) := by
        simp only [turn?, reading]
        exact ⟨_, _, rfl, same, rfl⟩
      obtain ⟨later, final, total, run, kept⟩ := induction sameNext readingNext
      exact ⟨first ++ later, final, total,
        run?_cons.mpr ⟨first, next, later, taken, run, rfl⟩, kept⟩

/-- After a wait the reader opens a stream again. -/
theorem opens_of_waiting {settings : StreamSettings} (same : relay.settings = settings)
    {duration : Nat} (waiting : relay.reader.phase = .waiting duration) (clock : ClockReadings) :
    ∃ final, relay.run? [(.waitElapsed, clock)] = some ([], final) ∧ final.Opens settings := by
  have taken : relay.turn? clock .waitElapsed =
      some ([], { relay with reader := .waitEnded relay.settings duration }) := by
    simp only [turn?, waiting]
  exact ⟨_, run?_cons.mpr ⟨[], _, [], taken, rfl, rfl⟩, same, rfl⟩

theorem opens_of_ended {settings : StreamSettings} (reconnects : settings.reconnect = true)
    (same : relay.settings = settings) {turn : RelayTurn} {batches : Nat} {clock : ClockReadings}
    (taken : relay.turn? clock turn =
      some ([], { relay with reader := relay.reader.streamEnded relay.settings batches })) :
    ∃ final, relay.run? [(turn, clock), (.waitElapsed, clock)] = some ([], final) ∧
      final.Opens settings := by
  subst same
  have waits : ∃ duration,
      (relay.reader.streamEnded relay.settings batches).phase = .waiting duration := by
    rw [Reader.streamEnded, if_pos reconnects]
    exact ⟨_, rfl⟩
  obtain ⟨duration, waiting⟩ := waits
  let ended : Relay := { relay with reader := relay.reader.streamEnded relay.settings batches }
  have same : ended.settings = relay.settings := rfl
  obtain ⟨final, run, opens⟩ := opens_of_waiting same waiting clock
  exact ⟨final, run?_cons.mpr ⟨[], ended, [], taken, run, rfl⟩, opens⟩

theorem Opens.run?_stream {settings : StreamSettings} (reconnects : settings.reconnect = true)
    (opens : relay.Opens settings) (batches : List (List PropertyValue)) {last : RelayTurn}
    (ends : last = .streamFailed ∨ last = .streamClosed) (clock : ClockReadings) :
    ∃ shown final, relay.run? ((.streamOpened :: batches.map RelayTurn.batchReceived ++
        [last, .waitElapsed]).map (·, clock)) = some (shown, final) ∧ final.Opens settings := by
  obtain ⟨same, opening⟩ := opens
  have opened : relay.turn? clock .streamOpened =
      some ([], { relay with reader.phase := .reading 0 }) := by
    simp only [turn?, opening]
  let reading : Relay := { relay with reader.phase := .reading 0 }
  have sameReading : reading.settings = settings := same
  obtain ⟨shown, next, total, run, sameNext, readingNext⟩ :=
    run?_batches sameReading rfl batches clock
  have taken : next.turn? clock last =
      some ([], { next with reader := next.reader.streamEnded next.settings total }) := by
    rcases ends with rfl | rfl <;> simp only [turn?, endStream?, readingNext]
  obtain ⟨final, ended, opensAgain⟩ := opens_of_ended reconnects sameNext taken
  rw [List.cons_append, List.map_cons, List.map_append]
  exact ⟨shown ++ [], final, run?_cons.mpr ⟨[], reading, _, opened,
    run?_append.mpr ⟨shown, next, [], run, ended, rfl⟩, rfl⟩, opensAgain⟩

theorem Opens.run?_session {settings : StreamSettings} (reconnects : settings.reconnect = true)
    (opens : relay.Opens settings) (session : StreamSession) (clock : ClockReadings) :
    ∃ shown final, relay.run? (session.turns.map (·, clock)) = some (shown, final) ∧
      final.Opens settings := by
  cases session with
  | refused =>
      have taken : relay.turn? clock .streamRefused =
          some ([], { relay with reader := relay.reader.streamEnded relay.settings 0 }) := by
        simp only [turn?, opens.opening]
      exact ⟨[], opens_of_ended reconnects opens.settings_eq taken⟩
  | failed batches => exact opens.run?_stream reconnects batches (.inl rfl) clock
  | closed batches => exact opens.run?_stream reconnects batches (.inr rfl) clock

/-- Any sessions may come one after the other. -/
theorem Opens.run?_sessions {settings : StreamSettings} (reconnects : settings.reconnect = true)
    (opens : relay.Opens settings) (given : List StreamSession) (clock : ClockReadings) :
    ∃ shown final,
      relay.run? ((given.flatMap StreamSession.turns).map (·, clock)) = some (shown, final) := by
  induction given generalizing relay with
  | nil => exact ⟨[], relay, rfl⟩
  | cons session given induction =>
      obtain ⟨first, next, run, opensNext⟩ := opens.run?_session reconnects session clock
      obtain ⟨later, final, others⟩ := induction opensNext
      rw [List.flatMap_cons, List.map_append]
      exact ⟨first ++ later, final, run?_append.mpr ⟨first, next, later, run, others, rfl⟩⟩

/-! ## Starts of streams -/

/-- The number of streams that are started from now on. -/
def streamStarts (relay : Relay) (turns : List (RelayTurn × ClockReadings)) : Nat :=
  (if relay.reader.phase = .opening then 1 else 0) +
    (relay.steps turns).countP RelayStep.startsStream

/-- A relay that does not reconnect never waits. -/
structure WaitsNever (relay : Relay) : Prop where
  noReconnect : relay.settings.reconnect = false
  noWait : ∀ duration, relay.reader.phase ≠ .waiting duration

theorem WaitsNever.step {step : RelayStep} (possible : step.Possible)
    (never : step.before.WaitsNever) :
    step.after.WaitsNever ∧ step.startsStream = false := by
  obtain ⟨noReconnect, noWait⟩ := never
  have kept := possible.keeps.1
  have noReconnectNext : step.after.settings.reconnect = false := kept ▸ noReconnect
  cases possible.readerEffect with
  | opened turn opening after | received turn opening after =>
      exact ⟨⟨noReconnectNext, by simp [after]⟩, by simp [RelayStep.startsStream, after]⟩
  | refused turn opening after | ended turn opening after =>
      have finished : step.after.reader.phase = .finished := by
        simp [after, Reader.streamEnded, noReconnect]
      exact ⟨⟨noReconnectNext, by simp [finished]⟩, by simp [RelayStep.startsStream, finished]⟩
  | elapsed turn waiting after => exact absurd waiting (noWait _)
  | stopped stop after =>
      exact ⟨⟨noReconnectNext, by simp [after, Reader.finish]⟩,
        by simp [RelayStep.startsStream, after, Reader.finish]⟩
  | same other after =>
      exact ⟨⟨noReconnectNext, by rwa [after]⟩, by simp [RelayStep.startsStream, after]⟩

theorem streamStarts_of_noReconnect {options : RelayOptions}
    (noReconnect : options.stream.reconnect = false)
    (turns : List (RelayTurn × ClockReadings)) : (start options).streamStarts turns = 1 := by
  have later : (start options).WaitsNever →
      ((start options).steps turns).countP RelayStep.startsStream = 0 := by
    apply steps_induction (motive := fun relay steps =>
      relay.WaitsNever → steps.countP RelayStep.startsStream = 0)
    · intro _ _
      rfl
    · intro step steps possible induction never
      obtain ⟨neverNext, none⟩ := never.step possible
      rw [List.countP_cons_of_neg (by simp [none])]
      exact induction neverNext
  have none := later ⟨noReconnect, nofun⟩
  rw [streamStarts, none]
  rfl

end Relay

/-! ## Accepted settings -/

theorem Settings.backoff_of_validate {settings : Settings}
    (valid : settings.validate = .ok settings) :
    0 < settings.stream.initialBackoff.toNat ∧
      settings.stream.initialBackoff.toNat ≤ settings.stream.maxBackoff.toNat := by
  obtain ⟨-, holds⟩ := validate_eq_ok_iff.mp valid
  constructor
  · exact UInt64.le_iff_toNat_le.mp (holds .backoff)
  · exact UInt64.le_iff_toNat_le.mp (holds .backoffOrder)

namespace Relay

/-- The waits of a relay with accepted settings follow the law of the sessions, which may
be any; without reconnecting it starts one stream. -/
theorem waits_backoffLaw {settings : Settings} (valid : settings.validate = .ok settings) :
    (settings.stream.reconnect = true →
      (∀ given : List StreamSession, ∃ turns shown final,
        (start settings.options).run? turns = some (shown, final) ∧
        (∀ turn ∈ turns.map Prod.fst, turn.isStop = false) ∧
        RelayTurn.sessions [] (turns.map Prod.fst) = given) ∧
      ∀ turns shown final, (start settings.options).run? turns = some (shown, final) →
        (∀ turn ∈ turns.map Prod.fst, turn.isStop = false) →
          BackoffLaw settings.stream.initialBackoff.toNat settings.stream.maxBackoff.toNat
            ((RelayTurn.sessions [] (turns.map Prod.fst)).map StreamSession.batchCount)
            ((start settings.options).waits turns)) ∧
    (settings.stream.reconnect = false →
      ∀ turns, (start settings.options).streamStarts turns = 1) := by
  obtain ⟨positive, ordered⟩ := settings.backoff_of_validate valid
  have firstWait : settings.stream.firstWait = settings.stream.initialBackoff.toNat :=
    Nat.max_eq_right positive
  refine ⟨fun reconnects => ⟨fun given => ?_, fun turns shown final run noStop => ?_⟩,
    fun noReconnect turns => streamStarts_of_noReconnect noReconnect turns⟩
  · have opens : (start settings.options).Opens settings.stream := ⟨rfl, rfl⟩
    obtain ⟨shown, final, run⟩ := opens.run?_sessions reconnects given (.still 0)
    have taken : ((given.flatMap StreamSession.turns).map (·, ClockReadings.still 0)).map Prod.fst =
        given.flatMap StreamSession.turns := by
      rw [List.map_map]
      exact List.map_id _
    refine ⟨_, shown, final, run, ?_, ?_⟩
    · rw [taken]
      intro turn member
      obtain ⟨session, _, belongs⟩ := List.mem_flatMap.mp member
      exact StreamSession.not_isStop belongs
    · rw [taken, RelayTurn.sessions_flatMap_turns]
  · have waits := (reads_start settings.options).waits_eq reconnects run noStop
    have law := settings.stream.backoffLaw (by rw [firstWait]; exact ordered)
      ((RelayTurn.sessions [] (turns.map Prod.fst)).map StreamSession.batchCount)
    rw [firstWait] at law
    have standby : (start settings.options).reader.standby settings.options.stream =
        settings.stream.initialBackoff.toNat := firstWait
    rw [waits, standby]
    exact law

/-- The waits double after the session with a batch, an empty one, up to the largest wait
that can be set. -/
theorem waits_backoffLaw_of_largest :
    let stream : StreamSettings :=
      { initialBackoff := 0x4000000000000001, maxBackoff := 0xffffffffffffffff }
    let settings : Settings := { stream }
    let still : Settings := { stream := { stream with reconnect := false } }
    let clock := ClockReadings.still 100
    let turns : List (RelayTurn × ClockReadings) :=
      [(.streamRefused, clock), (.waitElapsed, clock), (.streamOpened, clock),
        (.batchReceived [], clock), (.registerChange 1, clock), (.streamFailed, clock),
        (.waitElapsed, clock), (.streamRefused, clock), (.waitElapsed, clock),
        (.streamOpened, clock), (.streamClosed, clock), (.waitElapsed, clock)]
    (start settings.options).waits turns =
        [0x4000000000000001, 0x4000000000000001, 0x8000000000000002, 0xffffffffffffffff] ∧
      BackoffLaw 0x4000000000000001 0xffffffffffffffff [0, 1, 0, 0]
        ((start settings.options).waits turns) ∧
      (start still.options).streamStarts [(.streamRefused, clock)] = 1 := by
  intro stream settings still clock turns
  have outputs : ((start settings.options).run? turns).map Prod.fst = some [] := by rfl
  obtain ⟨⟨shown, final⟩, run, _⟩ := Option.map_eq_some_iff.mp outputs
  have valid : settings.validate = .ok settings := by decide +kernel
  have validStill : still.validate = .ok still := by decide +kernel
  have waits : (start settings.options).waits turns =
      [0x4000000000000001, 0x4000000000000001, 0x8000000000000002, 0xffffffffffffffff] := by
    decide +kernel
  have law := ((waits_backoffLaw valid).1 rfl).2 turns shown final run (by decide)
  exact ⟨waits, law, (waits_backoffLaw validStill).2 rfl _⟩

end Relay

end VehicleRelay
