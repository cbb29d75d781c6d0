import Mathlib.Algebra.Order.Ring.Nat
import VehicleRelay.Relay.Reader

/-!
# Waits between sessions

A session is one stream, or one attempt to open it.  The reader waits after each session,
and how long depends on the batches of the sessions up to it alone: the first wait, doubled
once for each session since the last one that gave a batch, and no longer than the longest
wait.
-/

namespace VehicleRelay

/-- The last session up to one that gave a batch, if there is one. -/
def lastFed? (batches : List Nat) (session : Nat) : Option Nat :=
  ((List.range (session + 1)).filter fun earlier => 0 < batches.getD earlier 0).getLast?

/-- The last session up to one that gave a batch, or the first session. -/
def lastFed (batches : List Nat) (session : Nat) : Nat :=
  (lastFed? batches session).getD 0

theorem lastFed?_zero (first : Nat) (others : List Nat) :
    lastFed? (first :: others) 0 = if 0 < first then some 0 else none := by
  by_cases fed : 0 < first
  · simp [lastFed?, fed]
  · simp [lastFed?, fed]

theorem lastFed?_succ (first : Nat) (others : List Nat) (session : Nat) :
    lastFed? (first :: others) (session + 1) =
      ((lastFed? others session).map (· + 1)).or (if 0 < first then some 0 else none) := by
  have later : ((List.range (session + 1)).map Nat.succ).filter
      (fun earlier => 0 < (first :: others).getD earlier 0) =
        ((List.range (session + 1)).filter fun earlier => 0 < others.getD earlier 0).map
          Nat.succ := by
    rw [List.filter_map]
    rfl
  rw [lastFed?, List.range_succ_eq_map, List.filter_cons, later]
  by_cases fed : 0 < first
  · simp [lastFed?, fed, List.getLast?_cons]
  · simp [lastFed?, fed]

namespace StreamSettings

/-- The waits after sessions with some numbers of batches, when the wait that stands by is
the given one. -/
def waitsFrom (settings : StreamSettings) (backoff : Nat) : List Nat → List Nat
  | [] => []
  | batches :: others =>
      let wait := if 0 < batches then settings.firstWait else backoff
      wait :: settings.waitsFrom (min (wait * 2) settings.longestWait) others

variable {settings : StreamSettings}

@[simp] theorem length_waitsFrom (settings : StreamSettings) (backoff : Nat)
    (batches : List Nat) : (settings.waitsFrom backoff batches).length = batches.length := by
  induction batches generalizing backoff with
  | nil => rfl
  | cons first others induction => simp [waitsFrom, induction]

/-- The first wait after some doublings. -/
def doubledWait (settings : StreamSettings) (doublings : Nat) : Nat :=
  min (settings.firstWait * 2 ^ doublings) settings.longestWait

theorem doubledWait_zero (ordered : settings.firstWait ≤ settings.longestWait) :
    settings.doubledWait 0 = settings.firstWait := by
  rw [doubledWait, Nat.pow_zero, Nat.mul_one, Nat.min_eq_left ordered]

theorem doubledWait_succ (settings : StreamSettings) (doublings : Nat) :
    min (settings.doubledWait doublings * 2) settings.longestWait =
      settings.doubledWait (doublings + 1) := by
  rw [doubledWait, doubledWait, Nat.pow_succ, ← Nat.mul_assoc]
  omega

/-- The wait that stands by counts as the first wait after some doublings. -/
theorem waitsFrom_doubledWait (ordered : settings.firstWait ≤ settings.longestWait)
    (batches : List Nat) (doublings : Nat) {session : Nat} (inRange : session < batches.length) :
    (settings.waitsFrom (settings.doubledWait doublings) batches)[session]? =
      some (settings.doubledWait
        (((lastFed? batches session).map (session - ·)).getD (doublings + session))) := by
  induction batches generalizing doublings session with
  | nil => simp at inRange
  | cons first others induction =>
      obtain ⟨own, wait, counted⟩ : ∃ own,
          (if 0 < first then settings.firstWait else settings.doubledWait doublings) =
            settings.doubledWait own ∧ own = if 0 < first then 0 else doublings := by
        split
        · exact ⟨0, (doubledWait_zero ordered).symm, rfl⟩
        · exact ⟨doublings, rfl, rfl⟩
      simp only [waitsFrom, wait, doubledWait_succ]
      cases session with
      | zero =>
          rw [List.getElem?_cons_zero, lastFed?_zero, counted]
          split <;> rfl
      | succ session =>
          rw [List.getElem?_cons_succ, induction (own + 1) (Nat.lt_of_succ_lt_succ inRange),
            lastFed?_succ, counted]
          congr 2
          cases lastFed? others session with
          | some last => simp
          | none =>
              by_cases fed : 0 < first
              · simp only [if_pos fed, Option.map_none, Option.getD_none, Option.none_or,
                  Option.map_some, Option.getD_some]
                omega
              · simp only [if_neg fed, Option.map_none, Option.getD_none, Option.none_or]
                omega

theorem waitsFrom_firstWait (ordered : settings.firstWait ≤ settings.longestWait)
    {batches : List Nat} {session : Nat} (inRange : session < batches.length) :
    (settings.waitsFrom settings.firstWait batches)[session]? =
      some (settings.doubledWait (session - lastFed batches session)) := by
  have waits := waitsFrom_doubledWait ordered batches 0 inRange
  rw [doubledWait_zero ordered] at waits
  rw [waits, lastFed]
  cases lastFed? batches session with
  | none => simp
  | some last => rfl

theorem doubledWait_mono (settings : StreamSettings) {fewer more : Nat} (le : fewer ≤ more) :
    settings.doubledWait fewer ≤ settings.doubledWait more := by
  have doubled := Nat.mul_le_mul_left settings.firstWait
    (Nat.pow_le_pow_right (by decide : 0 < 2) le)
  rw [doubledWait, doubledWait]
  omega

end StreamSettings

theorem lastFed_succ_of_unfed {batches : List Nat} {session : Nat}
    (unfed : batches[session + 1]? = some 0) :
    lastFed batches (session + 1) = lastFed batches session := by
  rw [lastFed, lastFed, lastFed?, List.range_succ, List.filter_append]
  simp [unfed, lastFed?]

/-- A duration holds any time below this many milliseconds: it counts whole seconds in 64
bits. -/
def durationLimit : Nat := UInt64.size * 1000

/-- The waits after sessions with some numbers of batches, in milliseconds. -/
structure BackoffLaw (initial longest : Nat) (batches waits : List Nat) : Prop where
  length_eq : waits.length = batches.length
  closed_form : ∀ session wait, waits[session]? = some wait →
    wait = min (initial * 2 ^ (session - lastFed batches session)) longest
  within : ∀ wait ∈ waits, initial ≤ wait ∧ wait ≤ longest
  /-- A wait is shorter than the one before only after a session that gave a batch. -/
  grows : ∀ session wait next, waits[session]? = some wait → waits[session + 1]? = some next →
    batches[session + 1]? = some 0 → wait ≤ next
  doubles : ∀ wait ∈ waits, wait * 2 < durationLimit

namespace StreamSettings

variable {settings : StreamSettings}

theorem firstWait_le_doubledWait (ordered : settings.firstWait ≤ settings.longestWait)
    (doublings : Nat) : settings.firstWait ≤ settings.doubledWait doublings := by
  have more := settings.doubledWait_mono (Nat.zero_le doublings)
  rwa [doubledWait_zero ordered] at more

theorem doubledWait_le_longestWait (settings : StreamSettings) (doublings : Nat) :
    settings.doubledWait doublings ≤ settings.longestWait :=
  Nat.min_le_right _ _

theorem backoffLaw (ordered : settings.firstWait ≤ settings.longestWait) (batches : List Nat) :
    BackoffLaw settings.firstWait settings.longestWait batches
      (settings.waitsFrom settings.firstWait batches) := by
  have closed (session wait : Nat)
      (waits : (settings.waitsFrom settings.firstWait batches)[session]? = some wait) :
      wait = settings.doubledWait (session - lastFed batches session) := by
    have inRange := (List.getElem?_eq_some_iff.mp waits).1
    rw [length_waitsFrom] at inRange
    rw [waitsFrom_firstWait ordered inRange] at waits
    exact (Option.some.inj waits).symm
  have doubled (wait : Nat) (member : wait ∈ settings.waitsFrom settings.firstWait batches) :
      ∃ doublings, wait = settings.doubledWait doublings := by
    obtain ⟨session, waits⟩ := List.mem_iff_getElem?.mp member
    exact ⟨_, closed session wait waits⟩
  constructor
  · exact length_waitsFrom _ _ _
  · exact closed
  · intro wait member
    obtain ⟨doublings, rfl⟩ := doubled wait member
    exact ⟨firstWait_le_doubledWait ordered doublings, doubledWait_le_longestWait _ _⟩
  · intro session wait next waits waitsNext unfed
    rw [closed session wait waits, closed (session + 1) next waitsNext,
      lastFed_succ_of_unfed unfed]
    exact settings.doubledWait_mono (by omega)
  · intro wait member
    obtain ⟨doublings, rfl⟩ := doubled wait member
    have longest := settings.doubledWait_le_longestWait doublings
    have fits : settings.longestWait < UInt64.size := settings.maxBackoff.toNat_lt_size
    rw [durationLimit]
    omega

end StreamSettings

end VehicleRelay
